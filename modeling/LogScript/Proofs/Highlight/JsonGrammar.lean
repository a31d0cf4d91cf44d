import LogScript.Json.Token
import LogScript.Proofs.Highlight.OmlState

/-!
The grammar of JSON, with the lexemes of each phrase: strings, numbers, literals and the six signs.
Blanks may stand on both sides of a sign and around the whole document. So a document is the
sequence of its lexemes with blanks in between, where a number or a literal ends in front of a blank
or a sign.
-/

namespace LogScript.Json

/-- Blank characters, perhaps none. -/
def Space (text : List Char) : Prop :=
  ∀ c ∈ text, isSpace c = true

instance (text : List Char) : Decidable (Space text) :=
  List.decidableBAll (fun c => isSpace c = true) text

/-- At least one digit. -/
structure Digits (text : List Char) : Prop where
  ne_nil : text ≠ []
  isDigit : ∀ c ∈ text, c.isDigit = true

/-- A whole number without leading zeros. -/
inductive Whole : List Char → Prop where
  | zero : Whole ['0']
  | positive {c : Char} {ds : List Char} (hfirst : c.isDigit = true) (hzero : c ≠ '0')
    (hds : ∀ d ∈ ds, d.isDigit = true) : Whole (c :: ds)

inductive Fraction : List Char → Prop where
  | none : Fraction []
  | some {ds : List Char} (h : Digits ds) : Fraction ('.' :: ds)

inductive Exponent : List Char → Prop where
  | none : Exponent []
  | some {mark : Char} {sign ds : List Char} (hmark : mark ∈ ['e', 'E'])
    (hsign : sign ∈ [[], ['+'], ['-']]) (h : Digits ds) : Exponent (mark :: sign ++ ds)

inductive IsNumber : List Char → Prop where
  | intro {sign whole fraction exponent : List Char} (hsign : sign ∈ [[], ['-']])
    (hwhole : Whole whole) (hfraction : Fraction fraction) (hexponent : Exponent exponent) :
    IsNumber (sign ++ whole ++ fraction ++ exponent)

/-- What stands between the quotes of a string. Quotes, backslashes and control characters have to
be escaped. -/
inductive Characters : List Char → Prop where
  | nil : Characters []
  | plain {c : Char} {rest : List Char} (hcontrol : 0x20 ≤ c.toNat) (hquote : c ≠ '"')
    (hslash : c ≠ '\\') (h : Characters rest) : Characters (c :: rest)
  | escape {c : Char} {rest : List Char} (hc : c ∈ ['"', '\\', '/', 'b', 'f', 'n', 'r', 't'])
    (h : Characters rest) : Characters ('\\' :: c :: rest)
  | unicode {digits rest : List Char} (hlength : digits.length = 4)
    (hdigits : ∀ d ∈ digits, (hexValue? d).isSome = true) (h : Characters rest) :
    Characters ('\\' :: 'u' :: digits ++ rest)

inductive IsString : List Char → Prop where
  | intro {body : List Char} (h : Characters body) : IsString ('"' :: body ++ ['"'])

def signs : List Char :=
  ['\x7b', '\x7d', '[', ']', ',', ':']

/-- A sign and the blanks around it. -/
inductive IsSign (c : Char) : List Char → Prop where
  | intro {front behind : List Char} (hfront : Space front) (hbehind : Space behind) :
    IsSign c (front ++ c :: behind)

inductive Phrase where
  | value
  | elements
  | member
  | members

/-- The text is such a phrase, and these are its lexemes. -/
inductive Derives : Phrase → List Char → List Lexeme → Prop where
  | literal {word : List Char} (h : word ∈ ["true".toList, "false".toList, "null".toList]) :
    Derives .value word [⟨word, .atom⟩]
  | number {text : List Char} (h : IsNumber text) : Derives .value text [⟨text, .number⟩]
  | string {text : List Char} (h : IsString text) : Derives .value text [⟨text, .string⟩]
  | emptyArray {opening closing : List Char} (hopening : IsSign '[' opening)
    (hclosing : IsSign ']' closing) :
    Derives .value (opening ++ closing) [.operator '[', .operator ']']
  | array {opening closing text : List Char} {ls : List Lexeme} (hopening : IsSign '[' opening)
    (h : Derives .elements text ls) (hclosing : IsSign ']' closing) :
    Derives .value (opening ++ text ++ closing) (.operator '[' :: ls ++ [.operator ']'])
  | emptyObject {opening closing : List Char} (hopening : IsSign '\x7b' opening)
    (hclosing : IsSign '\x7d' closing) :
    Derives .value (opening ++ closing) [.operator '\x7b', .operator '\x7d']
  | object {opening closing text : List Char} {ls : List Lexeme} (hopening : IsSign '\x7b' opening)
    (h : Derives .members text ls) (hclosing : IsSign '\x7d' closing) :
    Derives .value (opening ++ text ++ closing) (.operator '\x7b' :: ls ++ [.operator '\x7d'])
  | element {text : List Char} {ls : List Lexeme} (h : Derives .value text ls) :
    Derives .elements text ls
  | elements {text comma rest : List Char} {ls ls' : List Lexeme} (h : Derives .value text ls)
    (hcomma : IsSign ',' comma) (hrest : Derives .elements rest ls') :
    Derives .elements (text ++ comma ++ rest) (ls ++ .operator ',' :: ls')
  | member {name colon text : List Char} {ls : List Lexeme} (hname : IsString name)
    (hcolon : IsSign ':' colon) (h : Derives .value text ls) :
    Derives .member (name ++ colon ++ text) (⟨name, .string⟩ :: .operator ':' :: ls)
  | lastMember {text : List Char} {ls : List Lexeme} (h : Derives .member text ls) :
    Derives .members text ls
  | members {text comma rest : List Char} {ls ls' : List Lexeme} (h : Derives .member text ls)
    (hcomma : IsSign ',' comma) (hrest : Derives .members rest ls') :
    Derives .members (text ++ comma ++ rest) (ls ++ .operator ',' :: ls')

/-- The text is a value with blanks around it, and these are its lexemes. -/
inductive IsDocument : List Char → List Lexeme → Prop where
  | intro {front text behind : List Char} {ls : List Lexeme} (hfront : Space front)
    (h : Derives .value text ls) (hbehind : Space behind) :
    IsDocument (front ++ text ++ behind) ls

/-- The lexemes that a document consists of. -/
inductive IsLexeme : Lexeme → Prop where
  | sign {c : Char} (h : c ∈ signs) : IsLexeme (.operator c)
  | string {text : List Char} (h : IsString text) : IsLexeme ⟨text, .string⟩
  | number {text : List Char} (h : IsNumber text) : IsLexeme ⟨text, .number⟩
  | literal {word : List Char} (h : word ∈ ["true".toList, "false".toList, "null".toList]) :
    IsLexeme ⟨word, .atom⟩

/-- A number or a literal in front of the text comes to an end there. -/
def Parts (text : List Char) : Prop :=
  ∀ c ∈ text.head?, isSpace c = true ∨ c ∈ signs

/-- The text in front of which such a lexeme stands does not go on with it. -/
def Ends (l : Lexeme) (text : List Char) : Prop :=
  l.category = .operator ∨ l.category = .string ∨ Parts text

/-- The text consists of the lexemes, with blanks in front of them, between them and behind. -/
inductive Spaced : List Lexeme → List Char → Prop where
  | blanks {text : List Char} (h : Space text) : Spaced [] text
  | lexeme {l : Lexeme} {ls : List Lexeme} {gap text : List Char} (hgap : Space gap)
    (hl : IsLexeme l) (hends : Ends l text) (h : Spaced ls text) :
    Spaced (l :: ls) (gap ++ (l.text ++ text))

variable {l : Lexeme} {ls ls' : List Lexeme} {c : Char} {text text' gap : List Char}

theorem Space.append (h : Space gap) (h' : Space text) : Space (gap ++ text) :=
  List.forall_mem_append.2 ⟨h, h'⟩

theorem Spaced.space_append (h : Spaced ls text) (hgap : Space gap) : Spaced ls (gap ++ text) := by
  cases h with
  | blanks h => exact .blanks (hgap.append h)
  | lexeme hfront hl hends h =>
    rw [← List.append_assoc]
    exact .lexeme (hgap.append hfront) hl hends h

theorem Parts.append (h : Parts text) (h' : Parts text') : Parts (text ++ text') := by
  cases text with
  | nil => exact h'
  | cons c text => exact h

/-- Two texts side by side, the second of which ends what the first leaves open. -/
theorem Spaced.append (h : Spaced ls text) (h' : Spaced ls' text') (hparts : Parts text') :
    Spaced (ls ++ ls') (text ++ text') := by
  induction h with
  | blanks h => exact h'.space_append h
  | lexeme hgap hl hends _ ih =>
    rw [List.append_assoc, List.append_assoc, List.cons_append]
    exact .lexeme hgap hl (hends.imp_right (.imp_right (·.append hparts))) ih

theorem spaced_singleton (hl : IsLexeme l) : Spaced [l] l.text := by
  have hnil : Space [] := fun c hc => absurd hc List.not_mem_nil
  have hends : Ends l [] := .inr (.inr fun c hc => by cases hc)
  simpa using Spaced.lexeme hnil hl hends (.blanks hnil)

theorem parts_of_isSign (h : IsSign c text) (hc : c ∈ signs) :
    Parts text := by
  obtain ⟨hfront, -⟩ := h
  rename_i front behind
  cases front with
  | nil => exact fun d hd => by cases hd; exact .inr hc
  | cons d front => exact fun e he => by cases he; exact .inl (hfront d List.mem_cons_self)

/-- A sign in front of a text. -/
theorem Spaced.sign_append (h : Spaced ls text') (hsign : IsSign c text) (hc : c ∈ signs) :
    Spaced (.operator c :: ls) (text ++ text') := by
  obtain ⟨hfront, hbehind⟩ := hsign
  rw [List.append_assoc, List.cons_append]
  exact .lexeme hfront (.sign hc) (.inl rfl) (h.space_append hbehind)

theorem spaced_isSign (hsign : IsSign c text) (hc : c ∈ signs) : Spaced [.operator c] text := by
  have hnil : Space [] := fun c hc => absurd hc List.not_mem_nil
  simpa using (Spaced.blanks hnil).sign_append hsign hc

/-- A sign and a text behind another text. -/
theorem Spaced.append_sign (h : Spaced ls text) {sign : List Char} (hsign : IsSign c sign)
    (hc : c ∈ signs) (h' : Spaced ls' text') :
    Spaced (ls ++ .operator c :: ls') (text ++ sign ++ text') := by
  have hparts : Parts (sign ++ text') := by
    have hhead := parts_of_isSign hsign hc
    cases hsign with
    | @intro front behind _ _ => cases front <;> exact hhead
  rw [List.append_assoc]
  exact h.append (h'.sign_append hsign hc) hparts

theorem Derives.spaced {phrase : Phrase} (h : Derives phrase text ls) : Spaced ls text := by
  have hnil : Spaced [] [] := .blanks fun c hc => absurd hc List.not_mem_nil
  induction h with
  | literal h => exact spaced_singleton (.literal h)
  | number h => exact spaced_singleton (.number h)
  | string h => exact spaced_singleton (.string h)
  | emptyArray hopening hclosing | emptyObject hopening hclosing =>
    exact (spaced_isSign hclosing (by decide)).sign_append hopening (by decide)
  | array hopening _ hclosing ih | object hopening _ hclosing ih =>
    have hinner := ih.append_sign hclosing (by decide) hnil
    rw [List.append_nil] at hinner
    rw [List.append_assoc]
    exact hinner.sign_append hopening (by decide)
  | element _ ih | lastMember _ ih => exact ih
  | elements _ hcomma _ ih ihrest | members _ hcomma _ ih ihrest =>
    exact ih.append_sign hcomma (by decide) ihrest
  | member hname hcolon _ ih =>
    exact (spaced_singleton (.string hname)).append_sign hcolon (by decide) ih

/-- A document consists of its lexemes and blanks. -/
theorem IsDocument.spaced (h : IsDocument text ls) : Spaced ls text := by
  obtain ⟨hfront, h, hbehind⟩ := h
  have hparts : Parts _ := fun c hc => .inl (hbehind c (List.mem_of_mem_head? hc))
  have hinner := h.spaced.append (.blanks hbehind) hparts
  rw [List.append_nil] at hinner
  rw [List.append_assoc]
  exact hinner.space_append hfront

end LogScript.Json
