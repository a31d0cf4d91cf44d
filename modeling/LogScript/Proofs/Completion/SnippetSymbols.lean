import LogScript.Completion.Template
import LogScript.Text.Blank

/-!
The syntax of snippets, as a language client reads it. A backslash in front of a dollar sign, a
closing brace or a backslash escapes that character, a dollar sign with its longest run of digits is
a tab stop, and a number between a dollar sign with a brace and a colon opens a tab stop whose
default text goes on to the next closing brace.

Escaped text is read as the characters it was made from. A name stands in a snippet as it is: it is
read as its own characters exactly if nothing in it is taken for an escape or for a stop.
-/

namespace LogScript.Template

/-- What a snippet is written in. -/
inductive Symbol where
  | literal (c : Char)
  | close
  | stop (number : Nat)
  | opening (number : Nat)
  deriving DecidableEq, Repr

def isEscapable (c : Char) : Bool :=
  c == '$' || c == '\x7d' || c == '\\'

/-- The number that the longest run of digits denotes, with the text behind the run. -/
def readNumber? (text : List Char) : Option (Nat × List Char) :=
  let digits := text.takeWhile Char.isDigit
  if digits.isEmpty then none
  else some (Nat.ofDigitChars 10 digits 0, text.drop digits.length)

/-- The symbol that a dollar sign with a brace and a number is the start of. -/
def bracedSymbol? (n : Nat) : List Char → Option (Symbol × List Char)
  | ':' :: behind => some (.opening n, behind)
  | '\x7d' :: behind => some (.stop n, behind)
  | _ => none

/-- The symbol that a dollar sign is the start of, with the text behind the symbol. -/
def dollarSymbol? (text : List Char) : Option (Symbol × List Char) :=
  match text with
  | '\x7b' :: inner => (readNumber? inner).bind fun (n, behind) => bracedSymbol? n behind
  | _ => (readNumber? text).map fun (n, behind) => (.stop n, behind)

/-- The escaped character behind a backslash. -/
def escapedSymbol? : List Char → Option (Symbol × List Char)
  | c :: behind => if isEscapable c then some (.literal c, behind) else none
  | [] => none

/-- The symbol that a character is the start of if it does not stand for itself. -/
def specialSymbol? (c : Char) (rest : List Char) : Option (Symbol × List Char) :=
  if c = '\\' then escapedSymbol? rest
  else if c = '$' then dollarSymbol? rest
  else if c = '\x7d' then some (.close, rest)
  else none

theorem specialSymbol?_backslash (rest : List Char) :
    specialSymbol? '\\' rest = escapedSymbol? rest := rfl

theorem specialSymbol?_dollar (rest : List Char) :
    specialSymbol? '$' rest = dollarSymbol? rest := rfl

/-- The symbol that a character is the start of, with the text behind the symbol. -/
def symbolAt (c : Char) (rest : List Char) : Symbol × List Char :=
  (specialSymbol? c rest).getD (.literal c, rest)

theorem length_readNumber? {text behind : List Char} {n : Nat}
    (h : readNumber? text = some (n, behind)) : behind.length ≤ text.length := by
  rw [readNumber?] at h
  split at h
  · cases h
  · cases h
    rw [List.length_drop]
    exact Nat.sub_le ..

theorem bracedSymbol?_cases {n : Nat} {text behind : List Char} {s : Symbol}
    (h : bracedSymbol? n text = some (s, behind)) :
    (s = .stop n ∨ s = .opening n) ∧ behind.length ≤ text.length := by
  unfold bracedSymbol? at h
  split at h
  · cases h
    exact ⟨.inr rfl, Nat.le_succ _⟩
  · cases h
    exact ⟨.inl rfl, Nat.le_succ _⟩
  · cases h

theorem dollarSymbol?_cases {text behind : List Char} {s : Symbol}
    (h : dollarSymbol? text = some (s, behind)) :
    (∃ n, s = .stop n ∨ s = .opening n) ∧ behind.length ≤ text.length := by
  unfold dollarSymbol? at h
  split at h
  · obtain ⟨⟨n, inner⟩, hnumber, hbraced⟩ := Option.bind_eq_some_iff.1 h
    obtain ⟨hs, hbehind⟩ := bracedSymbol?_cases hbraced
    exact ⟨⟨n, hs⟩, Nat.le_succ_of_le (Nat.le_trans hbehind (length_readNumber? hnumber))⟩
  · obtain ⟨⟨n, inner⟩, hnumber, heq⟩ := Option.map_eq_some_iff.1 h
    cases heq
    exact ⟨⟨n, .inl rfl⟩, length_readNumber? hnumber⟩

/-- A special symbol is an escaped character, a stop or the opening of one, or a closing brace. -/
theorem specialSymbol?_cases {c : Char} {rest behind : List Char} {s : Symbol}
    (h : specialSymbol? c rest = some (s, behind)) :
    (∃ d, rest = d :: behind ∧ s = .literal d) ∨
      ((∃ n, s = .stop n ∨ s = .opening n) ∧ behind.length ≤ rest.length) ∨
      (c = '\x7d' ∧ behind = rest) := by
  rw [specialSymbol?] at h
  split at h
  · unfold escapedSymbol? at h
    split at h
    · split at h
      · cases h
        exact .inl ⟨_, rfl, rfl⟩
      · cases h
    · cases h
  · split at h
    · exact .inr (.inl (dollarSymbol?_cases h))
    · split at h
      · rename_i hc
        cases h
        exact .inr (.inr ⟨hc, rfl⟩)
      · cases h

theorem length_symbolAt (c : Char) (rest : List Char) :
    (symbolAt c rest).2.length ≤ rest.length := by
  rw [symbolAt]
  cases hsymbol : specialSymbol? c rest with
  | none => exact Nat.le_refl _
  | some found =>
    obtain ⟨d, rfl, -⟩ | ⟨-, hlength⟩ | ⟨-, hrest⟩ := specialSymbol?_cases hsymbol
    · exact Nat.le_succ _
    · exact hlength
    · exact Nat.le_of_eq (congrArg List.length hrest)

def symbols (text : List Char) : List Symbol :=
  match text with
  | [] => []
  | c :: rest => (symbolAt c rest).1 :: symbols (symbolAt c rest).2
termination_by text.length
decreasing_by exact Nat.lt_succ_of_le (length_symbolAt c rest)

theorem symbols_of_special {c : Char} {rest behind : List Char} {s : Symbol}
    (h : specialSymbol? c rest = some (s, behind)) : symbols (c :: rest) = s :: symbols behind := by
  rw [symbols, symbolAt, h, Option.getD_some]

theorem symbols_of_not_special {c : Char} {rest : List Char} (h : specialSymbol? c rest = none) :
    symbols (c :: rest) = .literal c :: symbols rest := by
  rw [symbols, symbolAt, h, Option.getD_none]

theorem symbols_escape (content rest : List Char) :
    symbols (content.flatMap escapeSnippetChar ++ rest) =
      content.map .literal ++ symbols rest := by
  induction content with
  | nil => rfl
  | cons c content ih =>
    rw [List.flatMap_cons, List.append_assoc, List.map_cons, List.cons_append, ← ih,
      escapeSnippetChar]
    split
    · rename_i hc
      refine symbols_of_special ?_
      rw [specialSymbol?_backslash]
      exact if_pos hc
    · rename_i hc
      refine symbols_of_not_special ?_
      simp only [Bool.or_eq_true, beq_iff_eq, not_or] at hc
      rw [specialSymbol?, if_neg hc.2, if_neg hc.1.1, if_neg hc.1.2]

theorem readNumber?_of_digits {digits rest : List Char} (hne : digits ≠ [])
    (hdigits : ∀ c ∈ digits, c.isDigit) (hrest : ∀ c ∈ rest.head?, c.isDigit = false) :
    readNumber? (digits ++ rest) = some (Nat.ofDigitChars 10 digits 0, rest) := by
  rw [readNumber?, takeWhile_append_of_head? hdigits hrest]
  simp [hne]

theorem decimal_ne_nil (n : Nat) : decimal n ≠ [] :=
  Nat.toDigits_ne_nil

theorem isDigit_of_mem_decimal {n : Nat} {c : Char} (h : c ∈ decimal n) : c.isDigit :=
  Nat.isDigit_of_mem_toDigits (by decide) (by decide) h

theorem readNumber?_decimal (n : Nat) {rest : List Char}
    (hrest : ∀ c ∈ rest.head?, c.isDigit = false) :
    readNumber? (decimal n ++ rest) = some (n, rest) := by
  rw [readNumber?_of_digits (decimal_ne_nil n) (fun c => isDigit_of_mem_decimal) hrest, decimal,
    Nat.ofDigitChars_ten_toDigits]

theorem dollarSymbol?_of_digits {digits rest : List Char} (hne : digits ≠ [])
    (hdigits : ∀ c ∈ digits, c.isDigit) (hrest : ∀ c ∈ rest.head?, c.isDigit = false) :
    dollarSymbol? (digits ++ rest) = some (.stop (Nat.ofDigitChars 10 digits 0), rest) := by
  obtain ⟨d, digits, rfl⟩ := List.exists_cons_of_ne_nil hne
  have hd : d ≠ '\x7b' := by
    rintro rfl
    exact absurd (hdigits _ List.mem_cons_self) (by decide)
  have hnumber := readNumber?_of_digits hne hdigits hrest
  unfold dollarSymbol?
  split
  · rename_i heq
    exact absurd (List.cons.inj heq).1 hd
  · rw [hnumber]
    rfl

/-- Digits behind the number of a stop are read as digits of it. -/
theorem symbols_stop (n : Nat) {run rest : List Char} (hrun : ∀ c ∈ run, c.isDigit)
    (hrest : ∀ c ∈ rest.head?, c.isDigit = false) :
    symbols ('$' :: (decimal n ++ (run ++ rest))) =
      .stop (Nat.ofDigitChars 10 (decimal n ++ run) 0) :: symbols rest := by
  have hne : decimal n ++ run ≠ [] := by simp [decimal_ne_nil]
  have hdigits : ∀ c ∈ decimal n ++ run, c.isDigit := by
    intro c hc
    obtain hc | hc := List.mem_append.1 hc
    · exact isDigit_of_mem_decimal hc
    · exact hrun c hc
  rw [← List.append_assoc]
  exact symbols_of_special (dollarSymbol?_of_digits hne hdigits hrest)

theorem symbols_opening (n : Nat) (rest : List Char) :
    symbols ('$' :: '\x7b' :: (decimal n ++ ':' :: rest)) = .opening n :: symbols rest := by
  have hnumber : readNumber? (decimal n ++ ':' :: rest) = some (n, ':' :: rest) :=
    readNumber?_decimal n (by simp)
  refine symbols_of_special ?_
  rw [specialSymbol?_dollar, dollarSymbol?, hnumber]
  rfl

section Brace

variable (text behind : List Char)

theorem readNumber?_append_brace :
    readNumber? (text ++ '\x7d' :: behind) =
      (readNumber? text).map (Prod.map id (· ++ '\x7d' :: behind)) := by
  have hle : (text.takeWhile Char.isDigit).length ≤ text.length :=
    (List.takeWhile_sublist _).length_le
  rw [readNumber?, readNumber?, takeWhile_append_cons _ _ (by decide)]
  split
  · rfl
  · rw [List.drop_append_of_le_length hle]
    rfl

/-- What stands behind a closing brace does not matter for what stands in front of it. -/
theorem bracedSymbol?_append_brace (n : Nat) :
    bracedSymbol? n (text ++ '\x7d' :: behind) =
      (bracedSymbol? n (text ++ ['\x7d'])).map (Prod.map id (· ++ behind)) := by
  cases text with
  | nil => rfl
  | cons c text =>
    by_cases hcolon : c = ':'
    · subst hcolon
      simp [bracedSymbol?]
    · by_cases hbrace : c = '\x7d'
      · subst hbrace
        simp [bracedSymbol?]
      · simp [bracedSymbol?, hcolon, hbrace]

theorem dollarSymbol?_append_brace :
    dollarSymbol? (text ++ '\x7d' :: behind) =
      (dollarSymbol? (text ++ ['\x7d'])).map (Prod.map id (· ++ behind)) := by
  cases text with
  | nil => rfl
  | cons c inner =>
    by_cases hc : c = '\x7b'
    · subst hc
      simp only [List.cons_append, dollarSymbol?, readNumber?_append_brace]
      cases readNumber? inner with
      | none => rfl
      | some found => exact bracedSymbol?_append_brace found.2 behind found.1
    · have hnumber := readNumber?_append_brace (c :: inner)
      simp only [List.cons_append] at hnumber ⊢
      unfold dollarSymbol?
      simp [hc, hnumber, Function.comp_def]

theorem escapedSymbol?_append_brace :
    escapedSymbol? (text ++ '\x7d' :: behind) =
      (escapedSymbol? (text ++ ['\x7d'])).map (Prod.map id (· ++ behind)) := by
  cases text with
  | nil => rfl
  | cons c text =>
    simp only [List.cons_append, escapedSymbol?]
    split
    · simp
    · rfl

theorem specialSymbol?_append_brace (c : Char) :
    specialSymbol? c (text ++ '\x7d' :: behind) =
      (specialSymbol? c (text ++ ['\x7d'])).map (Prod.map id (· ++ behind)) := by
  rw [specialSymbol?, specialSymbol?]
  split
  · exact escapedSymbol?_append_brace text behind
  · split
    · exact dollarSymbol?_append_brace text behind
    · split
      · simp
      · rfl

end Brace

/-- No backslash of a name escapes what follows it, and no dollar sign opens a stop, where the
closing brace follows the name. -/
structure Literal (name : List Char) : Prop where
  escapes : ∀ behind, '\\' :: behind <:+ name ++ ['\x7d'] → escapedSymbol? behind = none
  stops : ∀ behind, '$' :: behind <:+ name ++ ['\x7d'] → dollarSymbol? behind = none

theorem literal_nil : Literal [] := by
  constructor
  · intro behind h
    simp [List.suffix_cons_iff] at h
  · intro behind h
    simp [List.suffix_cons_iff] at h

theorem literal_cons {c : Char} {name : List Char} (hc : c ≠ '\x7d') :
    Literal (c :: name) ↔ specialSymbol? c (name ++ ['\x7d']) = none ∧ Literal name := by
  constructor
  · intro h
    refine ⟨?_, fun behind hb => h.escapes behind (hb.trans (List.suffix_cons ..)),
      fun behind hb => h.stops behind (hb.trans (List.suffix_cons ..))⟩
    rw [specialSymbol?]
    split
    · rename_i hbackslash
      exact h.escapes _ (hbackslash ▸ List.suffix_refl _)
    · split
      · rename_i hdollar
        exact h.stops _ (hdollar ▸ List.suffix_refl _)
      · rfl
  · rintro ⟨hspecial, h⟩
    constructor
    · intro behind hb
      obtain heq | hb := List.suffix_cons_iff.1 hb
      · cases heq
        exact hspecial
      · exact h.escapes behind hb
    · intro behind hb
      obtain heq | hb := List.suffix_cons_iff.1 hb
      · cases heq
        exact hspecial
      · exact h.stops behind hb

theorem symbols_name {name : List Char} (hbrace : '\x7d' ∉ name) (h : Literal name)
    (behind : List Char) :
    symbols (name ++ '\x7d' :: behind) = name.map .literal ++ .close :: symbols behind := by
  induction name with
  | nil => exact symbols_of_special rfl
  | cons c name ih =>
    rw [List.mem_cons, not_or] at hbrace
    obtain ⟨hspecial, hname⟩ := (literal_cons (Ne.symm hbrace.1)).1 h
    have hnone : specialSymbol? c (name ++ '\x7d' :: behind) = none := by
      rw [specialSymbol?_append_brace, hspecial, Option.map_none]
    rw [List.cons_append, symbols_of_not_special hnone, ih hbrace.2 hname]
    rfl

/-- A name that is read as a text without a brace is at least as long as that text, and is literal
if it is no longer. The recursion goes on behind the symbol that the name starts with. -/
theorem literal_of_symbols {behind : List Char} {us : List Symbol} : ∀ name read : List Char,
    '\x7d' ∉ name → '\x7d' ∉ read →
    symbols (name ++ '\x7d' :: behind) = read.map .literal ++ .close :: us →
      read.length ≤ name.length ∧
        (read.length = name.length → Literal name ∧ us = symbols behind)
  | [], [], _, _, h => by
    rw [List.nil_append, symbols_of_special rfl] at h
    exact ⟨Nat.le_refl _, fun _ => ⟨literal_nil, (List.cons.inj h).2.symm⟩⟩
  | [], r :: read, _, _, h => by
    rw [List.nil_append, symbols_of_special rfl] at h
    cases (List.cons.inj h).1
  | c :: name, [], _, _, _ => ⟨Nat.zero_le _, fun h => nomatch h⟩
  | c :: name, r :: read, hname, hread, h => by
    rw [List.mem_cons, not_or] at hname hread
    rw [List.cons_append] at h
    cases hspecial : specialSymbol? c (name ++ '\x7d' :: behind) with
    | none =>
      rw [symbols_of_not_special hspecial] at h
      have hrest := literal_of_symbols name read hname.2 hread.2 (List.cons.inj h).2
      have hnone : specialSymbol? c (name ++ ['\x7d']) = none := by
        rwa [specialSymbol?_append_brace, Option.map_eq_none_iff] at hspecial
      refine ⟨Nat.succ_le_succ hrest.1, fun hlength => ?_⟩
      obtain ⟨hliteral, hus⟩ := hrest.2 (Nat.succ.inj hlength)
      exact ⟨(literal_cons (Ne.symm hname.1)).2 ⟨hnone, hliteral⟩, hus⟩
    | some found =>
      obtain ⟨s, after⟩ := found
      rw [symbols_of_special hspecial] at h
      obtain ⟨hs, hafter⟩ := List.cons.inj h
      obtain ⟨d, htext, rfl⟩ | ⟨⟨n, rfl | rfl⟩, -⟩ | ⟨hc, -⟩ := specialSymbol?_cases hspecial
      · cases hs
        -- The escaped character belongs to the name: a brace would be read into the text.
        cases name with
        | nil => exact absurd (List.cons.inj htext).1 hread.1
        | cons d' name =>
          obtain ⟨rfl, rfl⟩ := List.cons.inj htext
          have hrest := literal_of_symbols name read (fun h => hname.2 (List.mem_cons_of_mem _ h))
            hread.2 hafter
          simp only [List.length_cons]
          omega
      · cases hs
      · cases hs
      · exact absurd hc.symm hname.1
termination_by name => name.length

end LogScript.Template
