import Mathlib.Data.Bool.AllAny
import Mathlib.Data.List.Chain
import LogScript.Proofs.Highlight.JsonGrammar
import LogScript.Proofs.Highlight.LineBreaks

/-!
Highlighting JSON documents. In front of what ends it, every lexeme of the grammar is taken off as
one piece and in its category: a string with all its escapes, a number with fraction and exponent, a
literal, a sign. So the tokens of a document are its lexemes in order, and between them maximal runs
of blank characters without a style.
-/

namespace LogScript.Highlight

open Json (Space Digits Whole Fraction Exponent IsNumber Characters IsString IsLexeme Parts Ends
  Spaced IsDocument)

variable {text rest body : List Char} {l : Lexeme} {ls : List Lexeme}

theorem ne_of_hexValue? {c d : Char} (hc : (Json.hexValue? c).isSome = true)
    (hd : Json.hexValue? d = none) : c ≠ d := by
  rintro rfl
  rw [hd] at hc
  cases hc

theorem literalTail_cons {c : Char} (hslash : c ≠ '\\') (hquote : c ≠ '"') (rest : List Char) :
    Run.literalTail '"' (c :: rest) = c :: Run.literalTail '"' rest := by
  rw [Run.literalTail.eq_def]
  simp [hslash, hquote]

theorem literalTail_hexDigits {ds : List Char}
    (hds : ∀ d ∈ ds, (Json.hexValue? d).isSome = true) (rest : List Char) :
    Run.literalTail '"' (ds ++ rest) = ds ++ Run.literalTail '"' rest := by
  induction ds with
  | nil => rfl
  | cons d ds ih =>
    rw [List.forall_mem_cons] at hds
    have hslash : d ≠ '\\' := ne_of_hexValue? hds.1 (by decide)
    have hquote : d ≠ '"' := ne_of_hexValue? hds.1 (by decide)
    rw [List.cons_append, literalTail_cons hslash hquote, ih hds.2, List.cons_append]

theorem literalTail_characters (h : Characters body) (rest : List Char) :
    Run.literalTail '"' (body ++ '"' :: rest) = body ++ ['"'] := by
  induction h with
  | nil =>
    rw [List.nil_append, Run.literalTail.eq_def]
    rfl
  | plain _ hquote hslash _ ih => rw [List.cons_append, literalTail_cons hslash hquote, ih]; rfl
  | escape _ _ ih =>
    rw [List.cons_append, List.cons_append, Run.literalTail.eq_def]
    simp [ih]
  | @unicode digits more _ hdigits _ ih =>
    have hbehind := literalTail_hexDigits hdigits (more ++ '"' :: rest)
    rw [List.append_assoc, List.cons_append, List.cons_append, Run.literalTail.eq_def]
    simp [hbehind, ih]

/-- Control characters are escaped, so a string stays on its line. -/
theorem lineFeed_not_mem_of_characters (h : Characters body) : '\n' ∉ body := by
  induction h with
  | nil => exact List.not_mem_nil
  | plain hcontrol _ _ _ ih =>
    rintro (_ | ⟨_, hmem⟩)
    · exact absurd hcontrol (by decide)
    · exact ih hmem
  | escape hc _ ih =>
    rintro (_ | ⟨_, _ | ⟨_, hmem⟩⟩)
    · exact absurd hc (by decide)
    · exact ih hmem
  | unicode _ hdigits _ ih =>
    rintro (_ | ⟨_, _ | ⟨_, hmem⟩⟩)
    rcases List.mem_append.1 hmem with hmem | hmem
    · exact ne_of_hexValue? (hdigits _ hmem) (by decide) rfl
    · exact ih hmem

theorem quoted_string (h : IsString text) (rest : List Char) :
    Run.quoted '"' (text ++ rest) = text := by
  obtain ⟨h⟩ := h
  rename_i body
  have hline : firstLine ('"' :: body ++ ['"'] ++ rest) = '"' :: (body ++ '"' :: firstLine rest) := by
    have hbody : ∀ c ∈ '"' :: body ++ ['"'], (c != '\n') = true := by
      intro c hc
      rw [bne_iff_ne]
      rintro rfl
      simp [lineFeed_not_mem_of_characters h] at hc
    rw [firstLine, List.takeWhile_append_of_pos hbody]
    simp [firstLine]
  rw [Run.quoted, hline]
  simp [literalTail_characters h]

/-- Digits and groups of a number do not go on in such a text. -/
def EndsDigits (text : List Char) : Prop :=
  ∀ c ∈ text.head?, c.isDigit = false ∧ c ≠ '.'

theorem digits_append {ds : List Char} (hds : ∀ d ∈ ds, d.isDigit = true)
    (hrest : EndsDigits rest) : Run.digits (ds ++ rest) = ds :=
  takeWhile_append_of_head? hds fun c hc => (hrest c hc).1

theorem pointGroups_append {fraction : List Char} (h : Fraction fraction)
    (hrest : EndsDigits rest) : Run.pointGroups 1 (fraction ++ rest) = fraction := by
  cases h with
  | none =>
    rw [List.nil_append, Run.pointGroups.eq_def]
    simp only
    split
    · exact absurd rfl (hrest '.' rfl).2
    · rfl
  | @some ds h =>
    rw [List.cons_append, Run.pointGroups, digits_append h.isDigit hrest]
    cases ds with
    | nil => exact absurd rfl h.ne_nil
    | cons d ds => simp [Run.pointGroups]

theorem isDigit_of_not_isWordChar {c : Char} (h : Run.isWordChar c = false) :
    c.isDigit = false := by
  simp only [Run.isWordChar, Char.isAlphanum, Bool.or_eq_false_iff] at h
  exact h.1.2

/-- The sign in front of digits. -/
theorem filter_take_one_sign {sign ds : List Char} (hsign : sign ∈ [[], ['+'], ['-']])
    (h : Digits ds) (rest : List Char) :
    ((sign ++ (ds ++ rest)).take 1).filter (fun c => c == '+' || c == '-') = sign := by
  obtain ⟨d, ds, rfl⟩ := List.exists_cons_of_ne_nil h.ne_nil
  have hd := h.isDigit d List.mem_cons_self
  have hplus : d ≠ '+' := ne_of_accepts hd (by decide)
  have hminus : d ≠ '-' := ne_of_accepts hd (by decide)
  simp only [List.mem_cons, List.not_mem_nil, or_false] at hsign
  rcases hsign with rfl | rfl | rfl
  · simp [hplus, hminus]
  · rfl
  · rfl

theorem exponentRun_append {exponent : List Char} (h : Exponent exponent)
    (hrest : ∀ c ∈ rest.head?, Run.isWordChar c = false) :
    exponentRun (exponent ++ rest) = exponent := by
  cases h with
  | none =>
    cases rest with
    | nil => rfl
    | cons c rest =>
      have hc := hrest c rfl
      have hlower : c ≠ 'e' := (ne_of_accepts rfl hc).symm
      have hupper : c ≠ 'E' := (ne_of_accepts rfl hc).symm
      simp [exponentRun, hlower, hupper]
  | @some mark sign ds hmark hsign h =>
    have hdigits : Run.digits (ds ++ rest) = ds :=
      takeWhile_append_of_head? h.isDigit fun c hc => isDigit_of_not_isWordChar (hrest c hc)
    have hmarks : (mark == 'e' || mark == 'E') = true := by simpa using hmark
    simp only [List.append_assoc, List.cons_append, exponentRun, hmarks, if_true,
      filter_take_one_sign hsign h, List.drop_left, hdigits]
    split
    · exact absurd rfl h.ne_nil
    · rfl

theorem whole_isDigit {whole : List Char} (h : Whole whole) :
    whole ≠ [] ∧ ∀ d ∈ whole, d.isDigit = true := by
  cases h with
  | zero => exact ⟨List.cons_ne_nil _ _, List.forall_mem_singleton.2 rfl⟩
  | positive hfirst _ hds => exact ⟨List.cons_ne_nil _ _, List.forall_mem_cons.2 ⟨hfirst, hds⟩⟩

/-- Digits end in front of a fraction. -/
theorem digits_fraction {whole fraction : List Char} (h : Whole whole) (hfraction : Fraction fraction)
    (hrest : EndsDigits rest) : Run.digits (whole ++ (fraction ++ rest)) = whole := by
  refine takeWhile_append_of_head? (whole_isDigit h).2 fun c hc => ?_
  cases hfraction with
  | none => exact (hrest c hc).1
  | some _ =>
    cases hc
    rfl

theorem number_append {sign whole fraction : List Char} (hsign : sign ∈ [[], ['-']])
    (hwhole : Whole whole) (hfraction : Fraction fraction) (hrest : EndsDigits rest) :
    Run.number 1 (sign ++ whole ++ fraction ++ rest) = some (sign ++ whole ++ fraction) := by
  obtain ⟨hne, hdigits⟩ := whole_isDigit hwhole
  have hrun := digits_fraction hwhole hfraction hrest
  have hgroups := pointGroups_append hfraction hrest
  have hhead : (whole ++ (fraction ++ rest)).head? ≠ some '-' := by
    obtain ⟨d, ds, rfl⟩ := List.exists_cons_of_ne_nil hne
    intro hminus
    cases hminus
    exact absurd (hdigits '-' List.mem_cons_self) (by decide)
  simp only [List.mem_cons, List.not_mem_nil, or_false] at hsign
  rcases hsign with rfl | rfl
  · simp only [Run.number, List.nil_append, List.append_assoc, if_neg hhead, List.length_nil,
      List.drop_zero, hrun, List.drop_left, hgroups]
  · simp [Run.number, hrun, hgroups]

/-- A number comes to an end in front of what is no word character and no point. -/
theorem jsonNumber_append (h : IsNumber text)
    (hrest : ∀ c ∈ rest.head?, Run.isWordChar c = false ∧ c ≠ '.') :
    jsonNumber (text ++ rest) = some text := by
  obtain ⟨hsign, hwhole, hfraction, hexponent⟩ := h
  rename_i sign whole fraction exponent
  have hends : EndsDigits (exponent ++ rest) := by
    cases hexponent with
    | none => exact fun c hc => ⟨isDigit_of_not_isWordChar (hrest c hc).1, (hrest c hc).2⟩
    | some hmark _ _ =>
      intro c hc
      cases hc
      have hmarks : ∀ m ∈ ['e', 'E'], m.isDigit = false ∧ m ≠ '.' :=
        List.all_iff_forall_prop.1 (by decide)
      exact hmarks _ hmark
  have hnumber := number_append hsign hwhole hfraction hends
  have hrun := exponentRun_append hexponent fun c hc => (hrest c hc).1
  rw [jsonNumber, List.append_assoc, hnumber, Option.map_some, List.drop_left, hrun]

theorem jsonNumber_eq_none {c : Char} (hdigit : c.isDigit = false) (hminus : c ≠ '-')
    (rest : List Char) : jsonNumber (c :: rest) = none := by
  have hdigits : Run.digits (c :: rest) = [] := List.takeWhile_cons_of_neg (by simp [hdigit])
  simp [jsonNumber, Run.number, hminus, hdigits]

theorem isBlank_of_isSpace {c : Char} (h : Json.isSpace c = true) : isBlank c = true := by
  have hspaces : ∀ c ∈ [' ', '\t', '\n', '\r'], isBlank c = true :=
    List.all_iff_forall_prop.1 (by decide)
  refine hspaces c ?_
  simpa [Json.isSpace, or_assoc] using h

/-- What ends a number or a literal goes on with neither. -/
theorem Parts.ends (h : Parts text) : ∀ c ∈ text.head?, Run.isWordChar c = false ∧ c ≠ '.' := by
  intro c hc
  have hspaces : ∀ c ∈ [' ', '\t', '\n', '\r'], Run.isWordChar c = false ∧ c ≠ '.' :=
    List.all_iff_forall_prop.1 (by decide)
  have hsigns : ∀ c ∈ Json.signs, Run.isWordChar c = false ∧ c ≠ '.' :=
    List.all_iff_forall_prop.1 (by decide)
  rcases h c hc with hspace | hsign
  · exact hspaces c (by simpa [Json.isSpace, or_assoc] using hspace)
  · exact hsigns c hsign

theorem classifyJson_sign {c : Char} (h : c ∈ Json.signs) (rest : List Char) :
    classifyJson (c :: rest) = .take [c] .operator () := by
  have hsigns : ∀ c ∈ Json.signs, isBlank c = false ∧ (c == '"') = false ∧ c.isDigit = false ∧
      c ≠ '-' ∧ isJsonOperator c = true := List.all_iff_forall_prop.1 (by decide)
  obtain ⟨hblank, hquote, hdigit, hminus, hoperator⟩ := hsigns c h
  simp [classifyJson, hblank, hquote, jsonNumber_eq_none hdigit hminus, hoperator]

theorem classifyJson_string (h : IsString text) (rest : List Char) :
    classifyJson (text ++ rest) = .take text .string () := by
  have hquoted := quoted_string h rest
  obtain ⟨more, rfl⟩ : ∃ more, text = '"' :: more := by
    obtain ⟨-⟩ := h
    exact ⟨_, rfl⟩
  have hblank : isBlank '"' = false := by decide
  rw [List.cons_append] at hquoted ⊢
  simp [classifyJson, hblank, hquoted]

/-- Numbers start with a digit or a minus sign. -/
theorem exists_cons_of_isNumber (h : IsNumber text) :
    ∃ c more, text = c :: more ∧ isBlank c = false ∧ (c == '"') = false := by
  obtain ⟨hsign, hwhole, -, -⟩ := h
  obtain ⟨hne, hdigits⟩ := whole_isDigit hwhole
  simp only [List.mem_cons, List.not_mem_nil, or_false] at hsign
  rcases hsign with rfl | rfl
  · obtain ⟨d, ds, rfl⟩ := List.exists_cons_of_ne_nil hne
    have hd := hdigits d List.mem_cons_self
    have hword : Run.isWordChar d = true := by simp [Run.isWordChar, Char.isAlphanum, hd]
    have hquote : d ≠ '"' := ne_of_accepts hd (by decide)
    exact ⟨d, _, rfl, Reading.not_blank_of_isWordChar hword, beq_false_of_ne hquote⟩
  · exact ⟨'-', _, rfl, by decide, by decide⟩

theorem classifyJson_number (h : IsNumber text) (hparts : Parts rest) :
    classifyJson (text ++ rest) = .take text .number () := by
  have hnumber := jsonNumber_append h (Parts.ends hparts)
  obtain ⟨c, more, rfl, hblank, hquote⟩ := exists_cons_of_isNumber h
  rw [List.cons_append] at hnumber ⊢
  simp [classifyJson, hblank, hquote, hnumber]

theorem classifyJson_literal {word : List Char}
    (h : word ∈ ["true".toList, "false".toList, "null".toList]) (hparts : Parts rest) :
    classifyJson (word ++ rest) = .take word .atom () := by
  have hwords : ∀ word ∈ ["true".toList, "false".toList, "null".toList],
      (∀ c ∈ word, Run.isWordChar c = true) ∧ isJsonLiteral word = true ∧
        ∃ c more, word = c :: more ∧ isBlank c = false ∧ (c == '"') = false ∧ c.isDigit = false ∧
          c ≠ '-' ∧ isJsonOperator c = false := by
    simp only [List.forall_mem_cons]
    refine ⟨⟨?_, by decide, _, _, rfl, by decide⟩, ⟨?_, by decide, _, _, rfl, by decide⟩,
      ⟨?_, by decide, _, _, rfl, by decide⟩, by simp⟩
    · exact List.all_iff_forall_prop.1 (by decide)
    · exact List.all_iff_forall_prop.1 (by decide)
    · exact List.all_iff_forall_prop.1 (by decide)
  obtain ⟨hword, hliteral, c, more, rfl, hblank, hquote, hdigit, hminus, hoperator⟩ := hwords word h
  have hrun : (c :: more ++ rest).takeWhile Run.isWordChar = c :: more :=
    takeWhile_append_of_head? hword fun d hd => (Parts.ends hparts d hd).1
  rw [List.cons_append] at hrun ⊢
  simp [classifyJson, hblank, hquote, jsonNumber_eq_none hdigit hminus, hoperator, hrun, hliteral]

/-- In front of what ends it, a lexeme is taken off whole and in its category. -/
theorem classifyJson_lexeme (hl : IsLexeme l) (hends : Ends l rest) :
    classifyJson (l.text ++ rest) = .take l.text l.category () := by
  cases hl with
  | sign h => exact classifyJson_sign h rest
  | string h => exact classifyJson_string h rest
  | number h =>
    rcases hends with hoperator | hstring | hparts
    · cases hoperator
    · cases hstring
    · exact classifyJson_number h hparts
  | literal h =>
    rcases hends with hoperator | hstring | hparts
    · cases hoperator
    · cases hstring
    · exact classifyJson_literal h hparts

/-- No blank character at either end. -/
structure Solid (l : Lexeme) : Prop where
  ne_nil : l.text ≠ []
  head : ∀ c ∈ l.text.head?, isBlank c = false
  last : ∀ c ∈ l.text.getLast?, isBlank c = false

/-- Blank characters without a style. -/
structure Gap (l : Lexeme) : Prop where
  ne_nil : l.text ≠ []
  blank : allBlank l.text = true
  unstyled : l.category = .unstyled

/-- Lexemes and gaps, but no two gaps side by side. -/
structure Gapped (all : List Lexeme) : Prop where
  kinds : ∀ l ∈ all, Solid l ∨ Gap l
  apart : all.IsChain fun l l' => Solid l ∨ Solid l'

variable {all before after : List Lexeme}

theorem solid_of_all (hne : l.text ≠ []) (h : ∀ c ∈ l.text, isBlank c = false) : Solid l where
  ne_nil := hne
  head c hc := h c (List.mem_of_mem_head? hc)
  last c hc := h c (List.mem_of_getLast? hc)

theorem Solid.not_allBlank (h : Solid l) : allBlank l.text = false := by
  obtain ⟨c, more, hl⟩ := List.exists_cons_of_ne_nil h.ne_nil
  have hc := h.head c (by rw [hl]; rfl)
  simp [allBlank, hl, hc]

theorem not_blank_of_isDigit {c : Char} (h : c.isDigit = true) : isBlank c = false :=
  Reading.not_blank_of_isWordChar (by simp [Run.isWordChar, Char.isAlphanum, h])

theorem not_blank_of_isNumber (h : IsNumber text) : ∀ c ∈ text, isBlank c = false := by
  obtain ⟨hsign, hwhole, hfraction, hexponent⟩ := h
  have hsigns : ∀ sign ∈ [[], ['+'], ['-']], (sign.all fun c => !isBlank c) = true := by decide
  have hmarks : ∀ c ∈ ['e', 'E'], isBlank c = false := List.all_iff_forall_prop.1 (by decide)
  simp only [List.forall_mem_append]
  refine ⟨⟨⟨by simpa using hsigns _ (by grind), fun c hc => ?_⟩, ?_⟩, ?_⟩
  · exact not_blank_of_isDigit ((whole_isDigit hwhole).2 c hc)
  · cases hfraction with
    | none => exact fun c hc => absurd hc List.not_mem_nil
    | some h =>
      exact List.forall_mem_cons.2 ⟨by decide, fun c hc => not_blank_of_isDigit (h.isDigit c hc)⟩
  · cases hexponent with
    | none => exact fun c hc => absurd hc List.not_mem_nil
    | some hmark hsign h =>
      rw [List.cons_append, List.forall_mem_cons, List.forall_mem_append]
      refine ⟨hmarks _ hmark, by simpa using hsigns _ hsign, fun c hc => ?_⟩
      exact not_blank_of_isDigit (h.isDigit c hc)

theorem solid_of_isLexeme (hl : IsLexeme l) : Solid l := by
  cases hl with
  | @sign c h =>
    have hsigns : ∀ c ∈ Json.signs, isBlank c = false := List.all_iff_forall_prop.1 (by decide)
    exact solid_of_all (List.cons_ne_nil c []) (List.forall_mem_singleton.2 (hsigns c h))
  | string h =>
    obtain ⟨-⟩ := h
    have hquote : isBlank '"' = false := by decide
    refine ⟨by simp, by simpa using hquote, fun c hc => ?_⟩
    rw [List.getLast?_concat] at hc
    cases hc
    exact hquote
  | number h =>
    obtain ⟨c, more, rfl, -, -⟩ := exists_cons_of_isNumber h
    exact solid_of_all (List.cons_ne_nil c more) (not_blank_of_isNumber h)
  | literal h =>
    have hwords : ∀ word ∈ ["true".toList, "false".toList, "null".toList],
        word ≠ [] ∧ (word.all fun c => !isBlank c) = true := by decide
    exact solid_of_all (hwords _ h).1 (by simpa using (hwords _ h).2)

theorem Gapped.lexeme (h : Gapped all) (hl : Solid l) : Gapped (l :: all) where
  kinds := List.forall_mem_cons.2 ⟨.inl hl, h.kinds⟩
  apart := List.isChain_cons.2 ⟨fun _ _ => .inl hl, h.apart⟩

theorem Gapped.gap {g : Lexeme} (h : Gapped (l :: all)) (hl : Solid l) (hg : Gap g) :
    Gapped (g :: l :: all) where
  kinds := List.forall_mem_cons.2 ⟨.inr hg, h.kinds⟩
  apart := List.isChain_cons_cons.2 ⟨.inr hl, h.apart⟩

/-- A gap goes on neither in front of it nor behind it. -/
theorem Gapped.maximal (h : Gapped (before ++ l :: after)) (hl : allBlank l.text = true) :
    Gap l ∧ (∀ c ∈ (before.flatMap Lexeme.text).getLast?, isBlank c = false) ∧
      ∀ c ∈ (after.flatMap Lexeme.text).head?, isBlank c = false := by
  have hsolid : ¬Solid l := fun hsolid => by
    rw [hsolid.not_allBlank] at hl
    cases hl
  obtain ⟨-, hbehind, hfront⟩ := List.isChain_append.1 h.apart
  refine ⟨(h.kinds l (by simp)).resolve_left hsolid, ?_, ?_⟩
  · rcases List.eq_nil_or_concat before with rfl | ⟨front, b, rfl⟩
    · exact fun c hc => by cases hc
    · have hb : Solid b := (hfront b (by simp) l rfl).resolve_right hsolid
      intro c hc
      rw [List.concat_eq_append, List.flatMap_append, List.flatMap_singleton,
        List.getLast?_append_of_ne_nil _ hb.ne_nil] at hc
      exact hb.last c hc
  · cases after with
    | nil => exact fun c hc => by cases hc
    | cons b rest =>
      have hb : Solid b := ((List.isChain_cons.1 hbehind).1 b rfl).resolve_left hsolid
      intro c hc
      rw [List.flatMap_cons, List.head?_append_of_ne_nil _ hb.ne_nil] at hc
      exact hb.head c hc

/-- A lexeme of the grammar in front of a text. -/
theorem lexFrom_lexeme (hl : IsLexeme l) (hends : Ends l rest) :
    (json.lexFrom (l.text ++ rest) ()).1 = l :: (json.lexFrom rest ()).1 := by
  have hstep : json.classify (l.text ++ rest) () = .take l.text l.category () :=
    classifyJson_lexeme hl hends
  rw [Classifier.lexFrom_of_length (solid_of_isLexeme hl).ne_nil (by rw [hstep]; rfl), hstep]
  rfl

theorem gap_of_space {gap : List Char} (hne : gap ≠ []) (h : Space gap) : Gap ⟨gap, .unstyled⟩ where
  ne_nil := hne
  blank := List.all_eq_true.2 fun c hc => isBlank_of_isSpace (h c hc)
  unstyled := rfl

/-- Blanks in front of a text that starts with none. -/
theorem lexFrom_space {gap : List Char} (hne : gap ≠ []) (h : Space gap)
    (hrest : ∀ c ∈ rest.head?, isBlank c = false) :
    (json.lexFrom (gap ++ rest) ()).1 = ⟨gap, .unstyled⟩ :: (json.lexFrom rest ()).1 :=
  congrArg Prod.fst
    (lineBound_json.lexFrom_blanks hne (fun c hc => isBlank_of_isSpace (h c hc)) hrest ())

/-- The induction is on the lexemes: what stands behind a lexeme has been read already. -/
theorem lexFrom_spaced (h : Spaced ls text) :
    (json.lexFrom text ()).1.filter (fun l => !allBlank l.text) = ls ∧
      Gapped (json.lexFrom text ()).1 := by
  induction h with
  | @blanks text h =>
    by_cases hne : text = []
    · rw [hne, Classifier.lexFrom_nil]
      exact ⟨rfl, by simp, .nil⟩
    · have hg := gap_of_space hne h
      have hlex := @lexFrom_space [] text hne h nofun
      rw [List.append_nil, Classifier.lexFrom_nil] at hlex
      rw [hlex]
      exact ⟨by simp [hg.blank], by simpa using .inr hg, .singleton _⟩
  | @lexeme l ls gap text hspace hl hends _ ih =>
    have hsolid := solid_of_isLexeme hl
    have hlexeme := lexFrom_lexeme hl hends
    have hinner : (json.lexFrom (l.text ++ text) ()).1.filter (fun l => !allBlank l.text) = l :: ls ∧
        Gapped (json.lexFrom (l.text ++ text) ()).1 := by
      rw [hlexeme]
      exact ⟨by simp [hsolid.not_allBlank, ih.1], ih.2.lexeme hsolid⟩
    by_cases hne : gap = []
    · rw [hne]
      exact hinner
    · have hbehind : ∀ c ∈ (l.text ++ text).head?, isBlank c = false := fun c hc => by
        rw [List.head?_append_of_ne_nil _ hsolid.ne_nil] at hc
        exact hsolid.head c hc
      have hg := gap_of_space hne hspace
      rw [lexFrom_space hne hspace hbehind]
      refine ⟨by simp [hg.blank, hinner.1], ?_⟩
      rw [hlexeme] at hinner ⊢
      exact hinner.2.gap hsolid hg

/-- For every JSON document: the tokens that hold more than blank characters are its lexemes, one
for each, in order and in their categories. Every other token is a run of blank characters without a
style that no blank character goes on with, neither in front of it nor behind it. -/
theorem lexemes_document {text : List Char} {ls : List Lexeme} (h : IsDocument text ls) :
    let lexemes := (json.tokenize text).map (·.lexemeIn text)
    lexemes.filter (fun l => !allBlank l.text) = ls ∧
      ∀ before l after, lexemes = before ++ l :: after → allBlank l.text = true →
        (l.text ≠ [] ∧ l.category = .unstyled) ∧
          (∀ c ∈ (before.flatMap Lexeme.text).getLast?, isBlank c = false) ∧
          ∀ c ∈ (after.flatMap Lexeme.text).head?, isBlank c = false := by
  intro lexemes
  have hlexemes : lexemes = (json.lexFrom text ()).1 := json.map_lexemeIn_tokenize text
  obtain ⟨hfilter, hgapped⟩ := lexFrom_spaced h.spaced
  rw [← hlexemes] at hfilter hgapped
  refine ⟨hfilter, fun before l after hparts hblank => ?_⟩
  rw [hparts] at hgapped
  obtain ⟨hgap, hfront, hbehind⟩ := hgapped.maximal hblank
  exact ⟨⟨hgap.ne_nil, hgap.unstyled⟩, hfront, hbehind⟩

/-- A string with an escaped quote, a number with all its parts, a literal, and blanks between them
and at the end. -/
theorem lexemes_document_array :
    let text := "[\"a\\\"\", -1.5e+3 ,null]\n ".toList
    let ls : List Lexeme :=
      [.operator '[', ⟨"\"a\\\"\"".toList, .string⟩, .operator ',', ⟨"-1.5e+3".toList, .number⟩,
        .operator ',', ⟨"null".toList, .atom⟩, .operator ']']
    IsDocument text ls ∧
      ((json.tokenize text).map (·.lexemeIn text)).filter (fun l => !allBlank l.text) = ls := by
  intro text ls
  have hbare (c : Char) : Json.IsSign c [c] := @Json.IsSign.intro c [] [] (by decide) (by decide)
  have hcomma : Json.IsSign ',' [',', ' '] := @Json.IsSign.intro ',' [] [' '] (by decide) (by decide)
  have hcomma' : Json.IsSign ',' [' ', ','] := @Json.IsSign.intro ',' [' '] [] (by decide) (by decide)
  have hstring : IsString "\"a\\\"\"".toList :=
    .intro (.plain (by decide) (by decide) (by decide) (.escape (by decide) .nil))
  have hwhole : Whole ['1'] := .positive rfl (by decide) (List.forall_mem_nil _)
  have hfraction : Fraction ['.', '5'] :=
    .some ⟨by decide, List.forall_mem_singleton.2 rfl⟩
  have hexponent : Exponent ['e', '+', '3'] :=
    @Exponent.some 'e' ['+'] ['3'] (by decide) (by decide) ⟨by decide, List.forall_mem_singleton.2 rfl⟩
  have hnumber : IsNumber "-1.5e+3".toList :=
    @IsNumber.intro ['-'] ['1'] _ _ (by decide) hwhole hfraction hexponent
  have hliteral : Json.Derives .value "null".toList [⟨"null".toList, .atom⟩] :=
    .literal (by decide)
  have hvalue := Json.Derives.array (hbare '[') (.elements (.string hstring) hcomma
    (.elements (.number hnumber) hcomma' (.element hliteral))) (hbare ']')
  have hdocument : IsDocument text ls :=
    @IsDocument.intro [] _ ['\n', ' '] _ (by decide) hvalue (by decide)
  exact ⟨hdocument, (lexemes_document hdocument).1⟩

end LogScript.Highlight
