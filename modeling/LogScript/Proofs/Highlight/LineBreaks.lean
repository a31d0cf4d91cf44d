import LogScript.Proofs.Highlight.CodeCharacters
import LogScript.Vocabulary.Reader

/-!
Texts joined by a line break. No step of a classifier looks past the end of its line, except for a
run of blank characters. Where the break has no other blank character beside it, the tokens of the
joined text are therefore those of both texts with one unstyled token between them, and the second
text is read in the state that the first one leaves.
-/

namespace LogScript

section Runs

variable (text behind : List Char)

/-- A run without line feeds ends in front of one as it does at the end of the text. -/
theorem takeWhile_append_lineFeed {p : Char → Bool} (hp : p '\n' = false) :
    (text ++ '\n' :: behind).takeWhile p = text.takeWhile p :=
  takeWhile_append_cons text behind hp

theorem firstLine_append_cons_lineFeed : firstLine (text ++ '\n' :: behind) = firstLine text :=
  takeWhile_append_lineFeed text behind rfl

theorem drop_append_lineFeed {run text : List Char} (h : run <+: text) :
    (text ++ '\n' :: behind).drop run.length = text.drop run.length ++ '\n' :: behind :=
  List.drop_append_of_le_length h.length_le

theorem isPrefixOf_append_lineFeed {mark : List Char} (h : '\n' ∉ mark) :
    mark.isPrefixOf (text ++ '\n' :: behind) = mark.isPrefixOf text := by
  induction mark generalizing text with
  | nil => simp
  | cons c mark ih =>
    rw [List.mem_cons, not_or] at h
    cases text with
    | nil => simp [List.isPrefixOf, Ne.symm h.1]
    | cons d text => simp only [List.cons_append, List.isPrefixOf_cons_cons, ih text h.2]

/-- The blank characters end in front of the last character of a text that ends visibly. -/
theorem Run.blanks_append {text : List Char} (hne : text ≠ [])
    (hlast : ∀ c ∈ text.getLast?, isBlank c = false) :
    Run.blanks (text ++ behind) = Run.blanks text := by
  induction text with
  | nil => exact absurd rfl hne
  | cons c rest ih =>
    cases rest with
    | nil => simp [Run.blanks, hlast c rfl]
    | cons d rest =>
      have hrest := ih (List.cons_ne_nil d rest) hlast
      simp only [Run.blanks, List.cons_append] at hrest ⊢
      rw [List.takeWhile_cons, List.takeWhile_cons (a := c), hrest]

namespace Run

theorem quoted_append_lineFeed (quote : Char) :
    quoted quote (text ++ '\n' :: behind) = quoted quote text := by
  rw [quoted, firstLine_append_cons_lineFeed, quoted]

theorem digits_append_lineFeed : digits (text ++ '\n' :: behind) = digits text :=
  takeWhile_append_lineFeed text behind (by decide)

theorem drop_digits_append_lineFeed :
    (text ++ '\n' :: behind).drop (digits text).length =
      text.drop (digits text).length ++ '\n' :: behind :=
  drop_append_lineFeed behind (List.takeWhile_prefix Char.isDigit)

theorem pointGroups_append_lineFeed (limit : Nat) :
    pointGroups limit (text ++ '\n' :: behind) = pointGroups limit text := by
  induction limit generalizing text with
  | zero => rfl
  | succ limit ih =>
    cases text with
    | nil => simp [pointGroups]
    | cons c rest =>
      by_cases hpoint : c = '.'
      · subst hpoint
        have hdrop := drop_digits_append_lineFeed rest behind
        simp only [List.cons_append, pointGroups, digits_append_lineFeed]
        cases hdigits : digits rest with
        | nil => rfl
        | cons d ds =>
          rw [hdigits] at hdrop
          simp only [hdrop, ih]
      · simp [pointGroups, hpoint]

theorem number_append_lineFeed (limit : Nat) :
    number limit (text ++ '\n' :: behind) = number limit text := by
  cases text with
  | nil => rfl
  | cons c rest =>
    have hhead : (c :: rest ++ '\n' :: behind).head? = (c :: rest).head? := rfl
    have hsign : (if (c :: rest).head? = some '-' then ['-'] else []).length ≤ 1 := by
      split
      · exact Nat.le_refl 1
      · exact Nat.zero_le 1
    simp only [number, hhead]
    generalize (if (c :: rest).head? = some '-' then ['-'] else []) = sign at hsign ⊢
    have hlength : sign.length ≤ (c :: rest).length := Nat.le_trans hsign (Nat.le_add_left 1 _)
    have hdrop := drop_digits_append_lineFeed ((c :: rest).drop sign.length) behind
    rw [List.drop_append_of_le_length hlength, digits_append_lineFeed]
    cases hdigits : digits ((c :: rest).drop sign.length) with
    | nil => rfl
    | cons d ds =>
      rw [hdigits] at hdrop
      simp only [hdrop, pointGroups_append_lineFeed]

theorem opensCall_append_lineFeed : opensCall (text ++ '\n' :: behind) = opensCall text := by
  induction text with
  | nil => rfl
  | cons c rest ih =>
    simp only [opensCall, List.cons_append, List.dropWhile_cons] at ih ⊢
    split
    · exact ih
    · rfl

end Run

namespace Highlight

theorem startsComment_append_lineFeed (c : Char) :
    startsComment (c :: text ++ '\n' :: behind) = startsComment (c :: text) := by
  rw [startsComment, isPrefixOf_append_lineFeed _ _ (by decide)]
  rfl

theorem pathRun_append_lineFeed : pathRun (text ++ '\n' :: behind) = pathRun text := by
  cases text with
  | nil => rfl
  | cons c rest =>
    by_cases hslash : c = '/'
    · subst hslash
      simp only [List.cons_append, pathRun,
        takeWhile_append_lineFeed rest behind (p := isOmlPathChar) (by decide)]
    · simp [pathRun, hslash]

theorem exponentRun_append_lineFeed : exponentRun (text ++ '\n' :: behind) = exponentRun text := by
  cases text with
  | nil => rfl
  | cons mark rest =>
    have hsign : ((rest ++ '\n' :: behind).take 1).filter (fun c => c == '+' || c == '-') =
        (rest.take 1).filter (fun c => c == '+' || c == '-') := by
      cases rest <;> rfl
    have hlength : ((rest.take 1).filter (fun c => c == '+' || c == '-')).length ≤ rest.length :=
      Nat.le_trans (List.length_filter_le _ _) (List.length_take_le' 1 rest)
    simp only [exponentRun, List.cons_append, hsign, List.drop_append_of_le_length hlength,
      Run.digits_append_lineFeed]

theorem jsonNumber_append_lineFeed : jsonNumber (text ++ '\n' :: behind) = jsonNumber text := by
  rw [jsonNumber, jsonNumber, Run.number_append_lineFeed]
  cases hnumber : Run.number 1 text with
  | none => rfl
  | some n =>
    have hdrop := drop_append_lineFeed behind (ByteScan.prefix_of_number hnumber)
    rw [Option.map_some, Option.map_some, hdrop, exponentRun_append_lineFeed]

variable {text : List Char} (behind : List Char)

/-- The call behind a word is looked for in its line only. -/
theorem opensCall_drop_append_lineFeed {run : List Char} (h : run <+: text) :
    Run.opensCall ((text ++ '\n' :: behind).drop run.length) =
      Run.opensCall (text.drop run.length) := by
  rw [drop_append_lineFeed behind h, Run.opensCall_append_lineFeed]

theorem classifyWpl_append_lineFeed (v : Vocabulary) (hne : text ≠ [])
    (hlast : ∀ c ∈ text.getLast?, isBlank c = false) :
    classifyWpl v (text ++ '\n' :: behind) = classifyWpl v text := by
  obtain ⟨c, rest, rfl⟩ := List.exists_cons_of_ne_nil hne
  have hblanks := Run.blanks_append ('\n' :: behind) hne hlast
  have hcomment := startsComment_append_lineFeed rest behind c
  have hline := firstLine_append_cons_lineFeed (c :: rest) behind
  have hquoted := Run.quoted_append_lineFeed (c :: rest) behind c
  have hnumber := Run.number_append_lineFeed (c :: rest) behind 1
  have hword := takeWhile_append_lineFeed (c :: rest) behind (p := isWplWordChar) (by decide)
  have hcall := opensCall_drop_append_lineFeed behind
    (List.takeWhile_prefix isWplWordChar (l := c :: rest))
  rw [List.cons_append] at *
  simp only [classifyWpl, hblanks, hcomment, hline, hquoted, hnumber, hword]
  cases hrun : (c :: rest).takeWhile isWplWordChar with
  | nil => rfl
  | cons d word =>
    rw [hrun] at hcall
    simp only [hcall]

theorem classifyOmlWord_append_lineFeed (v : Vocabulary) (s : OmlState) (hne : text ≠ []) :
    classifyOmlWord v (text ++ '\n' :: behind) s = classifyOmlWord v text s := by
  obtain ⟨c, rest, rfl⟩ := List.exists_cons_of_ne_nil hne
  have hword := takeWhile_append_lineFeed (c :: rest) behind (p := isOmlWordChar) (by decide)
  have hcall := opensCall_drop_append_lineFeed behind
    (List.takeWhile_prefix isOmlWordChar (l := c :: rest))
  rw [List.cons_append] at *
  simp only [classifyOmlWord, hword]
  cases hrun : (c :: rest).takeWhile isOmlWordChar with
  | nil => rfl
  | cons d word =>
    rw [hrun] at hcall
    simp only [hcall]

theorem classifyOml_append_lineFeed (v : Vocabulary) (s : OmlState) (hne : text ≠ [])
    (hlast : ∀ c ∈ text.getLast?, isBlank c = false) :
    classifyOml v (text ++ '\n' :: behind) s = classifyOml v text s := by
  have hwords := classifyOmlWord_append_lineFeed behind v s hne
  obtain ⟨c, rest, rfl⟩ := List.exists_cons_of_ne_nil hne
  have hblanks := Run.blanks_append ('\n' :: behind) hne hlast
  have hcomment := startsComment_append_lineFeed rest behind c
  have hline := firstLine_append_cons_lineFeed (c :: rest) behind
  have hmark : '\n' ∉ ['-', '-', '-'] := by decide
  have hdashes := isPrefixOf_append_lineFeed (c :: rest) behind hmark
  have hquoted := Run.quoted_append_lineFeed (c :: rest) behind c
  have hnumber := Run.number_append_lineFeed (c :: rest) behind 3
  have hname := takeWhile_append_lineFeed rest behind (p := Run.isWordChar) (by decide)
  have hpath := pathRun_append_lineFeed (c :: rest) behind
  rw [List.cons_append] at *
  simp only [classifyOml, hblanks, hcomment, hline, hdashes, hquoted, hnumber, hname, hpath, hwords]

theorem classifyJson_append_lineFeed (hne : text ≠ [])
    (hlast : ∀ c ∈ text.getLast?, isBlank c = false) :
    classifyJson (text ++ '\n' :: behind) = classifyJson text := by
  obtain ⟨c, rest, rfl⟩ := List.exists_cons_of_ne_nil hne
  have hblanks := Run.blanks_append ('\n' :: behind) hne hlast
  have hquoted := Run.quoted_append_lineFeed (c :: rest) behind c
  have hnumber := jsonNumber_append_lineFeed (c :: rest) behind
  have hword := takeWhile_append_lineFeed (c :: rest) behind (p := Run.isWordChar) (by decide)
  rw [List.cons_append] at *
  simp only [classifyJson, hblanks, hquoted, hnumber, hword]

end Highlight

end Runs

namespace Token

/-- The token of a text in front of which `distance` more bytes stand. -/
def shift (distance : Nat) (t : Token) : Token :=
  ⟨t.start + distance, t.stop + distance, t.category⟩

theorem place_append (start : Nat) (a b : List Lexeme) :
    place start (a ++ b) =
      place start a ++ place (start + byteLength (a.map Lexeme.text).flatten) b := by
  induction a generalizing start with
  | nil => rfl
  | cons l a ih =>
    simp only [List.cons_append, place, List.map_cons, List.flatten_cons, byteLength_append, ih,
      Nat.add_assoc]

theorem place_add (start distance : Nat) (ls : List Lexeme) :
    place (start + distance) ls = (place start ls).map (shift distance) := by
  induction ls generalizing start with
  | nil => rfl
  | cons l ls ih => simp only [place, List.map_cons, shift, ← ih, Nat.add_right_comm]

end Token

namespace Classifier

variable {σ : Type} {k : Classifier σ} {front behind : List Char}

/-- No step looks past a line feed, unless blank characters alone stand in front of it. -/
structure LineBound (k : Classifier σ) : Prop where
  consumes : ∀ c rest s, Highlight.Consumes (k.classify (c :: rest) s) (c :: rest)
  blanks : ∀ c rest s, isBlank c = true →
    k.classify (c :: rest) s = .take (Run.blanks (c :: rest)) .unstyled s
  ahead : ∀ text behind s, text ≠ [] → (∀ c ∈ text.getLast?, isBlank c = false) →
    k.classify (text ++ '\n' :: behind) s = k.classify text s

/-- Blank characters in front of a visible one are one lexeme. -/
theorem LineBound.lexFrom_blanks (h : k.LineBound) {gap : List Char} (hne : gap ≠ [])
    (hgap : ∀ c ∈ gap, isBlank c = true) (hbehind : ∀ c ∈ behind.head?, isBlank c = false)
    (s : σ) :
    k.lexFrom (gap ++ behind) s =
      (⟨gap, .unstyled⟩ :: (k.lexFrom behind s).1, (k.lexFrom behind s).2) := by
  have hrun : Run.blanks (gap ++ behind) = gap := takeWhile_append_of_head? hgap hbehind
  have hstep : k.classify (gap ++ behind) s = .take gap .unstyled s := by
    obtain ⟨c, more, rfl⟩ := List.exists_cons_of_ne_nil hne
    rw [List.cons_append] at hrun ⊢
    rw [h.blanks c _ s (hgap c List.mem_cons_self), hrun]
  rw [lexFrom_of_length hne (by rw [hstep]; rfl), hstep]
  rfl

/-- The induction is on the text in front: each step takes the same lexeme off it, whether or not
the line feed and what stands behind it follow. -/
theorem LineBound.lexFrom_append_lineFeed (h : k.LineBound)
    (hbehind : ∀ c ∈ behind.head?, isBlank c = false) :
    ∀ (front : List Char) (s : σ), (∀ c ∈ front.getLast?, isBlank c = false) →
      k.lexFrom (front ++ '\n' :: behind) s =
        ((k.lexFrom front s).1 ++
            ⟨['\n'], .unstyled⟩ :: (k.lexFrom behind (k.lexFrom front s).2).1,
          (k.lexFrom behind (k.lexFrom front s).2).2)
  | [], s, _ => by
    have hgap : ∀ c ∈ ['\n'], isBlank c = true := List.forall_mem_singleton.2 rfl
    rw [List.nil_append, lexFrom_nil, ← List.singleton_append,
      h.lexFrom_blanks (List.cons_ne_nil _ _) hgap hbehind]
    rfl
  | c :: rest, s, hlast => by
    have hahead := h.ahead (c :: rest) behind s (List.cons_ne_nil c rest) hlast
    obtain ⟨lexeme, hne, ⟨more, hmore⟩, hlength⟩ := h.consumes c rest s
    have hlt : more.length < (c :: rest).length := by
      have hpos := List.length_pos_iff.2 hne
      rw [← hmore, List.length_append]
      omega
    rw [← hmore] at hahead hlength hlast ⊢
    have hmoreLast : ∀ c ∈ more.getLast?, isBlank c = false := fun c hc =>
      hlast c (by rw [List.getLast?_append, Option.mem_def.1 hc]; rfl)
    rw [List.append_assoc] at hahead ⊢
    rw [lexFrom_of_length hne (hahead ▸ hlength), lexFrom_of_length hne hlength, hahead,
      LineBound.lexFrom_append_lineFeed h hbehind more _ hmoreLast]
    rfl
termination_by front => front.length
decreasing_by exact hlt

/-- The tokens of two texts with a line feed between them: those of the first, one for the line
feed, and those of the second, which is read in the state behind the first. -/
def tokenizeLines (k : Classifier σ) (front behind : List Char) (s : σ) : List Token × σ :=
  let first := k.tokenizeFrom front s
  let second := k.tokenizeFrom behind first.2
  let stop := byteLength front
  (first.1 ++ ⟨stop, stop + 1, .unstyled⟩ :: second.1.map (Token.shift (stop + 1)), second.2)

theorem LineBound.tokenizeFrom_append_lineFeed (h : k.LineBound)
    (hfront : ∀ c ∈ front.getLast?, isBlank c = false)
    (hbehind : ∀ c ∈ behind.head?, isBlank c = false) (s : σ) :
    k.tokenizeFrom (front ++ '\n' :: behind) s = k.tokenizeLines front behind s := by
  have hbreak : byteLength ['\n'] = 1 := by decide
  have hplace := Token.place_add 0 (byteLength front + 1)
    (k.lexFrom behind (k.lexFrom front s).2).1
  rw [Nat.zero_add] at hplace
  simp only [tokenizeFrom, tokenizeLines, h.lexFrom_append_lineFeed hbehind front s hfront,
    Token.place_append, k.lexFrom_texts, Token.place, hbreak, Nat.zero_add, hplace]

end Classifier

namespace Highlight

theorem lineBound_wpl (v : Vocabulary) : (wpl v).LineBound where
  consumes c rest _ := consumes_classifyWpl v c rest
  blanks c rest _ h := by simp [wpl, classifyWpl, h]
  ahead _ behind _ := classifyWpl_append_lineFeed behind v

theorem lineBound_oml (v : Vocabulary) : (oml v).LineBound where
  consumes c rest s := consumes_classifyOml v s c rest
  blanks c rest _ h := by simp [oml, classifyOml, h]
  ahead _ behind s := classifyOml_append_lineFeed behind v s

theorem lineBound_json : json.LineBound where
  consumes c rest _ := consumes_classifyJson c rest
  blanks c rest _ h := by simp [json, classifyJson, h]
  ahead _ behind _ := classifyJson_append_lineFeed behind

/-- Where no other blank character stands beside a line break, tokens and states of the three
classifiers are put together from those of the texts on both sides of it. -/
theorem tokenizeFrom_eq_tokenizeLines {front behind : List Char}
    (hfront : ∀ c ∈ front.getLast?, isBlank c = false)
    (hbehind : ∀ c ∈ behind.head?, isBlank c = false) :
    (∀ v s, (wpl v).tokenizeFrom (front ++ '\n' :: behind) s =
        (wpl v).tokenizeLines front behind s) ∧
      (∀ v s, (oml v).tokenizeFrom (front ++ '\n' :: behind) s =
        (oml v).tokenizeLines front behind s) ∧
      ∀ s, json.tokenizeFrom (front ++ '\n' :: behind) s = json.tokenizeLines front behind s :=
  ⟨fun v s => (lineBound_wpl v).tokenizeFrom_append_lineFeed hfront hbehind s,
    fun v s => (lineBound_oml v).tokenizeFrom_append_lineFeed hfront hbehind s,
    fun s => lineBound_json.tokenizeFrom_append_lineFeed hfront hbehind s⟩

/-- The parenthesis on the second line makes no call of the word that ends the first, and the colon
of the first line is pending in the second. -/
theorem tokenizeFrom_eq_tokenizeLines_call :
    let front := "a : f".toList
    let behind := "(ip)".toList
    (∀ c ∈ front.getLast?, isBlank c = false) ∧ (∀ c ∈ behind.head?, isBlank c = false) ∧
      (oml Vocabulary.oml).tokenizeFrom (front ++ '\n' :: behind) {} =
        (oml Vocabulary.oml).tokenizeLines front behind {} ∧
      (oml Vocabulary.oml).tokenizeLines front behind {} =
        ([⟨0, 1, .variableName⟩, ⟨1, 2, .unstyled⟩, ⟨2, 3, .operator⟩, ⟨3, 4, .unstyled⟩,
          ⟨4, 5, .variableName⟩, ⟨5, 6, .unstyled⟩, ⟨6, 7, .operator⟩, ⟨7, 9, .typeName⟩,
          ⟨9, 10, .operator⟩], {}) := by
  intro front behind
  have hfront : ∀ c ∈ front.getLast?, isBlank c = false := by
    rintro c ⟨⟩
    rfl
  have hbehind : ∀ c ∈ behind.head?, isBlank c = false := by
    rintro c ⟨⟩
    rfl
  have htokens := (tokenizeFrom_eq_tokenizeLines hfront hbehind).2.1 Vocabulary.oml {}
  exact ⟨hfront, hbehind, htokens, by decide +kernel⟩

end Highlight

end LogScript
