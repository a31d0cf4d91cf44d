import LogScript.Proofs.Highlight.Cover
import LogScript.Proofs.Highlight.CommentSteps

/-!
The characters outside the comments of a text. The classifiers of both log languages find the
comments that a reading finds, wherever a literal, a word, a path or a number ends: what stands
outside their comment tokens are the characters whose mark is not that of a comment.
-/

namespace LogScript

namespace Token

theorem textIn_of_append (front text behind : List Char) (category : Category) :
    Token.textIn ⟨byteLength front, byteLength front + byteLength text, category⟩
      (front ++ (text ++ behind)) = text :=
  sliceBytes_append front text behind

/-- The lexeme that a token marks in its text. -/
def lexemeIn (t : Token) (text : List Char) : Lexeme :=
  ⟨t.textIn text, t.category⟩

/-- Placed lexemes are found again in their text. -/
theorem map_lexemeIn_place (front : List Char) (ls : List Lexeme) :
    (place (byteLength front) ls).map (·.lexemeIn (front ++ (ls.map Lexeme.text).flatten)) = ls := by
  induction ls generalizing front with
  | nil => rfl
  | cons l ls ih =>
    have hrest := ih (front ++ l.text)
    rw [byteLength_append, List.append_assoc] at hrest
    simp only [place, List.map_cons, List.flatten_cons, lexemeIn, textIn_of_append] at hrest ⊢
    rw [hrest]

end Token

namespace Classifier

variable {σ : Type}

/-- The visible characters of a text outside the comments that a classifier finds. -/
def codeOf (k : Classifier σ) (text : List Char) : List Char :=
  visible (((k.tokenize text).filter (·.category != .comment)).flatMap (·.textIn text))

/-- The tokens of a text mark its lexemes. -/
theorem map_lexemeIn_tokenizeFrom (k : Classifier σ) (text : List Char) (state : σ) :
    (k.tokenizeFrom text state).1.map (·.lexemeIn text) = (k.lexFrom text state).1 := by
  have hplaced := Token.map_lexemeIn_place [] (k.lexFrom text state).1
  rw [List.nil_append, k.lexFrom_texts text state] at hplaced
  exact hplaced

theorem map_lexemeIn_tokenize (k : Classifier σ) (text : List Char) :
    (k.tokenize text).map (·.lexemeIn text) = k.lex text :=
  k.map_lexemeIn_tokenizeFrom text k.start

theorem codeOf_eq (k : Classifier σ) (text : List Char) :
    k.codeOf text =
      visible (((k.lex text).filter (·.category != .comment)).flatMap Lexeme.text) := by
  rw [← k.map_lexemeIn_tokenize text, List.filter_map, List.flatMap_map]
  rfl

/-- A step as long as a lexeme in bytes is as long in characters. -/
theorem stride_append {lexeme : List Char} (hne : lexeme ≠ []) (behind : List Char) :
    stride (byteLength lexeme) (lexeme ++ behind) = lexeme.length := by
  have hpos := List.length_pos_iff.2 hne
  rw [stride, charsWithin_append]
  omega

/-- A step that takes a lexeme off the front; the rest is read in the state behind it. -/
theorem lexFrom_of_length {k : Classifier σ} {lexeme behind : List Char} {state : σ}
    (hne : lexeme ≠ [])
    (hlength : (k.classify (lexeme ++ behind) state).length = byteLength lexeme) :
    k.lexFrom (lexeme ++ behind) state =
      (⟨lexeme, (k.classify (lexeme ++ behind) state).category⟩ ::
          (k.lexFrom behind (k.classify (lexeme ++ behind) state).state).1,
        (k.lexFrom behind (k.classify (lexeme ++ behind) state).state).2) := by
  have hstride := stride_append hne behind
  obtain ⟨c, more, rfl⟩ := List.exists_cons_of_ne_nil hne
  rw [List.cons_append] at hlength hstride ⊢
  rw [lexFrom]
  simp only [hlength, hstride]
  rw [← List.cons_append, List.drop_left, List.take_left]

end Classifier

namespace Highlight

theorem category_ne_comment (role : WordRole) : role.category ≠ .comment := by
  cases role <;> decide

theorem exists_quote {c : Char} (h : (c == '"' || c.toNat == 0x27) = true) :
    ∃ q : Quote, c = q.char ∧ quote? .wpl q.char = some q := by
  rw [Bool.or_eq_true, beq_iff_eq, beq_iff_eq] at h
  rcases h with rfl | h
  · exact ⟨.double, rfl, rfl⟩
  · refine ⟨.single, ?_, rfl⟩
    rw [← Char.ofNat_toNat c, h]
    rfl

theorem not_isDigit_of_number {limit : Nat} {c : Char} {rest : List Char}
    (h : Run.number limit (c :: rest) = none) : c.isDigit = false := by
  cases hc : c.isDigit with
  | false => rfl
  | true =>
    have hsign : c ≠ '-' := ne_of_accepts hc (by decide)
    have hdigits : Run.digits (c :: rest) = c :: Run.digits rest := List.takeWhile_cons_of_pos hc
    rw [Run.number, List.head?_cons, if_neg (by simpa using hsign)] at h
    simp only [List.length_nil, List.drop_zero, hdigits] at h
    cases h

theorem next_plain_of_opensRun {l : Language} {c : Char} {ahead : Option Char} (hhash : c ≠ '#')
    (hslashes : c = '/' → ahead ≠ some '/') (hquote : quote? l c = none)
    (hopens : opensRun l c ahead) : Reading.next l .plain c ahead = .run := by
  have hcomment : ¬(c == '#' || c == '/' && ahead == some '/') = true := by
    simp only [Bool.or_eq_true, Bool.and_eq_true, beq_iff_eq]
    rintro (heq | ⟨hslash, hahead⟩)
    · exact hhash heq
    · exact hslashes hslash hahead
  rw [Reading.next, Reading.opening, if_neg hcomment, hquote]
  exact if_pos hopens

theorem agrees_classifyWpl (v : Vocabulary) (c : Char) (rest : List Char) :
    AgreesWith .wpl (classifyWpl v (c :: rest)) (c :: rest) := by
  unfold classifyWpl
  simp only
  split
  · exact agrees_blanks ‹_› rest
  split
  · exact agrees_comment ‹_›
  rename_i hcomment
  split
  · rename_i hquote
    obtain ⟨q, rfl, hq⟩ := exists_quote hquote
    exact agrees_quoted rest hq
  rename_i hquote
  split
  · rename_i n hn
    exact agrees_plain (number_ne_nil hn) (ByteScan.prefix_of_number hn) (by decide)
      fun d hd => (steady_of_mem_number .wpl hn d hd).next_eq
  rename_i hnumber
  split
  · rename_i hsign
    refine agrees_single (by decide) (Reading.Steady.next_eq ?_ _)
    exact Reading.steady_of_mem (List.mem_cons_of_mem _ (List.mem_cons_of_mem _ (by simpa using hsign)))
  have hnone : quote? .wpl c = none := by
    apply Reading.quote?_eq_none
    rintro q rfl
    cases q <;> exact hquote rfl
  obtain ⟨hhash, hslashes⟩ := ne_of_not_startsComment hcomment
  split
  · rename_i hword
    have hc : isWplWordChar c = false := by
      cases hc : isWplWordChar c with
      | false => rfl
      | true =>
        rw [List.takeWhile_cons_of_pos hc] at hword
        cases hword
    refine agrees_single (by decide) (Reading.Steady.next_eq ⟨hhash, ?_, hnone, ?_⟩ _)
    · rintro rfl
      exact absurd hc (by decide)
    · intro _ htrue
      rw [hc] at htrue
      cases htrue
  · rename_i hword
    have hc : isWplWordChar c = true := by
      cases hc : isWplWordChar c with
      | true => rfl
      | false => exact absurd (List.takeWhile_cons_of_neg (by simp [hc])) hword
    have hopens : opensRun .wpl c rest.head? = true := by
      rw [opensRun, hc, not_isDigit_of_number hnumber]
      rfl
    have hrest : (c :: rest).takeWhile isWplWordChar = c :: rest.takeWhile isWplWordChar :=
      List.takeWhile_cons_of_pos hc
    rw [hrest]
    exact agrees_run (category_ne_comment _)
      (next_plain_of_opensRun hhash hslashes hnone hopens) hc rfl

theorem agrees_classifyOmlWord (v : Vocabulary) (s : OmlState) {c : Char} {rest : List Char}
    (hquote : c ≠ '"') (hcomment : ¬startsComment (c :: rest) = true)
    (hpath : pathRun (c :: rest) = none) :
    AgreesWith .oml (classifyOmlWord v (c :: rest) s) (c :: rest) := by
  unfold classifyOmlWord
  simp only
  split
  · rename_i hsign
    refine agrees_single (by decide) (Reading.Steady.next_eq ?_ _)
    exact Reading.steady_of_mem (List.mem_cons_of_mem _ (List.mem_cons_of_mem _ (by simpa using hsign)))
  split
  · refine agrees_single (by decide) ?_
    obtain ⟨hhash, hslashes⟩ := ne_of_not_startsComment hcomment
    have hnone : quote? .oml c = none := by
      rw [quote?, if_neg (by simpa using hquote)]
      rfl
    by_cases hc : c = '/'
    · subst hc
      have hopens : opensRun .oml '/' rest.head? = false := by
        cases rest with
        | nil => rfl
        | cons d rest =>
          rw [opensRun, List.head?_cons, Option.any_some]
          cases hd : isOmlPathChar d with
          | false => rfl
          | true =>
            have hrun : pathRun ('/' :: d :: rest) =
                some ('/' :: d :: rest.takeWhile isOmlPathChar) := by
              rw [pathRun, List.takeWhile_cons_of_pos hd]
            rw [hrun] at hpath
            cases hpath
      rw [Reading.next, Reading.opening, if_neg (by simpa using hslashes rfl), hnone, hopens]
      rfl
    · exact Reading.Steady.next_eq ⟨hhash, hc, hnone, fun hl => by cases hl⟩ _
  · rename_i hword
    exact agrees_plain hword (List.takeWhile_prefix isOmlWordChar) (category_ne_comment _)
      fun d hd => (steady_oml_of_isOmlWordChar
        (List.all_eq_true.1 List.all_takeWhile d hd)).next_eq

theorem agrees_classifyOml (v : Vocabulary) (s : OmlState) (c : Char) (rest : List Char) :
    AgreesWith .oml (classifyOml v (c :: rest) s) (c :: rest) := by
  unfold classifyOml
  simp only
  split
  · exact agrees_blanks ‹_› rest
  split
  · exact agrees_comment ‹_›
  rename_i hcomment
  split
  · refine agrees_plain (by decide) (List.isPrefixOf_iff_prefix.1 ‹_›) (by decide) ?_
    intro d hd
    simp only [List.mem_cons, List.not_mem_nil, or_false, or_self] at hd
    subst hd
    exact (Reading.steady_of_mem (by decide)).next_eq
  split
  · rename_i hquote
    rw [eq_of_beq hquote]
    exact agrees_quoted (q := .double) rest rfl
  rename_i hquote
  split
  · rename_i n hn
    exact agrees_plain (number_ne_nil hn) (ByteScan.prefix_of_number hn) (by decide)
      fun d hd => (steady_of_mem_number .oml hn d hd).next_eq
  have hat : Reading.Steady .oml '@' := ⟨by decide, by decide, rfl, fun hl => by cases hl⟩
  split
  · rename_i hc
    rw [eq_of_beq hc]
    split
    · exact agrees_single (by decide) (hat.next_eq _)
    · refine agrees_plain (List.cons_ne_nil _ _)
        (List.cons_prefix_cons.2 ⟨rfl, List.takeWhile_prefix Run.isWordChar⟩) (by decide) ?_
      intro d hd
      rcases List.mem_cons.1 hd with rfl | hd
      · exact hat.next_eq
      · exact (steady_oml_of_isWordChar (List.all_eq_true.1 List.all_takeWhile d hd)).next_eq
  split
  · rename_i path hpath
    unfold pathRun at hpath
    split at hpath
    · rename_i rest' htext
      cases htext
      split at hpath
      · cases hpath
      · rename_i hne
        cases hpath
        obtain ⟨d, behind, rfl⟩ : ∃ d behind, rest = d :: behind := by
          cases rest with
          | nil => exact absurd rfl hne
          | cons d behind => exact ⟨d, behind, rfl⟩
        have hd : isOmlPathChar d = true := by
          cases hd : isOmlPathChar d with
          | true => rfl
          | false => exact absurd (List.takeWhile_cons_of_neg (by simp [hd])) hne
        refine agrees_run (by decide) ?_ (by decide) rfl
        refine next_plain_of_opensRun (by decide)
          (fun _ => (ne_of_not_startsComment hcomment).2 rfl) rfl ?_
        rw [opensRun, List.head?_cons, Option.any_some, hd]
        rfl
    · cases hpath
  · rename_i hpath
    exact agrees_classifyOmlWord v s (by simpa using hquote) hcomment hpath

/-- Step by step, a classifier finds the comments of a text. -/
theorem visible_lexFrom {σ : Type} {l : Language} {k : Classifier σ}
    (h : ∀ c rest s, AgreesWith l (k.classify (c :: rest) s) (c :: rest)) :
    ∀ (text : List Char) (s : σ),
      visible (((k.lexFrom text s).1.filter (·.category != .comment)).flatMap Lexeme.text) =
        code (marks l text)
  | [], _ => by
    rw [Classifier.lexFrom_nil]
    rfl
  | c :: rest, s => by
    obtain ⟨lexeme, behind, hne, htext, hlength, hcode⟩ := h c rest s
    have hlt : behind.length < (c :: rest).length := by
      have hpos := List.length_pos_iff.2 hne
      rw [htext, List.length_append]
      omega
    rw [htext] at hlength hcode ⊢
    have ih := visible_lexFrom h behind (k.classify (lexeme ++ behind) s).state
    rw [Classifier.lexFrom_of_length hne hlength, hcode, ← ih, List.filter_cons]
    cases hcategory : (k.classify (lexeme ++ behind) s).category with
    | comment => rfl
    | _ => exact visible_append _ _
termination_by text => text.length
decreasing_by exact hlt

/-- Outside the comments that the classifier finds stands what is marked as no comment. -/
theorem codeOf_wpl (v : Vocabulary) (text : List Char) :
    (wpl v).codeOf text = code (marks .wpl text) :=
  ((wpl v).codeOf_eq text).trans
    (visible_lexFrom (fun c rest _ => agrees_classifyWpl v c rest) text ())

theorem codeOf_oml (v : Vocabulary) (text : List Char) :
    (oml v).codeOf text = code (marks .oml text) :=
  ((oml v).codeOf_eq text).trans
    (visible_lexFrom (fun c rest s => agrees_classifyOml v s c rest) text {})

end Highlight

end LogScript
