import LogScript.Proofs.Highlight.Declaration
import LogScript.Proofs.Highlight.LineBreaks

/-!
Declared types behind a colon. A colon that stands by itself makes the declared type behind it a
type, unless an equals sign came before. A colon that is written without a space behind a name
belongs to the name: the lexeme is `name:`, and the word behind it is a type only if an earlier
colon is still pending. So `x : digit` declares a type and `x: digit` does not.
-/

namespace LogScript

namespace Classifier

variable {σ : Type}

/-- At every position of a text some lexeme goes on: whole lexemes and an open `tail` stand in
front of it, and the next step takes the tail and more. -/
theorem exists_lexFrom_append (k : Classifier σ) {behind : List Char} (hbehind : behind ≠ []) :
    ∀ (front : List Char) (s : σ), ∃ ls tail s',
      front = (ls.map Lexeme.text).flatten ++ tail ∧
        tail.length < stride (k.classify (tail ++ behind) s').length (tail ++ behind) ∧
        (k.lexFrom (front ++ behind) s).1 = ls ++ (k.lexFrom (tail ++ behind) s').1
  | [], s => by
    refine ⟨[], [], s, rfl, ?_, rfl⟩
    exact Nat.lt_of_lt_of_le Nat.zero_lt_one (Nat.le_max_left 1 _)
  | c :: rest, s => by
    have hpos : 1 ≤ stride (k.classify (c :: rest ++ behind) s).length (c :: rest ++ behind) :=
      Nat.le_max_left 1 _
    by_cases hlong :
        (c :: rest).length < stride (k.classify (c :: rest ++ behind) s).length (c :: rest ++ behind)
    · exact ⟨[], c :: rest, s, rfl, hlong, rfl⟩
    · generalize hn : stride (k.classify (c :: rest ++ behind) s).length (c :: rest ++ behind) = n
        at hpos hlong
      have hle : n ≤ (c :: rest).length := Nat.le_of_not_lt hlong
      have hlt : ((c :: rest).drop n).length < (c :: rest).length := by
        rw [List.length_drop]
        omega
      obtain ⟨ls, tail, s', hfront, htail, hlex⟩ := exists_lexFrom_append k hbehind
        ((c :: rest).drop n) (k.classify (c :: rest ++ behind) s).state
      refine ⟨⟨(c :: rest).take n, (k.classify (c :: rest ++ behind) s).category⟩ :: ls, tail, s',
        ?_, htail, ?_⟩
      · rw [List.map_cons, List.flatten_cons, List.append_assoc, ← hfront, List.take_append_drop]
      · rw [List.cons_append, lexFrom, List.cons_append, ← hlex, ← List.cons_append]
        simp only [hn, List.drop_append_of_le_length hle, List.take_append_of_le_length hle]
termination_by front => front.length
decreasing_by exact hlt

/-- The lexeme that the next step takes. -/
theorem lexFrom_eq_cons (k : Classifier σ) {text : List Char} (hne : text ≠ []) (s : σ) :
    ∃ later, (k.lexFrom text s).1 =
      ⟨text.take (stride (k.classify text s).length text), (k.classify text s).category⟩ ::
        later := by
  obtain ⟨c, rest, rfl⟩ := List.exists_cons_of_ne_nil hne
  rw [lexFrom]
  exact ⟨_, rfl⟩

/-- Tokens in front of a lexeme and from it on. -/
theorem tokenize_of_lex {k : Classifier σ} {text : List Char} {ls more : List Lexeme} {l : Lexeme}
    (h : k.lex text = ls ++ l :: more) :
    k.tokenize text =
      Token.place 0 ls ++
        ⟨byteLength (ls.map Lexeme.text).flatten,
          byteLength (ls.map Lexeme.text).flatten + byteLength l.text, l.category⟩ ::
          Token.place (byteLength (ls.map Lexeme.text).flatten + byteLength l.text) more := by
  have hplace := Token.place_append 0 ls (l :: more)
  rw [Nat.zero_add, ← h] at hplace
  exact hplace

/-- The token over a position has the category of the step that reaches past it. -/
theorem exists_token_of_lex {k : Classifier σ} {front tail behind : List Char} {ls : List Lexeme}
    {s : σ} (hbehind : behind ≠ []) (hfront : front = (ls.map Lexeme.text).flatten ++ tail)
    (hcovers : tail.length < stride (k.classify (tail ++ behind) s).length (tail ++ behind))
    (hlex : k.lex (front ++ behind) = ls ++ (k.lexFrom (tail ++ behind) s).1) :
    ∃ t ∈ k.tokenize (front ++ behind), t.start ≤ byteLength front ∧ byteLength front < t.stop ∧
      t.category = (k.classify (tail ++ behind) s).category := by
  obtain ⟨later, hfirst⟩ :=
    k.lexFrom_eq_cons (List.append_ne_nil_of_right_ne_nil tail hbehind) s
  rw [hfirst] at hlex
  have htokens := tokenize_of_lex hlex
  refine ⟨_, htokens ▸ List.mem_append_right _ List.mem_cons_self, ?_, ?_, rfl⟩
  · simp [hfront]
  · obtain ⟨c, more, rfl⟩ := List.exists_cons_of_ne_nil hbehind
    obtain ⟨n, hn⟩ := Nat.exists_eq_add_of_lt hcovers
    have hpos := c.utf8Size_pos
    simp only [hfront, byteLength_append]
    rw [hn, Nat.add_assoc, List.take_length_add_append, byteLength_append, List.take_succ_cons,
      byteLength_cons]
    omega

/-- At every position of a text some token goes on, and some step has taken it. -/
theorem exists_token_at (k : Classifier σ) {behind : List Char} (hbehind : behind ≠ [])
    (front : List Char) : ∃ t ∈ k.tokenize (front ++ behind), ∃ tail s,
      t.start ≤ byteLength front ∧ byteLength front < t.stop ∧
        tail.length < stride (k.classify (tail ++ behind) s).length (tail ++ behind) ∧
          t.category = (k.classify (tail ++ behind) s).category := by
  obtain ⟨ls, tail, s, hfront, hcovers, hlex⟩ := k.exists_lexFrom_append hbehind front k.start
  obtain ⟨t, ht, hstart, hstop, hcategory⟩ := exists_token_of_lex hbehind hfront hcovers hlex
  exact ⟨t, ht, tail, s, hstart, hstop, hcovers, hcategory⟩

end Classifier

namespace Highlight

variable {s s' : OmlState} {v : Vocabulary} {tail rest lexeme text : List Char}
  {category : Category}

/-- A name and a colon that are one word. -/
def GluedColon (l : Lexeme) : Prop :=
  ∃ name, name ≠ [] ∧ (∀ c ∈ name, isOmlWordChar c = true) ∧ l.text = name ++ [':']

/-- The step takes `tail` and the colon behind it: the operator, or a name with its colon. -/
def TakesColon (tail : List Char) (step : Step OmlState) : Prop :=
  ∃ category s', step = .take (tail ++ [':']) category s' ∧
    (⟨tail ++ [':'], category⟩ = Lexeme.colon ∨ GluedColon ⟨tail ++ [':'], category⟩)

/-- If a step reaches past `tail` and is neither a comment nor a literal, it takes the colon that
stands there and nothing behind it. -/
def MeetsColon (tail rest : List Char) (step : Step OmlState) : Prop :=
  tail.length < Classifier.stride step.length (tail ++ ':' :: rest) →
    step.category ≠ .comment → step.category ≠ .string → TakesColon tail step

/-- A lexeme that reaches past a position has the character there. -/
theorem prefix_of_stride {mark : Char} (hne : lexeme ≠ []) (hstarts : lexeme <+: tail ++ mark :: rest)
    (hcovers : tail.length < Classifier.stride (byteLength lexeme) (tail ++ mark :: rest)) :
    tail ++ [mark] <+: lexeme := by
  obtain ⟨more, hmore⟩ := hstarts
  rw [← hmore, Classifier.stride_append hne more] at hcovers
  have hlonger : tail ++ [mark] <+: tail ++ mark :: rest :=
    (List.prefix_append_right_inj tail).2 (prefix_head mark rest)
  refine List.prefix_of_prefix_length_le hlonger ⟨more, hmore⟩ ?_
  rw [List.length_append]
  exact hcovers

/-- A lexeme of one character reaches another only if it is that one. -/
theorem eq_of_stride_singleton {c mark : Char} (hstarts : [c] <+: tail ++ mark :: rest)
    (hcovers : tail.length < Classifier.stride (byteLength [c]) (tail ++ mark :: rest)) :
    tail = [] ∧ c = mark := by
  have hmark := prefix_of_stride (List.cons_ne_nil c []) hstarts hcovers
  have hlength := hmark.length_le
  rw [List.length_append, List.length_singleton, List.length_singleton] at hlength
  obtain rfl : tail = [] := List.length_eq_zero_iff.1 (by omega)
  exact ⟨rfl, (List.cons_prefix_cons.1 hmark).1.symm⟩

/-- The run of word characters ends with the colon when no word character follows it. -/
theorem takeWhile_name_colon (hname : ∀ c ∈ tail, isOmlWordChar c = true)
    (hrest : ∀ c ∈ rest.head?, isOmlWordChar c = false) :
    (tail ++ ':' :: rest).takeWhile isOmlWordChar = tail ++ [':'] := by
  have hcolon : ∀ c ∈ tail ++ [':'], isOmlWordChar c = true := by
    rw [List.forall_mem_append]
    exact ⟨hname, List.forall_mem_singleton.2 rfl⟩
  rw [List.append_cons, takeWhile_append_of_head? hcolon hrest]

theorem meetsColon_word (v : Vocabulary) (tail : List Char) (s : OmlState)
    (hrest : ∀ d ∈ rest.head?, isOmlWordChar d = false) :
    MeetsColon tail rest (classifyOmlWord v (tail ++ ':' :: rest) s) := by
  obtain ⟨c, more, hcons⟩ := List.exists_cons_of_ne_nil
    (List.append_ne_nil_of_right_ne_nil tail (List.cons_ne_nil ':' rest))
  have htext : c :: more = tail ++ ':' :: rest := hcons.symm
  have hfirst : [c] <+: tail ++ ':' :: rest := htext ▸ prefix_head c more
  rw [hcons]
  unfold classifyOmlWord
  simp only
  split
  · intro hcovers _ _
    obtain ⟨rfl, rfl⟩ := eq_of_stride_singleton hfirst hcovers
    exact ⟨_, _, rfl, .inl rfl⟩
  rename_i hoperator
  have hne : c ≠ ':' := by
    rintro rfl
    exact hoperator (by decide)
  split
  · intro hcovers _ _
    exact absurd (eq_of_stride_singleton hfirst hcovers).2 hne
  · rename_i hword
    have hstarts : (c :: more).takeWhile isOmlWordChar <+: tail ++ ':' :: rest :=
      htext ▸ List.takeWhile_prefix isOmlWordChar
    intro hcovers _ _
    have hcolon := prefix_of_stride hword hstarts hcovers
    have hname : ∀ d ∈ tail, isOmlWordChar d = true := fun d hd =>
      List.all_eq_true.1 List.all_takeWhile d (hcolon.subset (List.mem_append_left _ hd))
    have htail : tail ≠ [] := by
      rintro rfl
      exact hne (List.cons.inj htext).1
    rw [htext, takeWhile_name_colon hname hrest]
    exact ⟨_, _, rfl, .inr ⟨tail, htail, hname, rfl⟩⟩

/-- Such a character stands in no run of blanks, number, variable name or separator. -/
structure Foreign (c : Char) : Prop where
  blank : isBlank c = false
  word : Run.isWordChar c = false
  sign : c ∉ ['-', '.', '@']

theorem not_mem_takeWhile {mark : Char} {p : Char → Bool} (hp : p mark = false)
    (text : List Char) : mark ∉ text.takeWhile p := by
  intro hmem
  have hmark := List.all_eq_true.1 List.all_takeWhile mark hmem
  rw [hp] at hmark
  cases hmark

theorem Foreign.not_mem_number {mark : Char} (h : Foreign mark) {limit : Nat} {n : List Char}
    (hn : Run.number limit text = some n) : mark ∉ n := by
  intro hmem
  have hsign := h.sign
  rcases mem_number hn mark hmem with hdigit | rfl | rfl
  · have hword : Run.isWordChar mark = true := by simp [Run.isWordChar, Char.isAlphanum, hdigit]
    rw [h.word] at hword
    cases hword
  · simp at hsign
  · simp at hsign

/-- A step that reaches over it and takes neither a comment nor a literal comes to the words. -/
theorem classifyOml_over {mark : Char} (hmark : Foreign mark) :
    tail.length <
        Classifier.stride (classifyOml v (tail ++ mark :: rest) s).length (tail ++ mark :: rest) →
      (classifyOml v (tail ++ mark :: rest) s).category ≠ .comment →
      (classifyOml v (tail ++ mark :: rest) s).category ≠ .string →
        classifyOml v (tail ++ mark :: rest) s = classifyOmlWord v (tail ++ mark :: rest) s ∧
          pathRun (tail ++ mark :: rest) = none := by
  have hsign := hmark.sign
  simp only [List.mem_cons, List.not_mem_nil, or_false, not_or] at hsign
  have hmissing : ∀ lexeme : List Char, lexeme ≠ [] → lexeme <+: tail ++ mark :: rest →
      mark ∉ lexeme →
        ¬ tail.length < Classifier.stride (byteLength lexeme) (tail ++ mark :: rest) :=
    fun lexeme hne hstarts hmem hcovers => hmem <|
      (prefix_of_stride hne hstarts hcovers).subset
        (List.mem_append_right tail (List.mem_singleton_self mark))
  obtain ⟨c, more, hcons⟩ := List.exists_cons_of_ne_nil
    (List.append_ne_nil_of_right_ne_nil tail (List.cons_ne_nil mark rest))
  rw [hcons] at hmissing ⊢
  unfold classifyOml
  simp only
  split
  · rename_i hblank
    exact fun h _ _ => absurd h (hmissing (Run.blanks (c :: more)) (by simp [Run.blanks, hblank])
      (List.takeWhile_prefix isBlank) (not_mem_takeWhile hmark.blank (c :: more)))
  split
  · exact fun _ h _ => absurd rfl h
  split
  · exact fun h _ _ => absurd h
      (hmissing _ (by decide) (List.isPrefixOf_iff_prefix.1 ‹_›) (by simp [hsign.1]))
  split
  · exact fun _ _ h => absurd rfl h
  split
  · rename_i n hn
    exact fun h _ _ => absurd h
      (hmissing n (number_ne_nil hn) (ByteScan.prefix_of_number hn) (hmark.not_mem_number hn))
  split
  · rename_i hat
    have hne : mark ≠ c := fun heq => hsign.2.2 (heq.trans (eq_of_beq hat))
    split
    · exact fun h _ _ => absurd h
        (hmissing [c] (List.cons_ne_nil c []) (prefix_head c more) (by simpa using hne))
    · have hname : mark ∉ c :: more.takeWhile Run.isWordChar :=
        List.not_mem_cons_of_ne_of_not_mem hne (not_mem_takeWhile hmark.word more)
      exact fun h _ _ => absurd h (hmissing _ (List.cons_ne_nil c _)
        (List.cons_prefix_cons.2 ⟨rfl, List.takeWhile_prefix Run.isWordChar⟩) hname)
  split
  · exact fun _ _ h => absurd rfl h
  · exact fun _ _ _ => ⟨rfl, ‹_›⟩

theorem meetsColon_classifyOml (v : Vocabulary) (tail : List Char) (s : OmlState)
    (hrest : ∀ d ∈ rest.head?, isOmlWordChar d = false) :
    MeetsColon tail rest (classifyOml v (tail ++ ':' :: rest) s) := by
  have hforeign : Foreign ':' := ⟨by decide, by decide, by decide⟩
  intro hcovers hcomment hstring
  obtain ⟨hword, -⟩ := classifyOml_over hforeign hcovers hcomment hstring
  rw [hword] at hcovers hcomment hstring ⊢
  exact meetsColon_word v tail s hrest hcovers hcomment hstring

/-- A word of letters that no word character follows is one lexeme. -/
theorem classifyOml_of_isAlpha {word behind : List Char} (hne : word ≠ [])
    (hword : ∀ c ∈ word, c.isAlpha = true) (hbehind : ∀ c ∈ behind.head?, isOmlWordChar c = false)
    (v : Vocabulary) (s : OmlState) :
    ∃ role : WordRole,
      classifyOml v (word ++ behind) s = .take word role.category (s.pastWord role) := by
  have hrun : (word ++ behind).takeWhile isOmlWordChar = word := by
    refine takeWhile_append_of_head? (fun c hc => ?_) hbehind
    simp [isOmlWordChar, Run.isWordChar, Char.isAlphanum, hword c hc]
  obtain ⟨c, more, rfl⟩ := List.exists_cons_of_ne_nil hne
  have hletter : c.isAlpha = true := hword c List.mem_cons_self
  have hinert : ¬Inert c := fun h => by
    have hfalse := h.letter
    rw [hletter] at hfalse
    cases hfalse
  have hsign : ∀ d, d.isAlpha = false → (c == d) = false := fun d hd =>
    beq_false_of_ne (ne_of_accepts hletter hd)
  have hblank : ¬isBlank c = true := fun h => hinert (inert_of_isBlank h)
  have hcomment : ¬startsComment (c :: (more ++ behind)) = true :=
    fun h => hinert (inert_of_startsComment h)
  have hdashes : ¬['-', '-', '-'].isPrefixOf (c :: (more ++ behind)) = true := by
    rw [List.isPrefixOf_cons_cons, Bool.beq_comm, hsign '-' (by decide), Bool.false_and]
    exact Bool.false_ne_true
  have hquote : ¬(c == '"') = true := by simp [hsign '"' (by decide)]
  have hnumber : Run.number 3 (c :: (more ++ behind)) = none := by
    cases hn : Run.number 3 (c :: (more ++ behind)) with
    | none => rfl
    | some n =>
      obtain ⟨d, ds, rfl⟩ := List.exists_cons_of_ne_nil (number_ne_nil hn)
      obtain ⟨rfl, -⟩ := List.cons_prefix_cons.1 (ByteScan.prefix_of_number hn)
      exact absurd (inert_of_number hn d List.mem_cons_self) hinert
  have hat : ¬(c == '@') = true := by simp [hsign '@' (by decide)]
  have hpath : pathRun (c :: (more ++ behind)) = none := by
    have hslash : c ≠ '/' := beq_eq_false_iff_ne.1 (hsign '/' (by decide))
    simp [pathRun, hslash]
  have hoperator : ¬punctuation.contains c = true := by
    rw [not_punctuation (p := Char.isAlpha) (by decide) hletter]
    exact Bool.false_ne_true
  rw [List.cons_append] at hrun ⊢
  simp only [classifyOml, if_neg hblank, if_neg hcomment, if_neg hdashes, if_neg hquote, hnumber,
    if_neg hat, hpath, classifyOmlWord, if_neg hoperator, hrun]
  exact ⟨_, rfl⟩

/-- The lexemes around a colon that is code: the one that ends with it, the blank characters and
the word behind it. -/
theorem exists_lexFrom_colon {tail gap word behind : List Char} (hgap : gap ≠ [])
    (hblank : ∀ c ∈ gap, isBlank c = true) (hne : word ≠ [])
    (hword : ∀ c ∈ word, c.isAlpha = true) (hbehind : ∀ c ∈ behind.head?, isOmlWordChar c = false)
    (h : TakesColon tail (classifyOml v (tail ++ ':' :: (gap ++ (word ++ behind))) s)) :
    ∃ l category later, l.text = tail ++ [':'] ∧ (l = .colon ∨ GluedColon l) ∧
      ((oml v).lexFrom (tail ++ ':' :: (gap ++ (word ++ behind))) s).1 =
        l :: ⟨gap, .unstyled⟩ :: ⟨word, category⟩ :: later := by
  obtain ⟨category, s', hstep, hcolon⟩ := h
  obtain ⟨role, hrole⟩ := classifyOml_of_isAlpha hne hword hbehind v s'
  have hvisible : ∀ c ∈ (word ++ behind).head?, isBlank c = false := by
    obtain ⟨c, more, rfl⟩ := List.exists_cons_of_ne_nil hne
    intro d hd
    cases hd
    apply Reading.not_blank_of_isWordChar
    simp [Run.isWordChar, Char.isAlphanum, hword c List.mem_cons_self]
  refine ⟨_, role.category, ((oml v).lexFrom behind (s'.pastWord role)).1, rfl, hcolon, ?_⟩
  rw [List.append_cons] at hstep ⊢
  have hclassify : (oml v).classify (tail ++ [':'] ++ (gap ++ (word ++ behind))) s =
      .take (tail ++ [':']) category s' := hstep
  have hclassifyWord : (oml v).classify (word ++ behind) s' =
      .take word role.category (s'.pastWord role) := hrole
  rw [Classifier.lexFrom_of_length (by simp) (by rw [hclassify]; rfl), hclassify]
  simp only [Step.take]
  rw [(lineBound_oml v).lexFrom_blanks hgap hblank hvisible,
    Classifier.lexFrom_of_length hne (by rw [hclassifyWord]; rfl), hclassifyWord]
  rfl

/-- The step that reaches the colon is no comment and no literal if the token over it is neither. -/
theorem takesColon_of_tokens {front tail : List Char} {ls : List Lexeme}
    (hrest : ∀ c ∈ rest.head?, isOmlWordChar c = false)
    (hfront : front = (ls.map Lexeme.text).flatten ++ tail)
    (hcovers : tail.length <
      Classifier.stride (classifyOml v (tail ++ ':' :: rest) s).length (tail ++ ':' :: rest))
    (hlex : (oml v).lex (front ++ ':' :: rest) =
      ls ++ ((oml v).lexFrom (tail ++ ':' :: rest) s).1)
    (hcode : ∀ t ∈ (oml v).tokenize (front ++ ':' :: rest),
      t.start ≤ byteLength front → byteLength front < t.stop →
        t.category ≠ .comment ∧ t.category ≠ .string) :
    TakesColon tail (classifyOml v (tail ++ ':' :: rest) s) := by
  obtain ⟨t, ht, hstart, hstop, hcategory⟩ :=
    Classifier.exists_token_of_lex (List.cons_ne_nil ':' rest) hfront hcovers hlex
  obtain ⟨hcomment, hstring⟩ := hcode t ht hstart hstop
  rw [hcategory] at hcomment hstring
  exact meetsColon_classifyOml v tail s hrest hcovers hcomment hstring

theorem not_isOmlWordChar_of_isBlank {c : Char} (h : isBlank c = true) :
    isOmlWordChar c = false := by
  rw [isOmlWordChar, Bool.or_eq_false_iff]
  constructor
  · cases hword : Run.isWordChar c with
    | false => rfl
    | true =>
      rw [Reading.not_blank_of_isWordChar hword] at h
      cases h
  · rw [beq_eq_false_iff_ne]
    rintro rfl
    exact absurd h (by decide)

/-- A lexeme that moves no state leaves a pending colon pending. -/
theorem Plain.colonPending_cons {l : Lexeme} (h : Plain l) (earlier : List Lexeme) :
    colonPending (l :: earlier) = colonPending earlier := by
  have hcolon : l ≠ .colon := h.ne_operator (by decide)
  have hterminator : l ≠ .terminator := h.ne_operator (by decide)
  simp [colonPending, beq_false_of_ne hcolon, bne_iff_ne.2 hterminator,
    declares_of_ne _ h.notType]

/-- It leaves a remembered equals sign remembered, too. -/
theorem Plain.equals_mem_iff {l : Lexeme} (h : Plain l) (earlier : List Lexeme) :
    .equals ∈ sinceTerminator (l :: earlier) ↔ .equals ∈ sinceTerminator earlier := by
  have hequals : l ≠ .equals := h.ne_operator (by decide)
  have hterminator : l ≠ .terminator := h.ne_operator (by decide)
  simp [mem_sinceTerminator_cons, hequals.symm, hterminator]

theorem plain_of_isBlank {gap : List Char} (h : ∀ c ∈ gap, isBlank c = true) :
    Plain ⟨gap, .unstyled⟩ where
  notKeyword := fun hkeyword => by cases hkeyword
  notType := fun htype => by cases htype
  first := fun c hc => inert_of_isBlank (h c (List.mem_of_head? hc))

theorem letters_of_declaredType {word : List Char} (h : word ∈ Vocabulary.oml.declaredTypes) :
    word ≠ [] ∧ ∀ c ∈ word, c.isAlpha = true := by
  have hletters : Vocabulary.oml.declaredTypes.all fun w => !w.isEmpty && w.all Char.isAlpha := by
    decide
  simpa using List.all_eq_true.1 hletters word h

/-- Blank characters in front of a declared type do not matter for its category. -/
theorem typeName_iff_behind_blanks {text : List Char} {front after : List Token}
    {blanks t : Token} (hsplit : tokenize .oml text = front ++ blanks :: t :: after)
    (hword : t.textIn text ∈ Vocabulary.oml.declaredTypes) (hplain : Plain (blanks.lexemeIn text)) :
    t.category = .typeName ↔
      colonPending (front.map (·.lexemeIn text)).reverse = true ∧
        .equals ∉ sinceTerminator (front.map (·.lexemeIn text)).reverse := by
  have hall : tokenize .oml text = (front ++ [blanks]) ++ t :: after := hsplit.trans (by simp)
  have hiff := typeName_iff_colonPending hall hword
  rwa [List.map_append, List.map_singleton, List.reverse_append, List.reverse_singleton,
    List.singleton_append, hplain.colonPending_cons, hplain.equals_mem_iff] at hiff

/-- A declared type behind a colon that is code, whatever blank characters stand between them. If
the colon is an operator, the word is a type unless an equals sign stands behind the last
terminator. If the colon belongs to a name, the word is a type only where a colon was pending
already. -/
theorem typeName_iff_of_colon {front gap word behind : List Char} (hgap : gap ≠ [])
    (hblank : ∀ c ∈ gap, isBlank c = true) (hword : word ∈ Vocabulary.oml.declaredTypes)
    (hbehind : ∀ c ∈ behind.head?, isBlank c = true)
    (hcode : ∀ t ∈ tokenize .oml (front ++ ':' :: (gap ++ (word ++ behind))),
      t.start ≤ byteLength front → byteLength front < t.stop →
        t.category ≠ .comment ∧ t.category ≠ .string) :
    let text := front ++ ':' :: (gap ++ (word ++ behind))
    ∃ before colon blanks t after,
      let earlier := ((before ++ [colon]).map (·.lexemeIn text)).reverse
      tokenize .oml text = before ++ colon :: blanks :: t :: after ∧
        ((before ++ [colon]).map (·.textIn text)).flatten = front ++ [':'] ∧
        blanks.textIn text = gap ∧ t.textIn text = word ∧
        (colon.lexemeIn text = .colon ∧
            (t.category = .typeName ↔ .equals ∉ sinceTerminator earlier) ∨
          GluedColon (colon.lexemeIn text) ∧
            (t.category = .typeName ↔
              colonPending earlier = true ∧ .equals ∉ sinceTerminator earlier)) := by
  intro text
  obtain ⟨hne, halpha⟩ := letters_of_declaredType hword
  have hrest : ∀ c ∈ (gap ++ (word ++ behind)).head?, isOmlWordChar c = false := by
    obtain ⟨c, more, rfl⟩ := List.exists_cons_of_ne_nil hgap
    intro d hd
    cases hd
    exact not_isOmlWordChar_of_isBlank (hblank c List.mem_cons_self)
  obtain ⟨ls, tail, s, hfront, hcovers, hlex⟩ := (oml Vocabulary.oml).exists_lexFrom_append
    (List.cons_ne_nil ':' (gap ++ (word ++ behind))) front {}
  have htakes := takesColon_of_tokens hrest hfront hcovers hlex hcode
  obtain ⟨l, category, later, hl, hcolon, hbehindColon⟩ := exists_lexFrom_colon hgap hblank hne
    halpha (fun c hc => not_isOmlWordChar_of_isBlank (hbehind c hc)) htakes
  -- the tokens that mark these lexemes
  have hlexemes : (tokenize .oml text).map (·.lexemeIn text) =
      ls ++ l :: ⟨gap, .unstyled⟩ :: ⟨word, category⟩ :: later := by
    rw [← hbehindColon, ← hlex]
    exact (oml Vocabulary.oml).map_lexemeIn_tokenize text
  obtain ⟨before, _, htokens, hbefore, hmore⟩ := List.map_eq_append_iff.1 hlexemes
  obtain ⟨colon, _, rfl, hcolonLexeme, hmore⟩ := List.map_eq_cons_iff.1 hmore
  obtain ⟨blanks, _, rfl, hblanks, hmore⟩ := List.map_eq_cons_iff.1 hmore
  obtain ⟨t, after, rfl, ht, -⟩ := List.map_eq_cons_iff.1 hmore
  have htext : t.textIn text = word := congrArg Lexeme.text ht
  have hearlier : (before ++ [colon]).map (·.lexemeIn text) = ls ++ [l] := by
    rw [List.map_append, hbefore, List.map_singleton, hcolonLexeme]
  have htype : t.category = .typeName ↔
      colonPending (ls ++ [l]).reverse = true ∧ .equals ∉ sinceTerminator (ls ++ [l]).reverse := by
    rw [← hearlier]
    exact typeName_iff_behind_blanks (htokens.trans (List.append_cons ..)) (htext ▸ hword)
      (hblanks ▸ plain_of_isBlank hblank)
  refine ⟨before, colon, blanks, t, after, htokens, ?_, congrArg Lexeme.text hblanks, htext, ?_⟩
  · have htexts : ((before ++ [colon]).map (·.lexemeIn text)).map Lexeme.text =
        (before ++ [colon]).map (·.textIn text) := List.map_map
    rw [← htexts, hearlier, hfront]
    simp [hl]
  · rw [hearlier, hcolonLexeme]
    rcases hcolon with rfl | hglued
    · rw [List.reverse_append] at htype ⊢
      exact .inl ⟨rfl, htype.trans (and_iff_right rfl)⟩
    · exact .inr ⟨hglued, htype⟩

/-- The colon of `x:` belongs to the name and no other colon is pending, so `digit` is no type. -/
theorem typeName_iff_of_colon_glued :
    let front := ['x']
    let gap := [' ']
    let word := "digit".toList
    let text := front ++ ':' :: (gap ++ (word ++ []))
    gap ≠ [] ∧ (∀ c ∈ gap, isBlank c = true) ∧ word ∈ Vocabulary.oml.declaredTypes ∧
      (∀ c ∈ ([] : List Char).head?, isBlank c = true) ∧
      (∀ t ∈ tokenize .oml text, t.start ≤ byteLength front → byteLength front < t.stop →
        t.category ≠ .comment ∧ t.category ≠ .string) ∧
      ∃ before colon blanks t after,
        let earlier := ((before ++ [colon]).map (·.lexemeIn text)).reverse
        tokenize .oml text = before ++ colon :: blanks :: t :: after ∧
          ((before ++ [colon]).map (·.textIn text)).flatten = front ++ [':'] ∧
          blanks.textIn text = gap ∧ t.textIn text = word ∧
          (colon.lexemeIn text = .colon ∧
              (t.category = .typeName ↔ .equals ∉ sinceTerminator earlier) ∨
            GluedColon (colon.lexemeIn text) ∧
              (t.category = .typeName ↔
                colonPending earlier = true ∧ .equals ∉ sinceTerminator earlier)) := by
  intro front gap word text
  have hgap : gap ≠ [] := List.cons_ne_nil _ _
  have hblank : ∀ c ∈ gap, isBlank c = true := List.forall_mem_singleton.2 rfl
  have hword : word ∈ Vocabulary.oml.declaredTypes := by decide
  have hbehind : ∀ c ∈ ([] : List Char).head?, isBlank c = true := nofun
  have hcode : ∀ t ∈ tokenize .oml text, t.start ≤ byteLength front → byteLength front < t.stop →
      t.category ≠ .comment ∧ t.category ≠ .string := by decide +kernel
  exact ⟨hgap, hblank, hword, hbehind, hcode, typeName_iff_of_colon hgap hblank hword hbehind hcode⟩

example : tokenize .oml "x: digit".toList =
    [⟨0, 2, .variableName⟩, ⟨2, 3, .unstyled⟩, ⟨3, 8, .variableName⟩] := by decide +kernel

example : tokenize .oml "x : digit".toList =
    [⟨0, 1, .variableName⟩, ⟨1, 2, .unstyled⟩, ⟨2, 3, .operator⟩, ⟨3, 4, .unstyled⟩,
      ⟨4, 9, .typeName⟩] := by decide +kernel

end Highlight

end LogScript
