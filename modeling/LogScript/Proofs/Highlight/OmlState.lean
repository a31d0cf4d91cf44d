import LogScript.Proofs.Highlight.Reached

/-!
What the state of the OML classifier remembers. A step cuts off a separator, an operator, a word or
something that the state takes no notice of; nothing else can happen. From that follows how the
state comes out of the lexemes: the sections from the number of separators, and whether an equals
sign has been seen from the operators behind the last terminator.
-/

namespace LogScript

/-- The line that divides sections. -/
def Lexeme.separator : Lexeme :=
  ⟨['-', '-', '-'], .keyword⟩

def Lexeme.operator (c : Char) : Lexeme :=
  ⟨[c], .operator⟩

def Lexeme.colon : Lexeme :=
  .operator ':'

def Lexeme.equals : Lexeme :=
  .operator '='

/-- The end of a statement. -/
def Lexeme.terminator : Lexeme :=
  .operator ';'

@[simp] theorem Lexeme.operator_inj {c d : Char} : Lexeme.operator c = .operator d ↔ c = d := by
  simp [Lexeme.operator]

@[simp] theorem Lexeme.operator_ne_separator (c : Char) : Lexeme.operator c ≠ .separator := by
  intro h
  cases congrArg Lexeme.category h

@[simp] theorem Lexeme.separator_ne_operator (c : Char) : Lexeme.separator ≠ .operator c :=
  (Lexeme.operator_ne_separator c).symm

namespace Highlight

/-- The lexemes behind the last terminator; the list is latest first. -/
def sinceTerminator (earlier : List Lexeme) : List Lexeme :=
  earlier.takeWhile (· != .terminator)

/-- Words start with such a character. -/
structure OpensWord (c : Char) : Prop where
  word : isOmlWordChar c = true
  operator : punctuation.contains c = false

/-- No name and no operator starts with such a character. -/
structure Inert (c : Char) : Prop where
  letter : c.isAlpha = false
  operator : punctuation.contains c = false

/-- A lexeme that moves no state: it is no name, no operator of the language and no separator. -/
structure Plain (l : Lexeme) : Prop where
  notKeyword : l.category ≠ .keyword
  notType : l.category ≠ .typeName
  first : ∀ c ∈ l.text.head?, Inert c

/-- All that a step from state `s` can do. -/
inductive OmlMove (v : Vocabulary) (s : OmlState) : Lexeme → OmlState → Prop where
  | separator : OmlMove v s .separator s.pastSeparator
  | operator {c : Char} (h : punctuation.contains c = true) :
    OmlMove v s (.operator c) (s.pastOperator c)
  | word {c : Char} (rest : List Char) (call : Bool) (h : OpensWord c) :
    OmlMove v s ⟨c :: rest, (v.roleOf (c :: rest) s.position call).category⟩
      (s.pastWord (v.roleOf (c :: rest) s.position call))
  | plain {l : Lexeme} (h : Plain l) : OmlMove v s l s

theorem not_punctuation {p : Char → Bool} (hsigns : punctuation.any p = false) {c : Char}
    (h : p c = true) : punctuation.contains c = false := by
  simp only [Bool.eq_false_iff, ne_eq, List.contains_iff_mem]
  intro hc
  exact List.any_eq_false.1 hsigns c hc h

theorem inert_of_isBlank {c : Char} (h : isBlank c = true) : Inert c := by
  refine ⟨?_, not_punctuation (by decide) h⟩
  cases hc : c.isAlpha with
  | false => rfl
  | true =>
    have hword : Run.isWordChar c = true := by simp [Run.isWordChar, Char.isAlphanum, hc]
    rw [Reading.not_blank_of_isWordChar hword] at h
    cases h

theorem inert_of_isDigit {c : Char} (h : c.isDigit = true) : Inert c := by
  refine ⟨?_, not_punctuation (by decide) h⟩
  cases hc : c.isAlpha with
  | false => rfl
  | true =>
    have hletter : (decide (c.val ≥ 'A'.val ∧ c.val ≤ 'Z'.val) ||
        (decide (c.val ≥ 'a'.val) && decide (c.val ≤ 'z'.val))) = true := hc
    simp only [Char.isDigit, Bool.or_eq_true, Bool.and_eq_true, decide_eq_true_eq,
      UInt32.le_iff_toNat_le, ge_iff_le] at h hletter
    change 48 ≤ c.val.toNat ∧ c.val.toNat ≤ 57 at h
    change (65 ≤ c.val.toNat ∧ c.val.toNat ≤ 90) ∨ (97 ≤ c.val.toNat ∧ c.val.toNat ≤ 122)
      at hletter
    omega

theorem inert_of_startsComment {c : Char} {rest : List Char}
    (h : startsComment (c :: rest) = true) : Inert c := by
  have hfirst : c = '#' ∨ c = '/' := by
    simp only [startsComment, List.head?_cons, Bool.or_eq_true, List.isPrefixOf_cons_cons,
      Bool.and_eq_true, beq_iff_eq, Option.some.injEq] at h
    rcases h with h | h
    · exact .inl h
    · exact .inr h.1.symm
  rcases hfirst with rfl | rfl
  · exact ⟨by decide, by decide⟩
  · exact ⟨by decide, by decide⟩

theorem inert_of_number {limit : Nat} {n : List Char} {text : List Char}
    (h : Run.number limit text = some n) : ∀ c ∈ n, Inert c := by
  intro c hc
  rcases mem_number h c hc with hdigit | rfl | rfl
  · exact inert_of_isDigit hdigit
  · exact ⟨by decide, by decide⟩
  · exact ⟨by decide, by decide⟩

theorem inert_of_not_isOmlWordChar {c : Char} (hword : isOmlWordChar c = false)
    (hoperator : punctuation.contains c = false) : Inert c := by
  refine ⟨?_, hoperator⟩
  simp only [isOmlWordChar, Run.isWordChar, Char.isAlphanum, Bool.or_eq_false_iff] at hword
  exact hword.1.1.1

variable {v : Vocabulary} {s s' start : OmlState} {l : Lexeme} {text lexeme : List Char}
  {category : Category}

/-- What a step makes of a text is one of the moves. -/
def Moves (v : Vocabulary) (s : OmlState) (step : Step OmlState) (text : List Char) : Prop :=
  OmlMove v s ⟨text.take (Classifier.stride step.length text), step.category⟩ step.state

theorem moves_take (hne : lexeme ≠ []) (hstarts : lexeme <+: text)
    (h : OmlMove v s ⟨lexeme, category⟩ s') : Moves v s (.take lexeme category s') text := by
  obtain ⟨behind, rfl⟩ := hstarts
  have hstride := Classifier.stride_append hne behind
  simp only [Moves, Step.take, hstride, List.take_left]
  exact h

theorem moves_plain {c : Char} {rest : List Char} (hne : lexeme ≠ [])
    (hstarts : lexeme <+: c :: rest) (hkeyword : category ≠ .keyword)
    (htype : category ≠ .typeName) (hfirst : Inert c) :
    Moves v s (.take lexeme category s) (c :: rest) := by
  apply moves_take hne hstarts
  obtain ⟨first, more, rfl⟩ := List.exists_cons_of_ne_nil hne
  obtain ⟨rfl, -⟩ := List.cons_prefix_cons.1 hstarts
  refine .plain ⟨hkeyword, htype, fun d hd => ?_⟩
  cases hd
  exact hfirst

theorem moves_classifyOmlWord (v : Vocabulary) (s : OmlState) (c : Char) (rest : List Char) :
    Moves v s (classifyOmlWord v (c :: rest) s) (c :: rest) := by
  unfold classifyOmlWord
  simp only
  split
  · exact moves_take (List.cons_ne_nil c []) (prefix_head c rest) (.operator ‹_›)
  rename_i hoperator
  have hoperator' : punctuation.contains c = false := by simpa using hoperator
  cases hword : isOmlWordChar c with
  | false =>
    rw [List.takeWhile_cons_of_neg (by simp [hword])]
    exact moves_plain (List.cons_ne_nil c []) (prefix_head c rest) (by decide) (by decide)
      (inert_of_not_isOmlWordChar hword hoperator')
  | true =>
    have hstarts := List.takeWhile_prefix isOmlWordChar (l := c :: rest)
    rw [List.takeWhile_cons_of_pos hword] at hstarts ⊢
    exact moves_take (List.cons_ne_nil c _) hstarts (.word _ _ ⟨hword, hoperator'⟩)

theorem moves_classifyOml (v : Vocabulary) (s : OmlState) (c : Char) (rest : List Char) :
    Moves v s (classifyOml v (c :: rest) s) (c :: rest) := by
  unfold classifyOml
  simp only
  split
  · rename_i hblank
    exact moves_plain (by simp [Run.blanks, hblank]) (List.takeWhile_prefix isBlank) (by decide)
      (by decide) (inert_of_isBlank hblank)
  split
  · rename_i hcomment
    exact moves_plain (firstLine_ne_nil hcomment) (List.takeWhile_prefix _) (by decide)
      (by decide) (inert_of_startsComment hcomment)
  split
  · exact moves_take (by decide) (List.isPrefixOf_iff_prefix.1 ‹_›) .separator
  split
  · rename_i hquote
    rw [eq_of_beq hquote]
    exact moves_plain (quoted_ne_nil (by decide) rest) (prefix_of_quoted _ _) (by decide)
      (by decide) ⟨by decide, by decide⟩
  split
  · rename_i n hn
    have hne := number_ne_nil hn
    have hstarts := ByteScan.prefix_of_number hn
    obtain ⟨first, more, rfl⟩ := List.exists_cons_of_ne_nil hne
    obtain ⟨rfl, -⟩ := List.cons_prefix_cons.1 hstarts
    exact moves_plain hne hstarts (by decide) (by decide)
      (inert_of_number hn first List.mem_cons_self)
  have hat : Inert '@' := ⟨by decide, by decide⟩
  split
  · rename_i hc
    rw [eq_of_beq hc]
    split
    · exact moves_plain (List.cons_ne_nil _ _) (prefix_head _ rest) (by decide) (by decide) hat
    · exact moves_plain (List.cons_ne_nil _ _)
        (List.cons_prefix_cons.2 ⟨rfl, List.takeWhile_prefix Run.isWordChar⟩) (by decide)
        (by decide) hat
  split
  · rename_i path hpath
    obtain ⟨hne, hstarts⟩ := prefix_of_pathRun hpath
    have hslash : c = '/' := by
      unfold pathRun at hpath
      split at hpath
      · rename_i htext
        exact (List.cons.inj htext).1
      · cases hpath
    subst hslash
    exact moves_plain hne hstarts (by decide) (by decide) ⟨by decide, by decide⟩
  · exact moves_classifyOmlWord v s c rest

theorem omlMove_of_cuts (h : (oml v).Cuts s l s') : OmlMove v s l s' := by
  cases h with
  | intro c rest => exact moves_classifyOml v s c rest

theorem OpensWord.ne_operator {c d : Char} {rest : List Char} (h : OpensWord c)
    (hd : punctuation.contains d = true) : ⟨c :: rest, category⟩ ≠ Lexeme.operator d := by
  intro heq
  have hc : c = d := (List.cons.inj (congrArg Lexeme.text heq)).1
  rw [← hc, h.operator] at hd
  cases hd

theorem OpensWord.ne_separator {c : Char} {rest : List Char} (h : OpensWord c) :
    ⟨c :: rest, category⟩ ≠ Lexeme.separator := by
  intro heq
  have hc : c = '-' := (List.cons.inj (congrArg Lexeme.text heq)).1
  rw [hc] at h
  exact absurd h.word (by decide)

theorem Plain.ne_operator {d : Char} (h : Plain l) (hd : punctuation.contains d = true) :
    l ≠ .operator d := by
  rintro rfl
  rw [(h.first d rfl).operator] at hd
  cases hd

theorem Plain.ne_separator (h : Plain l) : l ≠ .separator := by
  rintro rfl
  exact h.notKeyword rfl

/-- Separators set the sections, whatever has been set before. -/
theorem pastSeparator_eq (s : OmlState) :
    s.pastSeparator = { s with inHeader := true, inPrivacy := s.inPrivacy || s.inHeader } := by
  simp only [OmlState.pastSeparator]
  split
  · simp [*]
  · simp [*]

/-- Colon and equals sign set a flag each; the terminator takes both back. -/
theorem pastOperator_eq (s : OmlState) (op : Char) :
    s.pastOperator op =
      { s with
        afterColon := op == ':' || (op != ';' && s.afterColon)
        afterEqual := op == '=' || (op != ';' && s.afterEqual) } := by
  by_cases hcolon : op = ':'
  · simp [OmlState.pastOperator, hcolon]
  by_cases hequals : op = '='
  · simp [OmlState.pastOperator, hequals]
  by_cases hterminator : op = ';'
  · simp [OmlState.pastOperator, hterminator]
  · have hcolon' : (op == ':') = false := beq_false_of_ne hcolon
    have hequals' : (op == '=') = false := beq_false_of_ne hequals
    have hterminator' : (op != ';') = true := bne_iff_ne.2 hterminator
    simp [OmlState.pastOperator, hcolon', hequals', hterminator, hterminator']

theorem pastWord_eq (s : OmlState) (role : WordRole) :
    s.pastWord role = { s with afterColon := !role.isDeclaration && s.afterColon } := by
  simp only [OmlState.pastWord]
  split
  · simp [*]
  · simp [*]

theorem OmlMove.inHeader_iff (h : OmlMove v s l s') :
    s'.inHeader = true ↔ l = .separator ∨ s.inHeader = true := by
  cases h with
  | separator => simp [pastSeparator_eq]
  | operator _ => simp [pastOperator_eq]
  | word _ _ h => simp [pastWord_eq, h.ne_separator]
  | plain h => simp [h.ne_separator]

theorem OmlMove.inPrivacy_iff (h : OmlMove v s l s') :
    s'.inPrivacy = true ↔ (l = .separator ∧ s.inHeader = true) ∨ s.inPrivacy = true := by
  cases h with
  | separator => simp [pastSeparator_eq, or_comm]
  | operator _ => simp [pastOperator_eq]
  | word _ _ h => simp [pastWord_eq, h.ne_separator]
  | plain h => simp [h.ne_separator]

theorem OmlMove.afterEqual_iff (h : OmlMove v s l s') :
    s'.afterEqual = true ↔ l = .equals ∨ (l ≠ .terminator ∧ s.afterEqual = true) := by
  have hequals : punctuation.contains '=' = true := by decide
  have hterminator : punctuation.contains ';' = true := by decide
  cases h with
  | separator => simp [pastSeparator_eq, Lexeme.equals, Lexeme.terminator]
  | operator _ => simp [pastOperator_eq, Lexeme.equals, Lexeme.terminator]
  | word _ _ h =>
    simp [pastWord_eq, Lexeme.equals, Lexeme.terminator, h.ne_operator hequals,
      h.ne_operator hterminator]
  | plain h =>
    simp [Lexeme.equals, Lexeme.terminator, h.ne_operator hequals, h.ne_operator hterminator]

/-- A colon is pending only behind one that no terminator has taken back. -/
theorem OmlMove.colon_of_afterColon (h : OmlMove v s l s') (hcolon : s'.afterColon = true) :
    l = .colon ∨ (l ≠ .terminator ∧ s.afterColon = true) := by
  have hterminator : punctuation.contains ';' = true := by decide
  cases h with
  | separator => exact .inr ⟨Lexeme.separator_ne_operator ';', by simpa [pastSeparator_eq] using hcolon⟩
  | operator _ => simpa [pastOperator_eq, Lexeme.colon, Lexeme.terminator] using hcolon
  | word _ _ h =>
    simp only [pastWord_eq, Bool.and_eq_true] at hcolon
    exact .inr ⟨h.ne_operator hterminator, hcolon.2⟩
  | plain h => exact .inr ⟨h.ne_operator hterminator, hcolon⟩

theorem mem_sinceTerminator_cons {l' : Lexeme} {earlier : List Lexeme} :
    l ∈ sinceTerminator (l' :: earlier) ↔
      l' ≠ .terminator ∧ (l = l' ∨ l ∈ sinceTerminator earlier) := by
  by_cases h : l' = .terminator
  · simp [sinceTerminator, h]
  · simp [sinceTerminator, h]

variable {ls : List Lexeme}

/-- One separator, now or before the start, ends the header. -/
theorem inHeader_iff_of_reaches (h : (oml v).Reaches start ls s) :
    s.inHeader = true ↔ start.inHeader = true ∨ 1 ≤ ls.count .separator := by
  induction h with
  | start => simp
  | @step earlier s s' l _ cuts ih =>
    have hmove := (omlMove_of_cuts cuts).inHeader_iff
    by_cases hl : l = .separator
    · simp [hmove, hl]
    · simp [hmove, ih, hl]

/-- Two separators end the body, or one if the start lies behind the header. -/
theorem inPrivacy_iff_of_reaches (h : (oml v).Reaches start ls s) :
    s.inPrivacy = true ↔
      start.inPrivacy = true ∨ 2 ≤ ls.count .separator ∨
        (start.inHeader = true ∧ 1 ≤ ls.count .separator) := by
  induction h with
  | start => simp
  | @step earlier s s' l reached cuts ih =>
    rw [(omlMove_of_cuts cuts).inPrivacy_iff, inHeader_iff_of_reaches reached, ih]
    by_cases hl : l = .separator
    · have hone : 2 ≤ earlier.count .separator → 1 ≤ earlier.count .separator := by omega
      simp only [hl, List.count_cons_self, Nat.reduceLeDiff, Nat.le_add_left, true_and, and_true]
      grind
    · simp [hl]

/-- An equals sign is remembered up to the next terminator. -/
theorem afterEqual_iff_of_reaches (h : (oml v).Reaches start ls s) :
    s.afterEqual = true ↔
      .equals ∈ sinceTerminator ls ∨ (.terminator ∉ ls ∧ start.afterEqual = true) := by
  induction h with
  | start => simp [sinceTerminator]
  | @step earlier s s' l _ cuts ih =>
    have hne : Lexeme.equals ≠ .terminator := by decide
    rw [(omlMove_of_cuts cuts).afterEqual_iff, ih, mem_sinceTerminator_cons]
    by_cases hl : l = .terminator
    · simp [hl, hne.symm]
    by_cases heq : l = .equals
    · simp [heq, hne]
    · simp [hl, heq, Ne.symm heq, Ne.symm hl]

/-- A pending colon stands behind the last terminator. -/
theorem colon_of_afterColon_of_reaches (h : (oml v).Reaches start ls s)
    (hcolon : s.afterColon = true) :
    .colon ∈ sinceTerminator ls ∨ (.terminator ∉ ls ∧ start.afterColon = true) := by
  induction h with
  | start => exact .inr ⟨List.not_mem_nil, hcolon⟩
  | @step earlier s s' l _ cuts ih =>
    rw [mem_sinceTerminator_cons]
    rcases (omlMove_of_cuts cuts).colon_of_afterColon hcolon with rfl | ⟨hl, hpending⟩
    · exact .inl ⟨by decide, .inl rfl⟩
    · rcases ih hpending with hsince | ⟨hnone, hstart⟩
      · exact .inl ⟨hl, .inr hsince⟩
      · exact .inr ⟨by simp [Ne.symm hl, hnone], hstart⟩

end Highlight

end LogScript
