import Mathlib.Data.List.TakeWhile
import LogScript.Completion.Session
import LogScript.Text.Lines

/-!
How far back completion looks. An accepted completion replaces the run of identifier characters before
the cursor, or as much of it as the window reaches, or a bar. A run ends at every line break, so it
does not matter whether the text before the cursor is given as a whole or from the start of its line.
-/

namespace LogScript

theorem trailingRun_le (accept : Char → Bool) (text : List Char) :
    trailingRun accept text ≤ text.length := by
  have hle := (List.takeWhile_prefix accept (l := text.reverse)).length_le
  rwa [List.length_reverse] at hle

/-- The accepted run at the end of a text. -/
theorem exists_trailingRun (accept : Char → Bool) (text : List Char) :
    ∃ front run, text = front ++ run ∧ run.length = trailingRun accept text ∧
      ∀ c ∈ run, accept c = true := by
  obtain ⟨back, hback⟩ := List.takeWhile_prefix accept (l := text.reverse)
  refine ⟨back.reverse, (text.reverse.takeWhile accept).reverse, ?_, List.length_reverse, ?_⟩
  · rw [← List.reverse_append, hback, List.reverse_reverse]
  · intro c hc
    exact List.all_eq_true.1 List.all_takeWhile c (List.mem_reverse.1 hc)

/-- An accepted text behind another one makes its run longer. -/
theorem trailingRun_append_of_all {accept : Char → Bool} {back : List Char}
    (h : ∀ c ∈ back, accept c = true) (front : List Char) :
    trailingRun accept (front ++ back) = back.length + trailingRun accept front := by
  have hreverse : ∀ c ∈ back.reverse, accept c = true := fun c hc => h c (List.mem_reverse.1 hc)
  rw [trailingRun, List.reverse_append, List.takeWhile_append_of_pos hreverse, List.length_append,
    List.length_reverse, trailingRun]

theorem trailingRun_eq_zero {accept : Char → Bool} {text : List Char}
    (h : ∀ c ∈ text.getLast?, accept c = false) : trailingRun accept text = 0 := by
  rw [← List.head?_reverse] at h
  rw [trailingRun]
  cases hreverse : text.reverse with
  | nil => rfl
  | cons c rest =>
    rw [hreverse] at h
    rw [List.takeWhile_cons_of_neg (by simpa using h c rfl)]
    rfl

/-- Behind a text without a run, a run starts anew. -/
theorem trailingRun_append_of_eq_zero {accept : Char → Bool} {front : List Char}
    (h : trailingRun accept front = 0) (back : List Char) :
    trailingRun accept (front ++ back) = trailingRun accept back := by
  have hfront : front.reverse.takeWhile accept = [] := List.length_eq_zero_iff.1 h
  rw [trailingRun, List.reverse_append, List.takeWhile_append, hfront, List.append_nil, trailingRun]
  split
  · rename_i hall
    exact hall.symm
  · rfl

/-- The window cuts a run, and nothing else about it. -/
theorem trailingRun_completionWindow {accept : Char → Bool} (h : accept '\n' = false)
    (before : List Char) :
    trailingRun accept (completionWindow before) =
      min windowSize (trailingRun accept before) := by
  have hstops : ∀ c, (accept c = true ∧ (c != '\n') = true) = (accept c = true) := by
    intro c
    rw [eq_iff_iff, and_iff_left_iff_imp]
    exact fun hc => bne_iff_ne.2 (ne_of_accepts hc h)
  rw [trailingRun, completionWindow, List.reverse_reverse, ← List.take_takeWhile,
    List.takeWhile_takeWhile, List.length_take, trailingRun]
  simp only [hstops, Bool.decide_eq_true]

theorem getLast?_completionWindow {c : Char} (h : c ≠ '\n') (before : List Char) :
    (completionWindow before).getLast? = some c ↔ before.getLast? = some c := by
  rw [completionWindow, List.getLast?_reverse, List.head?_take, if_neg (by decide),
    List.head?_takeWhile, Option.filter_eq_some_iff, List.head?_reverse]
  simp [h]

theorem Language.isIdentifierChar_lineFeed (language : Language) :
    language.isIdentifierChar '\n' = false := by
  cases language <;> decide

/-- What an accepted completion replaces, told by the text before the cursor alone. -/
theorem replacedLength?_eq (language : Language) (before : List Char) (explicit : Bool) :
    replacedLength? language before explicit =
      if language = .oml ∧ before.getLast? = some '|' then some 1
      else if 0 < trailingRun language.isIdentifierChar before then
        some (min windowSize (trailingRun language.isIdentifierChar before))
      else if explicit then some 0 else none := by
  have hpos : 0 < min windowSize (trailingRun language.isIdentifierChar before) ↔
      0 < trailingRun language.isIdentifierChar before := by
    rw [Nat.lt_min, and_iff_right (by decide)]
  rw [replacedLength?]
  simp only [getLast?_completionWindow (show '|' ≠ '\n' by decide),
    trailingRun_completionWindow language.isIdentifierChar_lineFeed, gt_iff_lt, hpos]

theorem replacedLength?_le {language : Language} {before : List Char} {explicit : Bool} {n : Nat}
    (h : replacedLength? language before explicit = some n) : n ≤ before.length := by
  rw [replacedLength?_eq] at h
  split at h
  · rename_i hbar
    cases h
    obtain ⟨front, rfl⟩ := List.getLast?_eq_some_iff.1 hbar.2
    simp
  · split at h
    · cases h
      exact Nat.le_trans (Nat.min_le_right _ _) (trailingRun_le _ _)
    · split at h
      · cases h
        exact Nat.zero_le _
      · cases h

/-- Nothing is offered unless somebody asks or something stands before the cursor. -/
theorem replacedLength?_eq_none_iff {language : Language} {before : List Char} {explicit : Bool} :
    replacedLength? language before explicit = none ↔
      explicit = false ∧ trailingRun language.isIdentifierChar before = 0 ∧
        ¬(language = .oml ∧ before.getLast? = some '|') := by
  rw [replacedLength?_eq]
  by_cases hbar : language = .oml ∧ before.getLast? = some '|'
  · rw [if_pos hbar]
    exact iff_of_false (Option.some_ne_none 1) fun h => h.2.2 hbar
  rw [if_neg hbar]
  by_cases hrun : 0 < trailingRun language.isIdentifierChar before
  · rw [if_pos hrun]
    exact iff_of_false (Option.some_ne_none _) fun h => Nat.ne_of_gt hrun h.2.1
  rw [if_neg hrun]
  cases explicit with
  | true => exact iff_of_false (Option.some_ne_none 0) fun h => Bool.noConfusion h.1
  | false => exact iff_of_true rfl ⟨rfl, Nat.eq_zero_of_not_pos hrun, hbar⟩

theorem length_of_replacedLength? {language : Language} {before : List Char} {explicit : Bool}
    {n : Nat} (h : replacedLength? language before explicit = some n) :
    n = if language = .oml ∧ before.getLast? = some '|' then 1
      else min windowSize (trailingRun language.isIdentifierChar before) := by
  rw [replacedLength?_eq] at h
  by_cases hbar : language = .oml ∧ before.getLast? = some '|'
  · rw [if_pos hbar] at h ⊢
    exact (Option.some.inj h).symm
  rw [if_neg hbar] at h ⊢
  by_cases hrun : 0 < trailingRun language.isIdentifierChar before
  · rw [if_pos hrun] at h
    exact (Option.some.inj h).symm
  · rw [if_neg hrun] at h
    rw [Nat.eq_zero_of_not_pos hrun, Nat.min_zero]
    cases explicit with
    | true => exact (Option.some.inj h).symm
    | false => cases h

/-- What an accepted completion replaces is empty, or keeps the offer alive. -/
theorem valid_of_replacedLength? {language : Language} {before : List Char} {explicit : Bool}
    {n : Nat} (h : replacedLength? language before explicit = some n) :
    before.drop (before.length - n) = [] ∨
      language.isValidTyped (before.drop (before.length - n)) = true := by
  rw [replacedLength?_eq] at h
  split at h
  · rename_i hbar
    obtain ⟨rfl, hlast⟩ := hbar
    obtain ⟨front, rfl⟩ := List.getLast?_eq_some_iff.1 hlast
    cases h
    rw [List.length_append, List.length_singleton, Nat.add_sub_cancel, List.drop_left]
    exact .inr rfl
  · split at h
    · rename_i hrun
      obtain ⟨front, run, rfl, hlength, haccept⟩ :=
        exists_trailingRun language.isIdentifierChar before
      cases h
      rw [← hlength] at hrun ⊢
      have hdrop : (front ++ run).drop ((front ++ run).length - min windowSize run.length) =
          run.drop (run.length - min windowSize run.length) := by
        rw [List.length_append, Nat.add_sub_assoc (Nat.min_le_right _ _), List.drop_length_add_append]
      have hne : run.drop (run.length - min windowSize run.length) ≠ [] := by
        rw [← List.length_pos_iff, List.length_drop, windowSize]
        omega
      rw [hdrop, Language.isValidTyped, Bool.or_eq_true, Bool.and_eq_true, List.all_eq_true]
      exact .inr (.inl ⟨by simpa using hne, fun c hc => haccept c (List.mem_of_mem_drop hc)⟩)
    · split at h
      · cases h
        rw [Nat.sub_zero, List.drop_length]
        exact .inl rfl
      · cases h

theorem mem_lineBreaks {c : Char} (h : isLineBreak c = true) :
    c ∈ ['\n', '\x0b', '\x0c', '\r', '\u0085', '\u2028', '\u2029'] := by
  have hcode : c.toNat ∈ [0xA, 0xB, 0xC, 0xD, 0x85, 0x2028, 0x2029] := by
    simp only [isLineBreak, Bool.or_eq_true, Bool.and_eq_true, decide_eq_true_eq, beq_iff_eq] at h
    simp only [List.mem_cons, List.not_mem_nil, or_false]
    omega
  have hchar := List.mem_map_of_mem (f := Char.ofNat) hcode
  rwa [Char.ofNat_toNat] at hchar

/-- No line break is part of an identifier or a bar. -/
theorem not_isIdentifierChar_of_isLineBreak {c : Char} (h : isLineBreak c = true)
    (language : Language) : language.isIdentifierChar c = false ∧ c ≠ '|' := by
  have hbreaks : ['\n', '\x0b', '\x0c', '\r', '\u0085', '\u2028', '\u2029'].all
      (fun c => !language.isIdentifierChar c && c != '|') = true := by
    cases language <;> decide
  simpa using List.all_eq_true.1 hbreaks c (mem_lineBreaks h)

theorem lineStart_le (text : List Char) (position : Nat) : lineStart text position ≤ position := by
  rw [lineStart]
  cases hlast : ((lineStarts text).filter (· ≤ position)).getLast? with
  | none => exact Nat.zero_le _
  | some start =>
    have hmem := List.mem_of_getLast? hlast
    simpa using (List.mem_filter.1 hmem).2

/-- A line starts behind a line break. -/
theorem exists_break_of_mem_lineStartsFrom {offset start : Nat} {text : List Char}
    (h : start ∈ lineStartsFrom offset text) :
    ∃ front c back, text = front ++ c :: back ∧ isLineBreak c = true ∧
      start = offset + front.length + 1 := by
  induction text generalizing offset with
  | nil => cases h
  | cons c rest ih =>
    have hlater (hmem : start ∈ lineStartsFrom (offset + 1) rest) :
        ∃ front c' back, c :: rest = front ++ c' :: back ∧ isLineBreak c' = true ∧
          start = offset + front.length + 1 := by
      obtain ⟨front, c', back, rfl, hbreak, rfl⟩ := ih hmem
      exact ⟨c :: front, c', back, rfl, hbreak, by simp only [List.length_cons]; omega⟩
    rw [lineStartsFrom] at h
    split at h
    · rename_i hends
      rcases List.mem_cons.1 h with rfl | hmem
      · exact ⟨[], c, rest, rfl, (Bool.and_eq_true _ _ ▸ hends).1, rfl⟩
      · exact hlater hmem
    · exact hlater h

/-- What is in front of the line of a position ends with a line break, if there is anything. -/
theorem isLineBreak_of_getLast?_take_lineStart {text : List Char} {position : Nat} {c : Char}
    (h : c ∈ (text.take (lineStart text position)).getLast?) : isLineBreak c = true := by
  rw [lineStart] at h
  cases hlast : ((lineStarts text).filter (· ≤ position)).getLast? with
  | none =>
    rw [hlast] at h
    cases h
  | some start =>
    rw [hlast, Option.getD_some] at h
    have hmem := (List.mem_filter.1 (List.mem_of_getLast? hlast)).1
    rcases List.mem_cons.1 hmem with rfl | hmem
    · cases h
    · obtain ⟨front, c', back, rfl, hbreak, rfl⟩ := exists_break_of_mem_lineStartsFrom hmem
      have htake : (front ++ c' :: back).take (0 + front.length + 1) = front ++ [c'] := by
        have hlength : 0 + front.length + 1 = (front ++ [c']).length := by simp
        rw [hlength, List.append_cons front c' back, List.take_left]
      rw [htake, List.getLast?_concat, Option.mem_some_iff] at h
      exact h ▸ hbreak

/-- What is replaced stays the same with text in front that a line break parts from it. -/
theorem replacedLength?_append {front : List Char}
    (h : ∀ c ∈ front.getLast?, isLineBreak c = true) (language : Language) (line : List Char)
    (explicit : Bool) :
    replacedLength? language (front ++ line) explicit =
      replacedLength? language line explicit := by
  have hrun : trailingRun language.isIdentifierChar front = 0 :=
    trailingRun_eq_zero fun c hc => (not_isIdentifierChar_of_isLineBreak (h c hc) language).1
  have hbar : (front ++ line).getLast? = some '|' ↔ line.getLast? = some '|' := by
    rw [List.getLast?_append]
    cases hline : line.getLast? with
    | some c => rfl
    | none =>
      refine iff_of_false (fun hfront => ?_) (by simp)
      exact (not_isIdentifierChar_of_isLineBreak (h '|' hfront) language).2 rfl
  rw [replacedLength?_eq, replacedLength?_eq, trailingRun_append_of_eq_zero hrun]
  simp only [hbar]

/-- The session that a catalog opens for a text. -/
def Catalog.session? (catalog : Catalog) (before : List Char) (explicit : Bool) : Option Session :=
  (catalog.complete before explicit).map (Session.start · before)

/-- The session that the last line of a text opens, moved behind what is in front of the line, is
the one that the whole text opens. -/
theorem Catalog.map_shift_session? (catalog : Catalog) {front : List Char}
    (h : ∀ c ∈ front.getLast?, isLineBreak c = true) (line : List Char) (explicit : Bool) :
    (catalog.session? line explicit).map (·.shift front.length) =
      catalog.session? (front ++ line) explicit := by
  simp only [Catalog.session?, Catalog.complete, replacedLength?_append h, Option.map_map]
  cases hlength : replacedLength? catalog.language line explicit with
  | none => rfl
  | some n =>
    have hle := replacedLength?_le hlength
    have hanchor : (front ++ line).length - n = front.length + (line.length - n) := by
      rw [List.length_append]
      omega
    simp only [Option.map_some, Function.comp_apply, Session.start, Session.shift, hanchor,
      List.drop_append, List.drop_eq_nil_of_le (Nat.le_add_right front.length _), List.nil_append,
      Nat.add_sub_cancel_left, Nat.add_comm]

end LogScript
