import Mathlib.Algebra.Group.Nat.Even
import Mathlib.Data.List.DropRight
import LogScript.Proofs.Highlight.ByteRuns
import LogScript.Proofs.Layout.BodyReads
import LogScript.Proofs.Layout.Literals

/-!
Where a literal ends. A quote ends it when the backslashes right in front of it are even in number:
each of them then belongs to a pair, and none is left that takes the quote with it. Highlighting goes
over a literal by pairs of characters, the layout by a machine that remembers one backslash. Both stop
behind the first quote that ends the literal, or where the text does; highlighting stops with the line.
-/

namespace LogScript.Layout

/-- How many backslashes a text ends with. -/
def trailingBackslashes (text : List Char) : Nat :=
  (text.rtakeWhile (· == '\\')).length

/-- At position `i` behind the quote that opens a literal stands the one that ends it, or would if the
literal went so far. -/
def EndsLiteral (body : List Char) (i : Nat) : Prop :=
  body[i]? = some '"' ∧ Even (trailingBackslashes (body.take i))

instance (body : List Char) (i : Nat) : Decidable (EndsLiteral body i) :=
  inferInstanceAs (Decidable (_ ∧ _))

/-- How far a literal goes into the text behind its opening quote. -/
def literalEnd (body : List Char) : Nat :=
  match (List.range body.length).find? (fun i => decide (EndsLiteral body i)) with
  | some i => i + 1
  | none => body.length

/-- Nothing in the text ends the literal that is open in front of it. -/
def StaysOpen (text : List Char) : Prop :=
  ∀ i < text.length, ¬EndsLiteral text i

section Positions

variable {body front more : List Char} {c : Char} {i : Nat}

theorem trailingBackslashes_concat (text : List Char) (c : Char) :
    trailingBackslashes (text ++ [c]) = if c = '\\' then trailingBackslashes text + 1 else 0 := by
  rw [trailingBackslashes, List.rtakeWhile_concat]
  by_cases h : c = '\\'
  · rw [if_pos h, if_pos (beq_iff_eq.2 h), List.length_append]
    rfl
  · rw [if_neg h, if_neg (by simpa using h)]
    rfl

/-- What ends a literal is told by the text in front of it. -/
theorem endsLiteral_append (hi : i < front.length) (more : List Char) :
    EndsLiteral (front ++ more) i ↔ EndsLiteral front i := by
  rw [EndsLiteral, EndsLiteral, List.getElem?_append_left hi,
    List.take_append_of_le_length (Nat.le_of_lt hi)]

theorem endsLiteral_length :
    EndsLiteral (front ++ c :: more) front.length ↔ c = '"' ∧ Even (trailingBackslashes front) := by
  rw [EndsLiteral, List.getElem?_append_right (Nat.le_refl _), Nat.sub_self, List.take_left]
  simp

theorem EndsLiteral.lt_length (h : EndsLiteral body i) : i < body.length :=
  (List.getElem?_eq_some_iff.1 h.1).1

theorem StaysOpen.of_append (h : StaysOpen (front ++ more)) : StaysOpen front := fun i hi hends =>
  h i (by rw [List.length_append]; omega) ((endsLiteral_append hi more).2 hends)

theorem StaysOpen.take (h : StaysOpen front) (k : Nat) : StaysOpen (front.take k) := by
  rw [← List.take_append_drop k front] at h
  exact h.of_append

/-- The first quote that ends the literal, or none. -/
theorem literalEnd_cases (body : List Char) :
    (∃ front behind, body = front ++ '"' :: behind ∧ Even (trailingBackslashes front) ∧
      StaysOpen front ∧ literalEnd body = front.length + 1) ∨
    StaysOpen body ∧ literalEnd body = body.length := by
  rw [literalEnd]
  split
  · rename_i i hfind
    left
    obtain ⟨hends, -, hfirst⟩ := List.find?_range_eq_some.1 hfind
    have hends : EndsLiteral body i := of_decide_eq_true hends
    have hi : i < body.length := hends.lt_length
    have hlength : (body.take i).length = i := List.length_take_of_le (Nat.le_of_lt hi)
    refine ⟨body.take i, body.drop (i + 1), ?_, hends.2, fun j hj hj' => ?_, by rw [hlength]⟩
    · have hquote := hends.1
      rw [List.getElem?_eq_getElem hi, Option.some.injEq] at hquote
      rw [← hquote, List.getElem_cons_drop, List.take_append_drop]
    · rw [← endsLiteral_append hj (body.drop i), List.take_append_drop] at hj'
      have hnot := hfirst j (hlength ▸ hj)
      simp [hj'] at hnot
  · rename_i hfind
    right
    refine ⟨fun i hi hends => ?_, rfl⟩
    have hnone := List.find?_eq_none.1 hfind i (List.mem_range.2 hi)
    exact hnone (decide_eq_true hends)

theorem literalEnd_le (body : List Char) : literalEnd body ≤ body.length := by
  obtain ⟨front, behind, rfl, -, -, hend⟩ | ⟨-, hend⟩ := literalEnd_cases body
  · rw [hend, List.length_append, List.length_cons]
    omega
  · exact hend.le

end Positions

section Machine

variable {front body : List Char}

/-- Only a backslash or a quote moves the machine inside a literal. -/
theorem next_inside {c : Char} (hslash : c ≠ '\\') (hquote : c ≠ '"') :
    Quoting.inside.next c = .inside := by
  rw [Quoting.next, beq_false_of_ne hslash, beq_false_of_ne hquote]
  rfl

/-- Inside a literal, a backslash is open where the backslashes at the end are odd in number. -/
theorem past_of_staysOpen (h : StaysOpen front) :
    literalScan.past .inside front =
      if Even (trailingBackslashes front) then .inside else .escaped := by
  induction front using List.reverseRecOn with
  | nil => rfl
  | append_singleton front c ih =>
    rw [Scan.past_append, ih h.of_append, trailingBackslashes_concat, Scan.past_cons, Scan.past_nil]
    by_cases hslash : c = '\\'
    · rw [if_pos hslash, hslash]
      simp only [Nat.even_add_one]
      by_cases heven : Even (trailingBackslashes front)
      · rw [if_pos heven, if_neg (not_not_intro heven)]
        rfl
      · rw [if_neg heven, if_pos heven]
        rfl
    · rw [if_neg hslash]
      by_cases heven : Even (trailingBackslashes front)
      · -- A quote would end the literal here.
        have hquote : c ≠ '"' := fun hc =>
          h front.length (by simp) (endsLiteral_length.2 ⟨hc, heven⟩)
        rw [if_pos heven, if_pos Even.zero]
        exact next_inside hslash hquote
      · rw [if_neg heven, if_pos Even.zero]
        rfl

theorem past_ne_outside (h : StaysOpen front) : literalScan.past .inside front ≠ .outside := by
  rw [past_of_staysOpen h]
  split <;> decide

theorem literalRest_of_staysOpen (h : StaysOpen front) (more : List Char) :
    literalRest .inside (front ++ more) =
      front ++ literalRest (literalScan.past .inside front) more := by
  induction front using List.reverseRecOn generalizing more with
  | nil => rfl
  | append_singleton front c ih =>
    have hnext := past_ne_outside h
    rw [Scan.past_append] at hnext ⊢
    rw [List.append_assoc, ih h.of_append, List.singleton_append, literalRest_cons hnext,
      List.append_assoc]
    rfl

/-- The layout takes a literal as far as it goes. -/
theorem literalRest_inside (body : List Char) :
    literalRest .inside body = body.take (literalEnd body) := by
  obtain ⟨front, behind, rfl, heven, hopen, hend⟩ | ⟨hopen, hend⟩ := literalEnd_cases body
  · rw [hend, literalRest_of_staysOpen hopen, past_of_staysOpen hopen, if_pos heven,
      List.take_length_add_append]
    rfl
  · rw [hend, List.take_length]
    simpa [literalRest] using literalRest_of_staysOpen hopen []

/-- In front of each of its characters the literal is open. -/
theorem past_take_ne_outside {k : Nat} (hk : k < literalEnd body) :
    literalScan.past .inside (body.take k) ≠ .outside := by
  obtain ⟨front, behind, rfl, -, hopen, hend⟩ | ⟨hopen, -⟩ := literalEnd_cases body
  · rw [List.take_append_of_le_length (by omega)]
    exact past_ne_outside (hopen.take k)
  · exact past_ne_outside (hopen.take k)

/-- Behind it the literal is closed if anything ends it. -/
theorem past_literalEnd_iff :
    literalScan.past .inside (body.take (literalEnd body)) = .outside ↔ ∃ i, EndsLiteral body i := by
  obtain ⟨front, behind, rfl, heven, hopen, hend⟩ | ⟨hopen, hend⟩ := literalEnd_cases body
  · refine iff_of_true ?_ ⟨front.length, endsLiteral_length.2 ⟨rfl, heven⟩⟩
    rw [hend, List.take_length_add_append, Scan.past_append, past_of_staysOpen hopen, if_pos heven]
    rfl
  · rw [hend, List.take_length]
    refine iff_of_false (past_ne_outside hopen) ?_
    rintro ⟨i, hi⟩
    exact hopen i hi.lt_length hi

end Machine

/-- Reading a literal by pairs and by the machine comes to the same. -/
theorem literalTail_eq_literalRest (text : List Char) :
    Run.literalTail '"' text = literalRest .inside text := by
  fun_induction Run.literalTail '"' text with
  | case1 => rfl
  | case2 c hslash =>
    obtain rfl := eq_of_beq hslash
    rfl
  | case3 c hslash escaped rest ih =>
    obtain rfl := eq_of_beq hslash
    have hescaped : literalRest .escaped (escaped :: rest) = escaped :: literalRest .inside rest :=
      literalRest_cons (fun h => Quoting.noConfusion h) rest
    rw [literalRest_cons (by decide), ih, ← hescaped]
    rfl
  | case4 c rest hslash hquote =>
    obtain rfl := eq_of_beq hquote
    rfl
  | case5 c rest hslash hquote ih =>
    have hnext : Quoting.inside.next c = .inside :=
      next_inside (by simpa using hslash) (by simpa using hquote)
    rw [literalRest_cons (by rw [hnext]; decide), hnext, ih]

/-- A literal behind `"` ends at one place for all that go over it: the scanner of characters and that
of bytes, as far as the line goes, the layout, and the machine that tells literals from other text. -/
theorem ends_at_literalEnd (body : List Char) :
    Run.quoted '"' ('"' :: body) = '"' :: (firstLine body).take (literalEnd (firstLine body)) ∧
    ByteScan.quoted (ByteScan.ascii '"') ('"' :: body) =
      some (byteLength ('"' :: (firstLine body).take (literalEnd (firstLine body)))) ∧
    literalRest .inside body = body.take (literalEnd body) ∧
    (∀ b : Body, (b.step '"' body).taken = literalEnd body) ∧
    (∀ k < literalEnd body, ('"' :: body.take k).foldl Quoting.next .outside ≠ .outside) ∧
    (('"' :: body.take (literalEnd body)).foldl Quoting.next .outside = .outside ↔
      ∃ i, EndsLiteral body i) ∧
    ('\n' ∉ body → Run.quoted '"' ('"' :: body) = '"' :: literalRest .inside body) := by
  have hquoted : Run.quoted '"' ('"' :: body) =
      '"' :: (firstLine body).take (literalEnd (firstLine body)) := by
    rw [Run.quoted, firstLine_cons (by decide), ← literalRest_inside, ← literalTail_eq_literalRest]
  refine ⟨hquoted, ?_, literalRest_inside body, ?_, ?_, past_literalEnd_iff, ?_⟩
  · rw [ByteScan.quoted_eq (by decide) (by decide) (by decide), hquoted]
  · intro b
    rw [Body.step_quote, Body.literal, literalRest_inside]
    exact List.length_take_of_le (literalEnd_le body)
  · exact fun k hk => past_take_ne_outside hk
  · intro hline
    rw [hquoted, (firstLine_of_not_mem hline).1, ← literalRest_inside]

/-- The backslash takes the first quote with it; the second stands behind a pair of backslashes. -/
example : literalEnd ['a', '\\', '"', 'b', '\\', '\\', '"', 'x'] = 7 := by
  decide

end LogScript.Layout
