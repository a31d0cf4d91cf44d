import LogScript.Proofs.Completion.Numbering
import LogScript.Proofs.Completion.Priority

/-!
Where the tab stops of a template are, and in which order they are visited. The text that is inserted
is made of the texts and names of the template. There is one stop for each slot, around its name, and
stops do not overlap. They are visited by number, those numbered 0 last, and stops of one number in
order of appearance.
-/

namespace LogScript

section Sorting

variable {α κ : Type} [LinearOrder κ]

theorem filter_mergeSort_key (key : α → κ) (k : κ) (xs : List α) :
    (xs.mergeSort fun a b => decide (key a ≤ key b)).filter (fun a => decide (key a = k)) =
      xs.filter fun a => decide (key a = k) := by
  have hpairwise : (xs.filter fun a => decide (key a = k)).Pairwise
      fun a b => decide (key a ≤ key b) = true := by
    apply List.pairwise_of_forall_mem_list
    intro a ha b hb
    have hka : key a = k := of_decide_eq_true (List.mem_filter.1 ha).2
    have hkb : key b = k := of_decide_eq_true (List.mem_filter.1 hb).2
    rw [hka, hkb]
    exact decide_eq_true (le_refl k)
  have hsublist := (List.sublist_mergeSort (decide_le_trans key) (decide_le_total key) hpairwise
    List.filter_sublist).filter fun a => decide (key a = k)
  rw [List.filter_filter] at hsublist
  simp only [Bool.and_self] at hsublist
  have hperm := (List.mergeSort_perm xs fun a b => decide (key a ≤ key b)).filter
    fun a => decide (key a = k)
  exact (hsublist.eq_of_length hperm.length_eq.symm).symm

/-- A stable sort orders by the key, and keeps the order of the list where keys are equal. -/
theorem pairwise_mergeSort_stable (key : α → κ) {R : α → α → Prop} {xs : List α}
    (h : xs.Pairwise R) : (xs.mergeSort fun a b => decide (key a ≤ key b)).Pairwise
      fun a b => key a < key b ∨ key a = key b ∧ R a b := by
  apply List.pairwise_iff_forall_sublist.2
  intro a b hab
  have hle : key a ≤ key b :=
    List.pairwise_iff_forall_sublist.1 (pairwise_mergeSort_key key xs) hab
  rcases hle.lt_or_eq with hlt | heq
  · exact .inl hlt
  · right
    refine ⟨heq, ?_⟩
    have hsame := hab.filter fun c => decide (key c = key a)
    rw [filter_mergeSort_key] at hsame
    apply List.pairwise_iff_forall_sublist.1 h
    simpa [heq] using hsame.trans List.filter_sublist

end Sorting

namespace Template

/-- The text or the name of a segment. -/
def Segment.content : Segment → List Char
  | .text content => content
  | .slot _ name => name

/-- The characters between the ends of a stop. -/
def TabStop.slice (s : TabStop) (text : List Char) : List Char :=
  (text.take s.stop).drop s.start

/-- Stops in order of appearance in a text, one for each slot: it has the number of the slot and lies
around its name, which stands behind the contents of the segments in front. -/
structure Placed (segments : List Segment) (text : List Char) (stops : List TabStop) : Prop where
  length_eq : stops.length = segments.countP isSlot
  around : ∀ front number name back, segments = front ++ .slot number name :: back →
    ∃ s, stops[front.countP isSlot]? = some s ∧
      numberAt segments front.length = some s.number ∧
      s.start = (front.flatMap Segment.content).length ∧
      s.start ≤ s.stop ∧ s.stop ≤ text.length ∧ s.slice text = name
  apart : stops.Pairwise fun s t => s.stop ≤ t.start

/-- Of two stops, the first is visited before the second: it has the smaller number, or the second is
the final one, or both have one number and the first stands in front. -/
def TabStop.Precedes (s t : TabStop) : Prop :=
  if s.number = t.number then s.stop ≤ t.start
  else s.number ≠ 0 ∧ (t.number = 0 ∨ s.number < t.number)

def Piece.isStop : Piece → Bool
  | .text _ => false
  | .stop _ _ => true

theorem stopsFrom_append (offset : Nat) (ps qs : List Piece) :
    stopsFrom offset (ps ++ qs) =
      stopsFrom offset ps ++ stopsFrom (offset + (ps.flatMap Piece.content).length) qs := by
  induction ps generalizing offset with
  | nil => rfl
  | cons p ps ih =>
    cases p with
    | text content =>
      simp only [List.cons_append, stopsFrom, ih, List.flatMap_cons, Piece.content,
        List.length_append, Nat.add_assoc]
    | stop n name =>
      simp only [List.cons_append, stopsFrom, ih, List.flatMap_cons, Piece.content,
        List.length_append, Nat.add_assoc]

theorem length_stopsFrom (offset : Nat) (ps : List Piece) :
    (stopsFrom offset ps).length = ps.countP Piece.isStop := by
  induction ps generalizing offset with
  | nil => rfl
  | cons p ps ih =>
    cases p with
    | text content => simp [stopsFrom, ih, Piece.isStop]
    | stop n name => simp [stopsFrom, ih, Piece.isStop, List.countP_cons]

theorem pairwise_stopsFrom (offset : Nat) (ps : List Piece) :
    (stopsFrom offset ps).Pairwise fun s t => s.stop ≤ t.start := by
  induction ps generalizing offset with
  | nil => exact .nil
  | cons p ps ih =>
    cases p with
    | text content => exact ih _
    | stop n name =>
      apply List.pairwise_cons.2
      refine ⟨?_, ih _⟩
      intro t ht
      obtain ⟨front, other, back, -, -, hstart, -⟩ := exists_name_of_mem_stopsFrom ht
      simp only [hstart]
      omega

theorem flatMap_content_of_outline {ps : List Piece} {segments : List Segment}
    (h : ps.map Piece.outline = segments.map Segment.outline) :
    ps.flatMap Piece.content = segments.flatMap Segment.content := by
  have hpiece : ∀ p : Piece, p.outline.content = p.content := by
    intro p
    cases p <;> rfl
  have hsegment : ∀ s : Segment, s.outline.content = s.content := by
    intro s
    cases s <;> rfl
  have hcontents := congrArg (List.flatMap Piece.content) h
  simpa only [List.flatMap_map, hpiece, hsegment] using hcontents

theorem countP_isStop_of_outline {ps : List Piece} {segments : List Segment}
    (h : ps.map Piece.outline = segments.map Segment.outline) :
    ps.countP Piece.isStop = segments.countP isSlot := by
  have hpiece : Piece.isStop ∘ Piece.outline = Piece.isStop := by
    funext p
    cases p <;> rfl
  have hsegment : Piece.isStop ∘ Segment.outline = isSlot := by
    funext s
    cases s <;> rfl
  have hcounts := congrArg (List.countP Piece.isStop) h
  simpa only [List.countP_map, hpiece, hsegment] using hcounts

theorem map_outline_numbered (segments : List Segment) :
    (numbered segments).map Piece.outline = segments.map Segment.outline :=
  map_outline_numberFrom segments _ []

theorem exists_numbered_split (front : List Segment) (number : Option Nat) (name : List Char)
    (back : List Segment) :
    ∃ ps n qs, numbered (front ++ .slot number name :: back) = ps ++ .stop n name :: qs ∧
      ps.map Piece.outline = front.map Segment.outline ∧
      numberAt (front ++ .slot number name :: back) front.length = some n := by
  have houtline := map_outline_numbered (front ++ .slot number name :: back)
  rw [List.map_append, List.map_cons] at houtline
  obtain ⟨ps, behind, hsplit, hps, hbehind⟩ := List.map_eq_append_iff.1 houtline
  obtain ⟨p, qs, rfl, hp, -⟩ := List.map_eq_cons_iff.1 hbehind
  cases p with
  | text content => cases hp
  | stop n other =>
    cases hp
    refine ⟨ps, n, qs, hsplit, hps, ?_⟩
    have hlength : front.length = ps.length := by
      simpa using (congrArg List.length hps).symm
    rw [numberAt, hsplit, hlength, List.getElem?_append_right (Nat.le_refl _)]
    simp [Piece.number?]

theorem placed_stopsFrom (segments : List Segment) :
    Placed segments (resolve segments).text (stopsFrom 0 (numbered segments)) where
  length_eq := by
    rw [length_stopsFrom]
    exact countP_isStop_of_outline (map_outline_numbered segments)
  around := by
    rintro front number name back rfl
    obtain ⟨ps, n, qs, hsplit, hps, hnumber⟩ := exists_numbered_split front number name back
    have hplace : front.countP isSlot = (stopsFrom 0 ps).length := by
      rw [length_stopsFrom]
      exact (countP_isStop_of_outline hps).symm
    have hfront := flatMap_content_of_outline hps
    have htext : (resolve (front ++ .slot number name :: back)).text =
        front.flatMap Segment.content ++ (name ++ qs.flatMap Piece.content) := by
      rw [← hfront]
      simp [resolve, hsplit, Piece.content]
    rw [hsplit, stopsFrom_append, hplace, List.getElem?_append_right (Nat.le_refl _), Nat.sub_self,
      hfront, htext]
    refine ⟨⟨n, _, _⟩, rfl, hnumber, Nat.zero_add _, Nat.le_add_right _ _, ?_, ?_⟩
    · simp only [List.length_append]
      omega
    · simp [TabStop.slice, List.take_append]
  apart := pairwise_stopsFrom 0 (numbered segments)

theorem number_le_of_mem_stops {template : List Char} {s : TabStop}
    (h : s ∈ (resolve (parse template)).stops) : s.number ≤ largestNumber := by
  obtain ⟨front, name, back, hpiece, -⟩ := exists_name_of_mem_stops h
  obtain ⟨i, hi⟩ := List.mem_iff_getElem?.1 hpiece
  rw [numbered_getElem?, Option.map_eq_some_iff] at hi
  obtain ⟨segment, hsegment, hnumbered⟩ := hi
  cases segment with
  | text content => cases hnumbered
  | slot number other =>
    cases number with
    | none =>
      rw [← (Piece.stop.inj hnumbered).1]
      exact Nat.min_le_right _ _
    | some n =>
      rw [← (Piece.stop.inj hnumbered).1]
      exact (sound_of_mem_parse (List.mem_of_getElem? hsegment)).2

theorem precedes_of_visitKey {s t : TabStop} (hs : s.number ≤ largestNumber)
    (ht : t.number ≤ largestNumber)
    (h : s.visitKey < t.visitKey ∨ s.visitKey = t.visitKey ∧ s.stop ≤ t.start) : s.Precedes t := by
  simp only [TabStop.visitKey] at h
  rw [TabStop.Precedes]
  split
  · rename_i heq
    rw [heq] at h
    omega
  · split at h <;> split at h <;> omega

/-- A template is inserted as its texts and names, with one stop around the name of each slot. No two
stops overlap. They are visited by number, those numbered 0 last, and stops of one number in order of
appearance. -/
theorem resolve_parse (template : List Char) :
    (resolve (parse template)).text = (parse template).flatMap Segment.content ∧
    (∃ stops, Placed (parse template) (resolve (parse template)).text stops ∧
      (resolve (parse template)).stops.Perm stops) ∧
    (resolve (parse template)).stops.Pairwise TabStop.Precedes := by
  refine ⟨?_, ?_, ?_⟩
  · exact flatMap_content_of_outline (map_outline_numbered (parse template))
  · exact ⟨_, placed_stopsFrom (parse template), List.mergeSort_perm _ _⟩
  · have hsorted := pairwise_mergeSort_stable TabStop.visitKey
      (pairwise_stopsFrom 0 (numbered (parse template)))
    apply hsorted.imp_of_mem
    intro s t hs ht h
    exact precedes_of_visitKey (number_le_of_mem_stops hs) (number_le_of_mem_stops ht) h

/-- The final stop is visited last although it stands in front of the others. -/
example : (resolve (parse "$0 $\x7b2:b\x7d $\x7b1:a\x7d".toList)).stops =
    [⟨1, 3, 4⟩, ⟨2, 1, 2⟩, ⟨0, 0, 0⟩] := by
  cbv

end Template

end LogScript
