import Mathlib.Algebra.Order.Field.Rat
import Mathlib.Data.Char
import Mathlib.Data.List.Lex
import Mathlib.Data.List.Pairwise
import Mathlib.Data.Prod.Lex
import Mathlib.Tactic.Ring
import LogScript.Proofs.Completion.Candidates

/-!
The order of ranked candidates. Ranking is meant to look at the quality of a match first, then at the
length of the label and then at the label. One score holds quality and length together: a step of
quality is worth as much as a thousand characters. So the ranking has the meant order exactly if no
match is longer by so much than a match of worse quality.
-/

namespace LogScript

section Sorting

variable {α κ : Type} [LinearOrder κ] {key : α → κ} {less : α → α → Bool}

theorem decide_le_trans (key : α → κ) (a b c : α) (hab : decide (key a ≤ key b) = true)
    (hbc : decide (key b ≤ key c) = true) : decide (key a ≤ key c) = true :=
  decide_eq_true ((of_decide_eq_true hab).trans (of_decide_eq_true hbc))

theorem decide_le_total (key : α → κ) (a b : α) :
    (decide (key a ≤ key b) || decide (key b ≤ key a)) = true := by
  simpa using le_total (key a) (key b)

theorem pairwise_mergeSort_key (key : α → κ) (xs : List α) :
    (xs.mergeSort fun a b => decide (key a ≤ key b)).Pairwise fun a b => key a ≤ key b :=
  (List.pairwise_mergeSort (decide_le_trans key) (decide_le_total key) xs).imp of_decide_eq_true

/-- Of two members of a list, one stands in front of the other. -/
theorem rel_or_rel_of_pairwise {R : α → α → Prop} {xs : List α} (h : xs.Pairwise R) {a b : α}
    (ha : a ∈ xs) (hb : b ∈ xs) (hne : a ≠ b) : R a b ∨ R b a := by
  have hsymm : Std.Symm fun x y => R x y ∨ R y x := ⟨fun _ _ => Or.symm⟩
  have heither : xs.Pairwise fun x y => R x y ∨ R y x := h.imp Or.inl
  exact heither.forall ha hb hne

/-- In a list with the greatest in front, `x` stands behind what is not smaller and in front of what
is; the second list lacks it. -/
inductive Wedged (key : α → κ) (x : α) : List α → List α → Prop
  | here {smaller : List α} (hsmaller : ∀ y ∈ smaller, key y < key x) :
      Wedged key x (x :: smaller) smaller
  | behind {y : α} {more fewer : List α} (hy : key x ≤ key y) (h : Wedged key x more fewer) :
      Wedged key x (y :: more) (y :: fewer)

/-- Whatever is inserted later goes to the same place with `x` and without. -/
theorem Wedged.insertDescending (hless : ∀ a b, less a b = decide (key a < key b)) {x : α}
    {more fewer : List α} (h : Wedged key x more fewer) (z : α) :
    Wedged key x (insertDescending less z more) (insertDescending less z fewer) := by
  have hpasses {y : α} (ys : List α) (hy : key z < key y) :
      LogScript.insertDescending less z (y :: ys) =
        y :: LogScript.insertDescending less z ys := by
    rw [LogScript.insertDescending, hless, if_pos (decide_eq_true hy)]
  have hstops {y : α} (ys : List α) (hy : key y ≤ key z) :
      LogScript.insertDescending less z (y :: ys) = z :: y :: ys := by
    rw [LogScript.insertDescending, hless, decide_eq_false (not_lt.2 hy)]
    rfl
  induction h with
  | @here smaller hsmaller =>
    rcases lt_or_ge (key z) (key x) with hz | hz
    · rw [hpasses smaller hz]
      apply Wedged.here
      intro y hy
      rcases List.mem_cons.1 ((perm_insertDescending less z smaller).mem_iff.1 hy) with rfl | hy
      · exact hz
      · exact hsmaller y hy
    · have hfront : LogScript.insertDescending less z smaller = z :: smaller := by
        cases smaller with
        | nil => rfl
        | cons y ys => exact hstops ys ((hsmaller y List.mem_cons_self).le.trans hz)
      rw [hstops smaller hz, hfront]
      exact .behind hz (.here hsmaller)
  | @behind y more fewer hy h ih =>
    rcases lt_or_ge (key z) (key y) with hz | hz
    · rw [hpasses more hz, hpasses fewer hz]
      exact .behind hy ih
    · rw [hstops more hz, hstops fewer hz]
      exact .behind (hy.trans hz) (.behind hy h)

/-- There is one place for `x` between what is not smaller and what is. -/
theorem Wedged.eq {x : α} {more greater smaller : List α}
    (h : Wedged key x more (greater ++ smaller)) (hgreater : ∀ y ∈ greater, key x ≤ key y)
    (hsmaller : ∀ y ∈ smaller, key y < key x) : more = greater ++ x :: smaller := by
  induction greater generalizing more with
  | nil =>
    cases h with
    | here => rfl
    | behind hy => exact absurd hy (not_le.2 (hsmaller _ List.mem_cons_self))
  | cons y greater ih =>
    rw [List.forall_mem_cons] at hgreater
    cases h with
    | here hall => exact absurd hgreater.1 (not_le.2 (hall y List.mem_cons_self))
    | behind hy h => exact congrArg (y :: ·) (ih h hgreater.2)

/-- Stable sorting by insertion gives the list that merging gives. -/
theorem stableSort_eq_mergeSort (hless : ∀ a b, less a b = decide (key a < key b)) (xs : List α) :
    stableSort less xs = xs.mergeSort fun a b => decide (key a ≤ key b) := by
  have hfold (x : α) (ys : List α) {more fewer : List α} (h : Wedged key x more fewer) :
      Wedged key x (ys.foldl (fun sorted y => LogScript.insertDescending less y sorted) more)
        (ys.foldl (fun sorted y => LogScript.insertDescending less y sorted) fewer) := by
    induction ys generalizing more fewer with
    | nil => exact h
    | cons y ys ih => exact ih (h.insertDescending hless y)
  induction xs with
  | nil => simp [stableSort]
  | cons x xs ih =>
    obtain ⟨smaller, greater, hmore, hfewer, hsmaller⟩ :=
      List.mergeSort_cons (decide_le_trans key) (decide_le_total key) x xs
    have hsorted := pairwise_mergeSort_key key (x :: xs)
    rw [hmore, List.pairwise_append, List.pairwise_cons] at hsorted
    have hfront : Wedged key x [x] [] := .here fun _ hy => absurd hy List.not_mem_nil
    have hwedged := hfold x xs hfront
    rw [hfewer, stableSort, List.reverse_eq_iff, List.reverse_append] at ih
    rw [ih] at hwedged
    have hplace := hwedged.eq
      (fun y hy => hsorted.2.1.1 y (List.mem_reverse.1 hy))
      (fun y hy => by simpa using hsmaller y (List.mem_reverse.1 hy))
    rw [hmore, stableSort, List.reverse_eq_iff, List.foldl_cons]
    apply hplace.trans
    simp

end Sorting

/-- The order of texts is the lexicographic one. -/
theorem compareText_eq_lt {a b : List Char} : compareText a b = .lt ↔ a < b := by
  induction a generalizing b with
  | nil => cases b <;> simp [compareText]
  | cons c a ih =>
    cases b with
    | nil => simp [compareText]
    | cons d b =>
      rw [compareText, List.cons_lt_cons_iff]
      rcases lt_trichotomy c d with hlt | rfl | hlt
      · simp [hlt]
      · simp [ih]
      · simp [hlt, hlt.not_gt, hlt.ne']

namespace Item

variable (typed : List Char) (i : Item)

/-- The quality of a match; without a match it says nothing. -/
def quality : Quality :=
  (Quality.of? i.label typed).getD .inside

/-- The items with a match. -/
def matching (items : List Item) : List Item :=
  items.filter fun i => (Quality.of? i.label typed).isSome

/-- What is meant to count: quality, then the length of the label, then the label. -/
def priority : ℕ ×ₗ ℕ ×ₗ List Char :=
  toLex ((i.quality typed).rank, toLex (i.label.length, i.label))

/-- The items with a match in the meant order; equal ones stay in the order of the list. -/
def byPriority (items : List Item) : List Item :=
  (matching typed items).mergeSort fun a b => decide (a.priority typed ≤ b.priority typed)

/-- What counts: the score, then the label. -/
def standing {α : Type} (s : Scoring α) : α ×ₗ List Char :=
  toLex (s.score (i.quality typed) i.label.length, i.label)

end Item

namespace Scoring

/-- Scores in exact arithmetic from a weight of quality and one of length. -/
def weighted (matchWeight lengthWeight : ℚ) : Scoring ℚ where
  score q length := q.rank * matchWeight + length * lengthWeight
  compare? a b := some (compare a b)

/-- The default weights in exact arithmetic. -/
def exact : Scoring ℚ :=
  weighted 10 (1 / 100)

/-- Where scores are comparable, ranking is a stable sort by score and label. -/
theorem ranked_eq_mergeSort {α : Type} [LinearOrder α] {s : Scoring α}
    (hcompare : ∀ a b, s.compare? a b = some (compare a b)) (typed : List Char)
    (items : List Item) :
    s.ranked typed items = (Item.matching typed items).mergeSort
      fun a b => decide (a.standing typed s ≤ b.standing typed s) := by
  have hless (a b : α × Item) : s.less a b =
      decide (toLex (a.1, a.2.label) < toLex (b.1, b.2.label)) := by
    rw [Bool.eq_iff_iff, decide_eq_true_iff, Prod.Lex.toLex_lt_toLex, less, hcompare,
      ← compareText_eq_lt]
    rcases lt_trichotomy a.1 b.1 with hlt | heq | hlt
    · simp [compare_lt_iff_lt.2 hlt, hlt]
    · simp [heq]
    · simp [compare_gt_iff_gt.2 hlt, hlt.not_gt, hlt.ne']
  have hscored : s.scored typed items = (Item.matching typed items).map
      fun i => (s.score (i.quality typed) i.label.length, i) := by
    unfold scored Item.matching
    induction items with
    | nil => rfl
    | cons i items ih =>
      rw [List.filterMap_cons, List.filter_cons]
      cases hquality : Quality.of? i.label typed with
      | none => exact ih
      | some q =>
        simp only [Option.map_some, Option.isSome_some, if_true, List.map_cons, ih, Item.quality,
          hquality, Option.getD_some]
  have hsort : ∀ a ∈ s.scored typed items, ∀ b ∈ s.scored typed items,
      decide (toLex (a.1, a.2.label) ≤ toLex (b.1, b.2.label)) =
        decide (a.2.standing typed s ≤ b.2.standing typed s) := by
    rw [hscored]
    intro a ha b hb
    obtain ⟨i, -, rfl⟩ := List.mem_map.1 ha
    obtain ⟨j, -, rfl⟩ := List.mem_map.1 hb
    rfl
  have hitems : (s.scored typed items).map Prod.snd = Item.matching typed items := by
    simp [hscored, Function.comp_def]
  rw [ranked, stableSort_eq_mergeSort hless, ← hitems]
  exact List.map_mergeSort hsort

/-- In exact arithmetic a step of quality is worth a thousand characters. -/
theorem score_exact (q : Quality) (length : ℕ) :
    exact.score q length = ((1000 * q.rank + length : ℕ) : ℚ) / 100 := by
  have hscore : exact.score q length = q.rank * 10 + length * (1 / 100) := rfl
  rw [hscore]
  push_cast
  ring

end Scoring

namespace Item

variable {typed : List Char} {items : List Item} {a b : Item}

/-- A thousand characters for each step of quality, and the label's own. -/
def weight (typed : List Char) (i : Item) : ℕ :=
  1000 * (i.quality typed).rank + i.label.length

theorem standing_lt_iff : a.standing typed .exact < b.standing typed .exact ↔
    a.weight typed < b.weight typed ∨ a.weight typed = b.weight typed ∧ a.label < b.label := by
  have hpos : (0 : ℚ) < 100 := by norm_num
  rw [standing, standing, Prod.Lex.toLex_lt_toLex, Scoring.score_exact, Scoring.score_exact,
    div_lt_div_iff_of_pos_right hpos, div_left_inj' hpos.ne', Nat.cast_lt, Nat.cast_inj]
  rfl

/-- No match of worse quality gets in front of a match of better quality by its shorter label. -/
def QualityPrevails (typed : List Char) (items : List Item) : Prop :=
  ∀ a ∈ matching typed items, ∀ b ∈ matching typed items,
    (a.quality typed).rank < (b.quality typed).rank →
      a.weight typed < b.weight typed ∨ a.weight typed = b.weight typed ∧ a.label < b.label

theorem priority_lt_of_quality (h : (a.quality typed).rank < (b.quality typed).rank) :
    a.priority typed < b.priority typed :=
  Prod.Lex.toLex_lt_toLex.2 (.inl h)

/-- Among matches of one quality, both orders look at length and label. -/
theorem priority_lt_iff_standing (h : (a.quality typed).rank = (b.quality typed).rank) :
    a.priority typed < b.priority typed ↔ a.standing typed .exact < b.standing typed .exact := by
  rw [standing_lt_iff, priority, priority, Prod.Lex.toLex_lt_toLex, Prod.Lex.toLex_lt_toLex]
  simp only [weight, h, lt_self_iff_false, false_or, true_and, Nat.add_lt_add_iff_left,
    Nat.add_left_cancel_iff]

/-- Where quality prevails, the score orders the matches as it is meant to. -/
theorem QualityPrevails.priority_lt_iff (h : QualityPrevails typed items)
    (ha : a ∈ matching typed items) (hb : b ∈ matching typed items) :
    a.priority typed < b.priority typed ↔ a.standing typed .exact < b.standing typed .exact := by
  rcases lt_trichotomy (a.quality typed).rank (b.quality typed).rank with hlt | heq | hlt
  · exact iff_of_true (priority_lt_of_quality hlt) (standing_lt_iff.2 (h a ha b hb hlt))
  · exact priority_lt_iff_standing heq
  · exact iff_of_false (priority_lt_of_quality hlt).not_gt (standing_lt_iff.2 (h b hb a ha hlt)).not_gt

theorem quality_le_of_priority (h : a.priority typed ≤ b.priority typed) :
    (a.quality typed).rank ≤ (b.quality typed).rank := by
  by_contra hlt
  exact absurd (priority_lt_of_quality (not_le.1 hlt)) (not_lt.2 h)

end Item

namespace Scoring

variable (typed : List Char) (items : List Item)

theorem ranked_exact_eq_mergeSort :
    exact.ranked typed items = (Item.matching typed items).mergeSort
      fun a b => decide (a.standing typed exact ≤ b.standing typed exact) :=
  ranked_eq_mergeSort (fun _ _ => rfl) typed items

variable {typed items}

theorem ranked_exact_eq_byPriority (h : Item.QualityPrevails typed items) :
    exact.ranked typed items = Item.byPriority typed items := by
  have hsame : ∀ a ∈ Item.matching typed items, ∀ b ∈ Item.matching typed items,
      decide (a.standing typed exact ≤ b.standing typed exact) =
        decide (a.priority typed ≤ b.priority typed) := by
    intro a ha b hb
    rw [decide_eq_decide, ← not_lt, ← not_lt, h.priority_lt_iff hb ha]
  rw [ranked_exact_eq_mergeSort, Item.byPriority]
  simpa using List.map_mergeSort (f := id) hsame

theorem pairwise_quality_byPriority : (Item.byPriority typed items).Pairwise fun a b =>
    (a.quality typed).rank ≤ (b.quality typed).rank :=
  (pairwise_mergeSort_key (Item.priority typed) _).imp Item.quality_le_of_priority

/-- Two matches stand in the order of their scores, so quality decides on them only where it prevails
over the score. -/
theorem qualityPrevails_of_pairwise (h : (exact.ranked typed items).Pairwise fun a b =>
    (a.quality typed).rank ≤ (b.quality typed).rank) : Item.QualityPrevails typed items := by
  have hsorted := pairwise_mergeSort_key (fun i => i.standing typed exact)
    (Item.matching typed items)
  rw [← ranked_exact_eq_mergeSort] at hsorted
  have hmem {i : Item} (hi : i ∈ Item.matching typed items) : i ∈ exact.ranked typed items :=
    (perm_ranked exact typed items).mem_iff.2 hi
  intro a ha b hb hlt
  have hne : a ≠ b := by
    rintro rfl
    exact lt_irrefl _ hlt
  rcases rel_or_rel_of_pairwise (h.and hsorted) (hmem ha) (hmem hb) hne with ⟨-, hle⟩ | ⟨hle, -⟩
  · apply Item.standing_lt_iff.1
    apply hle.lt_of_ne
    intro heq
    have hlabel : a.label = b.label := congrArg (fun key => (ofLex key).2) heq
    rw [Item.quality, Item.quality, hlabel] at hlt
    exact lt_irrefl _ hlt
  · exact absurd hle (not_le.2 hlt)

/-- With the default weights in exact arithmetic, the ranking of every list is the stable sort of its
matches by score and label. It is the meant order, under every limit, exactly if quality prevails, and
that is exactly if no match stands in front of one of better quality. -/
theorem ranked_exact_iff (typed : List Char) (items : List Item) :
    let ranked := exact.ranked typed items
    ranked = (Item.matching typed items).mergeSort
      (fun a b => decide (a.standing typed exact ≤ b.standing typed exact)) ∧
    ((∀ limit, Criteria.cut limit ranked = Criteria.cut limit (Item.byPriority typed items)) ↔
      Item.QualityPrevails typed items) ∧
    (ranked.Pairwise (fun a b => (a.quality typed).rank ≤ (b.quality typed).rank) ↔
      Item.QualityPrevails typed items) := by
  intro ranked
  have hmeant (h : Item.QualityPrevails typed items) : ranked = Item.byPriority typed items :=
    ranked_exact_eq_byPriority h
  have hquality (h : ranked = Item.byPriority typed items) :
      ranked.Pairwise fun a b => (a.quality typed).rank ≤ (b.quality typed).rank := by
    rw [h]
    exact pairwise_quality_byPriority
  refine ⟨ranked_exact_eq_mergeSort typed items, ?_, ?_⟩
  · constructor
    · intro h
      exact qualityPrevails_of_pairwise (hquality (h none))
    · intro h limit
      rw [hmeant h]
  · constructor
    · exact qualityPrevails_of_pairwise
    · intro h
      exact hquality (hmeant h)

/-- A label of eleven hundred characters that starts with the typed text goes behind a short one that
does so in another case only. -/
example : (exact.ranked ['a'] [⟨List.replicate 1100 'a', .text, [], none, none, none⟩,
    ⟨['A'], .text, [], none, none, none⟩]).map (·.label.length) = [1, 1100] := by
  decide +kernel

end Scoring

end LogScript
