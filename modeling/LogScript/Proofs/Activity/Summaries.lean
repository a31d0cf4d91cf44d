import Mathlib.Algebra.Order.BigOperators.Group.List
import Mathlib.Algebra.Order.Ring.Nat
import Mathlib.Data.List.Sort
import LogScript.Proofs.Activity.PercentileRank

/-!
A summary against the samples that it is made from. Its ranks are those of the sorted samples, the
extremes are the least and the greatest sample, and the mean is the sum over the number of samples
exactly when the sum fits in 64 bits. A sum that does not fit makes the mean too small, so that it can
even lie below every sample; above the greatest one it never lies.
-/

namespace LogScript.Summary

/-- The summary describes the samples. -/
structure Describes (s : Summary) (samples : List Nat) : Prop where
  count : s.count = samples.length
  least : s.least ∈ samples ∧ ∀ m ∈ samples, s.least ≤ m
  greatest : s.greatest ∈ samples ∧ ∀ m ∈ samples, m ≤ s.greatest
  /-- The median and the 95% mark stand at their ranks among the sorted samples. -/
  ranks : ∃ sorted : List Nat, sorted.Perm samples ∧ sorted.Pairwise (· ≤ ·) ∧
    sorted[samples.length / 2]? = some s.median ∧
    sorted[min (samples.length * 95 / 100) (samples.length - 1)]? = some s.percentile95
  ordered : s.least ≤ s.median ∧ s.median ≤ s.percentile95 ∧ s.percentile95 ≤ s.greatest
  mean : s.mean = samples.sum % 2 ^ 64 / samples.length
  mean_eq_iff : s.mean = samples.sum / samples.length ↔ samples.sum < 2 ^ 64
  mean_le : s.mean ≤ s.greatest
  least_le_mean (fits : samples.sum < 2 ^ 64) : s.least ≤ s.mean

section Sorted

variable {sorted : List Nat}

theorem getElem?_atRank (hne : sorted ≠ []) (rank : Nat) :
    sorted[min rank (sorted.length - 1)]? = some (atRank sorted rank) := by
  have hlength := List.length_pos_of_ne_nil hne
  have hrank : min rank (sorted.length - 1) < sorted.length := by omega
  rw [atRank, List.getElem?_eq_getElem hrank, Option.getD_some]

theorem atRank_mem (hne : sorted ≠ []) (rank : Nat) : atRank sorted rank ∈ sorted :=
  List.mem_of_getElem? (getElem?_atRank hne rank)

theorem atRank_mono (h : sorted.Pairwise (· ≤ ·)) (hne : sorted ≠ []) {i j : Nat} (hij : i ≤ j) :
    atRank sorted i ≤ atRank sorted j := by
  obtain ⟨hi, hvaluei⟩ := List.getElem?_eq_some_iff.1 (getElem?_atRank hne i)
  obtain ⟨hj, hvaluej⟩ := List.getElem?_eq_some_iff.1 (getElem?_atRank hne j)
  rw [← hvaluei, ← hvaluej]
  exact h.sortedLE.getElem_le_getElem_of_le (by omega)

/-- Every sample lies between those at the first and the last rank. -/
theorem atRank_bounds (h : sorted.Pairwise (· ≤ ·)) {m : Nat} (hm : m ∈ sorted) :
    atRank sorted 0 ≤ m ∧ m ≤ atRank sorted (sorted.length - 1) := by
  have hne := List.ne_nil_of_mem hm
  obtain ⟨i, hi, rfl⟩ := List.getElem_of_mem hm
  have hvalue := getElem?_atRank hne i
  rw [Nat.min_eq_left (by omega), List.getElem?_eq_getElem hi, Option.some.injEq] at hvalue
  rw [hvalue]
  exact ⟨atRank_mono h hne (Nat.zero_le i), atRank_mono h hne (by omega)⟩

end Sorted

section Mean

variable {samples : List Nat}

/-- A sum that is cut to 64 bits gives the right mean only if nothing was cut off. -/
theorem mod_div_eq_iff {sum count : Nat} (hpos : 0 < count) (hlimit : count ≤ sampleLimit) :
    sum % 2 ^ 64 / count = sum / count ↔ sum < 2 ^ 64 := by
  constructor
  · intro h
    by_contra hlarge
    have hcut : sum % 2 ^ 64 + count ≤ sum := by
      have hsmall : count ≤ 1024 := hlimit
      omega
    have hless : (sum % 2 ^ 64 + count) / count ≤ sum / count := Nat.div_le_div_right hcut
    rw [Nat.add_div_right _ hpos] at hless
    omega
  · intro h
    rw [Nat.mod_eq_of_lt h]

theorem mean_le_of_forall_le {greatest : Nat} (h : ∀ m ∈ samples, m ≤ greatest) :
    samples.sum % 2 ^ 64 / samples.length ≤ greatest := by
  have hsum : samples.sum ≤ samples.length * greatest := List.sum_le_card_nsmul samples greatest h
  calc samples.sum % 2 ^ 64 / samples.length
      ≤ samples.sum / samples.length := Nat.div_le_div_right (Nat.mod_le _ _)
    _ ≤ greatest := Nat.div_le_of_le_mul hsum

theorem le_mean_of_forall_le {least : Nat} (hne : samples ≠ []) (h : ∀ m ∈ samples, least ≤ m)
    (hfits : samples.sum < 2 ^ 64) : least ≤ samples.sum % 2 ^ 64 / samples.length := by
  have hsum : samples.length * least ≤ samples.sum := List.card_nsmul_le_sum samples least h
  rw [Nat.mod_eq_of_lt hfits, Nat.le_div_iff_mul_le (List.length_pos_of_ne_nil hne), Nat.mul_comm]
  exact hsum

end Mean

theorem describes_ofSorted {sorted samples : List Nat} (hperm : sorted.Perm samples)
    (hsorted : sorted.Pairwise (· ≤ ·)) (hne : samples ≠ [])
    (hlimit : samples.length ≤ sampleLimit) : (ofSorted sorted).Describes samples := by
  have hlength : sorted.length = samples.length := hperm.length_eq
  have hpos : 0 < samples.length := List.length_pos_of_ne_nil hne
  have hsome : sorted ≠ [] := List.ne_nil_of_length_pos (hlength ▸ hpos)
  have hmem (rank : Nat) : atRank sorted rank ∈ samples := hperm.mem_iff.1 (atRank_mem hsome rank)
  have hbounds {m : Nat} (hm : m ∈ samples) :
      atRank sorted 0 ≤ m ∧ m ≤ atRank sorted (sorted.length - 1) :=
    atRank_bounds hsorted (hperm.mem_iff.2 hm)
  have hmark : percentileRank sorted.length = samples.length * 95 / 100 := by
    rw [hlength, Rounding.percentileRank_eq (Nat.lt_of_le_of_lt hlimit (by decide))]
  have hmean : (ofSorted sorted).mean = samples.sum % 2 ^ 64 / samples.length := by
    rw [← hperm.sum_eq, ← hlength, List.sum_eq_foldr]
    rfl
  constructor
  case count => exact hlength
  case least => exact ⟨hmem 0, fun m hm => (hbounds hm).1⟩
  case greatest => exact ⟨hmem _, fun m hm => (hbounds hm).2⟩
  case ranks =>
    refine ⟨sorted, hperm, hsorted, ?_, ?_⟩
    · have hmedian := getElem?_atRank hsome (sorted.length / 2)
      rw [Nat.min_eq_left (by omega)] at hmedian
      rw [← hlength]
      exact hmedian
    · rw [← hmark, ← hlength]
      exact getElem?_atRank hsome (percentileRank sorted.length)
  case ordered =>
    refine ⟨atRank_mono hsorted hsome (Nat.zero_le _), ?_, ?_⟩
    · exact atRank_mono hsorted hsome (by rw [hmark]; omega)
    · exact atRank_mono hsorted hsome (by rw [hmark]; omega)
  case mean => exact hmean
  case mean_eq_iff =>
    rw [hmean]
    exact mod_div_eq_iff hpos hlimit
  case mean_le =>
    rw [hmean]
    exact mean_le_of_forall_le fun m hm => (hbounds hm).2
  case least_le_mean =>
    intro hfits
    rw [hmean]
    exact le_mean_of_forall_le hne (fun m hm => (hbounds hm).1) hfits

theorem of?_eq_none_iff {samples : List Nat} : of? samples = none ↔ samples = [] := by
  rw [of?]
  split
  · simpa using ‹samples.isEmpty›
  · simpa using ‹¬samples.isEmpty›

theorem describes_of? {samples : List Nat} {s : Summary} (hlimit : samples.length ≤ sampleLimit)
    (h : of? samples = some s) : s.Describes samples := by
  rw [of?] at h
  split at h
  · cases h
  · rename_i hne
    obtain rfl := Option.some.inj h
    exact describes_ofSorted (List.mergeSort_perm samples _)
      (List.pairwise_mergeSort' (· ≤ ·) samples) (by simpa using hne) hlimit

/-- The sum of two long runs does not fit, and the mean lies far below both. -/
example : ofSorted [2 ^ 64 - 3, 2 ^ 64 - 2] =
    ⟨2, 2 ^ 64 - 3, 2 ^ 64 - 2, 2 ^ 63 - 3, 2 ^ 64 - 2, 2 ^ 64 - 2⟩ := by
  decide +kernel

end LogScript.Summary
