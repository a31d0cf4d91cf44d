import Mathlib.Data.List.DropRight
import Mathlib.Data.List.Induction
import LogScript.Proofs.Activity.Summaries

/-!
What an activity keeps of the durations it is told. However the operations are mixed, and whenever
everything is forgotten, the samples of an operation are the last 1024 of those that came for it since
then. So a summary of an operation describes these samples, and there is none exactly when nothing came.
-/

namespace LogScript.Activity

/-- The activity behind a sequence of reports. -/
def run (a : Activity) (reports : List Report) : Activity :=
  reports.foldl apply a

/-- The sample that a report brings for an operation. -/
def Report.sample? (name : List Char) : Report → Option Nat
  | .timed other micros => if other = name then some micros.toNat else none
  | .counted _ | .reset => none

/-- The samples of an operation behind the last reset, oldest first. -/
def sinceReset (name : List Char) (reports : List Report) : List Nat :=
  (reports.rtakeWhile (· ≠ .reset)).filterMap (Report.sample? name)

theorem lookup_cons_eq_ite (name other : List Char) (samples : List Nat)
    (entries : List (List Char × List Nat)) :
    ((name, samples) :: entries).lookup other =
      if other = name then some samples else entries.lookup other := by
  rw [List.lookup_cons]
  by_cases h : other = name
  · rw [if_pos h, beq_iff_eq.2 h]
  · rw [if_neg h, beq_false_of_ne h]

theorem lookup_setSamples (name other : List Char) (samples : List Nat)
    (entries : List (List Char × List Nat)) :
    (setSamples name samples entries).lookup other =
      if other = name then some samples else entries.lookup other := by
  induction entries with
  | nil =>
    rw [setSamples]
    exact lookup_cons_eq_ite name other samples []
  | cons entry rest ih =>
    obtain ⟨key, kept⟩ := entry
    rw [setSamples, lookup_cons_eq_ite key]
    by_cases hkey : key = name
    · rw [if_pos hkey, lookup_cons_eq_ite, ← hkey]
      split <;> rfl
    · rw [if_neg hkey, lookup_cons_eq_ite, ih]
      by_cases h : other = key
      · rw [if_pos h, if_pos h, if_neg fun hname => hkey (h.symm.trans hname)]
      · rw [if_neg h, if_neg h]

theorem samplesOf_time (a : Activity) (name other : List Char) (micros : Nat) :
    (a.time name micros).samplesOf other =
      if other = name then pushSample (a.samplesOf name) micros else a.samplesOf other := by
  rw [samplesOf, time, lookup_setSamples]
  split <;> rfl

/-- The samples that are kept and one more are the latest of all that came, or all of them. -/
theorem pushSample_rtake (samples : List Nat) (micros : Nat) :
    pushSample (samples.rtake sampleLimit) micros = (samples ++ [micros]).rtake sampleLimit := by
  obtain ⟨limit, hlimit⟩ : ∃ limit, sampleLimit = limit + 1 := ⟨1023, rfl⟩
  rw [pushSample, hlimit, List.rtake_concat_succ]
  congr 1
  simp only [List.rtake, List.length_drop]
  split
  · rename_i hfull
    rw [List.tail_drop]
    congr 1
    omega
  · rename_i hroom
    congr 1
    omega

theorem sinceReset_concat_reset (name : List Char) (reports : List Report) :
    sinceReset name (reports ++ [.reset]) = [] := by
  rw [sinceReset, List.rtakeWhile_concat_neg _ _ _ (by simp), List.filterMap_nil]

theorem sinceReset_concat {report : Report} (h : report ≠ .reset) (name : List Char)
    (reports : List Report) :
    sinceReset name (reports ++ [report]) =
      sinceReset name reports ++ (report.sample? name).toList := by
  rw [sinceReset, List.rtakeWhile_concat_pos _ _ _ (by simpa using h), List.filterMap_append,
    List.filterMap_cons]
  cases report.sample? name <;> rfl

/-- One report more: an operation keeps the latest of the samples that came for it. -/
theorem samplesOf_apply {a : Activity} {name : List Char} {reports : List Report}
    (h : a.samplesOf name = (sinceReset name reports).rtake sampleLimit) (report : Report) :
    (a.apply report).samplesOf name =
      (sinceReset name (reports ++ [report])).rtake sampleLimit := by
  cases report with
  | counted e =>
    rw [sinceReset_concat (by simp), Report.sample?, Option.toList_none, List.append_nil, ← h]
    rfl
  | timed other micros =>
    rw [sinceReset_concat (by simp), apply, samplesOf_time, Report.sample?]
    by_cases hname : other = name
    · subst hname
      rw [if_pos rfl, if_pos rfl, h]
      exact pushSample_rtake _ _
    · rw [if_neg hname, if_neg fun heq => hname heq.symm, h]
      simp
  | reset =>
    rw [sinceReset_concat_reset]
    rfl

theorem samplesOf_run (name : List Char) (reports : List Report) :
    (run {} reports).samplesOf name = (sinceReset name reports).rtake sampleLimit := by
  induction reports using List.reverseRecOn with
  | nil => exact List.drop_nil.symm
  | append_singleton reports report ih =>
    rw [run, List.foldl_append]
    exact samplesOf_apply ih report

/-- Behind every sequence of reports, there is a summary of an operation exactly when a sample came for
it since the last reset, and it describes the last 1024 samples that did. -/
theorem describes_run (name : List Char) (reports : List Report) :
    let samples := sinceReset name reports
    ((run {} reports).summary? name = none ↔ samples = []) ∧
      ∀ s, (run {} reports).summary? name = some s → s.Describes (samples.rtake 1024) := by
  intro samples
  have hkept : (run {} reports).samplesOf name = samples.rtake 1024 := samplesOf_run name reports
  rw [summary?, hkept]
  constructor
  · rw [Summary.of?_eq_none_iff, List.rtake, List.drop_eq_nil_iff]
    constructor
    · intro h
      apply List.eq_nil_of_length_eq_zero
      omega
    · intro h
      rw [h]
      exact Nat.le_refl 0
  · intro s hs
    apply Summary.describes_of? _ hs
    simp only [List.rtake, List.length_drop, sampleLimit]
    omega

end LogScript.Activity
