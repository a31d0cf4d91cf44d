import Mathlib.Data.List.Perm.Subperm
import LogScript.Proofs.Completion.Candidates

/-!
Typing on in a session. What a session accepts holds no capital sigma, the one letter whose lower-case
form depends on the letters around it, so the lower-case form of a longer text starts with that of a
shorter one. A label that the longer text matches is then matched by the shorter one too, as well or
better, and the visible candidates only get fewer.
-/

namespace LogScript

/-- Only a capital sigma looks at the text behind it. -/
theorem lowercaseAt_append {c : Char} (hc : c ≠ 'Σ') (before rest more : List Char) :
    lowercaseAt before c (rest ++ more) = lowercaseAt before c rest := by
  have hsigma : (c == 'Σ') = false := beq_false_of_ne hc
  simp only [lowercaseAt, hsigma, Bool.false_eq_true, if_false]

theorem lowercaseFrom_append {text : List Char} (h : 'Σ' ∉ text) (before more : List Char) :
    lowercaseFrom before (text ++ more) =
      lowercaseFrom before text ++ lowercaseFrom (text.reverse ++ before) more := by
  induction text generalizing before with
  | nil => rfl
  | cons c rest ih =>
    have hc : c ≠ 'Σ' := fun heq => h (heq ▸ List.mem_cons_self)
    have hrest : 'Σ' ∉ rest := fun hmem => h (List.mem_cons_of_mem c hmem)
    simp only [List.cons_append, lowercaseFrom, lowercaseAt_append hc, ih hrest,
      List.reverse_cons, List.append_assoc, List.nil_append]

theorem lowercase_prefix_append {text : List Char} (h : 'Σ' ∉ text) (more : List Char) :
    lowercase text <+: lowercase (text ++ more) := by
  unfold lowercase
  rw [lowercaseFrom_append h]
  exact List.prefix_append _ _

namespace Quality

theorem containsText_iff {part text : List Char} :
    containsText part text = true ↔ part <:+: text := by
  induction text with
  | nil => simp [containsText]
  | cons c rest ih =>
    rw [containsText, Bool.or_eq_true, List.isPrefixOf_iff_prefix, ih, List.infix_cons_iff]

/-- What a label has to do with a typed text for a match of some quality, or a better one. -/
def Meets (label typed : List Char) : Quality → Prop
  | exactStart => typed <+: label
  | looseStart => lowercase typed <+: lowercase label
  | inside => lowercase typed <:+: lowercase label

variable {label typed : List Char}

theorem meets_of_of? {q : Quality} (h : of? label typed = some q) : Meets label typed q := by
  unfold of? at h
  split at h
  · rename_i hstart
    cases h
    exact List.isPrefixOf_iff_prefix.1 hstart
  split at h
  · rename_i hstart
    cases h
    exact List.isPrefixOf_iff_prefix.1 hstart
  split at h
  · rename_i hinside
    cases h
    exact containsText_iff.1 hinside
  · cases h

theorem exists_of?_of_meets {q : Quality} (h : Meets label typed q) :
    ∃ best, of? label typed = some best ∧ best.rank ≤ q.rank := by
  unfold of?
  by_cases hexact : typed.isPrefixOf label = true
  · exact ⟨exactStart, if_pos hexact, Nat.zero_le _⟩
  rw [if_neg hexact]
  by_cases hloose : (lowercase typed).isPrefixOf (lowercase label) = true
  · refine ⟨looseStart, if_pos hloose, ?_⟩
    cases q with
    | exactStart => exact absurd (List.isPrefixOf_iff_prefix.2 h) hexact
    | looseStart => exact Nat.le_refl _
    | inside => decide
  rw [if_neg hloose]
  cases q with
  | exactStart => exact absurd (List.isPrefixOf_iff_prefix.2 h) hexact
  | looseStart => exact absurd (List.isPrefixOf_iff_prefix.2 h) hloose
  | inside => exact ⟨inside, if_pos (containsText_iff.2 h), Nat.le_refl _⟩

/-- What a longer text meets, a shorter one meets. -/
theorem Meets.of_append (hsigma : 'Σ' ∉ typed) {more : List Char} {q : Quality}
    (h : Meets label (typed ++ more) q) : Meets label typed q := by
  have hlower := lowercase_prefix_append hsigma more
  cases q with
  | exactStart => exact (List.prefix_append typed more).trans h
  | looseStart => exact hlower.trans h
  | inside => exact hlower.isInfix.trans h

/-- With less typed, a label is matched as well or better. -/
theorem exists_of?_of_append (hsigma : 'Σ' ∉ typed) {more : List Char} {worse : Quality}
    (h : of? label (typed ++ more) = some worse) :
    ∃ better, of? label typed = some better ∧ better.rank ≤ worse.rank :=
  exists_of?_of_meets ((meets_of_of? h).of_append hsigma)

end Quality

theorem Language.sigma_not_mem {language : Language} {typed : List Char}
    (h : language.isValidTyped typed = true) : 'Σ' ∉ typed := by
  intro hmem
  simp only [isValidTyped, Bool.or_eq_true, Bool.and_eq_true, List.all_eq_true, beq_iff_eq] at h
  rcases h with ⟨-, hall⟩ | ⟨-, rfl⟩
  · have hsigma := hall 'Σ' hmem
    cases language <;> cases hsigma
  · cases hmem with
    | tail _ hmem => cases hmem

namespace Session

variable (s : Session)

theorem sigma_not_mem {typed : List Char} (h : s.accepts typed = true) : 'Σ' ∉ typed := by
  rw [accepts, Bool.or_eq_true] at h
  rcases h with hempty | hvalid
  · rw [List.isEmpty_iff.1 hempty]
    exact List.not_mem_nil
  · exact Language.sigma_not_mem hvalid

/-- Without a limit, the visible candidates are those with a match, each as often as it is offered. -/
theorem perm_visible : (s.visible .unbounded).Perm
    (s.offer.candidates.filter fun item => (Quality.of? item.label s.typed).isSome) :=
  Scoring.perm_ranked _ _ _

/-- In every session, text that can be typed on: every candidate that the longer text leaves visible
is visible with the shorter one, and no label is matched better by the longer one. -/
theorem narrows_append (shorter more : List Char) (hshorter : s.accepts shorter = true)
    (hlonger : s.accepts (shorter ++ more) = true) :
    (∃ before after, s.update? shorter = some before ∧ s.update? (shorter ++ more) = some after ∧
      (after.visible .unbounded).Subperm (before.visible .unbounded)) ∧
    ∀ label worse, Quality.of? label (shorter ++ more) = some worse →
      ∃ better, Quality.of? label shorter = some better ∧ better.rank ≤ worse.rank := by
  have hsigma : 'Σ' ∉ shorter := s.sigma_not_mem hshorter
  refine ⟨⟨_, _, if_pos hshorter, if_pos hlonger, ?_⟩, fun label worse hmatch =>
    Quality.exists_of?_of_append hsigma hmatch⟩
  have hfewer : (s.offer.candidates.filter fun item =>
      (Quality.of? item.label (shorter ++ more)).isSome).Sublist
        (s.offer.candidates.filter fun item => (Quality.of? item.label shorter).isSome) := by
    apply List.monotone_filter_right
    intro item hitem
    obtain ⟨worse, hworse⟩ := Option.isSome_iff_exists.1 hitem
    obtain ⟨better, hbetter, -⟩ := Quality.exists_of?_of_append hsigma hworse
    exact Option.isSome_iff_exists.2 ⟨better, hbetter⟩
  have hafter := ({ s with typed := shorter ++ more } : Session).perm_visible
  have hbefore := ({ s with typed := shorter } : Session).perm_visible
  exact hafter.subperm.trans (hfewer.subperm.trans hbefore.symm.subperm)

/-- A label with a capital sigma, which the typed text stands behind. -/
theorem narrows_append_sigma :
    let s : Session := ⟨⟨.wpl, 0, [.construct "ΑΣ_ok" "" "" ""]⟩, []⟩
    (s.accepts ['O'] ∧ s.accepts (['O'] ++ ['K'])) ∧
    (∃ before after, s.update? ['O'] = some before ∧ s.update? ['O', 'K'] = some after ∧
      (after.visible .unbounded).Subperm (before.visible .unbounded)) ∧
    ∃ better, Quality.of? "ΑΣ_ok".toList ['O'] = some better ∧
      better.rank ≤ Quality.inside.rank := by
  intro s
  have hshorter : s.accepts ['O'] = true := by decide
  have hlonger : s.accepts (['O'] ++ ['K']) = true := by decide
  obtain ⟨hvisible, hquality⟩ := s.narrows_append ['O'] ['K'] hshorter hlonger
  exact ⟨⟨hshorter, hlonger⟩, hvisible, hquality _ .inside (by decide +kernel)⟩

end Session

end LogScript
