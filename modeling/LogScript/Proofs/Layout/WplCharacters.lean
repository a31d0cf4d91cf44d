import LogScript.Proofs.Layout.Trimmed
import LogScript.Proofs.Layout.WplVisible

/-!
Carriage returns and line feeds in a WPL layout. No pass writes a carriage return, and the last one
ends every line with a line feed, so a layout is not changed when its line breaks are normalized
for a second run.
-/

namespace LogScript.Layout

section Lists

variable {indent body : List Char} {items : List (List Char)}

theorem mem_of_mem_commaPieces {c : Char} {q : Quoting} {depth : Nat}
    (h : c ∈ (commaPieces q depth body).flatten) : c ∈ body := by
  induction body generalizing q depth with
  | nil => simp [commaPieces] at h
  | cons d rest ih =>
    rw [commaPieces] at h
    split at h
    · rw [flatten_consHead, List.mem_cons] at h
      exact List.mem_cons.2 (h.imp_right ih)
    · split at h
      · rw [List.flatten_cons, List.nil_append] at h
        exact List.mem_cons_of_mem d (ih h)
      · rw [flatten_consHead, List.mem_cons] at h
        exact List.mem_cons.2 (h.imp_right ih)

theorem not_mem_items (h : '\r' ∉ body) : ∀ item ∈ (Arguments.ofText body).items, '\r' ∉ item := by
  intro item hitem hc
  have hpiece : item ∈ (commaPieces .outside 0 body).map trim := by
    rw [← items_ofText (List.ne_nil_of_mem hitem)]
    exact List.mem_append_left _ hitem
  obtain ⟨piece, hmem, rfl⟩ := List.mem_map.1 hpiece
  exact h (mem_of_mem_commaPieces (List.mem_flatten.2 ⟨piece, hmem, mem_of_mem_trim hc⟩))

theorem not_mem_argumentLines (hindent : '\r' ∉ indent) (hitems : ∀ item ∈ items, '\r' ∉ item)
    (trailingComma : Bool) : '\r' ∉ argumentLines indent trailingComma items := by
  induction items with
  | nil => exact List.not_mem_nil
  | cons item items ih =>
    rw [List.forall_mem_cons] at hitems
    cases items with
    | nil => cases trailingComma <;> simp [argumentLines, hindent, hitems.1]
    | cons next items =>
      rw [argumentLines.eq_3 indent trailingComma item (next :: items) (List.cons_ne_nil _ _)]
      simp [hindent, hitems.1, ih hitems.2]

theorem not_mem_indentOf (h : '\r' ∉ body) : '\r' ∉ indentOf body := fun hc =>
  h ((List.takeWhile_sublist isBlank).mem hc)

theorem not_mem_indentStep (h : '\r' ∉ indent) : '\r' ∉ indent ++ indentStep := by
  rw [List.mem_append, not_or]
  exact ⟨h, by decide⟩

theorem not_mem_arguments (hindent : '\r' ∉ indent) (hbody : '\r' ∉ body) :
    '\r' ∉ argumentLines (indent ++ indentStep) (Arguments.ofText body).trailingComma
      (Arguments.ofText body).items :=
  not_mem_argumentLines (not_mem_indentStep hindent) (not_mem_items hbody) _

end Lists

theorem not_mem_layoutCall {lead call body suffix : List Char} (hlead : '\r' ∉ lead)
    (hcall : '\r' ∉ call) (hbody : '\r' ∉ body) (hsuffix : '\r' ∉ suffix) :
    '\r' ∉ layoutCall lead call (Arguments.ofText body) suffix := by
  have hindent := not_mem_indentOf hlead
  have hfront : '\r' ∉ if allBlank lead then [] else lead ++ ['\n'] := by
    split <;> simp [hlead]
  have hinner : '\r' ∉ if allBlank lead then indentOf lead else indentOf lead ++ indentStep := by
    split
    · exact hindent
    · exact not_mem_indentStep hindent
  have htail : '\r' ∉ if (trim suffix).isEmpty then [] else '\n' :: indentOf lead ++ trim suffix := by
    have htrim : '\r' ∉ trim suffix := fun hc => hsuffix (mem_of_mem_trim hc)
    split <;> simp [hindent, htrim]
  have hlines := not_mem_arguments hinner hbody
  rw [layoutCall]
  simp only [List.mem_append, not_or]
  exact ⟨⟨⟨⟨⟨⟨⟨⟨hfront, hinner⟩, hcall⟩, by decide⟩, hlines⟩, hinner⟩, by decide⟩, htail⟩, by decide⟩

theorem not_mem_splitCalls {text : List Char} (h : '\r' ∉ text) : '\r' ∉ splitCalls text := by
  induction text using splitCalls.induct with
  | case1 text hnone => rwa [splitCalls_of_none hnone]
  | case2 text before call inner hfind hopen => rwa [splitCalls_of_open hfind hopen]
  | case3 text before call inner hfind body after hclose _ _ _ ih =>
    rw [eq_of_findCall? hfind, eq_of_splitClosing hclose] at h
    simp only [List.mem_append, List.mem_cons, not_or] at h
    obtain ⟨⟨hbefore, hcall⟩, hbody, -, hafter⟩ := h
    have hrest : '\r' ∉ afterFirstLine after := fun hc =>
      hafter ((List.drop_sublist _ after).mem hc)
    rw [splitCalls_of_closed hfind hclose, List.mem_append, not_or]
    refine ⟨?_, ih hrest⟩
    split
    · have htake : '\r' ∉ after.take ((firstLine after).length + 1) := fun hc =>
        hafter ((List.take_sublist _ after).mem hc)
      simp [hbefore, hcall, hbody, htake]
    · have hline : '\r' ∉ firstLine after := fun hc =>
        hafter ((List.takeWhile_sublist _).mem hc)
      rw [← splitLastLine_append before, List.mem_append, not_or] at hbefore
      rw [List.mem_append, not_or]
      exact ⟨hbefore.1, not_mem_layoutCall hbefore.2 hcall hbody hline⟩

theorem not_mem_layoutTuple {block : List Char} (h : '\r' ∉ block) : '\r' ∉ layoutTuple block := by
  have hindent := not_mem_indentOf h
  rw [layoutTuple]
  dsimp only
  split
  · simp [h]
  · rename_i body after hclose
    split
    · simp [h]
    · have hinner : '\r' ∉ block.drop ((indentOf block).length + 1) := fun hc =>
        h ((List.drop_sublist _ block).mem hc)
      rw [eq_of_splitClosing hclose, List.mem_append, List.mem_cons, not_or, not_or] at hinner
      have hlines := not_mem_arguments hindent hinner.1
      have htrim : '\r' ∉ trim after := fun hc => hinner.2.2 (mem_of_mem_trim hc)
      simp [hindent, hlines, htrim]

theorem not_mem_splitTuples {ls : List (List Char)} (h : ∀ line ∈ ls, '\r' ∉ line) :
    '\r' ∉ splitTuples ls := by
  induction ls using splitTuples.induct with
  | case1 =>
    rw [splitTuples]
    exact List.not_mem_nil
  | case2 line rest hopens gathered ih =>
    rw [List.forall_mem_cons, ← gatherLines_append (Balance.pastText {} line) rest,
      List.forall_mem_append] at h
    have hblock : '\r' ∉ joinLines (line :: gathered.1) := by
      intro hc
      rcases mem_of_mem_joinLines hc with hc | hc
      · exact absurd hc (by decide)
      · obtain ⟨l, hl, hc⟩ := List.mem_flatten.1 hc
        rcases List.mem_cons.1 hl with heq | hl
        · rw [heq] at hc
          exact h.1 hc
        · exact h.2.1 l hl hc
    rw [splitTuples, if_pos hopens, List.mem_append, not_or]
    exact ⟨not_mem_layoutTuple hblock, ih h.2.2⟩
  | case3 line rest hopens ih =>
    rw [List.forall_mem_cons] at h
    rw [splitTuples, if_neg hopens]
    simp [h.1, ih h.2]

theorem mem_of_mem_words {c : Char} {text : List Char} (h : c ∈ (words text).flatten) :
    c ∈ text := by
  induction text with
  | nil => cases h
  | cons d rest ih =>
    rw [words] at h
    split at h
    · exact List.mem_cons_of_mem d (ih h)
    · split at h
      · rw [List.flatten_cons, List.singleton_append, List.mem_cons] at h
        exact List.mem_cons.2 (h.imp_right ih)
      · rw [flatten_consHead, List.mem_cons] at h
        exact List.mem_cons.2 (h.imp_right ih)

theorem not_mem_foldAttribute? {text folded rest : List Char} (h : '\r' ∉ text)
    (hfold : foldAttribute? text = some (folded, rest)) : '\r' ∉ folded ∧ '\r' ∉ rest := by
  unfold foldAttribute? at hfold
  split at hfold
  · rename_i body
    obtain ⟨⟨inner, after⟩, hclose, hpair⟩ := Option.map_eq_some_iff.1 hfold
    cases hpair
    rw [List.mem_cons, List.mem_cons, eq_of_splitClosing hclose, List.mem_append, List.mem_cons,
      not_or, not_or, not_or, not_or] at h
    obtain ⟨-, -, hinner, -, hafter⟩ := h
    have hline : '\r' ∉ trim (firstLine after) := fun hc =>
      hafter ((List.takeWhile_sublist _).mem (mem_of_mem_trim hc))
    have hwords : '\r' ∉ [' '].intercalate (words inner) := by
      intro hc
      rcases mem_of_mem_intercalate hc with hc | hc
      · exact absurd hc (by decide)
      · exact hinner (mem_of_mem_words hc)
    refine ⟨?_, fun hc => hafter ((List.drop_sublist _ after).mem hc)⟩
    split <;> simp [hwords, hline]
  · cases hfold

theorem not_mem_foldAttributes {text : List Char} (h : '\r' ∉ text) :
    '\r' ∉ foldAttributes text := by
  induction text using foldAttributes.induct with
  | case1 => rwa [foldAttributes]
  | case2 c more line indent folded rest hfold ih =>
    have hline : '\r' ∉ line := fun hc => h ((List.takeWhile_sublist _).mem hc)
    have hdrop : '\r' ∉ (c :: more).drop indent.length := fun hc =>
      h ((List.drop_sublist _ _).mem hc)
    obtain ⟨hfolded, hrest⟩ := not_mem_foldAttribute? hdrop hfold
    have hindent : '\r' ∉ indent := not_mem_indentOf hline
    rw [foldAttributes_of_fold hfold]
    have hmore := ih hrest
    simp only [List.mem_append, List.mem_cons, not_or]
    exact ⟨⟨hindent, hfolded⟩, by decide, hmore⟩
  | case3 c more line indent hfold ih =>
    have hline : '\r' ∉ line := fun hc => h ((List.takeWhile_sublist _).mem hc)
    have hrest := ih fun hc => h ((List.drop_sublist _ _).mem hc)
    rw [foldAttributes_of_none hfold]
    simp only [List.mem_append, List.mem_cons, not_or]
    exact ⟨hline, by decide, hrest⟩

/-- The text is empty or ends with a line feed. -/
def EndsLine (text : List Char) : Prop :=
  text = [] ∨ ∃ front, text = front ++ ['\n']

theorem endsLine_append {front text : List Char} (hfront : EndsLine front) (h : EndsLine text) :
    EndsLine (front ++ text) := by
  rcases h with rfl | ⟨behind, rfl⟩
  · rwa [List.append_nil]
  · exact .inr ⟨front ++ behind, (List.append_assoc _ _ _).symm⟩

theorem endsLine_layoutTuple (block : List Char) : EndsLine (layoutTuple block) := by
  rw [layoutTuple]
  dsimp only
  split
  · exact .inr ⟨_, rfl⟩
  · split <;> exact .inr ⟨_, rfl⟩

theorem endsLine_splitTuples (ls : List (List Char)) : EndsLine (splitTuples ls) := by
  induction ls using splitTuples.induct with
  | case1 => exact .inl (by rw [splitTuples])
  | case2 line rest hopens gathered ih =>
    rw [splitTuples, if_pos hopens]
    exact endsLine_append (endsLine_layoutTuple _) ih
  | case3 line rest hopens ih =>
    rw [splitTuples, if_neg hopens, List.append_cons]
    exact endsLine_append (.inr ⟨line, rfl⟩) ih

theorem endsLine_foldAttributes (text : List Char) : EndsLine (foldAttributes text) := by
  induction text using foldAttributes.induct with
  | case1 => exact .inl (by rw [foldAttributes])
  | case2 c more line indent folded rest hfold ih =>
    rw [foldAttributes_of_fold hfold, List.append_cons]
    exact endsLine_append (.inr ⟨_, rfl⟩) ih
  | case3 c more line indent hfold ih =>
    rw [foldAttributes_of_none hfold, List.append_cons]
    exact endsLine_append (.inr ⟨_, rfl⟩) ih

end LogScript.Layout
