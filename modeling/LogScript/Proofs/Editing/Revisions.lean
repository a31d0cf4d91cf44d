import LogScript.Proofs.Editing.Snapshots

/-!
What holds throughout a history. A condition on snapshots that holds of every cursor, and of the
spans that are selected, holds of the document and of all that it may go back to or forward to. Every
revision it keeps has changed the text, so the reply to a request tells exactly whether the text has
become another one, for undoing and redoing too.
-/

namespace LogScript

/-- The revision has changed the text, and the snapshots on both its sides satisfy a condition. -/
structure Revision.Proper (P : Snapshot → Prop) (r : Revision) : Prop where
  changes : r.before.text ≠ r.after.text
  before : P r.before
  after : P r.after

namespace SnapshotHistory

/-- The condition holds of everything that the history shows or may show again. -/
structure Throughout (P : Snapshot → Prop) (h : SnapshotHistory) : Prop where
  current : P h.current
  past : ∀ r ∈ h.past, r.Proper P
  future : ∀ r ∈ h.future, r.Proper P

variable {P : Snapshot → Prop} {h : SnapshotHistory}

theorem throughout_ofText (hcursor : ∀ text position, P ⟨text, .at position⟩) (text : List Char) :
    (ofText text).Throughout P where
  current := hcursor text 0
  past := fun _ hr => by cases hr
  future := fun _ hr => by cases hr

theorem Throughout.change (ht : h.Throughout P)
    (hcursor : ∀ text position, P ⟨text, .at position⟩) (text : List Char) (cursor again : Nat) :
    (h.change text cursor again).1.Throughout P := by
  rw [SnapshotHistory.change]
  split
  · exact ht
  · rename_i hchanged
    refine ⟨hcursor text cursor, fun r hr => ?_, fun _ hr => by cases hr⟩
    rcases List.mem_cons.1 hr with rfl | hr
    · exact ⟨fun hsame => hchanged hsame.symm, ht.current, hcursor text again⟩
    · exact ht.past r hr

theorem Throughout.replace (ht : h.Throughout P)
    (hcursor : ∀ text position, P ⟨text, .at position⟩) (s : Span) (text : List Char) :
    (h.replace s text).1.Throughout P := by
  rw [SnapshotHistory.replace]
  split
  · exact ht
  · exact ht.change hcursor _ _ _

theorem Throughout.select (ht : h.Throughout P) {s : Span} (hs : P ⟨h.current.text, s⟩) :
    (h.select s).1.Throughout P := by
  rw [SnapshotHistory.select]
  split
  · exact ht
  · exact ⟨hs, ht.past, ht.future⟩

/-- One request. Only a selection may break the condition. -/
theorem Throughout.answer (ht : h.Throughout P)
    (hcursor : ∀ text position, P ⟨text, .at position⟩) (request : Document.Request)
    (hselect : ∀ s, request = .select s → P ⟨h.current.text, s⟩) :
    (h.answer request).1.Throughout P := by
  cases request with
  | replace s text => exact ht.replace hcursor s text
  | insert position text => exact ht.replace hcursor (.at position) text
  | setText text => exact ht.change hcursor text _ _
  | setCursor position => exact ht.select (hcursor _ position)
  | select s => exact ht.select (hselect s rfl)
  | undo =>
    rw [SnapshotHistory.answer]
    cases hpast : h.past with
    | nil => exact ht
    | cons r earlier =>
      have hr := ht.past r (hpast ▸ List.mem_cons_self)
      refine ⟨hr.before, fun r' hr' => ht.past r' ?_, fun r' hr' => ?_⟩
      · exact hpast ▸ List.mem_cons_of_mem r hr'
      · rcases List.mem_cons.1 hr' with rfl | hr'
        · exact hr
        · exact ht.future r' hr'
  | redo =>
    rw [SnapshotHistory.answer]
    cases hfuture : h.future with
    | nil => exact ht
    | cons r later =>
      have hr := ht.future r (hfuture ▸ List.mem_cons_self)
      refine ⟨hr.after, fun r' hr' => ?_, fun r' hr' => ht.future r' ?_⟩
      · rcases List.mem_cons.1 hr' with rfl | hr'
        · exact hr
        · exact ht.past r' hr'
      · exact hfuture ▸ List.mem_cons_of_mem r hr'

theorem change_reply_iff (h : SnapshotHistory) (text : List Char) (cursor again : Nat) :
    (h.change text cursor again).2 = .ok true ↔
      (h.change text cursor again).1.current.text ≠ h.current.text := by
  rw [SnapshotHistory.change]
  split
  · simp
  · simpa using ‹¬ text = h.current.text›

theorem replace_reply_iff (h : SnapshotHistory) (s : Span) (text : List Char) :
    (h.replace s text).2 = .ok true ↔
      (h.replace s text).1.current.text ≠ h.current.text := by
  rw [SnapshotHistory.replace]
  split
  · simp
  · exact change_reply_iff h _ _ _

theorem select_reply_iff (h : SnapshotHistory) (s : Span) :
    (h.select s).2 = .ok true ↔ (h.select s).1.current.text ≠ h.current.text := by
  rw [SnapshotHistory.select]
  split <;> simp

end SnapshotHistory

namespace Document

variable {P : Snapshot → Prop} {d : Document}

/-- One request to a document. -/
theorem Sound.throughout_answer (h : d.Sound) (ht : d.history.Throughout P)
    (hcursor : ∀ text position, P ⟨text, .at position⟩) (request : Request)
    (hselect : ∀ s, request = .select s → P ⟨d.text, s⟩) :
    (d.answer request).1.history.Throughout P := by
  have hanswer := ht.answer hcursor request hselect
  rwa [h.answer_history request] at hanswer

/-- Requests that select nothing. -/
theorem Sound.throughout_run (h : d.Sound) (ht : d.history.Throughout P)
    (hcursor : ∀ text position, P ⟨text, .at position⟩) {requests : List Request}
    (hselect : ∀ s, .select s ∉ requests) : (d.run requests).history.Throughout P := by
  induction requests generalizing d with
  | nil => exact ht
  | cons request requests ih =>
    refine ih (h.answer request) (h.throughout_answer ht hcursor request ?_) ?_
    · rintro s rfl
      exact absurd List.mem_cons_self (hselect s)
    · exact fun s hs => hselect s (List.mem_cons_of_mem _ hs)

theorem Sound.undo_reply_iff (h : d.Sound) (ht : d.history.Throughout P) :
    d.undo.2 = true ↔ d.undo.1.text ≠ d.text := by
  have hundoable := h.undoable
  have hpast := ht.past
  rw [Document.undo]
  cases hundo : d.undoable with
  | nil => simp
  | cons e earlier =>
    rw [hundo] at hundoable
    simp only [history, hundo] at hpast
    cases hundoable with
    | cons links _ =>
      rw [links.revisionsTo_cons] at hpast
      have hchanges := (hpast _ List.mem_cons_self).changes
      simpa only [links.splice_back, true_iff, Edit.revision] using hchanges

theorem Sound.redo_reply_iff (h : d.Sound) (ht : d.history.Throughout P) :
    d.redo.2 = true ↔ d.redo.1.text ≠ d.text := by
  have hredoable := h.redoable
  have hfuture := ht.future
  rw [Document.redo]
  cases hredo : d.redoable with
  | nil => simp
  | cons e later =>
    rw [hredo] at hredoable
    simp only [history, hredo] at hfuture
    cases hredoable with
    | cons links _ =>
      rw [links.revisionsFrom_cons] at hfuture
      have hchanges := (hfuture _ List.mem_cons_self).changes
      simpa only [applyEdit, links.splice_forward, true_iff, Edit.revision] using hchanges.symm

/-- The reply to a request tells exactly whether the text has changed. -/
theorem Sound.reply_iff (h : d.Sound) (ht : d.history.Throughout P) (request : Request) :
    (d.answer request).2 = .ok true ↔ (d.answer request).1.text ≠ d.text := by
  have hanswer := h.answer_history request
  have hreply := congrArg Prod.snd hanswer
  have htext := congrArg (fun answer => answer.1.current.text) hanswer
  simp only [history] at htext
  cases request with
  | replace s text =>
    rw [← hreply, ← htext]
    exact d.history.replace_reply_iff s text
  | insert position text =>
    rw [← hreply, ← htext]
    exact d.history.replace_reply_iff (.at position) text
  | setText text =>
    rw [← hreply, ← htext]
    exact d.history.change_reply_iff text _ _
  | setCursor position =>
    rw [← hreply, ← htext]
    exact d.history.select_reply_iff (.at position)
  | select s =>
    rw [← hreply, ← htext]
    exact d.history.select_reply_iff s
  | undo =>
    have hundo := h.undo_reply_iff ht
    simpa only [Document.answer, Document.settled, Except.ok.injEq] using hundo
  | redo =>
    have hredo := h.redo_reply_iff ht
    simpa only [Document.answer, Document.settled, Except.ok.injEq] using hredo

end Document

end LogScript
