import LogScript.Proofs.Completion.Candidates
import LogScript.Proofs.Editing.Revisions
import LogScript.Proofs.Editing.Session

/-!
What an editor asks of its document. Every operation comes down to a few requests: most to one, and
accepting an item to replacing what was typed and selecting the first tab stop. So whatever holds
throughout a history under these requests holds in every state an editor can get into.
-/

namespace LogScript

namespace Editor

/-- What inserting an item in the place of the text since an anchor asks of the document. -/
def insertRequests (e : Editor) (anchor : Nat) (item : Item) : List Document.Request :=
  let insertion := Template.resolve item.segments
  .replace ⟨anchor, e.cursor⟩ insertion.text ::
    (insertion.stops.head?.map fun s =>
      Document.Request.select ⟨anchor + s.start, anchor + s.stop⟩).toList

/-- What an operation asks of the document. -/
def requests (e : Editor) : Operation → List Document.Request
  | .setText text => [.setText text]
  | .format =>
    match e.config.mode.language? with
    | some language => [.setText (LogScript.format language e.text)]
    | none => []
  | .undo => [.undo]
  | .redo => [.redo]
  | .setCursor position => [.setCursor position]
  | .replace span text => [.replace span text]
  | .insert position text => [.insert position text]
  | .type text => [.replace e.document.selection text]
  | .accept label =>
    match e.session with
    | none => []
    | some s =>
      match s.candidate? label with
      | none => []
      | some item => e.insertRequests s.offer.anchor item
  | .complete _ | .close | .configure _ | .setLocale _ => []

variable {e : Editor}

theorem document_afterEdit (e : Editor) (result : Document × Bool) :
    (e.afterEdit result).editor.document = result.1 := by
  rw [afterEdit]
  split <;> rfl

theorem document_setCursor (e : Editor) (position : Nat) :
    (e.setCursor position).editor.document = (e.document.answer (.setCursor position)).1 := by
  rw [Editor.setCursor, Document.answer]
  cases e.document.setCursor position <;> rfl

theorem document_replace (e : Editor) (span : Span) (text : List Char) :
    (e.replace span text).editor.document = (e.document.answer (.replace span text)).1 := by
  rw [Editor.replace, Document.answer]
  cases e.document.replace span text with
  | error error => rfl
  | ok result => exact document_afterEdit e result

theorem document_complete (e : Editor) (explicit : Bool) :
    (e.complete explicit).editor.document = e.document := by
  rw [Editor.complete]
  split <;> rfl

theorem document_configure (e : Editor) (config : Config) :
    (e.configure config).editor.document = e.document := by
  rw [Editor.configure]
  split <;> rfl

theorem document_setLocale (e : Editor) (locale : Locale) :
    (e.setLocale locale).editor.document = e.document := by
  rw [Editor.setLocale]
  split <;> rfl

theorem Sound.document_insertItem {anchor : Nat} (h : e.Sound) (hanchor : anchor ≤ e.cursor)
    (item : Item) :
    (e.insertItem anchor item).editor.document =
      e.document.run (e.insertRequests anchor item) := by
  obtain ⟨document, changed, hreplace, hwithin, heq⟩ := h.insertItem_eq hanchor item
  rw [heq, insertRequests, Document.run, List.foldl_cons, Document.answer, hreplace,
    Document.settled]
  cases hstops : (Template.resolve item.segments).stops with
  | nil => rfl
  | cons s stops =>
    have hfirst := hwithin ⟨anchor + s.start, anchor + s.stop⟩ (by rw [hstops]; exact .head _)
    simp [Document.answer, Document.select_of_within hfirst, Except.map, Document.settled]

theorem Sound.document_accept (h : e.Sound) (label : List Char) :
    (e.accept label).editor.document = e.document.run (e.requests (.accept label)) := by
  rw [Editor.accept, requests]
  cases hsession : e.session with
  | none => rfl
  | some s =>
    dsimp only
    cases s.candidate? label with
    | none => rfl
    | some item => exact h.document_insertItem (h.session s hsession).anchor_le item

/-- An operation does to the document what its requests do. -/
theorem Sound.document_apply (h : e.Sound) (operation : Operation) :
    (e.apply operation).editor.document = e.document.run (e.requests operation) := by
  cases operation with
  | setText text => exact document_afterEdit e _
  | format =>
    rw [Editor.apply, Editor.format, requests]
    cases e.config.mode.language? with
    | none => rfl
    | some language => exact document_afterEdit e _
  | undo => exact document_afterEdit e _
  | redo => exact document_afterEdit e _
  | setCursor position => exact document_setCursor e position
  | replace span text => exact document_replace e span text
  | insert position text => exact document_replace e (.at position) text
  | type text =>
    obtain ⟨document, changed, session, events, hreplace, htype, -⟩ := h.type_eq text
    rw [Editor.apply, htype, requests, Document.run, List.foldl_cons, Document.answer, hreplace]
    rfl
  | complete explicit => exact document_complete e explicit
  | accept label => exact h.document_accept label
  | close => rfl
  | configure config => exact document_configure e config
  | setLocale locale => exact document_setLocale e locale

/-- No operation selects anything of which the condition does not hold: it holds of every cursor,
and of every tab stop of an item behind its insertion. -/
structure Lasting (P : Snapshot → Prop) : Prop where
  cursor : ∀ text position, P ⟨text, .at position⟩
  stop : ∀ {language locale item}, item ∈ (Catalog.builtin language locale).items →
    ∀ s ∈ (Template.resolve item.segments).stops, ∀ front back,
      P ⟨front ++ (Template.resolve item.segments).text ++ back,
        ⟨front.length + s.start, front.length + s.stop⟩⟩

theorem lasting_true : Lasting fun _ => True :=
  ⟨fun _ _ => trivial, fun _ _ _ _ _ => trivial⟩

variable {P : Snapshot → Prop}

/-- Inserting an item between an anchor and the cursor. -/
theorem Sound.throughout_insertItem {anchor : Nat} {item : Item} {language : Language}
    {locale : Locale} (h : e.Sound) (hanchor : anchor ≤ e.cursor) (hP : Lasting P)
    (hitem : item ∈ (Catalog.builtin language locale).items)
    (ht : e.document.history.Throughout P) :
    (e.document.run (e.insertRequests anchor item)).history.Throughout P := by
  have hcursor : e.cursor ≤ e.document.text.length := h.document.cursor_le
  have hspan : (Span.mk anchor e.cursor).Within e.document.text := ⟨hanchor, hcursor⟩
  obtain ⟨result, hreplace⟩ :=
    Document.exists_replace hspan (Template.resolve item.segments).text
  obtain ⟨hdocument, htext⟩ := h.document.replace hreplace
  have hreplaced := h.document.throughout_answer ht hP.cursor
    (.replace ⟨anchor, e.cursor⟩ (Template.resolve item.segments).text) (fun s hs => by cases hs)
  rw [Document.answer, hreplace, Document.settled] at hreplaced
  rw [insertRequests, Document.run, List.foldl_cons, Document.answer, hreplace, Document.settled]
  cases hstops : (Template.resolve item.segments).stops with
  | nil => exact hreplaced
  | cons s stops =>
    refine hdocument.throughout_answer hreplaced hP.cursor _ fun span hspan => ?_
    have hfront : (e.document.text.take anchor).length = anchor := by
      rw [List.length_take]
      omega
    have hstop := hP.stop hitem s (hstops ▸ List.mem_cons_self) (e.document.text.take anchor)
      (e.document.text.drop e.cursor)
    cases hspan
    rwa [hfront, ← htext] at hstop

theorem Sound.throughout_apply (h : e.Sound) (hP : Lasting P)
    (ht : e.document.history.Throughout P) (operation : Operation) :
    (e.apply operation).editor.document.history.Throughout P := by
  rw [h.document_apply]
  -- Accepting is the only operation that selects anything; the condition has to hold of that.
  cases operation with
  | accept label =>
    rw [requests]
    cases hsession : e.session with
    | none => exact ht
    | some s =>
      dsimp only
      cases hcandidate : s.candidate? label with
      | none => exact ht
      | some item =>
        have hfits := h.session s hsession
        have hitem := Session.mem_of_candidate? hcandidate
        rw [hfits.candidates] at hitem
        exact h.throughout_insertItem hfits.anchor_le hP hitem ht
  | format =>
    rw [requests]
    cases e.config.mode.language? with
    | none => exact ht
    | some language => exact h.document.throughout_run ht hP.cursor (by simp)
  | setText | undo | redo | setCursor | replace | insert | type | complete | close | configure
  | setLocale => exact h.document.throughout_run ht hP.cursor (by simp [requests])

/-- In every state an editor can get into. -/
theorem throughout_run (hP : Lasting P) (config : Config) (locale : Locale) (text : List Char)
    (operations : List Operation) :
    ((new config locale text).run operations).document.history.Throughout P := by
  have hnew : (new config locale text).document.history.Throughout P :=
    SnapshotHistory.throughout_ofText hP.cursor text
  have hrun := run_of_apply (P := fun e => e.Sound ∧ e.document.history.Throughout P)
    ⟨sound_new config locale text, hnew⟩
    (fun h operation => ⟨h.1.apply operation, h.1.throughout_apply hP h.2 operation⟩) operations
  exact hrun.2

end Editor

end LogScript
