import LogScript.Proofs.Editing.Requests

/-!
What the listeners of an editor are told. An operation that changes the text makes one notice, with
the text behind it; an operation that leaves the text as it is, failing ones among them, makes none.
So every listener is called once with each new text and never without one.
-/

namespace LogScript

/-- The calls that an outcome makes: each notice goes to every listener, in their order. -/
def Outcome.calls {α : Type} (o : Outcome) (listeners : List α) : List (α × List Char) :=
  o.notices.flatMap fun text => listeners.map fun listener => (listener, text)

/-- One notice with the text behind the operation if that is not the text before it, else none. -/
def Outcome.Notifies (o : Outcome) (before : List Char) : Prop :=
  o.notices = if o.editor.text = before then [] else [o.editor.text]

theorem Outcome.notifies_of_changed {o : Outcome} {before : List Char} {changed : Bool}
    (hnotices : o.notices = if changed then [o.editor.text] else [])
    (hchanged : changed = true ↔ o.editor.text ≠ before) : o.Notifies before := by
  rw [Outcome.Notifies, hnotices]
  by_cases hsame : o.editor.text = before
  · have hunchanged : ¬ changed = true := fun h => hchanged.1 h hsame
    rw [if_neg hunchanged, if_pos hsame]
  · rw [if_pos (hchanged.2 hsame), if_neg hsame]

theorem Outcome.notifies_of_same {o : Outcome} {before : List Char} (hnotices : o.notices = [])
    (hsame : o.editor.text = before) : o.Notifies before := by
  rw [Outcome.Notifies, hnotices, if_pos hsame]

theorem Outcome.Notifies.calls {α : Type} {o : Outcome} {before : List Char}
    (h : o.Notifies before) (listeners : List α) :
    o.calls listeners =
      if o.editor.text = before then []
      else listeners.map fun listener => (listener, o.editor.text) := by
  rw [Outcome.calls, h]
  split
  · rfl
  · exact List.append_nil _

namespace Document

variable {P : Snapshot → Prop} {d : Document}

theorem Sound.setText_reply_iff (h : d.Sound) (ht : d.history.Throughout P) (text : List Char) :
    (d.setText text).2 = true ↔ (d.setText text).1.text ≠ d.text := by
  have hreply := h.reply_iff ht (.setText text)
  simpa only [Document.answer, Document.settled, Except.ok.injEq] using hreply

theorem Sound.replace_reply_iff {s : Span} {text : List Char} {result : Document × Bool}
    (h : d.Sound) (ht : d.history.Throughout P) (hreplace : d.replace s text = .ok result) :
    result.2 = true ↔ result.1.text ≠ d.text := by
  have hreply := h.reply_iff ht (.replace s text)
  rw [Document.answer, hreplace] at hreply
  simpa only [Document.settled, Except.ok.injEq] using hreply

end Document

namespace Editor

variable {P : Snapshot → Prop} {e : Editor}

theorem notices_afterEdit (e : Editor) (result : Document × Bool) :
    (e.afterEdit result).notices = if result.2 then [result.1.text] else [] := by
  rw [afterEdit]
  split <;> rfl

theorem notifies_afterEdit {result : Document × Bool}
    (hchanged : result.2 = true ↔ result.1.text ≠ e.text) :
    (e.afterEdit result).Notifies e.text := by
  have htext : (e.afterEdit result).editor.text = result.1.text :=
    congrArg Document.text (document_afterEdit e result)
  apply Outcome.notifies_of_changed
  · rw [htext, notices_afterEdit]
  · rwa [htext]

theorem Sound.notifies_setText (h : e.Sound) (ht : e.document.history.Throughout P)
    (text : List Char) : (e.setText text).Notifies e.text :=
  notifies_afterEdit (h.document.setText_reply_iff ht text)

theorem Sound.notifies_format (h : e.Sound) (ht : e.document.history.Throughout P) :
    e.format.Notifies e.text := by
  rw [Editor.format]
  split
  · exact h.notifies_setText ht _
  · exact Outcome.notifies_of_same rfl rfl

theorem notifies_setCursor (e : Editor) (position : Nat) :
    (e.setCursor position).Notifies e.text := by
  rw [Editor.setCursor, Document.setCursor_eq_select]
  rcases e.document.refused_or_within (.at position) with ⟨error, hcheck, -⟩ | hinside
  · rw [Document.select_of_refused hcheck]
    exact Outcome.notifies_of_same rfl rfl
  · rw [Document.select_of_within hinside]
    exact Outcome.notifies_of_same rfl rfl

theorem Sound.notifies_replace (h : e.Sound) (ht : e.document.history.Throughout P) (span : Span)
    (text : List Char) : (e.replace span text).Notifies e.text := by
  rw [Editor.replace]
  cases hreplace : e.document.replace span text with
  | error error => exact Outcome.notifies_of_same rfl rfl
  | ok result => exact notifies_afterEdit (h.document.replace_reply_iff ht hreplace)

theorem Sound.notifies_type (h : e.Sound) (ht : e.document.history.Throughout P)
    (text : List Char) : (e.type text).Notifies e.text := by
  obtain ⟨document, changed, session, events, hreplace, htype, -⟩ := h.type_eq text
  rw [htype]
  exact Outcome.notifies_of_changed rfl (h.document.replace_reply_iff ht hreplace)

theorem notifies_complete (e : Editor) (explicit : Bool) :
    (e.complete explicit).Notifies e.text := by
  rw [Editor.complete]
  split <;> exact Outcome.notifies_of_same rfl rfl

/-- Selecting the first tab stop behind the insertion leaves its text, of which listeners are told. -/
theorem Sound.notifies_insertItem {anchor : Nat} (h : e.Sound)
    (ht : e.document.history.Throughout P) (hanchor : anchor ≤ e.cursor) (item : Item) :
    (e.insertItem anchor item).Notifies e.text := by
  obtain ⟨document, changed, hreplace, -, heq⟩ := h.insertItem_eq hanchor item
  rw [heq]
  exact Outcome.notifies_of_changed rfl (h.document.replace_reply_iff ht hreplace)

theorem Sound.notifies_accept (h : e.Sound) (ht : e.document.history.Throughout P)
    (label : List Char) : (e.accept label).Notifies e.text := by
  rw [Editor.accept]
  cases hsession : e.session with
  | none => exact Outcome.notifies_of_same rfl rfl
  | some s =>
    dsimp only
    cases s.candidate? label with
    | none => exact Outcome.notifies_of_same rfl rfl
    | some item => exact h.notifies_insertItem ht (h.session s hsession).anchor_le item

theorem notifies_configure (e : Editor) (config : Config) :
    (e.configure config).Notifies e.text := by
  rw [Editor.configure]
  split <;> exact Outcome.notifies_of_same rfl rfl

theorem notifies_setLocale (e : Editor) (locale : Locale) :
    (e.setLocale locale).Notifies e.text := by
  rw [Editor.setLocale]
  split <;> exact Outcome.notifies_of_same rfl rfl

theorem Sound.notifies_apply (h : e.Sound) (ht : e.document.history.Throughout P)
    (operation : Operation) : (e.apply operation).Notifies e.text := by
  cases operation with
  | setText text => exact h.notifies_setText ht text
  | format => exact h.notifies_format ht
  | undo => exact notifies_afterEdit (h.document.undo_reply_iff ht)
  | redo => exact notifies_afterEdit (h.document.redo_reply_iff ht)
  | setCursor position => exact notifies_setCursor e position
  | replace span text => exact h.notifies_replace ht span text
  | insert position text => exact h.notifies_replace ht (.at position) text
  | type text => exact h.notifies_type ht text
  | complete explicit => exact notifies_complete e explicit
  | accept label => exact h.notifies_accept ht label
  | close => exact Outcome.notifies_of_same rfl rfl
  | configure config => exact notifies_configure e config
  | setLocale locale => exact notifies_setLocale e locale

/-- In every state an editor can get into, an operation calls each listener once, in their order and
with the text behind the operation, if that is not the text before it, and else calls none. -/
theorem calls_run {α : Type} (config : Config) (locale : Locale) (text : List Char)
    (operations : List Operation) (operation : Operation) (listeners : List α) :
    let e := (new config locale text).run operations
    let o := e.apply operation
    o.calls listeners =
      if o.editor.text = e.text then []
      else listeners.map fun listener => (listener, o.editor.text) := by
  intro e o
  have h : e.Sound := (sound_new config locale text).run operations
  have ht : e.document.history.Throughout fun _ => True :=
    throughout_run lasting_true config locale text operations
  exact (h.notifies_apply ht operation).calls listeners

/-- A placeholder typed over itself is no change; taking back the item that brought it in is one. -/
example :
    let e := (new { mode := .oml } .enUS []).run [.complete true, .accept "read".toList]
    (e.apply (.type "field".toList)).calls ["first", "second"] = [] ∧
      (e.apply .undo).calls ["first", "second"] = [("first", []), ("second", [])] := by
  decide +kernel

end Editor

end LogScript
