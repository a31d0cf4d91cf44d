import LogScript.Proofs.Editing.Session

/-!
Accepting a candidate is one splice. In every state an editor can get into, the text since the
anchor of the session is exchanged for what the item inserts, the tab stops are those of the item
as they stand in the document, and the first of them is selected. Taking back restores text and
selection, and a label that no visible candidate has leaves the editor as it is.
-/

namespace LogScript

/-- An insertion has taken the place of the text between an anchor and the cursor of an editor, and
nothing else has happened to the editor. -/
structure Outcome.Splices (o : Outcome) (e : Editor) (anchor : Nat) (i : Template.Insertion) :
    Prop where
  text : o.editor.text = e.text.take anchor ++ i.text ++ e.text.drop e.cursor
  reply : o.reply =
    .ok (.stops (some (i.stops.map fun s => Span.mk (anchor + s.start) (anchor + s.stop))))
  inside : ∀ s ∈ i.stops, (Span.mk (anchor + s.start) (anchor + s.stop)).Within o.editor.text
  selection : ∀ s ∈ i.stops.head?,
    o.editor.document.selection = ⟨anchor + s.start, anchor + s.stop⟩
  cursor : i.stops = [] → o.editor.cursor = anchor + i.text.length
  /-- The session is closed, and all but the document is as it was. -/
  rest : o.editor = { e with document := o.editor.document, session := none }
  /-- A text that was changed comes back with its selection. -/
  undone : o.editor.text ≠ e.text →
    o.editor.undo.reply = .ok (.changed true) ∧ o.editor.undo.editor.text = e.text ∧
      o.editor.undo.editor.document.selection = e.document.selection
  /-- A text that is the same has no new history. -/
  same : o.editor.text = e.text → o.editor.document.undoable = e.document.undoable ∧
    o.editor.document.redoable = e.document.redoable

namespace Document

variable {d : Document} {s : Span} {text : List Char}

/-- The cursor behind a replacement, whether or not that has changed the text, is at its end as soon
as it was at the end of what is replaced. -/
theorem cursor_of_replace {result : Document × Bool} (hs : s.Within d.text)
    (hcursor : d.cursor = s.stop) (hreplace : d.replace s text = .ok result) :
    result.1.cursor = s.start + text.length := by
  rw [replace_of_within hs, Except.ok.injEq] at hreplace
  rw [← hreplace]
  split
  · rename_i hsame
    have hlength := length_charsIn hs
    have hordered := hs.ordered
    rw [hsame] at hlength
    dsimp only
    omega
  · rfl

/-- A replacement that leaves the text as it is puts in what was there. -/
theorem charsIn_of_splice (hs : s.Within d.text)
    (h : d.text.take s.start ++ text ++ d.text.drop s.stop = d.text) : d.charsIn s = text := by
  have htext := h.trans (text_eq_charsIn hs)
  rw [List.append_assoc, List.append_assoc] at htext
  exact (List.append_cancel_right (List.append_cancel_left htext)).symm

/-- Taking a new edit back restores the text and the selection in front of it, whatever has been
selected since. -/
theorem undo_commit {e : Edit} {after : List Char} (hlinks : e.Links d.text after)
    (hselection : e.selectionBefore = d.selection) (s : Span) :
    let d' := { d.commit e with selection := s }
    d'.undo.2 = true ∧ d'.undo.1.text = d.text ∧ d'.undo.1.selection = d.selection := by
  have htext : (d.commit e).text = after := hlinks.splice_forward
  refine ⟨rfl, ?_, hselection⟩
  change splice (d.commit e).text e.start e.inserted.length e.removed = d.text
  rw [htext]
  exact hlinks.splice_back

end Document

namespace Editor

variable {e : Editor}

theorem Sound.splices_insertItem {anchor : Nat} (h : e.Sound) (hanchor : anchor ≤ e.cursor)
    (item : Item) :
    (e.insertItem anchor item).Splices e anchor (Template.resolve item.segments) := by
  obtain ⟨document, changed, hreplace, hwithin, heq⟩ := h.insertItem_eq hanchor item
  have hspan : (Span.mk anchor e.cursor).Within e.document.text := ⟨hanchor, h.document.cursor_le⟩
  have hcursor := Document.cursor_of_replace hspan rfl hreplace
  have hchange := hreplace
  rw [Document.replace_of_within hspan, Except.ok.injEq] at hchange
  rw [heq]
  refine
    { text := (h.document.replace hreplace).2, reply := rfl
      inside := fun s hs => hwithin _ (List.mem_map_of_mem hs)
      selection := fun s hs => ?_, cursor := fun hnone => ?_, rest := rfl
      undone := fun hchanged => ?_, same := fun hsame => ?_ }
  · rw [List.head?_map, Option.mem_def.1 hs]
    rfl
  · rw [hnone]
    exact hcursor
  · split at hchange
    · cases hchange
      exact absurd rfl hchanged
    · cases hchange
      obtain ⟨hundo, htext, hselection⟩ :=
        Document.undo_commit (Document.links_replace h.document hspan _) rfl _
      rw [Editor.undo, Editor.afterEdit, if_pos hundo]
      exact ⟨rfl, htext, hselection⟩
  · split at hchange
    · cases hchange
      exact ⟨rfl, rfl⟩
    · rename_i hdiffers
      have htext := (h.document.replace hreplace).2
      exact absurd (Document.charsIn_of_splice hspan (htext.symm.trans hsame)) hdiffers

/-- In every state an editor can get into, accepting a label exchanges the text since the anchor for
what the first visible candidate with that label inserts, and does nothing if there is none. -/
theorem accept_run (config : Config) (locale : Locale) (text : List Char)
    (operations : List Operation) (label : List Char) :
    let e := (new config locale text).run operations
    ∀ session ∈ e.session,
      match (session.visible .unbounded).find? (·.label == label) with
      | some item =>
        (e.accept label).Splices e session.offer.anchor (Template.resolve item.segments)
      | none => e.accept label = { editor := e, reply := .ok (.stops none) } := by
  intro e session hsession
  have h : e.Sound := (sound_new config locale text).run operations
  change match session.candidate? label with
    | some item => _
    | none => _
  cases hitem : session.candidate? label with
  | none =>
    change e.accept label = _
    simp only [Editor.accept, Option.mem_def.1 hsession, hitem]
  | some item =>
    have haccept : e.accept label = e.insertItem session.offer.anchor item := by
      simp only [Editor.accept, Option.mem_def.1 hsession, hitem]
    change (e.accept label).Splices e session.offer.anchor (Template.resolve item.segments)
    rw [haccept]
    exact h.splices_insertItem (h.session session hsession).anchor_le item

/-- A function accepted in the middle of a line, behind a character of two bytes, and a label that
nothing visible has. -/
theorem accept_run_read :
    let e := (new { mode := .oml } .enUS "é = ;".toList).run [.setCursor 4, .type "rea".toList]
    ∃ session ∈ e.session, session.offer.anchor = 4 ∧
      (∃ item, (session.visible .unbounded).find? (·.label == "read".toList) = some item ∧
        (e.accept "read".toList).Splices e 4 (Template.resolve item.segments)) ∧
      e.accept "take".toList = { editor := e, reply := .ok (.stops none) } := by
  intro e
  have hopen : e.session.isSome := by decide +kernel
  obtain ⟨session, hsession⟩ := Option.isSome_iff_exists.1 hopen
  have hanchor : session.offer.anchor = 4 := by
    have hanchors : e.session.map (·.offer.anchor) = some 4 := by decide +kernel
    simpa [hsession] using hanchors
  have hread : ((session.visible .unbounded).find? (·.label == "read".toList)).isSome := by
    have hvisible : ∀ s ∈ e.session,
        ((s.visible .unbounded).find? (·.label == "read".toList)).isSome := by decide +kernel
    exact hvisible session hsession
  have htake : (session.visible .unbounded).find? (·.label == "take".toList) = none := by
    have hvisible : ∀ s ∈ e.session,
        (s.visible .unbounded).find? (·.label == "take".toList) = none := by decide +kernel
    exact hvisible session hsession
  obtain ⟨item, hitem⟩ := Option.isSome_iff_exists.1 hread
  have haccepted := accept_run { mode := .oml } .enUS "é = ;".toList
    [.setCursor 4, .type "rea".toList] "read".toList session hsession
  have hrefused := accept_run { mode := .oml } .enUS "é = ;".toList
    [.setCursor 4, .type "rea".toList] "take".toList session hsession
  simp only [hitem, hanchor] at haccepted
  simp only [htake] at hrefused
  exact ⟨session, hsession, hanchor, ⟨item, hitem, haccepted⟩, hrefused⟩

end Editor

end LogScript
