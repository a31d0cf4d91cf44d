import LogScript.Completion.Template
import LogScript.Editing.Editor
import LogScript.Proofs.Completion.Lookback
import LogScript.Proofs.Editing.History

/-!
Completion sessions fit their editor. Whatever an editor has been through, an open session offers
the catalog of the editor's language and locale, starts at or before the cursor, and has as typed
text exactly what the document holds between the two, which keeps the offer alive. Typing, asking
for completions and accepting one therefore never fail.
-/

namespace LogScript

/-- An open session fits its editor. -/
structure Session.Fits (s : Session) (e : Editor) : Prop where
  /-- The editor has a log language, and the offer is for that. -/
  language : e.config.mode.language? = some s.offer.language
  candidates : s.offer.candidates = (Catalog.builtin s.offer.language e.locale).items
  anchor_le : s.offer.anchor ≤ e.cursor
  cursor_le : e.cursor ≤ e.text.length
  typed : s.typed = e.document.charsIn ⟨s.offer.anchor, e.cursor⟩
  valid : s.typed = [] ∨ s.offer.language.isValidTyped s.typed = true

namespace Editor

/-- What every operation keeps. -/
structure Sound (e : Editor) : Prop where
  document : e.document.Sound
  wiring : e.wiring = .of e.config.mode e.locale
  session : ∀ s ∈ e.session, s.Fits e

theorem sound_new (config : Config) (locale : Locale) (text : List Char) :
    (new config locale text).Sound where
  document := Document.sound_ofText text
  wiring := rfl
  session := fun _ hs => by cases hs

variable {e : Editor}

/-- Without a session only the document matters. -/
theorem Sound.idle {document : Document} (h : e.Sound) (hdocument : document.Sound) :
    Sound { e with document, session := none } :=
  ⟨hdocument, h.wiring, fun _ hs => by cases hs⟩

theorem Sound.withSession {session : Option Session} (h : e.Sound)
    (hsession : ∀ s ∈ session, s.Fits e) : Sound { e with session } :=
  ⟨h.document, h.wiring, fun s hs =>
    let fits := hsession s hs
    ⟨fits.language, fits.candidates, fits.anchor_le, fits.cursor_le, fits.typed, fits.valid⟩⟩

theorem Sound.afterEdit {result : Document × Bool} (h : e.Sound) (hdocument : result.1.Sound)
    (hsame : result.2 = false → result.1 = e.document) : (e.afterEdit result).editor.Sound := by
  rw [Editor.afterEdit]
  cases hchanged : result.2 with
  | true => exact h.idle hdocument
  | false =>
    rw [hsame hchanged]
    exact h

theorem Sound.setText (h : e.Sound) (text : List Char) : (e.setText text).editor.Sound :=
  h.afterEdit (h.document.setText text) Document.setText_of_unchanged

theorem Sound.format (h : e.Sound) : e.format.editor.Sound := by
  rw [Editor.format]
  split
  · exact h.setText _
  · exact h

theorem Sound.undo (h : e.Sound) : e.undo.editor.Sound :=
  h.afterEdit h.document.undo Document.undo_of_unchanged

theorem Sound.redo (h : e.Sound) : e.redo.editor.Sound :=
  h.afterEdit h.document.redo Document.redo_of_unchanged

theorem Sound.setCursor (h : e.Sound) (position : Nat) : (e.setCursor position).editor.Sound := by
  rw [Editor.setCursor]
  split
  · rename_i document hset
    exact h.idle (h.document.setCursor hset)
  · exact h.idle h.document

theorem Sound.replace (h : e.Sound) (span : Span) (text : List Char) :
    (e.replace span text).editor.Sound := by
  rw [Editor.replace]
  split
  · rename_i result hreplace
    exact h.afterEdit (h.document.replace hreplace).1 (Document.replace_of_unchanged hreplace)
  · exact h

theorem Sound.catalog {language : Language} (h : e.Sound)
    (hlanguage : e.config.mode.language? = some language) :
    e.wiring.catalog = some (.builtin language e.locale) := by
  rw [h.wiring, Wiring.of, hlanguage]
  rfl

theorem Sound.catalog_eq_none (h : e.Sound) (hlanguage : e.config.mode.language? = none) :
    e.wiring.catalog = none := by
  rw [h.wiring, Wiring.of, hlanguage]
  rfl

/-- The text from the start of the line to the cursor. -/
theorem Sound.linePrefix (h : e.Sound) :
    e.document.linePrefix e.cursor = .ok (lineStart e.text e.cursor,
      e.document.charsIn ⟨lineStart e.text e.cursor, e.cursor⟩) := by
  have hcursor : e.cursor ≤ e.document.text.length := h.document.cursor_le
  rw [Document.linePrefix, Document.checkPosition_of_le hcursor]
  rfl

/-- A session for the cursor fits the editor; looking for one never fails. -/
theorem Sound.openSession (h : e.Sound) (explicit : Bool) :
    ∃ session events, e.openSession explicit = .ok (session, events) ∧
      ∀ s ∈ session, s.Fits e := by
  rw [Editor.openSession]
  cases hlanguage : e.config.mode.language? with
  | none =>
    rw [h.catalog_eq_none hlanguage]
    exact ⟨none, [], rfl, fun s hs => by cases hs⟩
  | some language =>
    have hstart := lineStart_le e.text e.cursor
    have hcursor : e.cursor ≤ e.text.length := h.document.cursor_le
    rw [h.catalog hlanguage]
    dsimp only
    rw [h.linePrefix]
    simp only [bind, Except.bind]
    cases hcomplete : (Catalog.builtin language e.locale).complete
        (e.document.charsIn ⟨lineStart e.text e.cursor, e.cursor⟩) explicit with
    | none => exact ⟨none, _, rfl, fun s hs => by cases hs⟩
    | some offer =>
      refine ⟨_, _, rfl, fun s hs => ?_⟩
      cases hs
      obtain ⟨n, hn, rfl⟩ := Option.map_eq_some_iff.1 hcomplete
      have hlength := Document.length_charsIn (d := e.document)
        (s := ⟨lineStart e.text e.cursor, e.cursor⟩) ⟨hstart, hcursor⟩
      have hanchor : (e.document.charsIn ⟨lineStart e.text e.cursor, e.cursor⟩).length - n +
          lineStart e.text e.cursor ≤ e.cursor := by
        rw [hlength]
        dsimp only
        omega
      refine ⟨hlanguage, rfl, hanchor, hcursor, ?_, valid_of_replacedLength? hn⟩
      simp only [Session.start, Session.shift, Document.drop_charsIn, Nat.add_comm]

theorem Sound.complete (h : e.Sound) (explicit : Bool) : (e.complete explicit).editor.Sound := by
  obtain ⟨session, events, hopen, hfits⟩ := h.openSession explicit
  rw [Editor.complete, hopen]
  exact h.withSession hfits

theorem Sound.complete_reply (h : e.Sound) (explicit : Bool) :
    ∃ session, (e.complete explicit).reply = .ok (.session session) := by
  obtain ⟨session, events, hopen, -⟩ := h.openSession explicit
  rw [Editor.complete, hopen]
  exact ⟨session, rfl⟩

/-- Whether a session goes on is always decided. -/
theorem exists_continued? {d : Document} (h : d.Sound) (s : Session) :
    ∃ next, continued? s d = .ok next := by
  rw [continued?]
  split
  · rename_i hanchor
    have hspan : (Span.mk s.offer.anchor d.cursor).Within d.text := ⟨hanchor, h.cursor_le⟩
    rw [Document.slice_of_within hspan]
    exact ⟨_, rfl⟩
  · exact ⟨none, rfl⟩

/-- A session that goes on keeps its offer and has the text up to the cursor. -/
theorem of_continued? {d : Document} {s next : Session} (h : d.Sound)
    (hnext : continued? s d = .ok (some next)) :
    next.offer = s.offer ∧ s.offer.anchor ≤ d.cursor ∧
      next.typed = d.charsIn ⟨s.offer.anchor, d.cursor⟩ ∧
      (next.typed = [] ∨ next.offer.language.isValidTyped next.typed = true) := by
  rw [continued?] at hnext
  split at hnext
  · rename_i hanchor
    have hspan : (Span.mk s.offer.anchor d.cursor).Within d.text := ⟨hanchor, h.cursor_le⟩
    rw [Document.slice_of_within hspan] at hnext
    have hupdate : s.update? (d.charsIn ⟨s.offer.anchor, d.cursor⟩) = some next :=
      Except.ok.inj hnext
    rw [Session.update?] at hupdate
    split at hupdate
    · rename_i haccepts
      cases hupdate
      rw [Session.accepts, Bool.or_eq_true, List.isEmpty_iff] at haccepts
      exact ⟨rfl, hanchor, rfl, haccepts⟩
    · cases hupdate
  · cases hnext

theorem fits_of_continued? {s next : Session} {document : Document} (hfits : s.Fits e)
    (hdocument : document.Sound) (hnext : continued? s document = .ok (some next)) :
    next.Fits { e with document, session := none } := by
  obtain ⟨hoffer, hanchor, htyped, hvalid⟩ := of_continued? hdocument hnext
  rw [← hoffer] at hanchor htyped
  exact ⟨hoffer ▸ hfits.language, hoffer ▸ hfits.candidates, hanchor, hdocument.cursor_le, htyped,
    hvalid⟩

/-- All that typing does: the text takes the place of the selection, listeners are told of a change,
and a session goes on or else completions are asked for. -/
theorem Sound.type_eq (h : e.Sound) (text : List Char) :
    ∃ document changed session events,
      e.document.replace e.document.selection text = .ok (document, changed) ∧
      e.type text = { editor := { e with document, session }, reply := .ok .done
                      notices := if changed then [document.text] else [], events } ∧
      ((∃ s ∈ e.session, ∃ next, continued? s document = .ok (some next) ∧ session = some next) ∨
        (∀ s ∈ e.session, continued? s document = .ok none) ∧
          Editor.openSession { e with document, session := none } false =
            .ok (session, events)) := by
  obtain ⟨⟨document, changed⟩, hreplace⟩ := Document.exists_replace h.document.selection text
  have hidle := h.idle (h.document.replace hreplace).1
  obtain ⟨session, events, hopen, -⟩ := hidle.openSession false
  rw [Editor.type, hreplace]
  dsimp only
  cases hsession : e.session with
  | none =>
    rw [Option.map_none, Option.getD_none]
    dsimp only
    rw [hopen]
    refine ⟨document, changed, session, events, rfl, rfl, .inr ⟨fun s hs => ?_, hopen⟩⟩
    cases hs
  | some s =>
    obtain ⟨next, hnext⟩ := exists_continued? hidle.document s
    rw [Option.map_some, Option.getD_some, show continued? s document = .ok next from hnext]
    cases next with
    | none =>
      dsimp only
      rw [hopen]
      refine ⟨document, changed, session, events, rfl, rfl, .inr ⟨fun s' hs => ?_, hopen⟩⟩
      cases hs
      exact hnext
    | some next => exact ⟨document, changed, some next, [], rfl, rfl, .inl ⟨s, rfl, next, hnext, rfl⟩⟩

theorem Sound.type (h : e.Sound) (text : List Char) :
    (e.type text).editor.Sound ∧ (e.type text).reply = .ok .done := by
  obtain ⟨document, changed, session, events, hreplace, htype, hsession⟩ := h.type_eq text
  have hidle := h.idle (h.document.replace hreplace).1
  rw [htype]
  refine ⟨hidle.withSession ?_, rfl⟩
  rcases hsession with ⟨s, hs, next, hnext, rfl⟩ | ⟨-, hopen⟩
  · intro s' hs'
    cases hs'
    exact fits_of_continued? (h.session s hs) hidle.document hnext
  · obtain ⟨session', events', hopen', hfits⟩ := hidle.openSession false
    cases hopen.symm.trans hopen'
    exact hfits

/-- All that inserting an item between an anchor and the cursor does: the text of the item takes the
place of what is between the two, its tab stops move to the anchor, and the first of them is
selected. -/
theorem Sound.insertItem_eq {anchor : Nat} (h : e.Sound) (hanchor : anchor ≤ e.cursor)
    (item : Item) :
    let insertion := Template.resolve item.segments
    let stops := insertion.stops.map fun s => Span.mk (anchor + s.start) (anchor + s.stop)
    ∃ document changed,
      e.document.replace ⟨anchor, e.cursor⟩ insertion.text = .ok (document, changed) ∧
      (∀ span ∈ stops, span.Within document.text) ∧
      e.insertItem anchor item =
        { editor := { e with
            document := { document with selection := stops.head?.getD document.selection }
            session := none }
          reply := .ok (.stops (some stops))
          notices := if changed then [document.text] else [] } := by
  intro insertion stops
  have hcursor : e.cursor ≤ e.document.text.length := h.document.cursor_le
  obtain ⟨⟨document, changed⟩, hreplace⟩ :=
    Document.exists_replace (s := ⟨anchor, e.cursor⟩) ⟨hanchor, hcursor⟩ insertion.text
  have htext : document.text = e.document.text.take anchor ++ insertion.text ++
      e.document.text.drop e.cursor := (h.document.replace hreplace).2
  have hwithin : ∀ span ∈ stops, span.Within document.text := by
    intro span hspan
    obtain ⟨s, hmem, rfl⟩ := List.mem_map.1 hspan
    obtain ⟨hordered, hinside⟩ := Template.bounds_of_mem_stops hmem
    refine ⟨Nat.add_le_add_left hordered anchor, ?_⟩
    rw [htext, List.length_append, List.length_append, List.length_take]
    dsimp only [insertion]
    omega
  have hselect : stops.head?.elim (.ok document) document.select =
      .ok { document with selection := stops.head?.getD document.selection } := by
    cases hfirst : stops.head? with
    | none => rfl
    | some first => exact Document.select_of_within (hwithin first (List.mem_of_mem_head? hfirst))
  refine ⟨document, changed, hreplace, hwithin, ?_⟩
  rw [Editor.insertItem]
  dsimp only
  rw [hreplace]
  dsimp only
  rw [hselect]

/-- Inserting an item between an anchor and the cursor succeeds, and closes the session. -/
theorem Sound.insertItem {anchor : Nat} (h : e.Sound) (hanchor : anchor ≤ e.cursor) (item : Item) :
    (e.insertItem anchor item).editor.Sound ∧
      ∃ stops, (e.insertItem anchor item).reply = .ok (.stops (some stops)) := by
  obtain ⟨document, changed, hreplace, hwithin, heq⟩ := h.insertItem_eq hanchor item
  have hdocument : document.Sound := (h.document.replace hreplace).1
  rw [heq]
  refine ⟨h.idle (hdocument.withSelection ?_), _, rfl⟩
  cases hfirst : ((Template.resolve item.segments).stops.map fun s =>
      Span.mk (anchor + s.start) (anchor + s.stop)).head? with
  | none => exact hdocument.selection
  | some first => exact hwithin first (List.mem_of_mem_head? hfirst)

theorem Sound.accept (h : e.Sound) (label : List Char) :
    (e.accept label).editor.Sound ∧ ∃ stops, (e.accept label).reply = .ok (.stops stops) := by
  rw [Editor.accept]
  cases hsession : e.session with
  | none => exact ⟨h, none, rfl⟩
  | some s =>
    dsimp only
    cases s.candidate? label with
    | none => exact ⟨h, none, rfl⟩
    | some item =>
      obtain ⟨hsound, stops, hreply⟩ := h.insertItem (h.session s hsession).anchor_le item
      exact ⟨hsound, some stops, hreply⟩

theorem rebuild_sound (h : e.document.Sound) : e.rebuild.editor.Sound :=
  ⟨h, rfl, fun _ hs => by cases hs⟩

/-- Colours have no part in what an editor completes. -/
theorem Sound.configure (h : e.Sound) (config : Config) : (e.configure config).editor.Sound := by
  rw [Editor.configure]
  split
  · exact rebuild_sound h.document
  · rename_i hmode
    have hsame : config.mode = e.config.mode := Decidable.of_not_not hmode
    refine ⟨h.document, h.wiring.trans (by rw [hsame]), fun s hs => ?_⟩
    have hfits := h.session s hs
    exact ⟨hsame ▸ hfits.language, hfits.candidates, hfits.anchor_le, hfits.cursor_le,
      hfits.typed, hfits.valid⟩

theorem Sound.setLocale (h : e.Sound) (locale : Locale) : (e.setLocale locale).editor.Sound := by
  rw [Editor.setLocale]
  split
  · exact h
  · exact rebuild_sound h.document

/-- One operation, whether it succeeds or fails. -/
theorem Sound.apply (h : e.Sound) (operation : Operation) : (e.apply operation).editor.Sound := by
  cases operation with
  | setText text => exact h.setText text
  | format => exact h.format
  | undo => exact h.undo
  | redo => exact h.redo
  | setCursor position => exact h.setCursor position
  | replace span text => exact h.replace span text
  | insert position text => exact h.replace (.at position) text
  | type text => exact (h.type text).1
  | complete explicit => exact h.complete explicit
  | accept label => exact (h.accept label).1
  | close => exact h.idle h.document
  | configure config => exact h.configure config
  | setLocale locale => exact h.setLocale locale

/-- The editor behind a sequence of operations, those that fail among them. -/
def run (e : Editor) (operations : List Operation) : Editor :=
  operations.foldl (fun e operation => (e.apply operation).editor) e

/-- What every operation keeps holds behind every run. -/
theorem run_of_apply {P : Editor → Prop} (h : P e)
    (happly : ∀ {e : Editor}, P e → ∀ operation, P (e.apply operation).editor)
    (operations : List Operation) : P (e.run operations) := by
  induction operations generalizing e with
  | nil => exact h
  | cons operation operations ih => exact ih (happly h operation)

theorem Sound.run (h : e.Sound) (operations : List Operation) : (e.run operations).Sound :=
  run_of_apply h Sound.apply operations

/-- In every state an editor can get into, an open session fits the editor, and typing, asking for
completions and accepting one succeed. -/
theorem session_fits_run (config : Config) (locale : Locale) (text : List Char)
    (operations : List Operation) :
    let e := (new config locale text).run operations
    (∀ s ∈ e.session, s.Fits e) ∧
      (∀ typed, (e.type typed).reply = .ok .done) ∧
      (∀ explicit, ∃ session, (e.complete explicit).reply = .ok (.session session)) ∧
      ∀ label, ∃ stops, (e.accept label).reply = .ok (.stops stops) := by
  have h := (sound_new config locale text).run operations
  exact ⟨h.session, fun typed => (h.type typed).2, h.complete_reply, fun label => (h.accept label).2⟩

/-- Behind an item that was accepted, taken back and made again, typing opens a session and narrows
it. -/
theorem session_fits_run_typed :
    let e := (new { mode := .oml } .enUS "x = ".toList).run
      [.setCursor 4, .type "rea".toList, .accept "read".toList, .undo, .redo, .setCursor 9,
        .type "s".toList, .type "rc".toList]
    e.session.map (fun s => (s.offer.anchor, s.typed)) = some (9, "src".toList) ∧
      ∀ s ∈ e.session, s.Fits e :=
  ⟨by decide +kernel, (session_fits_run _ _ _ _).1⟩

end Editor

end LogScript
