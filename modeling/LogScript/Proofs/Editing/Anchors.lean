import LogScript.Proofs.Completion.Candidates
import LogScript.Proofs.Editing.LineCompletion
import LogScript.Proofs.Editing.Requests
import LogScript.Proofs.Editing.Typing

/-!
Where sessions are anchored. Only accepting an item selects anything, and what it selects is the short
identifier that names a slot; taking back what was typed over it selects the same again. The run that
a completion replaces therefore takes in the whole selection, so typing over the selection never moves
an anchor.
-/

namespace LogScript

namespace Snapshot

def selected (s : Snapshot) : List Char :=
  (s.text.drop s.selection.start).take (s.selection.stop - s.selection.start)

/-- What is selected, if anything is, is a short identifier. -/
structure Named (s : Snapshot) : Prop where
  short : s.selected.length < windowSize
  identifier : ∀ c ∈ s.selected, Language.wpl.isIdentifierChar c = true

end Snapshot

theorem lasting_named : Editor.Lasting Snapshot.Named where
  cursor := by
    intro text position
    have hselected : Snapshot.selected ⟨text, .at position⟩ = [] := by
      rw [Snapshot.selected, Span.at, Nat.sub_self, List.take_zero]
    exact ⟨by rw [hselected]; decide, by rw [hselected]; exact fun c hc => by cases hc⟩
  stop := by
    intro language locale item hitem s hs front back
    obtain ⟨before, name, after, hpiece, htext, hstart, hstop⟩ := Template.exists_name_of_mem_stops hs
    have hselected : Snapshot.selected
        ⟨front ++ (Template.resolve item.segments).text ++ back,
          ⟨front.length + s.start, front.length + s.stop⟩⟩ = name := by
      have hlength : front.length + s.stop - (front.length + s.start) = name.length := by omega
      have hparts : front ++ (before ++ name ++ after) ++ back =
          (front ++ before) ++ (name ++ (after ++ back)) := by
        simp only [List.append_assoc]
      rw [Snapshot.selected, hlength, htext, hparts, hstart, ← List.length_append, List.drop_left,
        List.take_left]
    have hshort := isShortName_of_mem_builtin hitem hpiece
    rw [Template.Piece.isShortName, Bool.and_eq_true, decide_eq_true_eq, List.all_eq_true] at hshort
    exact ⟨hselected ▸ hshort.1, hselected ▸ hshort.2⟩

/-- The anchor stands in front of the selection, or right at it where no identifier run ends. -/
structure Session.Rooted (s : Session) (d : Document) : Prop where
  ahead : s.offer.anchor ≤ d.selection.start
  atStart : s.offer.anchor = d.selection.start →
    trailingRun s.offer.language.isIdentifierChar (d.text.take s.offer.anchor) = 0

/-- What is replaced takes in a short identifier right before the cursor, and only that identifier
where no longer run ends. -/
theorem replacedLength?_of_named {language : Language} {front name : List Char} {explicit : Bool}
    {n : Nat} (hshort : name.length < windowSize)
    (hname : ∀ c ∈ name, language.isIdentifierChar c = true)
    (h : replacedLength? language (front ++ name) explicit = some n) :
    name.length ≤ n ∧
      (n = name.length → trailingRun language.isIdentifierChar front = 0) := by
  rw [replacedLength?_eq, trailingRun_append_of_all hname] at h
  split at h
  · rename_i hbar
    cases h
    have hnil : name = [] := by
      cases hlast : name.getLast? with
      | none => exact List.getLast?_eq_none_iff.1 hlast
      | some c =>
        rw [List.getLast?_append, hlast] at hbar
        cases hbar.2
        have hc := hname '|' (List.mem_of_getLast? hlast)
        rw [hbar.1] at hc
        exact absurd hc (by decide)
    subst hnil
    exact ⟨Nat.zero_le _, fun hn => by cases hn⟩
  · split at h
    · cases h
      omega
    · split at h
      · cases h
        omega
      · cases h

namespace Document

variable {d : Document} {front selected back : List Char}

/-- What is typed stands between what stood around the selection, and no selection is in front of
it. -/
theorem Parts.typed_text (h : d.Parts front selected back) (text : List Char) :
    (d.typed text).text = front ++ text ++ back ∧
      (d.typed text).cursor = front.length + text.length ∧
      front.length ≤ (d.typed text).selection.start := by
  by_cases hsame : selected = text
  · subst hsame
    rw [h.typed_same, cursor, h.selection]
    exact ⟨h.text, rfl, Nat.le_refl _⟩
  · have hother := h.typed_other hsame
    have hselection := hother.selection
    rw [List.length_append] at hselection
    refine ⟨by rw [hother.text, List.append_nil], ?_, ?_⟩
    · rw [cursor, hselection]
      rfl
    · rw [hselection]
      exact Nat.le_add_right _ _

end Document

namespace Editor

variable {e : Editor}

theorem Sound.rooted_openSession (h : e.Sound) (hnamed : e.document.history.current.Named)
    {explicit : Bool} {session : Option Session} {events : List Event}
    (hopen : e.openSession explicit = .ok (session, events)) :
    ∀ s ∈ session, s.Rooted e.document := by
  intro s hs
  cases hlanguage : e.config.mode.language? with
  | none =>
    rw [Editor.openSession, h.catalog_eq_none hlanguage] at hopen
    cases hopen
    cases hs
  | some language =>
    obtain ⟨events', hopen'⟩ := h.openSession_eq hlanguage explicit
    rw [hopen] at hopen'
    cases hopen'
    obtain ⟨offer, hcomplete, rfl⟩ := Option.map_eq_some_iff.1 hs
    obtain ⟨n, hn, rfl⟩ := Option.map_eq_some_iff.1 hcomplete
    have hle := replacedLength?_le hn
    have hbefore : e.document.text.take e.document.selection.start ++
        e.document.charsIn e.document.selection = e.text.take e.cursor :=
      e.document.take_append_charsIn h.document.selection.ordered
    have hselected : e.document.history.current.selected.length =
        e.cursor - e.document.selection.start := Document.length_charsIn h.document.selection
    have hordered : e.document.selection.start ≤ e.cursor := h.document.selection.ordered
    have hcursor : (e.text.take e.cursor).length = e.cursor := by
      rw [List.length_take]
      exact Nat.min_eq_left h.document.cursor_le
    rw [← hbefore] at hn
    obtain ⟨hlength, hrun⟩ := replacedLength?_of_named hnamed.short
      (fun c hc => isIdentifierChar_of_wpl (hnamed.identifier c hc) _) hn
    rw [hselected] at hlength hrun
    rw [hcursor] at hle
    constructor
    · simp only [Session.start, hcursor]
      omega
    · simp only [Session.start, hcursor]
      intro hanchor
      rw [hanchor]
      exact hrun (by omega)

/-- Typing keeps a session that goes on, or else asks for completions. -/
theorem Sound.type_cases (h : e.Sound) (text : List Char) :
    let typed : Editor := { e with document := e.document.typed text, session := none }
    typed.Sound ∧
      ((∃ s ∈ e.session, ∃ next, continued? s typed.document = .ok (some next) ∧
          (e.type text).editor = { typed with session := some next }) ∨
        (∀ s ∈ e.session, continued? s typed.document = .ok none) ∧
          ∃ session events, typed.openSession false = .ok (session, events) ∧
            (e.type text).editor = { typed with session }) := by
  intro typed
  obtain ⟨document, changed, session, events, hreplace, htype, hsession⟩ := h.type_eq text
  obtain rfl : document = e.document.typed text := by
    rw [← h.document_type text, htype]
  refine ⟨h.idle (h.document.replace hreplace).1, ?_⟩
  rw [htype]
  rcases hsession with ⟨s, hs, next, hnext, rfl⟩ | ⟨hended, hopen⟩
  · exact .inl ⟨s, hs, next, hnext, rfl⟩
  · exact .inr ⟨hended, session, events, hopen, rfl⟩

/-- The session, if one is open, is rooted. -/
def Rooted (e : Editor) : Prop :=
  ∀ s ∈ e.session, s.Rooted e.document

theorem rooted_of_idle (h : e.session = none) : e.Rooted := by
  intro s hs
  rw [h] at hs
  cases hs

/-- A session that goes on keeps its anchor, and the text in front of that. -/
theorem Sound.rooted_type (h : e.Sound) (hrooted : e.Rooted) {text : List Char}
    (hnamed : (e.type text).editor.document.history.current.Named) :
    (e.type text).editor.Rooted := by
  obtain ⟨front, back, hparts⟩ := h.document.exists_parts
  obtain ⟨htext, -, hstart⟩ := hparts.typed_text text
  obtain ⟨htyped, ⟨s, hs, next, hnext, htype⟩ | ⟨-, session, events, hopen, htype⟩⟩ :=
    h.type_cases text
  · have hroot := hrooted s hs
    have hahead := hroot.ahead
    have hatStart := hroot.atStart
    rw [hparts.selection] at hahead hatStart
    dsimp only at hahead hatStart
    have hoffer := (of_continued? htyped.document hnext).1
    -- The selection is behind the anchor, and so is all that typing changes.
    have hkept : (e.document.typed text).text.take s.offer.anchor =
        e.document.text.take s.offer.anchor := by
      rw [htext, hparts.text, List.append_assoc, List.append_assoc,
        List.take_append_of_le_length hahead, List.take_append_of_le_length hahead]
    rw [htype]
    intro s' hs'
    cases hs'
    constructor
    · rw [hoffer]
      exact Nat.le_trans hahead hstart
    · rw [hoffer]
      intro hanchor
      dsimp only at hanchor ⊢
      rw [hkept]
      exact hatStart (by omega)
  · rw [htype] at hnamed ⊢
    exact htyped.rooted_openSession hnamed hopen

theorem Rooted.afterEdit {result : Document × Bool} (h : e.Rooted)
    (hsame : result.2 = false → result.1 = e.document) : (e.afterEdit result).editor.Rooted := by
  rw [Editor.afterEdit]
  cases hchanged : result.2 with
  | true => exact rooted_of_idle rfl
  | false =>
    rw [hsame hchanged]
    exact h

theorem Rooted.format (h : e.Rooted) : e.format.editor.Rooted := by
  rw [Editor.format]
  split
  · exact h.afterEdit Document.setText_of_unchanged
  · exact h

theorem Rooted.replace (h : e.Rooted) (span : Span) (text : List Char) :
    (e.replace span text).editor.Rooted := by
  rw [Editor.replace]
  split
  · rename_i result hreplace
    exact h.afterEdit (Document.replace_of_unchanged hreplace)
  · exact h

theorem rooted_setCursor (e : Editor) (position : Nat) : (e.setCursor position).editor.Rooted := by
  rw [Editor.setCursor]
  dsimp only
  split <;> exact rooted_of_idle rfl

theorem Sound.rooted_complete (h : e.Sound) (hnamed : e.document.history.current.Named)
    (explicit : Bool) : (e.complete explicit).editor.Rooted := by
  obtain ⟨session, events, hopen, -⟩ := h.openSession explicit
  rw [Editor.complete, hopen]
  exact h.rooted_openSession hnamed hopen

theorem rooted_insertItem (e : Editor) (anchor : Nat) (item : Item) :
    (e.insertItem anchor item).editor.Rooted := by
  rw [Editor.insertItem]
  dsimp only
  split
  · exact rooted_of_idle rfl
  · split <;> exact rooted_of_idle rfl

theorem Rooted.accept (h : e.Rooted) (label : List Char) : (e.accept label).editor.Rooted := by
  rw [Editor.accept]
  split
  · exact h
  · split
    · exact h
    · exact rooted_insertItem e _ _

theorem Rooted.configure (h : e.Rooted) (config : Config) :
    (e.configure config).editor.Rooted := by
  rw [Editor.configure]
  split
  · exact rooted_of_idle rfl
  · exact h

theorem Rooted.setLocale (h : e.Rooted) (locale : Locale) :
    (e.setLocale locale).editor.Rooted := by
  rw [Editor.setLocale]
  split
  · exact h
  · exact rooted_of_idle rfl

theorem Rooted.apply (hrooted : e.Rooted) (h : e.Sound)
    (hnamed : e.document.history.Throughout Snapshot.Named) (operation : Operation) :
    (e.apply operation).editor.Rooted := by
  cases operation with
  | setText text => exact hrooted.afterEdit Document.setText_of_unchanged
  | format => exact hrooted.format
  | undo => exact hrooted.afterEdit Document.undo_of_unchanged
  | redo => exact hrooted.afterEdit Document.redo_of_unchanged
  | setCursor position => exact rooted_setCursor e position
  | replace span text => exact hrooted.replace span text
  | insert position text => exact hrooted.replace (.at position) text
  | type text =>
    have hnext := h.throughout_apply lasting_named hnamed (.type text)
    exact h.rooted_type hrooted hnext.current
  | complete explicit => exact h.rooted_complete hnamed.current explicit
  | accept label => exact hrooted.accept label
  | close => exact rooted_of_idle rfl
  | configure config => exact hrooted.configure config
  | setLocale locale => exact hrooted.setLocale locale

/-- In every state an editor can get into, the session is rooted. -/
theorem rooted_run (config : Config) (locale : Locale) (text : List Char)
    (operations : List Operation) : ((new config locale text).run operations).Rooted := by
  have hnew : (new config locale text).document.history.Throughout Snapshot.Named :=
    SnapshotHistory.throughout_ofText lasting_named.cursor text
  have hrun := run_of_apply
    (P := fun e => e.Sound ∧ e.document.history.Throughout Snapshot.Named ∧ e.Rooted)
    ⟨sound_new config locale text, hnew, rooted_of_idle rfl⟩
    (fun ⟨h, hnamed, hrooted⟩ operation => ⟨h.apply operation,
      h.throughout_apply lasting_named hnamed operation, hrooted.apply h hnamed operation⟩)
    operations
  exact hrun.2.2

end Editor

end LogScript
