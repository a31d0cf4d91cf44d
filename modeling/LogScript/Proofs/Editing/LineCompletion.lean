import LogScript.Proofs.Completion.Lookback
import LogScript.Proofs.Editing.Session

/-!
Asking at a cursor. An editor looks at the line of its cursor only and counts from the start of that
line. The session it opens is still the one that a catalog opens for the whole text before the cursor:
with the same offer, the same anchor and the same typed text, or none.
-/

namespace LogScript

namespace Document

variable {d : Document} {start stop : Nat}

theorem take_append_charsIn (d : Document) (h : start ≤ stop) :
    d.text.take start ++ d.charsIn ⟨start, stop⟩ = d.text.take stop := by
  obtain ⟨n, rfl⟩ := Nat.exists_eq_add_of_le h
  rw [charsIn, Nat.add_sub_cancel_left, List.take_add]

end Document

namespace Editor

variable {e : Editor}

/-- Looking at the line before the cursor comes to the same as looking at all the text before it. -/
theorem Sound.openSession_eq {language : Language} (h : e.Sound)
    (hlanguage : e.config.mode.language? = some language) (explicit : Bool) :
    ∃ events, e.openSession explicit =
      .ok ((Catalog.builtin language e.locale).session? (e.text.take e.cursor) explicit, events) := by
  have hstart : lineStart e.text e.cursor ≤ e.cursor := lineStart_le e.text e.cursor
  have hcursor : e.cursor ≤ e.text.length := h.document.cursor_le
  have hlength : (e.text.take (lineStart e.text e.cursor)).length = lineStart e.text e.cursor := by
    rw [List.length_take]
    omega
  have hbefore : e.text.take (lineStart e.text e.cursor) ++
      e.document.charsIn ⟨lineStart e.text e.cursor, e.cursor⟩ = e.text.take e.cursor :=
    e.document.take_append_charsIn hstart
  have hbreak : ∀ c ∈ (e.text.take (lineStart e.text e.cursor)).getLast?, isLineBreak c = true :=
    fun c hc => isLineBreak_of_getLast?_take_lineStart hc
  have hwhole := (Catalog.builtin language e.locale).map_shift_session? hbreak
    (e.document.charsIn ⟨lineStart e.text e.cursor, e.cursor⟩) explicit
  rw [hlength, hbefore] at hwhole
  rw [← hwhole, Catalog.session?, Editor.openSession, h.catalog hlanguage]
  dsimp only
  rw [h.linePrefix]
  simp only [bind, Except.bind]
  cases (Catalog.builtin language e.locale).complete
      (e.document.charsIn ⟨lineStart e.text e.cursor, e.cursor⟩) explicit with
  | none => exact ⟨_, rfl⟩
  | some offer => exact ⟨_, rfl⟩

/-- The reply to asking for completions, and the session behind it. -/
theorem Sound.complete_eq {language : Language} (h : e.Sound)
    (hlanguage : e.config.mode.language? = some language) (explicit : Bool) :
    let session := (Catalog.builtin language e.locale).session? (e.text.take e.cursor) explicit
    (e.complete explicit).reply = .ok (.session session) ∧
      (e.complete explicit).editor.session = session := by
  obtain ⟨events, hopen⟩ := h.openSession_eq hlanguage explicit
  rw [Editor.complete, hopen]
  exact ⟨rfl, rfl⟩

/-- For every text and every position in it, an editor with its cursor there opens the session that
the catalog opens for the whole text before the position, and none if the catalog offers none. -/
theorem complete_setCursor_new (language : Language) (config : Config) (locale : Locale)
    (text : List Char) (position : Nat) (explicit : Bool) (hposition : position ≤ text.length) :
    let e := ((new { config with mode := language.mode } locale text).setCursor position).editor
    let before := text.take position
    let session := ((Catalog.builtin language locale).complete before explicit).map
      (Session.start · before)
    (e.complete explicit).reply = .ok (.session session) ∧
      (e.complete explicit).editor.session = session := by
  intro e before session
  have hinside : (Span.at position).Within (Document.ofText text).text := Span.within_at hposition
  have hset : e = { new { config with mode := language.mode } locale text with
      document := { Document.ofText text with selection := .at position } } := by
    simp only [e, Editor.setCursor, Document.setCursor_eq_select, new,
      Document.select_of_within hinside]
  have h : e.Sound := (sound_new _ locale text).setCursor position
  have hlanguage : e.config.mode.language? = some language := by
    rw [hset]
    cases language <;> rfl
  have hcomplete := h.complete_eq hlanguage explicit
  rw [hset] at hcomplete ⊢
  exact hcomplete

/-- Between the two characters of a line break, with other breaks in front. -/
theorem complete_setCursor_new_break :
    9 ≤ "ab\u2028cd\x0brx\r\ny".toList.length ∧
      (((new { mode := .oml } .enUS "ab\u2028cd\x0brx\r\ny".toList).setCursor 9).editor.complete
        true).editor.session.map (fun s => (s.offer.anchor, s.typed)) = some (9, []) :=
  ⟨by decide,
    (congrArg (Option.map fun s : Session => (s.offer.anchor, s.typed))
      (complete_setCursor_new .oml {} .enUS "ab\u2028cd\x0brx\r\ny".toList 9 true
        (by decide)).2).trans (by decide +kernel)⟩

end Editor

end LogScript
