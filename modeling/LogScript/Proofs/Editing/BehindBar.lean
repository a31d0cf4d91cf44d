import LogScript.Proofs.Completion.Candidates
import LogScript.Proofs.Editing.LineCompletion

/-!
Completion behind a bar. In OML the offer for a cursor behind a bar is anchored in front of the bar,
so that the bar is the typed text, and no label of the catalog holds a bar. The session that opens
there shows nothing, under whatever criteria, and accepts nothing.
-/

namespace LogScript

theorem Criteria.rank_eq_nil {typed : List Char} {items : List Item}
    (h : ∀ item ∈ items, Quality.of? item.label typed = none) (c : Criteria) :
    c.rank typed items = [] := by
  have hscored : c.scoring.scored typed items = [] :=
    List.filterMap_eq_nil_iff.2 fun item hitem => by rw [h item hitem]; rfl
  rw [Criteria.rank, Scoring.ranked, hscored]
  cases c.limit with
  | none => rfl
  | some n => exact List.take_nil

/-- No label of the catalog for OML matches a bar. -/
theorem of?_bar_of_mem_builtin {locale : Locale} {item : Item}
    (hitem : item ∈ (Catalog.builtin .oml locale).items) :
    Quality.of? item.label ['|'] = none := by
  have hall : ((Catalog.builtin .oml .enUS).items.map (fun i => (i.label, i.insertText))).all
      fun entry => decide (Quality.of? entry.1 ['|'] = none) := by
    decide +kernel
  exact of_decide_eq_true (of_mem_builtin hall hitem)

namespace Editor

/-- The session behind a bar. -/
theorem session?_bar (locale : Locale) {before : List Char}
    (hbar : before.getLast? = some '|') (explicit : Bool) :
    (Catalog.builtin .oml locale).session? before explicit =
      some ⟨⟨.oml, before.length - 1, (Catalog.builtin .oml locale).items⟩, ['|']⟩ := by
  obtain ⟨front, rfl⟩ := List.getLast?_eq_some_iff.1 hbar
  have hlength : replacedLength? .oml (front ++ ['|']) explicit = some 1 := by
    rw [replacedLength?_eq, if_pos ⟨rfl, hbar⟩]
  have hlanguage : (Catalog.builtin .oml locale).language = .oml := rfl
  rw [Catalog.session?, Catalog.complete, hlanguage, hlength]
  simp [Session.start]

/-- In every state an editor can get into, with the cursor behind a bar in OML: asking for completions
opens a session with the whole catalog, anchored at the bar. Nothing of it is visible, so nothing can
be accepted. -/
theorem complete_bar_run (config : Config) (locale : Locale) (text : List Char)
    (operations : List Operation) (explicit : Bool) :
    let e := (new config locale text).run operations
    e.config.mode = .oml → (e.text.take e.cursor).getLast? = some '|' →
      ∃ session, (e.complete explicit).reply = .ok (.session (some session)) ∧
        (e.complete explicit).editor = { e with session := some session } ∧
        session.offer.anchor + 1 = e.cursor ∧ session.typed = ['|'] ∧
        session.offer.candidates = (Catalog.builtin .oml e.locale).items ∧
        (∀ criteria, session.visible criteria = []) ∧
        ∀ label, (e.complete explicit).editor.accept label =
          { editor := (e.complete explicit).editor, reply := .ok (.stops none) } := by
  intro e hmode hbar
  have h : e.Sound := (sound_new config locale text).run operations
  have hlanguage : e.config.mode.language? = some .oml := by rw [hmode]; rfl
  obtain ⟨events, hopen⟩ := h.openSession_eq hlanguage explicit
  rw [session?_bar e.locale hbar] at hopen
  have hlength : (e.text.take e.cursor).length = e.cursor := by
    have hcursor : e.cursor ≤ e.text.length := h.document.cursor_le
    rw [List.length_take]
    omega
  have hpos : 0 < e.cursor := by
    rw [← hlength, List.length_pos_iff]
    rintro hnil
    rw [hnil] at hbar
    cases hbar
  rw [hlength] at hopen
  have hvisible : ∀ criteria, Session.visible
      ⟨⟨.oml, e.cursor - 1, (Catalog.builtin .oml e.locale).items⟩, ['|']⟩ criteria = [] :=
    Criteria.rank_eq_nil fun _ => of?_bar_of_mem_builtin
  rw [Editor.complete, hopen]
  refine ⟨_, rfl, rfl, Nat.sub_add_cancel hpos, rfl, rfl, hvisible, fun label => ?_⟩
  rw [Editor.accept]
  dsimp only
  rw [Session.candidate?, hvisible]
  rfl

/-- A bar at the end of a call, with text behind the cursor. -/
theorem complete_bar_run_call :
    let e := (new { mode := .oml } .zhCN "é = pipe read(x) |;".toList).run [.setCursor 18]
    e.config.mode = .oml ∧ (e.text.take e.cursor).getLast? = some '|' ∧
      ∃ session, (e.complete false).reply = .ok (.session (some session)) ∧
        session.offer.anchor = 17 ∧ ∀ criteria, session.visible criteria = [] := by
  intro e
  have hmode : e.config.mode = .oml := by decide
  have hbar : (e.text.take e.cursor).getLast? = some '|' := by decide
  have hcursor : e.cursor = 18 := by decide
  obtain ⟨session, hreply, -, hanchor, -, -, hvisible, -⟩ :=
    complete_bar_run { mode := .oml } .zhCN "é = pipe read(x) |;".toList [.setCursor 18] false
      hmode hbar
  exact ⟨hmode, hbar, session, hreply, Nat.succ.inj (hanchor.trans hcursor), hvisible⟩

end Editor

end LogScript
