import LogScript.Proofs.Editing.Session

/-!
Reconfiguring an editor comes to the same as building a new one. Whatever an editor has been through,
its wiring is that of its mode and locale and its palette that of its theme and text colour, although
each is built anew only when what it depends on changes. What the editor shows then depends on
configuration, locale, text and cursor alone.
-/

namespace LogScript

namespace Editor

/-- Two editors show the same: tokens, decorations, colours, and the completions at their cursors. -/
structure SameView (e e' : Editor) : Prop where
  tokens : e.tokens = e'.tokens
  semanticTokens : e.semanticTokens = e'.semanticTokens
  decorations : e.decorations = e'.decorations
  palette : e.palette = e'.palette
  completions : ∀ explicit, (e.complete explicit).reply = (e'.complete explicit).reply

variable {e e' : Editor}

theorem openSession_congr (hwiring : e.wiring = e'.wiring) (htext : e.text = e'.text)
    (hcursor : e.cursor = e'.cursor) (explicit : Bool) :
    e.openSession explicit = e'.openSession explicit := by
  have hprefix : e.document.linePrefix e.cursor = e'.document.linePrefix e'.cursor := by
    rw [Editor.text, Editor.text] at htext
    simp only [Document.linePrefix, Document.checkPosition, Document.charsIn, htext, hcursor]
  rw [openSession, openSession, hwiring, hprefix]

/-- The session an editor already has is no part of its view, nor are its history and the start of
its selection. -/
theorem sameView_of_eq (hwiring : e.wiring = e'.wiring) (hpalette : e.palette = e'.palette)
    (htext : e.text = e'.text) (hcursor : e.cursor = e'.cursor) : e.SameView e' := by
  have htokens : e.tokens = e'.tokens := by rw [tokens, tokens, hwiring, htext]
  refine ⟨htokens, ?_, ?_, hpalette, fun explicit => ?_⟩
  · rw [semanticTokens, semanticTokens, htext, htokens]
  · rw [decorations, decorations, hwiring, htext, htokens]
  · rw [complete, complete, openSession_congr hwiring htext hcursor]
    split <;> rfl

/-- The palette is the one that the configuration calls for. -/
def Painted (e : Editor) : Prop :=
  e.palette = e.config.palette

theorem Painted.afterEdit (h : e.Painted) (result : Document × Bool) :
    (e.afterEdit result).editor.Painted := by
  rw [Editor.afterEdit]
  split <;> exact h

theorem Painted.format (h : e.Painted) : e.format.editor.Painted := by
  rw [Editor.format]
  split
  · exact h.afterEdit _
  · exact h

theorem Painted.setCursor (h : e.Painted) (position : Nat) :
    (e.setCursor position).editor.Painted := by
  rw [Editor.setCursor]
  dsimp only
  split <;> exact h

theorem Painted.replace (h : e.Painted) (span : Span) (text : List Char) :
    (e.replace span text).editor.Painted := by
  rw [Editor.replace]
  split
  · exact h.afterEdit _
  · exact h

theorem Painted.complete (h : e.Painted) (explicit : Bool) :
    (e.complete explicit).editor.Painted := by
  rw [Editor.complete]
  split <;> exact h

theorem Painted.type (h : e.Painted) (text : List Char) : (e.type text).editor.Painted := by
  rw [Editor.type]
  dsimp only
  split
  · exact h
  · split
    · exact h
    · exact h
    · split <;> exact h

theorem Painted.insertItem (h : e.Painted) (anchor : Nat) (item : Item) :
    (e.insertItem anchor item).editor.Painted := by
  rw [Editor.insertItem]
  dsimp only
  split
  · exact h
  · split <;> exact h

theorem Painted.accept (h : e.Painted) (label : List Char) : (e.accept label).editor.Painted := by
  rw [Editor.accept]
  split
  · exact h
  · split
    · exact h
    · exact h.insertItem _ _

/-- A palette that is kept was built from the same theme and the same text colour. -/
theorem Painted.configure (h : e.Painted) (config : Config) :
    (e.configure config).editor.Painted := by
  have hnext : ∀ {e' : Editor}, e'.config = config →
      e'.palette = (if config.theme ≠ e.config.theme ∨ config.textColor ≠ e.config.textColor then
        config.palette else e.palette) → e'.Painted := by
    intro e' hconfig hpalette
    rw [Painted, hconfig, hpalette]
    split
    · rfl
    · rename_i hsame
      simp only [ne_eq, not_or, Decidable.not_not] at hsame
      rw [h, Config.palette, Config.palette, hsame.1, hsame.2]
  rw [Editor.configure]
  split <;> exact hnext rfl rfl

theorem Painted.setLocale (h : e.Painted) (locale : Locale) :
    (e.setLocale locale).editor.Painted := by
  rw [Editor.setLocale]
  split <;> exact h

theorem Painted.apply (h : e.Painted) (operation : Operation) :
    (e.apply operation).editor.Painted := by
  cases operation with
  | setText text => exact h.afterEdit _
  | format => exact h.format
  | undo => exact h.afterEdit _
  | redo => exact h.afterEdit _
  | setCursor position => exact h.setCursor position
  | replace span text => exact h.replace span text
  | insert position text => exact h.replace (.at position) text
  | type text => exact h.type text
  | complete explicit => exact h.complete explicit
  | accept label => exact h.accept label
  | close => exact h
  | configure config => exact h.configure config
  | setLocale locale => exact h.setLocale locale

theorem Painted.run (h : e.Painted) (operations : List Operation) :
    (e.run operations).Painted :=
  run_of_apply h Painted.apply operations

/-- An editor of the same configuration, locale and text, with the cursor where this one has it. -/
theorem Sound.setCursor_new (h : e.Sound) :
    (new e.config e.locale e.text).setCursor e.cursor =
      { editor := { new e.config e.locale e.text with
          document := { Document.ofText e.text with selection := .at e.cursor } }
        reply := .ok .done } := by
  have hinside : (Span.at e.cursor).Within (Document.ofText e.text).text :=
    Span.within_at h.document.cursor_le
  rw [Editor.setCursor, Document.setCursor_eq_select]
  simp only [new, Document.select_of_within hinside]

/-- In every state an editor can get into, through whatever changes of its configuration and locale,
it shows what an editor shows that is built anew for its configuration, locale and text and then
gets its cursor. -/
theorem sameView_run (config : Config) (locale : Locale) (text : List Char)
    (operations : List Operation) :
    let e := (new config locale text).run operations
    let o := (new e.config e.locale e.text).setCursor e.cursor
    o.reply = .ok .done ∧ e.SameView o.editor := by
  intro e o
  have h : e.Sound := (sound_new config locale text).run operations
  have hpainted : e.Painted := Painted.run (e := new config locale text) rfl operations
  have ho : o = _ := h.setCursor_new
  rw [ho]
  exact ⟨rfl, sameView_of_eq h.wiring hpainted rfl rfl⟩

/-- To another language, there to another locale, and back: the catalog is that of the first language
again, in the new locale. -/
example :
    let e := (new { mode := .wpl } .enUS "ru".toList).run
      [.setCursor 2, .configure { mode := .json, theme := .oneDark }, .setLocale .zhCN,
        .configure { mode := .wpl, theme := .oneDark }]
    e.wiring.catalog.map (fun c => (c.language, c.locale)) = some (.wpl, .zhCN) ∧
      e.palette.background = "#282c34" := by
  decide +kernel

end Editor

end LogScript
