import LogScript.Proofs.Editing.Session

/-!
Operations that fail. An operation of an editor fails exactly when it names a place that does not
lie in the text; of what it leaves, only the session of a cursor that was to be moved is gone. Text,
selection, history, configuration and locale stay, and no listener is told anything.
-/

namespace LogScript

/-- The place in the text that an operation names. -/
def Operation.place? : Operation → Option Span
  | .setCursor position => some (.at position)
  | .replace span _ => some span
  | .insert position _ => some (.at position)
  | _ => none

namespace Editor

/-- What a failed operation leaves: everything, but that asking for a cursor closes the session. -/
def afterFailure (e : Editor) : Operation → Editor
  | .setCursor _ => { e with session := none }
  | _ => e

/-- The operation has failed. -/
structure Fails (e : Editor) (operation : Operation) (error : ToolError) : Prop where
  outcome : e.apply operation = { editor := e.afterFailure operation, reply := .error error }
  outside : ∃ place ∈ operation.place?, ¬ place.Within e.text

/-- The operation has succeeded. -/
structure Succeeds (e : Editor) (operation : Operation) : Prop where
  reply : ∃ reply, (e.apply operation).reply = .ok reply
  inside : ∀ place ∈ operation.place?, place.Within e.text

variable {e : Editor} {operation : Operation}

/-- An operation that names no place. -/
theorem Succeeds.of_reply {reply : Reply} (hplace : operation.place? = none)
    (hreply : (e.apply operation).reply = .ok reply) : e.Succeeds operation where
  reply := ⟨reply, hreply⟩
  inside := by simp [hplace]

/-- An operation that names a place in the text. -/
theorem Succeeds.of_within {place : Span} {reply : Reply} (hplace : operation.place? = some place)
    (hinside : place.Within e.text) (hreply : (e.apply operation).reply = .ok reply) :
    e.Succeeds operation where
  reply := ⟨reply, hreply⟩
  inside := by
    intro named hnamed
    cases hplace.symm.trans hnamed
    exact hinside

theorem reply_afterEdit (e : Editor) (result : Document × Bool) :
    (e.afterEdit result).reply = .ok (.changed result.2) := by
  rw [afterEdit]
  cases result.2 <;> rfl

theorem exists_reply_format (e : Editor) : ∃ reply, e.format.reply = .ok reply := by
  rw [Editor.format]
  split
  · exact ⟨_, reply_afterEdit e _⟩
  · exact ⟨_, rfl⟩

theorem reply_configure (e : Editor) (config : Config) : (e.configure config).reply = .ok .done := by
  rw [Editor.configure]
  split <;> rfl

theorem reply_setLocale (e : Editor) (locale : Locale) : (e.setLocale locale).reply = .ok .done := by
  rw [Editor.setLocale]
  split <;> rfl

theorem setCursor_fails_or_succeeds (e : Editor) (position : Nat) :
    (∃ error, e.Fails (.setCursor position) error) ∨ e.Succeeds (.setCursor position) := by
  have hplace : (Operation.setCursor position).place? = some (.at position) := rfl
  have happly : e.apply (.setCursor position) = e.setCursor position := rfl
  rcases e.document.refused_or_within (.at position) with ⟨error, hcheck, houtside⟩ | hinside
  · have hset := Document.select_of_refused hcheck
    rw [← Document.setCursor_eq_select] at hset
    refine .inl ⟨error, ?_, .at position, hplace, houtside⟩
    simp only [happly, Editor.setCursor, hset, afterFailure]
  · have hset := Document.select_of_within hinside
    rw [← Document.setCursor_eq_select] at hset
    have hreply : (e.apply (.setCursor position)).reply = .ok .done := by
      simp only [happly, Editor.setCursor, hset]
    exact .inr (.of_within hplace hinside hreply)

theorem replace_fails_or_succeeds (e : Editor) {operation : Operation} {span : Span}
    {text : List Char} (hplace : operation.place? = some span)
    (happly : e.apply operation = e.replace span text) (hafter : e.afterFailure operation = e) :
    (∃ error, e.Fails operation error) ∨ e.Succeeds operation := by
  rcases e.document.refused_or_within span with ⟨error, hcheck, houtside⟩ | hinside
  · refine .inl ⟨error, ?_, span, hplace, houtside⟩
    simp only [happly, Editor.replace, Document.replace_of_refused hcheck, hafter]
  · obtain ⟨result, hreplace⟩ := Document.exists_replace hinside text
    have hreply : (e.apply operation).reply = .ok .done := by
      simp only [happly, Editor.replace, hreplace]
    exact .inr (.of_within hplace hinside hreply)

/-- One operation on a sound editor: it names a place outside the text and fails, or it succeeds. -/
theorem Sound.fails_or_succeeds (h : e.Sound) (operation : Operation) :
    (∃ error, e.Fails operation error) ∨ e.Succeeds operation := by
  cases operation with
  | setText text => exact .inr (.of_reply rfl (e.reply_afterEdit (e.document.setText text)))
  | format =>
    obtain ⟨reply, hreply⟩ := e.exists_reply_format
    exact .inr (.of_reply rfl hreply)
  | undo => exact .inr (.of_reply rfl (e.reply_afterEdit e.document.undo))
  | redo => exact .inr (.of_reply rfl (e.reply_afterEdit e.document.redo))
  | setCursor position => exact e.setCursor_fails_or_succeeds position
  | replace span text => exact e.replace_fails_or_succeeds rfl rfl rfl
  | insert position text => exact e.replace_fails_or_succeeds rfl rfl rfl
  | type text => exact .inr (.of_reply rfl (h.type text).2)
  | complete explicit =>
    obtain ⟨session, hreply⟩ := h.complete_reply explicit
    exact .inr (.of_reply rfl hreply)
  | accept label =>
    obtain ⟨-, stops, hreply⟩ := h.accept label
    exact .inr (.of_reply rfl hreply)
  | close => exact .inr (.of_reply rfl rfl)
  | configure config => exact .inr (.of_reply rfl (e.reply_configure config))
  | setLocale locale => exact .inr (.of_reply rfl (e.reply_setLocale locale))

/-- In every state an editor can get into, an operation fails exactly when it names a place outside
the text. One that fails tells no listener anything and leaves everything as it is, but that asking
for a cursor outside the text closes the session. -/
theorem failure_run (config : Config) (locale : Locale) (text : List Char)
    (operations : List Operation) (operation : Operation) :
    let e := (new config locale text).run operations
    (∀ error, (e.apply operation).reply = .error error → e.Fails operation error) ∧
      ((∃ place ∈ operation.place?, ¬ place.Within e.text) →
        ∃ error, (e.apply operation).reply = .error error) := by
  intro e
  have h : e.Sound := (sound_new config locale text).run operations
  constructor
  · intro error hreply
    rcases h.fails_or_succeeds operation with ⟨error', hfails⟩ | hsucceeds
    · simp only [hfails.outcome, Except.error.injEq] at hreply
      exact hreply ▸ hfails
    · obtain ⟨reply, hok⟩ := hsucceeds.reply
      rw [hok] at hreply
      cases hreply
  · rintro ⟨place, hplace, houtside⟩
    rcases h.fails_or_succeeds operation with ⟨error, hfails⟩ | hsucceeds
    · exact ⟨error, by rw [hfails.outcome]⟩
    · exact absurd (hsucceeds.inside place hplace) houtside

/-- A cursor outside the text is refused while a session is open. -/
theorem failure_run_cursor :
    let e := (new { mode := .oml } .enUS "x = ".toList).run [.setCursor 4, .type "rea".toList]
    e.session.isSome ∧
      (e.apply (.setCursor 99)).reply = .error (.offsetOutOfBounds 99 7) ∧
      e.Fails (.setCursor 99) (.offsetOutOfBounds 99 7) :=
  ⟨by decide +kernel, by rfl, (failure_run _ _ _ _ _).1 _ (by rfl)⟩

end Editor

end LogScript
