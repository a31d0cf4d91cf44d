import LogScript.Proofs.Editing.Session

/-!
Typing in pieces. What is typed takes the place of the selection, and the cursor goes behind it; only
over its own text it changes nothing, and the selection stays. So two pieces typed one after the
other come to the same as both typed at once, unless the selection holds some text and that is the
first piece or the two together.
-/

namespace LogScript

namespace Document

/-- The text falls into what stands in front of the selection, the selected part, and the rest. -/
structure Parts (d : Document) (front selected back : List Char) : Prop where
  text : d.text = front ++ selected ++ back
  selection : d.selection = ⟨front.length, front.length + selected.length⟩

variable {d : Document} {front selected back : List Char}

theorem Sound.exists_parts (h : d.Sound) :
    ∃ front back, d.Parts front (d.charsIn d.selection) back := by
  have hordered := h.selection.ordered
  have hinside := h.selection.inside
  have hlength := length_charsIn h.selection
  refine ⟨d.text.take d.selection.start, d.text.drop d.selection.stop,
    text_eq_charsIn h.selection, ?_⟩
  have hfront : (d.text.take d.selection.start).length = d.selection.start := by
    simp only [List.length_take]
    omega
  rw [hfront, hlength, Nat.add_sub_cancel' hordered]

theorem Parts.within (h : d.Parts front selected back) : d.selection.Within d.text := by
  constructor
  · simp [h.selection]
  · simp [h.selection, h.text]

theorem Parts.charsIn_selection (h : d.Parts front selected back) :
    d.charsIn d.selection = selected := by
  simp [charsIn, h.selection, h.text]

/-- What `text` typed over the selection makes of a document. -/
def typed (d : Document) (text : List Char) : Document :=
  if d.charsIn d.selection = text then d
  else d.commit ⟨d.selection.start, d.charsIn d.selection, text, d.selection⟩

theorem Parts.replace_selection (h : d.Parts front selected back) (text : List Char) :
    ∃ changed, d.replace d.selection text = .ok (d.typed text, changed) := by
  rw [replace_of_within h.within, typed]
  split
  · exact ⟨false, rfl⟩
  · exact ⟨true, rfl⟩

/-- The selected text typed again. -/
theorem Parts.typed_same (h : d.Parts front selected back) : d.typed selected = d :=
  if_pos h.charsIn_selection

/-- Another text takes the place of the selection. -/
theorem Parts.typed_other (h : d.Parts front selected back) {text : List Char}
    (htext : selected ≠ text) : (d.typed text).Parts (front ++ text) [] back := by
  have hselected := h.charsIn_selection
  have hsplice := Edit.splice_exchange front selected text back
  rw [typed, hselected, if_neg htext, commit, applyEdit]
  constructor
  · simp only [h.text, h.selection, hsplice, List.append_nil]
  · simp [h.selection, Span.at]

/-- Behind a cursor every text is put in its place, the empty one too. -/
theorem Parts.typed_cursor (h : d.Parts front [] back) (text : List Char) :
    (d.typed text).Parts (front ++ text) [] back := by
  by_cases htext : [] = text
  · subst htext
    rw [h.typed_same, List.append_nil]
    exact h
  · exact h.typed_other htext

theorem Parts.length_text (h : d.Parts front selected back) :
    d.text.length = front.length + selected.length + back.length := by
  simp only [h.text, List.length_append]

/-- The same text and the same selection. -/
def Agree (d d' : Document) : Prop :=
  d.text = d'.text ∧ d.selection = d'.selection

theorem Parts.agree {d' : Document} (h : d.Parts front selected back)
    (h' : d'.Parts front selected back) : d.Agree d' :=
  ⟨h.text.trans h'.text.symm, h.selection.trans h'.selection.symm⟩

/-- Documents that agree have parts of the same lengths. -/
theorem Agree.lengths {d' : Document} {front' selected' back' : List Char} (hagree : d.Agree d')
    (h : d.Parts front selected back) (h' : d'.Parts front' selected' back') :
    front.length = front'.length ∧ selected.length = selected'.length ∧
      back.length = back'.length := by
  have htext := congrArg List.length hagree.1
  rw [h.length_text, h'.length_text] at htext
  have hselection := hagree.2
  rw [h.selection, h'.selection, Span.mk.injEq] at hselection
  obtain ⟨hstart, hstop⟩ := hselection
  refine ⟨hstart, ?_, ?_⟩ <;> omega

/-- Two pieces typed over a selection that is empty or holds neither the first nor both. -/
theorem Parts.agree_typed (h : d.Parts front selected back) {a b : List Char}
    (hselected : selected = [] ∨ selected ≠ a ∧ selected ≠ a ++ b) :
    ((d.typed a).typed b).Agree (d.typed (a ++ b)) := by
  rcases hselected with rfl | ⟨hfirst, hboth⟩
  · have hpieces := (h.typed_cursor a).typed_cursor b
    rw [List.append_assoc] at hpieces
    exact hpieces.agree (h.typed_cursor (a ++ b))
  · have hpieces := (h.typed_other hfirst).typed_cursor b
    rw [List.append_assoc] at hpieces
    exact hpieces.agree (h.typed_other hboth)

/-- Typed over the first piece, the selection stays and the second piece takes its place. -/
theorem Parts.not_agree_first {a b : List Char} (h : d.Parts front a back) (hne : a ≠ []) :
    ¬ ((d.typed a).typed b).Agree (d.typed (a ++ b)) := by
  have hpos := List.length_pos_iff.2 hne
  rw [h.typed_same]
  intro hagree
  by_cases hboth : a = a ++ b
  · have hb : b = [] := List.append_right_eq_self.1 hboth.symm
    rw [← hboth] at hagree
    subst hb
    rw [h.typed_same] at hagree
    have hlengths := hagree.lengths (h.typed_other hne) h
    simp only [List.length_nil] at hlengths
    omega
  · by_cases hsecond : a = b
    · subst hsecond
      rw [h.typed_same] at hagree
      have hlengths := hagree.lengths h (h.typed_other hboth)
      simp only [List.length_nil] at hlengths
      omega
    · have hlengths := hagree.lengths (h.typed_other hsecond) (h.typed_other hboth)
      simp only [List.length_append] at hlengths
      omega

/-- Typed over both pieces at once, the selection stays, while in pieces it is used up. -/
theorem Parts.not_agree_both {a b : List Char} (h : d.Parts front (a ++ b) back)
    (hfirst : a ++ b ≠ a) (hne : a ++ b ≠ []) :
    ¬ ((d.typed a).typed b).Agree (d.typed (a ++ b)) := by
  have hpos := List.length_pos_iff.2 hne
  rw [h.typed_same]
  intro hagree
  have hlengths := hagree.lengths ((h.typed_other hfirst).typed_cursor b) h
  simp only [List.length_nil] at hlengths
  omega

theorem Parts.agree_typed_iff (h : d.Parts front selected back) (a b : List Char) :
    ((d.typed a).typed b).Agree (d.typed (a ++ b)) ↔
      selected = [] ∨ selected ≠ a ∧ selected ≠ a ++ b := by
  constructor
  · intro hagree
    by_cases hempty : selected = []
    · exact .inl hempty
    refine .inr ⟨?_, ?_⟩
    · rintro rfl
      exact h.not_agree_first hempty hagree
    · rintro rfl
      by_cases hfirst : a ++ b = a
      · rw [hfirst] at h hempty
        exact h.not_agree_first hempty hagree
      · exact h.not_agree_both hfirst hempty hagree
  · exact h.agree_typed

end Document

namespace Editor

variable {e : Editor}

/-- Typing changes the document only by putting the text in the place of the selection. -/
theorem Sound.document_type (h : e.Sound) (text : List Char) :
    (e.type text).editor.document = e.document.typed text := by
  obtain ⟨front, back, hparts⟩ := h.document.exists_parts
  obtain ⟨changed, hreplace⟩ := hparts.replace_selection text
  obtain ⟨document, changed', session, events, hreplace', htype, -⟩ := h.type_eq text
  cases hreplace.symm.trans hreplace'
  rw [htype]

/-- In every state an editor can get into, two pieces typed one after the other give the text and
the selection that both typed at once give exactly when the selection is empty or its text is neither
the first piece nor the two together. -/
theorem type_type_iff (config : Config) (locale : Locale) (text : List Char)
    (operations : List Operation) (a b : List Char) :
    let e := (new config locale text).run operations
    let selected := e.document.charsIn e.document.selection
    ((e.type a).editor.type b).editor.document.Agree (e.type (a ++ b)).editor.document ↔
      selected = [] ∨ selected ≠ a ∧ selected ≠ a ++ b := by
  intro e selected
  have h : e.Sound := (sound_new config locale text).run operations
  obtain ⟨front, back, hparts⟩ := h.document.exists_parts
  rw [(h.type a).1.document_type, h.document_type, h.document_type]
  exact hparts.agree_typed_iff a b

/-- The placeholder of an accepted item typed over itself, and a letter behind it: the letter takes
the place of the placeholder. -/
example :
    let e := (new { mode := .oml } .enUS []).run [.complete true, .accept "read".toList]
    ((e.type "field".toList).editor.type ['s']).editor.text = "read(s)".toList ∧
      (e.type "fields".toList).editor.text = "read(fields)".toList := by decide +kernel

end Editor

end LogScript
