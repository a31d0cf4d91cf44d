import LogScript.Editing.Document

/-!
The history of a document fits its text. An edit links the text before it to the text behind it;
the edits that can be taken back lead up to the text of the document, and those that can be made
again lead on from it. Every operation of a document keeps that, and keeps its selection inside the
text.
-/

namespace LogScript

/-- The span lies in the text. -/
structure Span.Within (s : Span) (text : List Char) : Prop where
  ordered : s.start ≤ s.stop
  inside : s.stop ≤ text.length

theorem Span.within_at {position : Nat} {text : List Char} (h : position ≤ text.length) :
    (Span.at position).Within text :=
  ⟨Nat.le_refl position, h⟩

namespace Edit

/-- The edit exchanges a part of the text before it for another; everything around it stays. -/
structure Links (e : Edit) (before after : List Char) : Prop where
  exchanges : ∃ front back, front.length = e.start ∧ before = front ++ e.removed ++ back ∧
    after = front ++ e.inserted ++ back
  selection : e.selectionBefore.Within before

variable {e : Edit} {before after : List Char}

theorem splice_exchange (front removed inserted back : List Char) :
    Document.splice (front ++ removed ++ back) front.length removed.length inserted =
      front ++ inserted ++ back := by
  have htake : (front ++ removed ++ back).take front.length = front := by
    rw [List.append_assoc, List.take_left]
  have hdrop : (front ++ removed ++ back).drop (front.length + removed.length) = back := by
    rw [← List.length_append, List.drop_left]
  rw [Document.splice, htake, hdrop]

/-- Making the edit. -/
theorem Links.splice_forward (h : e.Links before after) :
    Document.splice before e.start e.removed.length e.inserted = after := by
  obtain ⟨front, back, hstart, hbefore, hafter⟩ := h.exchanges
  rw [hbefore, hafter, ← hstart]
  exact splice_exchange front e.removed e.inserted back

/-- Taking the edit back. -/
theorem Links.splice_back (h : e.Links before after) :
    Document.splice after e.start e.inserted.length e.removed = before := by
  obtain ⟨front, back, hstart, hbefore, hafter⟩ := h.exchanges
  rw [hbefore, hafter, ← hstart]
  exact splice_exchange front e.inserted e.removed back

/-- The cursor behind what the edit inserts. -/
theorem Links.within_after (h : e.Links before after) :
    (Span.at (e.start + e.inserted.length)).Within after := by
  obtain ⟨front, back, hstart, -, hafter⟩ := h.exchanges
  apply Span.within_at
  rw [hafter, ← hstart]
  simp only [List.length_append]
  omega

/-- Edits, latest first, the last of which has led to a text. -/
inductive LeadTo : List Edit → List Char → Prop where
  | nil (text : List Char) : LeadTo [] text
  | cons {e : Edit} {rest : List Edit} {before after : List Char} (links : e.Links before after)
      (earlier : LeadTo rest before) : LeadTo (e :: rest) after

/-- Edits, next first, that can be made one after the other from a text on. -/
inductive LeadFrom : List Char → List Edit → Prop where
  | nil (text : List Char) : LeadFrom text []
  | cons {e : Edit} {rest : List Edit} {before after : List Char} (links : e.Links before after)
      (later : LeadFrom after rest) : LeadFrom before (e :: rest)

end Edit

namespace Document

/-- The selection lies in the text, and the history fits it. -/
structure Sound (d : Document) : Prop where
  selection : d.selection.Within d.text
  undoable : Edit.LeadTo d.undoable d.text
  redoable : Edit.LeadFrom d.text d.redoable

theorem sound_ofText (text : List Char) : (ofText text).Sound where
  selection := ⟨Nat.le_refl 0, Nat.zero_le _⟩
  undoable := .nil text
  redoable := .nil text

variable {d : Document} {s : Span} {position : Nat} {text : List Char}

theorem Sound.cursor_le (h : d.Sound) : d.cursor ≤ d.text.length :=
  h.selection.inside

theorem checkPosition_of_le (h : position ≤ d.text.length) : d.checkPosition position = .ok () :=
  if_pos h

theorem checkSpan_of_within (h : s.Within d.text) : d.checkSpan s = .ok () := by
  rw [checkSpan, checkPosition_of_le h.inside]
  exact if_pos h.ordered

theorem within_of_checkSpan (h : d.checkSpan s = .ok ()) : s.Within d.text := by
  unfold checkSpan checkPosition at h
  split at h
  · rename_i hinside
    change (if s.start ≤ s.stop then Except.ok () else _) = _ at h
    split at h
    · rename_i hordered
      exact ⟨hordered, hinside⟩
    · cases h
  · cases h

/-- A span that is not refused lies in the text. -/
theorem refused_or_within (d : Document) (s : Span) :
    (∃ error, d.checkSpan s = .error error ∧ ¬ s.Within d.text) ∨ s.Within d.text := by
  cases hcheck : d.checkSpan s with
  | ok _ => exact .inr (within_of_checkSpan hcheck)
  | error error =>
    refine .inl ⟨error, rfl, fun hs => ?_⟩
    rw [checkSpan_of_within hs] at hcheck
    cases hcheck

theorem Sound.withSelection (h : d.Sound) (hs : s.Within d.text) :
    Sound { d with selection := s } :=
  ⟨hs, h.undoable, h.redoable⟩

theorem select_of_within (h : s.Within d.text) : d.select s = .ok { d with selection := s } := by
  rw [select, checkSpan_of_within h]
  rfl

theorem select_of_refused {error : ToolError} (h : d.checkSpan s = .error error) :
    d.select s = .error error := by
  simp only [select, h]
  rfl

/-- A cursor is a selection of nothing. -/
theorem setCursor_eq_select (d : Document) (position : Nat) :
    d.setCursor position = d.select (.at position) := by
  simp only [Document.setCursor, Document.select, checkSpan, Span.at]
  cases d.checkPosition position with
  | error error => rfl
  | ok _ => simp [bind, Except.bind]

theorem Sound.setCursor {d' : Document} (h : d.Sound) (hset : d.setCursor position = .ok d') :
    d'.Sound := by
  unfold Document.setCursor at hset
  by_cases hposition : position ≤ d.text.length
  · rw [checkPosition_of_le hposition] at hset
    cases hset
    exact h.withSelection (Span.within_at hposition)
  · rw [checkPosition, if_neg hposition] at hset
    cases hset

theorem slice_of_within (h : s.Within d.text) : d.slice s = .ok (d.charsIn s) := by
  rw [slice, checkSpan_of_within h]
  rfl

theorem length_charsIn (h : s.Within d.text) : (d.charsIn s).length = s.stop - s.start := by
  have hinside := h.inside
  rw [charsIn, List.length_take, List.length_drop]
  omega

theorem drop_charsIn (d : Document) (s : Span) (n : Nat) :
    (d.charsIn s).drop n = d.charsIn ⟨s.start + n, s.stop⟩ := by
  rw [charsIn, charsIn, List.drop_take, List.drop_drop, Nat.sub_sub]

/-- The text around a span. -/
theorem text_eq_charsIn (h : s.Within d.text) :
    d.text = d.text.take s.start ++ d.charsIn s ++ d.text.drop s.stop := by
  have hordered := h.ordered
  have hdrop : d.text.drop s.stop = (d.text.drop s.start).drop (s.stop - s.start) := by
    rw [List.drop_drop, Nat.add_sub_cancel' hordered]
  rw [hdrop, charsIn, List.append_assoc, List.take_append_drop, List.take_append_drop]

/-- The edit that replaces a span. -/
theorem links_replace (h : d.Sound) (hs : s.Within d.text) (text : List Char) :
    Edit.Links ⟨s.start, d.charsIn s, text, d.selection⟩ d.text
      (d.text.take s.start ++ text ++ d.text.drop s.stop) where
  exchanges := by
    have hinside := hs.inside
    have hordered := hs.ordered
    have hlength : (d.text.take s.start).length = s.start := by
      rw [List.length_take]
      omega
    exact ⟨d.text.take s.start, d.text.drop s.stop, hlength, text_eq_charsIn hs, rfl⟩
  selection := h.selection

/-- A new edit puts the earlier history in front of it and leaves nothing to make again. -/
theorem Sound.commit {e : Edit} {after : List Char} (h : d.Sound) (hlinks : e.Links d.text after) :
    (d.commit e).Sound ∧ (d.commit e).text = after := by
  have htext : (d.commit e).text = after := hlinks.splice_forward
  refine ⟨⟨?_, ?_, ?_⟩, htext⟩
  · rw [htext]
    exact hlinks.within_after
  · rw [htext]
    exact .cons hlinks h.undoable
  · exact .nil _

/-- Replacing a span of the text: what is in front of it and behind it stays. -/
theorem replace_of_within (hs : s.Within d.text) (text : List Char) :
    d.replace s text =
      .ok (if d.charsIn s = text then (d, false)
        else (d.commit ⟨s.start, d.charsIn s, text, d.selection⟩, true)) := by
  rw [replace, checkSpan_of_within hs]
  change (if d.charsIn s = text then Except.ok (d, false) else Except.ok _) = _
  split <;> rfl

theorem replace_of_refused {error : ToolError} (h : d.checkSpan s = .error error)
    (text : List Char) : d.replace s text = .error error := by
  simp only [replace, h]
  rfl

theorem exists_replace (hs : s.Within d.text) (text : List Char) :
    ∃ result, d.replace s text = .ok result :=
  ⟨_, replace_of_within hs text⟩

theorem within_of_replace {result : Document × Bool} (hreplace : d.replace s text = .ok result) :
    s.Within d.text := by
  apply within_of_checkSpan
  cases hcheck : d.checkSpan s with
  | ok _ => rfl
  | error error =>
    rw [replace, hcheck] at hreplace
    cases hreplace

theorem Sound.replace {result : Document × Bool} (h : d.Sound)
    (hreplace : d.replace s text = .ok result) :
    result.1.Sound ∧ result.1.text = d.text.take s.start ++ text ++ d.text.drop s.stop := by
  have hs := within_of_replace hreplace
  rw [replace_of_within hs, Except.ok.injEq] at hreplace
  rw [← hreplace]
  split
  · rename_i hsame
    exact ⟨h, by rw [← hsame]; exact text_eq_charsIn hs⟩
  · exact h.commit (links_replace h hs text)

theorem Sound.setText (h : d.Sound) (text : List Char) : (d.setText text).1.Sound := by
  rw [Document.setText]
  split
  · exact h
  · have hlinks : Edit.Links ⟨0, d.text, text, d.selection⟩ d.text text :=
      ⟨⟨[], [], rfl, by simp, by simp⟩, h.selection⟩
    obtain ⟨hsound, htext⟩ := h.commit hlinks
    refine hsound.withSelection (Span.within_at ?_)
    rw [htext]
    split
    · exact Nat.le_refl _
    · exact Nat.min_le_right _ _

/-- Taking back the latest edit gives the text and the selection before it. -/
theorem Sound.undo (h : d.Sound) : d.undo.1.Sound := by
  rw [Document.undo]
  split
  · exact h
  · rename_i e rest hundo
    have hundoable := h.undoable
    rw [hundo] at hundoable
    cases hundoable with
    | @cons _ _ before _ links earlier =>
      have htext := links.splice_back
      refine ⟨?_, ?_, ?_⟩
      · rw [htext]
        exact links.selection
      · rw [htext]
        exact earlier
      · rw [htext]
        exact .cons links h.redoable

/-- Making the next edit again gives the text behind it. -/
theorem Sound.redo (h : d.Sound) : d.redo.1.Sound := by
  rw [Document.redo]
  split
  · exact h
  · rename_i e rest hredo
    have hredoable := h.redoable
    rw [hredo] at hredoable
    cases hredoable with
    | @cons _ _ _ after links later =>
      have htext : (d.applyEdit e).text = after := links.splice_forward
      refine ⟨?_, ?_, ?_⟩
      · rw [htext]
        exact links.within_after
      · rw [htext]
        exact .cons links h.undoable
      · rw [htext]
        exact later

/-- An edit that changes nothing leaves the document as it is. -/
theorem undo_of_unchanged (h : d.undo.2 = false) : d.undo.1 = d := by
  unfold Document.undo at h ⊢
  split at h
  · rfl
  · cases h

theorem redo_of_unchanged (h : d.redo.2 = false) : d.redo.1 = d := by
  unfold Document.redo at h ⊢
  split at h
  · rfl
  · cases h

theorem setText_of_unchanged (h : (d.setText text).2 = false) : (d.setText text).1 = d := by
  unfold Document.setText at h ⊢
  split at h
  · rw [if_pos ‹_›]
  · cases h

theorem replace_of_unchanged {result : Document × Bool} (hreplace : d.replace s text = .ok result)
    (h : result.2 = false) : result.1 = d := by
  rw [replace_of_within (within_of_replace hreplace), Except.ok.injEq] at hreplace
  rw [← hreplace] at h ⊢
  split at h
  · rw [if_pos ‹_›]
  · cases h

end Document

end LogScript
