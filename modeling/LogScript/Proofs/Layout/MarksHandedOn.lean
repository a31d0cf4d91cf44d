import LogScript.Proofs.Layout.BodyLines
import LogScript.Proofs.Layout.LineMarks

/-!
Every step of the body machine hands on the marks that it has read. So a run over a separable text
completes lines whose characters have the marks of the text, in the same order.
-/

namespace LogScript.Layout

open Highlight (isRunChar marks)
open Highlight.Reading hiding marks

namespace Body

variable {b b' : Body} {text text' : List Char} {lines : List Line}

/-- What a step needs to know of the line and the text in front of it. -/
structure Ready (b : Body) (text : List Char) : Prop where
  regular : b.Regular text
  hash : ¬['#', '['] <:+: text
  isOpen : (b.reading text).isOpen
  separable : separable (b.reading text) b.depth text

/-- A step hands on the marks that it has read, and stays outside literals and comments. -/
def HandsOn (b b' : Body) (text text' : List Char) (lines : List Line) : Prop :=
  b.marked text = Line.marked lines ++ b'.marked text' ∧ b'.Legible text'

section Rule

variable {c : Char} {tail blanks : List Char}

theorem sign_of_mem (h : c ∈ [';', '=', '|', '\x7b', '\x7d', '>']) : Sign .oml c := by
  simp only [List.mem_cons, List.not_mem_nil, or_false] at h
  rcases h with rfl | rfl | rfl | rfl | rfl | rfl
  all_goals exact ⟨⟨by decide, by decide, rfl, fun h => by cases h⟩, by decide, by decide⟩

theorem marks_sign_cons (hc : Sign .oml c) (rest : List Char) :
    marks .oml (c :: rest) = (c, .code) :: marks .oml rest := by
  have hnone : ∀ c ∈ ([] : List Char), isBlank c := fun _ hd => absurd hd List.not_mem_nil
  have hline : (after .oml none .plain []).isOpen := rfl
  exact marks_line_sign hline hnone hc rest

/-- A sign behind the line and the space that is due. -/
theorem marked_sign (h : (b.reading text).isOpen) (hc : Sign .oml c) (rest : List Char) :
    b.marked (c :: rest) = marks .oml b.line ++ (c, .code) :: marks .oml rest :=
  marks_line_sign (isOpen_line h) b.blank_of_mem_gap hc rest

/-- A step that writes one character behind the line. -/
theorem handsOn_push (h : b.Ready (c :: text)) (hline : b'.line = b.line ++ (b.gap ++ [c]))
    (hgap : b'.gap = []) (hdepth : b'.depth = pastBracket b.depth c) (hquote : c ≠ '"')
    (hcomment : (b.reading (c :: text)).next .oml c text.head? ≠ .comment) :
    b.HandsOn b' (c :: text) text [] :=
  ⟨marked_push hline hgap text, legible_push hline hgap hdepth hquote h.isOpen h.separable hcomment⟩

/-- A sign that is written behind the line, or behind a space, with more of its kind. -/
theorem handsOn_pushSign (h : b.Ready (c :: text)) (hc : Sign .oml c)
    (hdepth : pastBracket b.depth c = b.depth) (hquote : c ≠ '"') :
    b.HandsOn (b.push [c]) (c :: text) text [] := by
  refine handsOn_push h (line_push b _) (gap_of_space rfl) hdepth.symm hquote ?_
  rw [hc.next_eq h.isOpen]
  exact fun hcomment => by cases hcomment

/-- A step that completes the line with what it has read of the text. -/
theorem handsOn_complete (hbuilt : b'.built = []) (hdepth : b'.depth = b.depth)
    (hmarked : b.marked text = Line.marked lines ++ marks .oml text')
    (hseparable : Layout.separable .plain b.depth text') : b.HandsOn b' text text' lines := by
  refine ⟨by rw [hmarked, marked_of_built hbuilt], .inr ?_⟩
  rw [reading_of_built hbuilt, hdepth]
  exact ⟨rfl, hseparable⟩

/-- A step that completes the line with a sign behind it. -/
theorem handsOn_completeSign (h : b.Ready (c :: text)) (hc : Sign .oml c)
    (hbracket : pastBracket b.depth c = b.depth) (hbuilt : b'.built = [])
    (hdepth : b'.depth = b.depth) (due : Bool) :
    b.HandsOn b' (c :: text) text ({ b with space := due }.push [c]).pending := by
  refine handsOn_complete hbuilt hdepth ?_ (separable_sign hc hbracket h.isOpen h.separable)
  rw [marked_sign h.isOpen hc, marked_pending_push, marks_line_sign (isOpen_line h.isOpen)
    (blank_of_mem_gap _) hc, List.append_assoc]
  rfl

/-- A step that goes on with the line behind a blank character or a sign. -/
theorem handsOn_plain (hmarked : b.marked text = b'.marked text')
    (hreading : b'.reading text' = .plain) (hdepth : b'.depth = b.depth)
    (hseparable : Layout.separable .plain b.depth text') : b.HandsOn b' text text' [] := by
  refine ⟨hmarked, .inr ?_⟩
  rw [hreading, hdepth]
  exact ⟨rfl, hseparable⟩

/-- A step that writes an operator with a space on each side. -/
theorem handsOn_spaced {operator : List Char} (h : b.Ready (operator ++ text))
    (hoperator : operator = ['=', '>'] ∨ operator = ['='] ∨ operator = ['|']) :
    b.HandsOn (b.spaced operator) (operator ++ text) text [] := by
  have hopen := isOpen_line h.isOpen
  have hgaps := blank_of_mem_gap { b with space := true }
  have hline : (b.spaced operator).line = b.line ++ (gap { b with space := true } ++ operator) :=
    line_push _ _
  have hbuilt : ({ b with space := true }.push operator).built ≠ [] := by
    rcases hoperator with rfl | rfl | rfl <;> exact push_built_ne_nil (List.cons_ne_nil _ _)
  have hgap : (b.spaced operator).gap = [' '] := gap_due hbuilt
  obtain ⟨c, more, rfl, hc, hbracket, hmore⟩ : ∃ c more, operator = c :: more ∧ Sign .oml c ∧
      pastBracket b.depth c = b.depth ∧ (more = [] ∨ more = ['>']) := by
    rcases hoperator with rfl | rfl | rfl
    · exact ⟨_, _, rfl, sign_of_mem (by decide), rfl, .inr rfl⟩
    · exact ⟨_, _, rfl, sign_of_mem (by decide), rfl, .inl rfl⟩
    · exact ⟨_, _, rfl, sign_of_mem (by decide), rfl, .inl rfl⟩
  have hmarks : marks .oml (more ++ text) = marks .oml (more ++ ([' '] ++ text)) := by
    have hspace : marks .oml ([' '] ++ text) = marks .oml text :=
      Highlight.marks_blanks_append blank_of_mem_space text
    rcases hmore with rfl | rfl
    · exact hspace.symm
    · have hangle := sign_of_mem (c := '>') (by decide)
      rw [List.singleton_append, marks_sign_cons hangle, List.singleton_append,
        marks_sign_cons hangle, hspace]
  have hafter : after .oml text.head? .plain (more ++ [' ']) = .plain := by
    rcases hmore with rfl | rfl <;> rfl
  refine handsOn_plain ?_ ?_ rfl ?_
  · have hfront : (b.spaced (c :: more)).line ++ ((b.spaced (c :: more)).gap ++ text) =
        b.line ++ (gap { b with space := true } ++ c :: (more ++ ([' '] ++ text))) := by
      rw [hline, hgap]
      simp only [List.append_assoc, List.cons_append]
    rw [List.cons_append, marked_sign h.isOpen hc, hmarks, marked, hfront,
      marks_line_sign hopen hgaps hc]
  · have hfront : (b.spaced (c :: more)).line ++ (b.spaced (c :: more)).gap =
        b.line ++ (gap { b with space := true } ++ c :: (more ++ [' '])) := by
      rw [hline, hgap]
      simp only [List.append_assoc, List.cons_append]
    rw [reading, hfront, after_line_sign hopen hgaps hc, hafter]
  · have hrest := separable_sign hc hbracket h.isOpen h.separable
    rcases hmore with rfl | rfl
    · exact hrest
    · exact separable_sign (sign_of_mem (by decide)) rfl rfl hrest

theorem marked_comment (h : b.Ready (c :: (tail ++ text))) (hdepth : b.depth = 0)
    (hcomment : opensComment (c :: (tail ++ text)) = true) (htail : '\n' ∉ tail)
    (htext : text = [] ∨ text.head? = some '\n') :
    b.marked (c :: (tail ++ text)) =
        (marks .oml b.line ++ marks .oml (c :: tail)) ++ marks .oml text ∧
      Layout.separable .plain b.depth text := by
  obtain ⟨hat, hrest⟩ := separable_cons h.separable
  rw [hdepth] at hat
  obtain ⟨hnext, hslash⟩ := next_of_opensComment h.isOpen hcomment hat
  have hc : isRunChar .oml c = false ∨
      c = '/' ∧ after .oml (some '/') .plain (b.line ++ b.gap) = .plain := by
    rcases (opensComment_cons _ _).1 hcomment with ⟨rfl, -⟩ | ⟨rfl, -⟩
    · exact .inr ⟨rfl, hslash rfl⟩
    · exact .inl (by decide)
  constructor
  · rw [marked, ← marks_line_comment (isOpen_line h.isOpen) b.blank_of_mem_gap hc,
      ← Highlight.marks_append_line htext]
    simp only [List.append_assoc, List.cons_append]
  · rw [hnext, h.isOpen] at hrest
    exact separable_comment htail htext hrest

end Rule

/-- Every rule hands on the marks. -/
theorem Reads.handsOn (hreads : b.Reads text lines b' text') (h : b.Ready text) :
    b.HandsOn b' text text' lines := by
  have hopen := isOpen_line h.isOpen
  have hgap := b.blank_of_mem_gap
  have hgaps := blank_of_mem_gap { b with space := true }
  cases hreads with
  | @kept blanks _ hdepth hne hblanks htext =>
    have hnone := gap_of_space (h.regular.inner hdepth).2
    obtain ⟨hne', hblanks', -⟩ := kept_spec hne hblanks
    have hadd : (b.add (Body.kept blanks)).gap = [] := gap_of_space (h.regular.inner hdepth).2
    refine handsOn_plain ?_ ?_ rfl (separable_blanks hblanks hne h.isOpen h.separable)
    · rw [marked, marked, line_add, hnone, hadd, List.nil_append, List.nil_append,
        List.append_assoc, marks_line_blanks hopen hblanks hne,
        marks_line_blanks hopen hblanks' hne']
    · rw [reading, line_add, hadd, List.append_nil, after_line_blanks hopen hblanks' hne']
  | @spaces blanks _ hdepth hne hblanks htext hcount =>
    have hboth : ∀ c ∈ b.gap ++ blanks, isBlank c := fun c hc =>
      (List.mem_append.1 hc).elim (hgap c) (hblanks c)
    have hmarks : b.marked (blanks ++ text') = marks .oml b.line ++ marks .oml text' := by
      rw [marked, ← List.append_assoc b.gap,
        marks_line_blanks hopen hboth (List.append_ne_nil_of_right_ne_nil _ hne)]
    have hrest := separable_blanks hblanks hne h.isOpen h.separable
    by_cases hbuilt : b.built = []
    · refine handsOn_plain ?_ (reading_of_built (b := { b with space := true }) hbuilt text') rfl hrest
      rw [hmarks, line_eq_nil.2 hbuilt, marked_of_built (b := { b with space := true }) hbuilt]
      rfl
    · have hspace : gap { b with space := true } = [' '] := gap_due hbuilt
      refine handsOn_plain ?_ ?_ rfl hrest
      · rw [hmarks, marked, hspace]
        exact (marks_line_blanks hopen blank_of_mem_space (List.cons_ne_nil _ _) _).symm
      · rw [reading, hspace]
        exact after_line_blanks hopen blank_of_mem_space (List.cons_ne_nil _ _)
  | @breaks blanks _ hdepth hblanks htext hcount =>
    have hne : blanks ≠ [] := by
      rintro rfl
      simp at hcount
    have hboth : ∀ c ∈ b.gap ++ blanks, isBlank c := fun c hc =>
      (List.mem_append.1 hc).elim (hgap c) (hblanks c)
    refine handsOn_complete rfl rfl ?_ (separable_blanks hblanks hne h.isOpen h.separable)
    rw [marked, ← List.append_assoc b.gap,
      marks_line_blanks hopen hboth (List.append_ne_nil_of_right_ne_nil _ hne)]
    simp
  | @literal body _ hbody =>
    refine ⟨?_, marked_literal hbody h.isOpen h.separable⟩
    rw [Line.marked_nil, List.nil_append, ← marked_push (line_push b _) (gap_of_space rfl)]
    simp
  | @openLiteral rest hopen =>
    refine ⟨?_, .inl rfl⟩
    rw [Line.marked_nil, List.nil_append, ← marked_push (line_push b _) (gap_of_space rfl),
      List.append_nil]
  | @enclosed c _ hdepth hblank hquote =>
    have hspace := (h.regular.inner hdepth).2
    refine handsOn_push h ?_ (gap_of_space hspace) rfl hquote ?_
    · rw [gap_of_space hspace]
      exact line_add b [c]
    · intro hcomment
      have hat := (separable_cons h.separable).1
      rw [separableAt, hcomment] at hat
      simp [Nat.ne_of_gt hdepth] at hat
  | @comment c tail _ hdepth hbuilt hcomment htail htext =>
    obtain ⟨hmarked, hseparable⟩ := marked_comment h hdepth hcomment htail htext
    refine handsOn_complete hbuilt rfl ?_ hseparable
    rw [hmarked, line_eq_nil.2 hbuilt, Line.marked_text_cons, Highlight.marks_trimEnd]
    simp [Highlight.marks, Highlight.Reading.marks]
  | @commentBehind c tail _ hdepth hbuilt hcomment htail htext =>
    obtain ⟨hmarked, hseparable⟩ := marked_comment h hdepth hcomment htail htext
    have hne : b.built ≠ [] := by
      intro hnil
      rw [hnil] at hbuilt
      exact hbuilt rfl
    have hline : marks .oml (b.line ++ ([' '] ++ trimEnd (c :: tail))) =
        marks .oml b.line ++ marks .oml (c :: tail) := by
      rw [marks_line_blanks hopen blank_of_mem_space (List.cons_ne_nil _ _),
        Highlight.marks_trimEnd]
    refine handsOn_complete rfl rfl ?_ hseparable
    rw [hmarked, marked_pending_push, gap_due hne, hline]
  | closedAttribute => exact absurd ⟨[], _, rfl⟩ h.hash
  | openAttribute => exact absurd ⟨[], _, rfl⟩ h.hash
  | @bracket c _ hdepth hc =>
    have hcomment : ¬opensComment (c :: text') = true := by
      rcases hc with rfl | rfl <;> exact not_opensComment (by decide) (by decide) _
    refine handsOn_push h (line_push b _) (gap_of_space rfl) ?_ ?_
      (next_ne_comment h.isOpen hcomment h.hash)
    · rcases hc with rfl | rfl <;> rfl
    · rcases hc with rfl | rfl <;> decide
  | semicolon hdepth =>
    refine handsOn_completeSign h (sign_of_mem (by decide)) rfl ?_ ?_ false <;> rfl
  | arrow hdepth => exact handsOn_spaced h (.inl rfl)
  | joinedEquals hdepth hnext hjoins =>
    exact handsOn_pushSign h (sign_of_mem (by decide)) rfl (by decide)
  | equals hdepth hnext hjoins => exact handsOn_spaced h (.inr (.inl rfl))
  | joinedBar hdepth hjoins =>
    exact handsOn_pushSign h (sign_of_mem (by decide)) rfl (by decide)
  | bar hdepth hjoins => exact handsOn_spaced h (.inr (.inr rfl))
  | @emptyBraces blanks _ hdepth hblanks =>
    have hopening := sign_of_mem (c := '\x7b') (by decide)
    have hclosing := sign_of_mem (c := '\x7d') (by decide)
    have hnone : gap ({ b with space := true }.push ['\x7b', '\x7d']) = [] := gap_of_space rfl
    have hbehind := separable_sign hopening rfl h.isOpen h.separable
    refine handsOn_plain ?_ ?_ rfl
      (separable_sign hclosing rfl rfl (separable_plain_blanks hblanks hbehind))
    · rw [marked_sign h.isOpen hopening, Highlight.marks_blanks_append hblanks, marked, line_push,
        hnone]
      simp only [List.nil_append, List.append_assoc, List.cons_append]
      exact (marks_line_sign hopen hgaps hopening _).symm
    · rw [reading, line_push, hnone, List.append_nil]
      exact after_line_sign hopen hgaps hopening _
  | openBrace hdepth htext =>
    refine handsOn_completeSign h (sign_of_mem (by decide)) rfl ?_ ?_ true <;> rfl
  | @followedBrace blanks c _ hdepth hblanks hc =>
    have hclosing := sign_of_mem (c := '\x7d') (by decide)
    have hbehind := separable_sign hclosing rfl h.isOpen h.separable
    refine ⟨?_, .inr ⟨rfl, separable_plain_blanks hblanks hbehind⟩⟩
    rw [marked_sign h.isOpen hclosing, Highlight.marks_blanks_append hblanks, marked_pending,
      ← marks_sign_cons hclosing]
    rfl
  | closeBrace hdepth htext =>
    have hclosing := sign_of_mem (c := '\x7d') (by decide)
    refine handsOn_complete rfl rfl ?_ (separable_sign hclosing rfl h.isOpen h.separable)
    rw [marked_sign h.isOpen hclosing, Line.marked_append, marked_pending, List.append_assoc]
    rfl
  | ordinary hdepth hblank hquote hordinary hcomment hattribute =>
    refine handsOn_push h (line_push b _) (gap_of_space rfl) ?_ hquote
      (next_ne_comment h.isOpen hcomment h.hash)
    rw [hdepth, pastBracket_of_isOrdinary hordinary]
    exact hdepth

theorem Reads.suffix (hreads : b.Reads text lines b' text') : text' <:+ text := by
  obtain ⟨c, rest, rfl, -, -, rfl⟩ := hreads.steps
  exact (List.drop_suffix _ rest).trans (List.suffix_cons c rest)

/-- The lines of a run are read as the line already built, and the text behind it. -/
theorem marked_run (hregular : b.Regular text) (hhash : ¬['#', '['] <:+: text)
    (hlegible : b.Legible text) : Line.marked (b.run text) = b.marked text := by
  refine hregular.induction
    (motive := fun b text => ¬['#', '['] <:+: text → b.Legible text →
      Line.marked (b.run text) = b.marked text) ?_ ?_ hhash hlegible
  · intro b _ _ _
    rw [run_nil, marked_pending, marked, List.append_nil,
      Highlight.marks_append_blanks b.blank_of_mem_gap]
  · intro b b' text text' lines hregular hreads ih hhash hlegible
    have hne : text ≠ [] := fun hnil => by
      have hlt := hreads.length_lt
      rw [hnil] at hlt
      exact absurd hlt (Nat.not_lt_zero _)
    obtain ⟨hopen, hseparable⟩ := hlegible.resolve_left hne
    obtain ⟨hmarked, hlegible'⟩ := hreads.handsOn ⟨hregular, hhash, hopen, hseparable⟩
    have hhash' : ¬['#', '['] <:+: text' := fun hstands =>
      hhash (List.IsInfix.trans hstands hreads.suffix.isInfix)
    rw [hreads.run_eq, Line.marked_append, ih hhash' hlegible', hmarked]

end Body

end LogScript.Layout
