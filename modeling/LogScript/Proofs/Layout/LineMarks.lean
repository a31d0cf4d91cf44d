import LogScript.Proofs.Layout.OmlVisible
import LogScript.Proofs.Layout.SeparableTexts

/-!
The marks of the line that the body machine is building, and of the text behind it. Characters that are
written as they are, literals and comments are read behind the line as they were read in the text,
whatever space the layout puts in front of them.
-/

namespace LogScript.Layout

open Highlight (Mark isRunChar marks)
open Highlight.Reading hiding marks

/-- The marks of the text of some lines. -/
def Line.marked (ls : List Line) : List (Char × Mark) :=
  ls.flatMap (fun line => marks .oml line.content)

@[simp] theorem Line.marked_nil : Line.marked [] = [] := rfl

@[simp] theorem Line.marked_append (a b : List Line) :
    Line.marked (a ++ b) = Line.marked a ++ Line.marked b := by
  simp [Line.marked]

@[simp] theorem Line.marked_blank_cons (ls : List Line) :
    Line.marked (.blank :: ls) = Line.marked ls := rfl

@[simp] theorem Line.marked_text_cons (level : Nat) (content : List Char) (ls : List Line) :
    Line.marked (.text level content :: ls) = marks .oml content ++ Line.marked ls := rfl

namespace Body

/-- The marks of the line and the text behind it. -/
def marked (b : Body) (text : List Char) : List (Char × Mark) :=
  marks .oml (b.line ++ (b.gap ++ text))

/-- How the text is read behind the line and the space that is due. -/
def reading (b : Body) (text : List Char) : Highlight.Reading :=
  after .oml text.head? .plain (b.line ++ b.gap)

/-- The machine stands outside literals and comments, in front of a separable text. -/
def Legible (b : Body) (text : List Char) : Prop :=
  text = [] ∨ (b.reading text).isOpen ∧ separable (b.reading text) b.depth text

variable {b b' : Body} {text text' : List Char} {lines : List Line}

theorem blank_of_mem_gap (b : Body) : ∀ c ∈ b.gap, isBlank c := by
  rcases b.gap_eq_or with ⟨hgap, -⟩ | ⟨hgap, -⟩ <;> rw [hgap]
  · exact blank_of_mem_space
  · exact fun c hc => absurd hc List.not_mem_nil

theorem isOpen_line (h : (b.reading text).isOpen) : (after .oml none .plain b.line).isOpen := by
  have hnone := isOpen_after_none h
  rcases b.gap_eq_or with ⟨hgap, -⟩ | ⟨hgap, -⟩
  · rw [hgap, after_append] at hnone
    exact isOpen_after_none (isOpen_of_space hnone)
  · rwa [hgap, List.append_nil] at hnone

@[simp] theorem marked_pending (b : Body) : Line.marked b.pending = marks .oml b.line := by
  have htrim : marks .oml (trim b.line) = marks .oml b.line := marks_trim b.line
  rw [pending]
  split
  · rename_i h
    rw [← htrim, h]
    rfl
  · rw [Line.marked_text_cons, htrim]
    exact List.append_nil _

theorem marked_pending_push (b : Body) (due : Bool) (text : List Char) :
    Line.marked ({ b with space := due }.push text).pending =
      marks .oml (b.line ++ (gap { b with space := due } ++ text)) := by
  rw [marked_pending, line_push]
  rfl

theorem push_built_ne_nil {text : List Char} (h : text ≠ []) : (b.push text).built ≠ [] := by
  intro hnil
  have hline := line_eq_nil.2 hnil
  rw [line_push] at hline
  exact h (List.append_eq_nil_iff.1 (List.append_eq_nil_iff.1 hline).2).2

theorem marked_of_built (hbuilt : b.built = []) (text : List Char) :
    b.marked text = marks .oml text := by
  rw [marked, gap_of_built hbuilt, line_eq_nil.2 hbuilt]
  rfl

theorem reading_of_built (hbuilt : b.built = []) (text : List Char) : b.reading text = .plain := by
  rw [reading, gap_of_built hbuilt, line_eq_nil.2 hbuilt]
  rfl

section Line

variable {line blanks : List Char} {c : Char} {rest : List Char}

/-- A sign behind an open line and blank characters. -/
theorem marks_line_sign (hline : (after .oml none .plain line).isOpen)
    (hblanks : ∀ c ∈ blanks, isBlank c) (hc : Sign .oml c) (rest : List Char) :
    marks .oml (line ++ (blanks ++ c :: rest)) =
      marks .oml line ++ (c, .code) :: marks .oml rest := by
  rw [marks, ← List.append_assoc, marks_sign hc (isOpen_append_blanks hline hblanks),
    marks_append_blanks hblanks]
  rfl

theorem after_line_sign {ahead : Option Char} (hline : (after .oml none .plain line).isOpen)
    (hblanks : ∀ c ∈ blanks, isBlank c) (hc : Sign .oml c) (rest : List Char) :
    after .oml ahead .plain (line ++ (blanks ++ c :: rest)) = after .oml ahead .plain rest := by
  rw [← List.append_assoc, after_sign hc (isOpen_append_blanks hline hblanks)]

theorem parted_blanks_append (hblanks : ∀ c ∈ blanks, isBlank c) (hne : blanks ≠ [])
    (ahead : Option Char) (rest : List Char) : Parted .oml ((blanks ++ rest).head?.or ahead) := by
  obtain ⟨c, more, rfl⟩ := List.exists_cons_of_ne_nil hne
  intro d hd
  cases hd
  exact isRunChar_of_blank (hblanks c List.mem_cons_self)

/-- Blank characters behind an open line. -/
theorem marks_line_blanks (hline : (after .oml none .plain line).isOpen)
    (hblanks : ∀ c ∈ blanks, isBlank c) (hne : blanks ≠ []) (rest : List Char) :
    marks .oml (line ++ (blanks ++ rest)) = marks .oml line ++ marks .oml rest := by
  rw [marks, marks_append_of_parted (parted_blanks_append hblanks hne none rest),
    marks_blanks_append hblanks hne hline]
  rfl

theorem after_line_blanks {ahead : Option Char} (hline : (after .oml none .plain line).isOpen)
    (hblanks : ∀ c ∈ blanks, isBlank c) (hne : blanks ≠ []) :
    after .oml ahead .plain (line ++ blanks) = .plain := by
  have hparted := parted_blanks_append hblanks hne ahead []
  rw [List.append_nil] at hparted
  rw [after_append, after_of_parted hparted, after_of_blanks hblanks hne hline]

end Line

section Push

variable {c : Char} {taken : List Char}

theorem marked_push (hline : b'.line = b.line ++ (b.gap ++ taken)) (hgap : b'.gap = [])
    (text : List Char) : b.marked (taken ++ text) = b'.marked text := by
  rw [marked, marked, hline, hgap, List.nil_append, List.append_assoc, List.append_assoc]

theorem reading_push (hline : b'.line = b.line ++ (b.gap ++ taken)) (hgap : b'.gap = [])
    (text : List Char) :
    b'.reading text = after .oml text.head? (b.reading (taken ++ text)) taken := by
  rw [reading, reading, hline, hgap, List.append_nil, ← List.append_assoc, after_append,
    List.head?_append]

theorem isOpen_next {r : Highlight.Reading} {ahead : Option Char} (hr : r.isOpen) (hquote : c ≠ '"')
    (hcomment : r.next .oml c ahead ≠ .comment) : (r.next .oml c ahead).isOpen := by
  have hopening : opening .oml c ahead ≠ .comment → (opening .oml c ahead).isOpen := by
    intro hne
    have hnone : Highlight.quote? .oml c = none := by
      rw [Highlight.quote?, if_neg (by simpa using hquote)]
      rfl
    unfold opening at hne ⊢
    split
    · rename_i h
      rw [if_pos h] at hne
      exact absurd rfl hne
    · rw [hnone]
      dsimp only
      split <;> rfl
  rcases next_of_isOpen hr .oml c with hnext | hnext
  · rw [hnext]
    rfl
  · rw [hnext] at hcomment ⊢
    exact hopening hcomment

/-- One character is written behind the line and read there. -/
theorem legible_push (hline : b'.line = b.line ++ (b.gap ++ [c])) (hgap : b'.gap = [])
    (hdepth : b'.depth = pastBracket b.depth c) (hquote : c ≠ '"')
    (hopen : (b.reading (c :: text)).isOpen)
    (hseparable : separable (b.reading (c :: text)) b.depth (c :: text))
    (hcomment : (b.reading (c :: text)).next .oml c text.head? ≠ .comment) : b'.Legible text := by
  have hreading : b'.reading text = (b.reading (c :: text)).next .oml c text.head? :=
    reading_push hline hgap text
  have hnext := isOpen_next hopen hquote hcomment
  have hrest := (separable_cons hseparable).2
  rw [hopen, hnext, ← hreading, ← hdepth] at hrest
  exact .inr ⟨by rw [hreading]; exact hnext, hrest⟩

theorem next_ne_comment {r : Highlight.Reading} (hr : r.isOpen)
    (hcomment : ¬opensComment (c :: text) = true)
    (hattribute : ¬['#', '['] <:+: c :: text) : r.next .oml c text.head? ≠ .comment := by
  have hhash : c ≠ '#' := by
    rintro rfl
    by_cases hhead : text.head? = some '['
    · obtain ⟨rest, rfl⟩ := List.head?_eq_some_iff.1 hhead
      exact hattribute ⟨[], rest, rfl⟩
    · exact hcomment ((opensComment_cons _ _).2 (.inr ⟨rfl, hhead⟩))
  have hopening : opening .oml c text.head? ≠ .comment := by
    unfold opening
    split
    · rename_i h
      simp only [Bool.or_eq_true, Bool.and_eq_true, beq_iff_eq] at h
      rcases h with h | h
      · exact absurd h hhash
      · exact absurd ((opensComment_cons _ _).2 (.inl h)) hcomment
    · split
      · exact fun h => by cases h
      · split <;> exact fun h => by cases h
  rcases next_of_isOpen hr .oml c with hnext | hnext
  · rw [hnext]
    exact fun h => by cases h
  · rw [hnext]
    exact hopening

theorem pastBracket_of_isOrdinary (hc : isOrdinary c) : pastBracket 0 c = 0 := by
  simp only [isOrdinary, List.contains_cons, List.contains_nil, Bool.or_false, Bool.not_eq_true',
    Bool.or_eq_false_iff] at hc
  rw [pastBracket, hc.1, hc.2.1]
  simp

end Push

theorem marked_literal {body : List Char}
    (hbody : ∀ more, literalRest .inside (body ++ '"' :: more) = body ++ ['"'])
    (hopen : (b.reading ('"' :: (body ++ '"' :: text))).isOpen)
    (hseparable : separable (b.reading ('"' :: (body ++ '"' :: text))) b.depth
      ('"' :: (body ++ '"' :: text))) : (b.push ('"' :: (body ++ ['"']))).Legible text := by
  have hopening : ∀ {r : Highlight.Reading} (ahead), r.isOpen →
      r.next .oml '"' ahead = .literal .double := fun {r} _ hr => by
    cases r <;> first | rfl | cases hr
  have hrest := (separable_cons hseparable).2
  rw [hopening _ hopen, hopen] at hrest
  obtain ⟨hafter, hplain⟩ := separable_literal (.inl ⟨rfl, rfl⟩) hbody hrest
  have hreading : (b.push ('"' :: (body ++ ['"']))).reading text = .plain := by
    have htext : '"' :: (body ++ ['"']) ++ text = '"' :: (body ++ '"' :: text) := by simp
    rw [reading_push (line_push b _) (gap_of_space rfl), htext, after_cons, hopening _ hopen,
      hafter]
  exact .inr ⟨by rw [hreading]; rfl, by rw [hreading]; exact hplain⟩

/-- A comment sign that is not part of a path makes a comment. -/
theorem next_of_opensComment {r : Highlight.Reading} {c : Char} (hr : r.isOpen)
    (hcomment : opensComment (c :: text) = true)
    (hat : separableAt r (r.next .oml c text.head?) 0 (c :: text)) :
    r.next .oml c text.head? = .comment ∧ (c = '/' → r = .plain) := by
  have hopening : opening .oml c text.head? = .comment := by
    unfold opening
    rcases (opensComment_cons c text).1 hcomment with ⟨rfl, hhead⟩ | ⟨rfl, -⟩
    · rw [hhead]
      rfl
    · rfl
  have hrun : r.next .oml c text.head? ≠ .run := by
    intro hrun
    rw [separableAt, hrun, hcomment] at hat
    cases hat
  rcases next_of_isOpen hr .oml c with hnext | hnext
  · exact absurd (hnext _) hrun
  · refine ⟨by rw [hnext, hopening], ?_⟩
    rintro rfl
    cases r with
    | plain => rfl
    | run => exact absurd rfl hrun
    | literal q => cases hr
    | escaped q => cases hr
    | comment => cases hr

/-- A comment behind a line and blank characters is marked as it is alone. -/
theorem marks_line_comment {line blanks : List Char} {c : Char}
    (hline : (after .oml none .plain line).isOpen) (hblanks : ∀ c ∈ blanks, isBlank c)
    (hc : isRunChar .oml c = false ∨
      c = '/' ∧ after .oml (some '/') .plain (line ++ blanks) = .plain) (tail : List Char) :
    marks .oml (line ++ (blanks ++ c :: tail)) = marks .oml line ++ marks .oml (c :: tail) := by
  by_cases hne : blanks = []
  · rw [hne, List.nil_append, marks]
    rw [hne, List.append_nil] at hc
    rcases hc with hc | ⟨rfl, hplain⟩
    · have hparted : ∀ ahead, Parted .oml ((c :: tail).head?.or ahead) := fun _ d hd => by
        cases hd
        exact hc
      rw [marks_append_of_parted (hparted none)]
      congr 1
      rcases hopen : after .oml none .plain line with _ | _ | q | q | _
      · rfl
      · exact marks_run (hparted none)
      all_goals
        rw [hopen] at hline
        cases hline
    · rw [Highlight.Reading.marks_append, List.head?_cons, Option.some_or, hplain,
        marks_of_after_plain hplain]
      rfl
  · exact marks_line_blanks hline hblanks hne _

end Body

end LogScript.Layout
