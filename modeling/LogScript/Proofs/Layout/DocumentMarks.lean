import LogScript.Proofs.Layout.MarksHandedOn
import LogScript.Proofs.Layout.OmlStable

/-!
The marks of a document that is laid out part by part. Header and privacy section keep the marks of
each of their lines, the body those of its text, and neither blank lines nor indentation have any.
-/

namespace LogScript.Layout

open Highlight (Mark marks)
open Highlight.Reading hiding marks

theorem marked_bodyLines {text : List Char} (hhash : ¬['#', '['] <:+: text)
    (hseparable : separable .plain 0 text) : Line.marked (bodyLines text) = marks .oml text :=
  Body.marked_run (Body.regular_of_built rfl rfl text) hhash (.inr ⟨rfl, hseparable⟩)

theorem Line.marks_settle (gap : Bool) (ls : List Line) :
    (settle gap ls).flatMap (marks .oml) = Line.marked ls := by
  induction ls generalizing gap with
  | nil => rfl
  | cons line ls ih =>
    cases line with
    | blank => rw [settle, ih, marked_blank_cons]
    | text level content =>
      have hindented : marks .oml (indented level content) = marks .oml content :=
        Highlight.marks_blanks_append blank_of_mem_spaces content
      rw [settle, List.flatMap_append, List.flatMap_cons, ih, hindented, marked_text_cons]
      cases gap <;> rfl

theorem Line.marked_dropWhile (ls : List Line) :
    Line.marked (ls.dropWhile isBlankLine) = Line.marked ls := by
  induction ls with
  | nil => rfl
  | cons line ls ih =>
    cases line with
    | blank => rw [List.dropWhile_cons_of_pos rfl, ih, marked_blank_cons]
    | text level content => rw [List.dropWhile_cons_of_neg (by simp [isBlankLine])]

theorem marks_render (ls : List Line) : marks .oml (Line.render ls) = Line.marked ls := by
  rw [← Line.marked_dropWhile, ← Line.marks_settle false, Line.render]
  split
  · rename_i h
    rw [h]
    rfl
  · have hbreak : ∀ c ∈ ['\n'], isBlank c := fun c hc => by
      rw [List.mem_singleton.1 hc]
      decide
    rw [Highlight.marks_append_blanks hbreak, Highlight.marks_flatMap_lineFeed]

/-- How a visible character is marked that neither opens nor closes anything. -/
def resting : Highlight.Reading → Mark
  | .plain | .run => .code
  | .literal q | .escaped q => .inside q
  | .comment => .comment

theorem resting_of_blank {r : Highlight.Reading} {c : Char} {ahead : Option Char}
    (hc : isBlank c) (hline : c ≠ '\n') : resting (r.next .oml c ahead) = resting r := by
  have hfalse : (c == '\n') = false := beq_false_of_ne hline
  have hslash : (c == '\\') = false := beq_false_of_ne (ne_of_accepts hc (by decide))
  cases r with
  | plain => rw [next_of_blank rfl hc]
  | run => rw [next_of_blank rfl hc]; rfl
  | literal q =>
    have hquote : (c == q.char) = false := beq_false_of_ne (ne_of_accepts hc (not_blank_quote q))
    rw [next, hfalse, hslash, hquote]
    rfl
  | escaped q =>
    rw [next, hfalse]
    rfl
  | comment =>
    rw [next, hfalse]
    rfl

/-- A colon behind blank characters of its line is marked as it is without them. -/
theorem marks_colon {r : Highlight.Reading} {blanks : List Char} (hblanks : ∀ c ∈ blanks, isBlank c)
    (hline : '\n' ∉ blanks) :
    Highlight.Reading.marks .oml none r (blanks ++ [':']) = [(':', resting r)] := by
  induction blanks generalizing r with
  | nil =>
    cases r with
    | literal q => cases q <;> rfl
    | _ => rfl
  | cons c blanks ih =>
    rw [List.mem_cons, not_or] at hline
    have hc := hblanks c List.mem_cons_self
    rw [List.cons_append, marks_cons_of_blank hc,
      ih (fun d hd => hblanks d (List.mem_cons_of_mem c hd)) hline.2,
      resting_of_blank hc fun heq => hline.1 heq.symm]

/-- A key keeps its marks when its colon moves. -/
theorem marks_key {content : List Char} (hcolon : content.getLast? = some ':')
    (hline : '\n' ∉ content) :
    marks .oml (trimEnd content.dropLast ++ [' ', ':', ' ']) = marks .oml content := by
  obtain ⟨front, rfl⟩ := List.getLast?_eq_some_iff.1 hcolon
  rw [List.dropLast_concat]
  obtain ⟨blanks, hfront, hblanks⟩ := exists_trimEnd_append front
  have hnone : '\n' ∉ blanks := fun hmem => hline (by
    rw [hfront]
    exact List.mem_append_left _ (List.mem_append_right _ hmem))
  have hmarks : ∀ gap : List Char, (∀ c ∈ gap, isBlank c) → '\n' ∉ gap →
      marks .oml (trimEnd front ++ (gap ++ [':'])) =
        Highlight.Reading.marks .oml none .plain (trimEnd front) ++
          [(':', resting (after .oml none .plain (trimEnd front)))] := by
    intro gap hgap hbreak
    have hparted : Parted .oml ((gap ++ [':']).head?.or none) := by
      intro c hc
      cases gap with
      | nil =>
        cases hc
        decide
      | cons d gap =>
        cases hc
        exact isRunChar_of_blank (hgap _ List.mem_cons_self)
    rw [marks, marks_append_of_parted hparted, marks_colon hgap hbreak]
  have hspaced : trimEnd front ++ [' ', ':', ' '] = (trimEnd front ++ ([' '] ++ [':'])) ++ [' '] := by
    simp
  have hcontent : front ++ [':'] = trimEnd front ++ (blanks ++ [':']) := by
    rw [← List.append_assoc, ← hfront]
  rw [hspaced, Highlight.marks_append_blanks blank_of_mem_space, hcontent,
    hmarks [' '] blank_of_mem_space (by decide), hmarks blanks hblanks hnone]

theorem infix_trim (text : List Char) : trim text <:+: text :=
  (prefix_trimEnd _).isInfix.trans (List.dropWhile_suffix isBlank).isInfix

theorem marked_sectionLines (underKey : Bool) {ls : List (List Char)}
    (hhash : ∀ line ∈ ls, ¬['#', '['] <:+: line) (hline : ∀ line ∈ ls, '\n' ∉ line) :
    Line.marked (sectionLines underKey ls) = ls.flatMap (marks .oml) := by
  have htrim : ∀ line : List Char, marks .oml (trim line) = marks .oml line :=
    fun line => Highlight.marks_trim line
  induction underKey, ls using sectionLines.induct with
  | case1 underKey => rw [sectionLines]; rfl
  | case2 underKey line rest content hempty ih =>
    rw [List.forall_mem_cons] at hhash hline
    have hcontent : trim line = [] := List.isEmpty_iff.1 hempty
    have hnone : marks .oml line = [] := by
      rw [← htrim, hcontent]
      rfl
    rw [sectionLines, if_pos hempty, Line.marked_blank_cons, ih hhash.2 hline.2,
      List.flatMap_cons, hnone, List.nil_append]
  | case3 underKey line rest content hempty hcomment ih =>
    rw [List.forall_mem_cons] at hhash hline
    rw [sectionLines, if_neg hempty, if_pos hcomment, Line.marked_text_cons, htrim,
      ih hhash.2 hline.2, List.flatMap_cons]
  | case4 underKey line rest content hempty hcomment hattribute ih =>
    rw [List.forall_mem_cons] at hhash
    have hstarts : ['#', '['] <+: trim line := List.isPrefixOf_iff_prefix.1 hattribute
    exact absurd (hstarts.isInfix.trans (infix_trim line)) hhash.1
  | case5 underKey line rest content hempty hcomment hattribute hkey ih =>
    rw [List.forall_mem_cons] at hhash hline
    have hcontent : '\n' ∉ trim line := fun hmem => hline.1 (mem_of_mem_trim hmem)
    rw [sectionLines, if_neg hempty, if_neg hcomment, if_neg hattribute, if_pos hkey,
      Line.marked_text_cons, marks_key hkey hcontent, htrim, ih hhash.2 hline.2,
      List.flatMap_cons]
  | case6 underKey line rest content hempty hcomment hattribute hkey hvalue ih =>
    rw [List.forall_mem_cons] at hhash hline
    rw [sectionLines, if_neg hempty, if_neg hcomment, if_neg hattribute, if_neg hkey,
      if_pos hvalue, Line.marked_text_cons, htrim, ih hhash.2 hline.2, List.flatMap_cons]
  | case7 underKey line rest content hempty hcomment hattribute hkey hvalue ih =>
    rw [List.forall_mem_cons] at hhash hline
    rw [sectionLines, if_neg hempty, if_neg hcomment, if_neg hattribute, if_neg hkey,
      if_neg hvalue, Line.marked_text_cons, htrim, ih hhash.2 hline.2, List.flatMap_cons]

theorem infix_of_mem_lines {text line : List Char} (h : line ∈ lines text) : line <:+: text := by
  induction hlength : text.length using Nat.strongRecOn generalizing text with
  | ind n ih =>
    obtain ⟨behind, htext, hline, hbehind⟩ := exists_firstLine_append text
    by_cases hne : text = []
    · rw [hne] at h
      cases h
    rcases hbehind with rfl | hbehind
    · rw [List.append_nil] at htext
      rw [← htext] at hline
      rw [lines_of_one hne hline, List.mem_singleton] at h
      exact h ▸ List.infix_rfl
    · obtain ⟨rest, rfl⟩ := List.head?_eq_some_iff.1 hbehind
      have hrest : rest <:+ text := ⟨firstLine text ++ ['\n'], by rw [← List.append_cons, ← htext]⟩
      have hfirst : firstLine text <:+: text := (List.takeWhile_prefix _).isInfix
      rw [htext, lines_of_not_mem hline, List.mem_cons] at h
      rcases h with rfl | h
      · exact hfirst
      · have hlt : rest.length < n := by
          rw [← hlength, htext, List.length_append, List.length_cons]
          omega
        exact (ih _ hlt h rfl).trans hrest.isInfix

/-- A text without line feeds does not stand across one. -/
theorem infix_append_lineFeed {pattern a b : List Char} (hpattern : '\n' ∉ pattern)
    (h : pattern <:+: a ++ '\n' :: b) : pattern <:+: a ∨ pattern <:+: b := by
  obtain ⟨front, behind, htext⟩ := h
  rcases List.append_eq_append_iff.1 htext with ⟨more, ha, -⟩ | ⟨more, hfront, hmore⟩
  · exact .inl ⟨front, more, ha.symm⟩
  cases more with
  | nil =>
    rw [List.append_nil] at hfront
    exact .inl ⟨front, [], by rw [List.append_nil, hfront]⟩
  | cons c more =>
    obtain ⟨rfl, hb⟩ := List.cons.inj hmore
    rcases List.append_eq_append_iff.1 hfront with ⟨x, -, hx⟩ | ⟨x, -, hx⟩
    · rw [hx] at hpattern
      exact absurd (List.mem_append_right x List.mem_cons_self) hpattern
    · cases x with
      | nil =>
        rw [List.nil_append] at hx
        rw [← hx] at hpattern
        exact absurd List.mem_cons_self hpattern
      | cons d x =>
        obtain ⟨-, rfl⟩ := List.cons.inj hx
        exact .inr ⟨x, behind, hb.symm⟩

/-- A text without line feeds stands in joined lines only if it stands in one of them. -/
theorem exists_infix_of_joinLines {pattern : List Char} (hne : pattern ≠ [])
    (hpattern : '\n' ∉ pattern) {ls : List (List Char)} (h : pattern <:+: joinLines ls) :
    ∃ line ∈ ls, pattern <:+: line := by
  induction ls with
  | nil => exact absurd (List.eq_nil_of_infix_nil h) hne
  | cons line ls ih =>
    by_cases hls : ls = []
    · rw [hls, joinLines, List.intercalate_singleton] at h
      exact ⟨line, List.mem_cons_self, h⟩
    · rw [joinLines_cons hls] at h
      rcases infix_append_lineFeed hpattern h with h | h
      · exact ⟨line, List.mem_cons_self, h⟩
      · obtain ⟨l, hl, hinfix⟩ := ih h
        exact ⟨l, List.mem_cons_of_mem line hl, hinfix⟩

section Parts

variable {ls before behind : List (List Char)}

theorem marked_joinedBody (hhash : ∀ line ∈ ls, ¬['#', '['] <:+: line)
    (hseparable : separable .plain 0 (joinLines ls)) :
    Line.marked (bodyLines (joinLines ls)) = ls.flatMap (marks .oml) := by
  rw [marked_bodyLines _ hseparable, Highlight.marks_joinLines]
  intro hinfix
  obtain ⟨line, hline, hinfix⟩ :=
    exists_infix_of_joinLines (List.cons_ne_nil _ _) (by decide) hinfix
  exact hhash line hline hinfix

/-- The line that divides some lines is read as the separator that is written for it. -/
theorem marks_of_splitSeparator? (h : splitSeparator? ls = some (before, behind)) :
    ls.flatMap (marks .oml) =
      before.flatMap (marks .oml) ++ Line.marked separatorLines ++ behind.flatMap (marks .oml) := by
  obtain ⟨line, rfl, htrim, -⟩ := splitSeparator?_eq_some.1 h
  have hseparator : Line.marked separatorLines = marks .oml line := by
    rw [← Highlight.marks_trim line, htrim]
    rfl
  rw [hseparator, List.flatMap_append, List.flatMap_cons, List.append_assoc]

end Parts

/-- Every part of a document keeps its marks, and so does the document. -/
theorem marked_documentLines {text : List Char} (hhash : ¬['#', '['] <:+: text)
    (hseparable : separable .plain 0 (bodyText text)) :
    Line.marked (documentLines text) = marks .oml text := by
  have hlines : ∀ line ∈ lines text, ¬['#', '['] <:+: line ∧ '\n' ∉ line := fun line hline =>
    ⟨fun hstands => hhash (List.IsInfix.trans hstands (infix_of_mem_lines hline)),
      not_mem_of_mem_lines hline⟩
  cases hsplit : splitSeparator? (lines text) with
  | none =>
    have hbody : bodyText text = text := by simp only [bodyText, hsplit]
    rw [hbody] at hseparable
    rw [documentLines, hsplit]
    exact marked_bodyLines hhash hseparable
  | some parts =>
    obtain ⟨header, rest⟩ := parts
    obtain ⟨divider, hdivided, -⟩ := splitSeparator?_eq_some.1 hsplit
    rw [hdivided, List.forall_mem_append, List.forall_mem_cons] at hlines
    obtain ⟨hheader, -, hrest⟩ := hlines
    rw [Highlight.marks_lines, marks_of_splitSeparator? hsplit, documentLines, hsplit]
    simp only [Line.marked_append]
    rw [marked_sectionLines false (fun line hline => (hheader line hline).1)
      fun line hline => (hheader line hline).2]
    congr 1
    cases hmain : splitSeparator? rest with
    | none =>
      have hbody : bodyText text = joinLines rest := by simp only [bodyText, hsplit, hmain]
      rw [hbody] at hseparable
      rw [mainLines, hmain]
      exact marked_joinedBody (fun line hline => (hrest line hline).1) hseparable
    | some parts =>
      obtain ⟨body, privacy⟩ := parts
      have hbody : bodyText text = joinLines body := by simp only [bodyText, hsplit, hmain]
      obtain ⟨divider', hdivided', -⟩ := splitSeparator?_eq_some.1 hmain
      rw [hdivided', List.forall_mem_append, List.forall_mem_cons] at hrest
      obtain ⟨hbodyLines, -, hprivacy⟩ := hrest
      rw [hbody] at hseparable
      rw [marks_of_splitSeparator? hmain, mainLines, hmain]
      simp only [Line.marked_append]
      rw [marked_joinedBody (fun line hline => (hbodyLines line hline).1) hseparable,
        marked_sectionLines false (fun line hline => (hprivacy line hline).1)
          fun line hline => (hprivacy line hline).2]

end LogScript.Layout
