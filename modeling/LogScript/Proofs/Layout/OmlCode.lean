import LogScript.Proofs.Layout.DocumentMarks
import LogScript.Vocabulary.Reader

/-!
Code and comments in the layout of OML. Where the body of a document is separable, every visible
character keeps its mark, also when tabs become spaces. So what stands outside comments does so
afterwards, and nothing else.
-/

namespace LogScript.Layout

open Highlight (marks)
open Highlight.Reading hiding marks

theorem expandTabs_tab (rest : List Char) :
    expandTabs ('\t' :: rest) = ' ' :: ' ' :: ' ' :: ' ' :: expandTabs rest := rfl

theorem expandTabs_cons {c : Char} (hc : c ≠ '\t') (rest : List Char) :
    expandTabs (c :: rest) = c :: expandTabs rest := by
  rw [expandTabs, List.flatMap_cons, if_neg (by simpa using hc)]
  rfl

theorem head?_expandTabs (text : List Char) :
    (expandTabs text).head? = text.head? ∨
      text.head? = some '\t' ∧ (expandTabs text).head? = some ' ' := by
  cases text with
  | nil => exact .inl rfl
  | cons c rest =>
    by_cases hc : c = '\t'
    · rw [hc]
      exact .inr ⟨rfl, rfl⟩
    · rw [expandTabs_cons hc]
      exact .inl rfl

/-- A tab is read as four spaces are. -/
theorem marks_spaces_of_tab {r : Highlight.Reading} {ahead : Option Char} (text rest : List Char) :
    Highlight.Reading.marks .oml ahead r (' ' :: ' ' :: ' ' :: ' ' :: text) =
      Highlight.Reading.marks .oml ahead (r.next .oml '\t' (rest.head?.or ahead)) text := by
  simp only [marks_cons_of_blank (c := ' ') (by decide)]
  congr 1
  cases r with
  | plain => simp only [next_of_blank (r := .plain) (c := ' ') rfl (by decide),
      next_of_blank (r := .plain) (c := '\t') rfl (by decide)]
  | run => simp only [next_of_blank (r := .run) (c := ' ') rfl (by decide),
      next_of_blank (r := .plain) (c := ' ') rfl (by decide),
      next_of_blank (r := .run) (c := '\t') rfl (by decide)]
  | literal q => cases q <;> rfl
  | escaped q => cases q <;> rfl
  | comment => rfl

theorem marks_expandTabs {r : Highlight.Reading} {ahead : Option Char} (text : List Char) :
    Highlight.Reading.marks .oml ahead r (expandTabs text) =
      Highlight.Reading.marks .oml ahead r text := by
  induction text generalizing r with
  | nil => rfl
  | cons c rest ih =>
    by_cases hc : c = '\t'
    · subst hc
      rw [expandTabs_tab, marks_spaces_of_tab _ rest, marks_cons_of_blank (by decide), ih]
    · have hnext : r.next .oml c ((expandTabs rest).head?.or ahead) =
          r.next .oml c (rest.head?.or ahead) := by
        rcases head?_expandTabs rest with hhead | ⟨htab, hspace⟩
        · rw [hhead]
        · have hblank : ∀ d : Char, isBlank d → Parted .oml (some d) := fun d hd e he => by
            cases he
            exact isRunChar_of_blank hd
          rw [htab, hspace, Option.some_or, Option.some_or,
            next_of_parted (hblank ' ' (by decide)), next_of_parted (hblank '\t' (by decide))]
      rw [expandTabs_cons hc, Highlight.Reading.marks, Highlight.Reading.marks, hnext, ih]

/-- Two neighbours that are no spaces were neighbours before. -/
theorem infix_expandTabs {a b : Char} (ha : a ≠ ' ') (hb : b ≠ ' ') {text : List Char}
    (h : [a, b] <:+: expandTabs text) : [a, b] <:+: text := by
  induction text with
  | nil => exact h
  | cons c rest ih =>
    by_cases hc : c = '\t'
    · subst hc
      rw [expandTabs_tab] at h
      simp only [List.infix_cons_iff, List.cons_prefix_cons] at h
      simp only [ha, false_and, false_or] at h
      exact (ih h).trans (List.suffix_cons _ _).isInfix
    · rw [expandTabs_cons hc, List.infix_cons_iff, List.cons_prefix_cons] at h
      rcases h with ⟨rfl, hbracket⟩ | h
      · obtain ⟨behind, hbehind⟩ := hbracket
        rcases head?_expandTabs rest with hhead | ⟨-, hspace⟩
        · rw [← hbehind] at hhead
          obtain ⟨more, rfl⟩ := List.head?_eq_some_iff.1 hhead.symm
          exact ⟨[], more, rfl⟩
        · rw [← hbehind] at hspace
          exact absurd (Option.some.inj hspace) hb
      · exact (ih h).trans (List.suffix_cons c rest).isInfix

/-- Layout keeps the code of a document and the order of its characters: what stands outside
comments does so afterwards, and nothing else. -/
theorem codeOf_formatOml (v : Vocabulary) {text : List Char} (hreturn : '\r' ∉ text)
    (hhash : ¬['#', '['] <:+: text) (hseparable : separable .plain 0 (bodyText (prepared text))) :
    (Highlight.oml v).codeOf (formatOml text) = (Highlight.oml v).codeOf text := by
  have hprepared : prepared text = expandTabs text := by
    rw [prepared, normalizeNewlines_of_not_mem hreturn]
  have hmarks : marks .oml (prepared text) = marks .oml text := by
    rw [hprepared]
    exact marks_expandTabs text
  have hhash' : ¬['#', '['] <:+: prepared text := by
    rw [hprepared]
    exact fun hinfix => hhash (infix_expandTabs (by decide) (by decide) hinfix)
  rw [Highlight.codeOf_oml, Highlight.codeOf_oml, formatOml_eq, marks_render,
    marked_documentLines hhash' hseparable, hmarks]

/-- A document with comments, a path, a literal and a privacy section. -/
def commented : List Char :=
  "name : x # k:\n---\na=f(/p[0],\n \"# no\"); # yes\n// c\nb=>\x7bc|/q/r\x7d\n---\np // :".toList

theorem codeOf_formatOml_commented :
    ('\r' ∉ commented ∧ ¬['#', '['] <:+: commented ∧
      separable .plain 0 (bodyText (prepared commented))) ∧
    (Highlight.oml (.builtin .oml)).codeOf (formatOml commented) =
      (Highlight.oml (.builtin .oml)).codeOf commented := by
  have hreturn : '\r' ∉ commented := by decide +kernel
  have hhash : ¬['#', '['] <:+: commented := by decide +kernel
  have hseparable : separable .plain 0 (bodyText (prepared commented)) := by decide +kernel
  exact ⟨⟨hreturn, hhash, hseparable⟩, codeOf_formatOml _ hreturn hhash hseparable⟩

/-- A comment in brackets takes in what follows it. -/
example : (Highlight.oml (.builtin .oml)).codeOf (formatOml "f(a, # b\nc)".toList) = "f(a,".toList := by
  decide +kernel

end LogScript.Layout
