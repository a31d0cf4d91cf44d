import LogScript.Proofs.Layout.TameMarks

/-!
Code and comments in parentheses. The parenthesis at which the layout ends a list is code, and it closes
the one in front of the list.
-/

namespace LogScript.Layout

open Highlight (Mark Reading marks)
open Highlight.Reading hiding marks next

variable {r : Reading} {last : Option (Char × Mark)} {c : Char} {depth level : Nat}
  {rest body behind : List Char}

theorem pastParen_of_ne {m : Char × Mark} (hopening : m ≠ ('(', .code))
    (hclosing : m ≠ (')', .code)) : pastParen depth m = depth := by
  rw [pastParen, if_neg (by simpa using hopening), if_neg (by simpa using hclosing)]

/-- What belongs to a literal in double quotes is no code. -/
theorem mark_ne_code_of_covers {r' : Reading} (hcovers : (quoting r).covers c = true)
    (hc : c ≠ '"') : r.mark r' ≠ .code := by
  have hout : quoting r ≠ .outside := by
    intro hout
    rw [hout, Quoting.covers] at hcovers
    simp [hc] at hcovers
  cases r with
  | literal q => cases r' <;> simp [mark]
  | escaped q => simp [mark]
  | plain => exact absurd rfl hout
  | run => exact absurd rfl hout
  | comment => exact absurd rfl hout

theorem pastParen_of_covers {r' : Reading} (hcovers : (quoting r).covers c = true) :
    pastParen depth (c, r.mark r') = depth := by
  by_cases hc : c = '"'
  · subst hc
    exact pastParen_of_ne (by simp) (by simp)
  · have hmark : r.mark r' ≠ .code := mark_ne_code_of_covers hcovers hc
    exact pastParen_of_ne (fun h => hmark (Prod.mk.inj h).2) fun h => hmark (Prod.mk.inj h).2

/-- A parenthesis or comma outside the literals that the layout knows is read as code. -/
theorem sign_of_not_covers {ahead : Option Char} (hc : c ∈ ['(', ')', ','])
    (hcovers : (quoting r).covers c = false)
    (htame : tame (c, r.mark (r.next .wpl c ahead))) :
    r.isOpen ∧ r.next .wpl c ahead = .plain ∧ r.mark (r.next .wpl c ahead) = .code := by
  have hsign := sign_wpl_of_mem hc
  have hactive : isActive c := by
    simp only [List.mem_cons, List.not_mem_nil, or_false] at hc
    rcases hc with rfl | rfl | rfl <;> decide
  have hopen := isOpen_of_active hactive hcovers htame
  have hnext : r.next .wpl c ahead = .plain := hsign.next_eq hopen
  refine ⟨hopen, hnext, ?_⟩
  rw [hnext]
  cases r <;> first | rfl | cases hopen

/-- A text in parentheses in front of its rest: how it is read, what the last visible character
is, and what the marks of the text promise. -/
structure Enclosed (depth : Nat) (r : Reading) (last : Option (Char × Mark)) (text : List Char) :
    Prop where
  carried : Carried r last
  goes : ∀ m ∈ (Highlight.Reading.marks .wpl none r text).head?, last.all (goes · m)
  orderly : orderly depth (Highlight.Reading.marks .wpl none r text)

theorem marks_ne_nil (r : Reading) (hc : isBlank c = false) (hmem : c ∈ rest) :
    Highlight.Reading.marks .wpl none r rest ≠ [] := by
  intro hnil
  have hshown : (Highlight.Reading.marks .wpl none r rest).map (·.1) = visible rest :=
    map_fst_marks rest
  rw [hnil] at hshown
  have hvisible : c ∈ visible rest := List.mem_filter.2 ⟨hmem, by rw [hc]; rfl⟩
  rw [← hshown] at hvisible
  cases hvisible

theorem Enclosed.tame (h : Enclosed (level + 1) r last (c :: rest)) (hc : isBlank c = false) :
    tame (c, r.mark (r.next .wpl c rest.head?)) ∧
      last.all (Layout.goes · (c, r.mark (r.next .wpl c rest.head?))) := by
  obtain ⟨-, hgoes, horderly⟩ := h
  rw [marks_cons_of_not_blank hc, Option.or_none] at hgoes horderly
  refine ⟨?_, hgoes _ rfl⟩
  rw [Layout.orderly, Bool.and_eq_true, Bool.or_eq_true, Bool.and_eq_true] at horderly
  rcases horderly.1 with hzero | htame
  · cases hzero
  · exact htame.1

theorem Enclosed.line (h : Enclosed (level + 1) r last (c :: rest)) (hmem : ')' ∈ rest)
    (hc : c = '\n') : r.isQuoted = false := by
  subst hc
  obtain ⟨m, ms, hmarks⟩ :=
    List.exists_cons_of_ne_nil (marks_ne_nil .plain (c := ')') (by decide) hmem)
  have hhead : m ∈ (Highlight.Reading.marks .wpl none .plain rest).head? := by
    rw [hmarks]
    rfl
  have hgoes := h.goes
  rw [marks_lineFeed] at hgoes
  exact not_quoted_of_goes h.carried (marks_plain_head rest m hhead) (hgoes m hhead)

/-- One character further in, as deep as the character leads. -/
theorem Enclosed.next (h : Enclosed (level + 1) r last (c :: rest)) :
    Enclosed (if isBlank c then level + 1
        else pastParen (level + 1) (c, r.mark (r.next .wpl c rest.head?)))
      (r.next .wpl c rest.head?) (pastVisible last r (r.next .wpl c rest.head?) c) rest := by
  obtain ⟨hcarried, hgoes, horderly⟩ := h
  cases hc : isBlank c with
  | true =>
    rw [marks_cons_of_blank hc, Option.or_none] at hgoes horderly
    refine ⟨carried_next hcarried, ?_, horderly⟩
    rw [pastVisible, if_pos hc]
    exact hgoes
  | false =>
    rw [marks_cons_of_not_blank hc, Option.or_none, Layout.orderly, Bool.and_eq_true,
      Bool.or_eq_true, Bool.and_eq_true] at horderly
    refine ⟨carried_next hcarried, ?_, horderly.2⟩
    rw [pastVisible, hc, if_neg Bool.false_ne_true]
    rcases horderly.1 with hzero | ⟨-, hall⟩
    · cases hzero
    · intro m hm
      rw [Option.all_some]
      rw [Option.mem_def.1 hm, Option.all_some] at hall
      exact hall

/-- What follows from the rest of a text that the layout closes, one character further out. -/
def Closes (r : Reading) (last : Option (Char × Mark)) (depth : Nat) (body behind : List Char) :
    Prop :=
  (after .wpl (some ')') r body).isOpen ∧
    tidy last (Highlight.Reading.marks .wpl (some ')') r body ++ [(')', .code)]) ∧
    orderly depth (marks .wpl behind)

theorem Closes.cons {rest : List Char} (hrest : rest = body ++ ')' :: behind)
    (htame : isBlank c = false → Layout.tame (c, r.mark (r.next .wpl c rest.head?)) ∧
      last.all (Layout.goes · (c, r.mark (r.next .wpl c rest.head?))))
    (h : Closes (r.next .wpl c rest.head?) (pastVisible last r (r.next .wpl c rest.head?) c) depth
      body behind) : Closes r last depth (c :: body) behind := by
  have hhead : body.head?.or (some ')') = rest.head? := by
    rw [hrest]
    cases body <;> rfl
  obtain ⟨hopen, htidy, horderly⟩ := h
  refine ⟨?_, ?_, horderly⟩
  · rw [after_cons, hhead]
    exact hopen
  · cases hc : isBlank c with
    | true =>
      rw [pastVisible, if_pos hc] at htidy
      rw [marks_cons_of_blank hc, hhead]
      exact htidy
    | false =>
      rw [pastVisible, hc, if_neg Bool.false_ne_true] at htidy
      obtain ⟨htame, hgoes⟩ := htame hc
      rw [marks_cons_of_not_blank hc, hhead, List.cons_append, tidy, hgoes, htame, htidy]
      rfl

/-- A step inside the parentheses that the layout counts goes as deep as the code does. -/
theorem Enclosed.pastParen_of_parenStep (h : Enclosed (depth + 1) r last (c :: rest))
    (hc : isBlank c = false) {q : Quoting} {level' : Nat}
    (hstep : parenStep (quoting r, level) c = some (q, level')) (outer : Nat) :
    pastParen (level + 1 + outer) (c, r.mark (r.next .wpl c rest.head?)) = level' + 1 + outer := by
  obtain ⟨-, ⟨hcovers | ⟨hopening, hclosing⟩, rfl⟩ | ⟨hcovers, hparen⟩⟩ := parenStep_cases hstep
  · exact pastParen_of_covers hcovers
  · exact pastParen_of_ne (fun h => hopening (Prod.mk.inj h).1) fun h => hclosing (Prod.mk.inj h).1
  · have hmem : c ∈ ['(', ')', ','] := by
      rcases hparen with ⟨rfl, -⟩ | ⟨rfl, -⟩ <;> decide
    obtain ⟨-, -, hmark⟩ := sign_of_not_covers hmem hcovers (h.tame hc).1
    rw [hmark]
    rcases hparen with ⟨rfl, rfl⟩ | ⟨rfl, rfl⟩
    · rw [pastParen, if_pos (by decide)]
      omega
    · rw [pastParen, if_neg (by decide), if_pos (by decide)]
      omega

/-- The parenthesis that the layout takes for the closing one is code, and closes the text. -/
theorem Enclosed.closes {text : List Char} (h : Enclosed (level + 1 + depth) r last text)
    (hsplit : splitClosing '(' ')' (quoting r) level text = some (body, behind)) :
    Closes r last depth body behind := by
  induction text generalizing r last level body with
  | nil => cases hsplit
  | cons c rest ih =>
    have hdeep : level + 1 + depth = (level + depth) + 1 := by omega
    have h' : Enclosed (level + depth + 1) r last (c :: rest) := hdeep ▸ h
    have hnext := h'.next
    cases hstep : parenStep (quoting r, level) c with
    | none =>
      obtain ⟨rfl, hout, rfl⟩ := eq_of_parenStep_eq_none hstep
      have hcovers : (quoting r).covers ')' = false := by
        rw [hout]
        rfl
      obtain ⟨htame, hgoes⟩ := h'.tame (by decide)
      obtain ⟨hopen, hplain, hmark⟩ := sign_of_not_covers (by decide) hcovers htame
      rw [hout] at hsplit
      cases hsplit
      rw [hmark] at hgoes
      refine ⟨hopen, by rw [Highlight.Reading.marks, List.nil_append, tidy, hgoes]; rfl, ?_⟩
      have horderly := hnext.orderly
      have hdepth : pastParen (0 + depth + 1) (')', .code) = depth := by
        rw [pastParen, if_neg (by decide), if_pos (by decide)]
        omega
      rw [hmark, hplain, if_neg (by decide), hdepth] at horderly
      exact horderly
    | some s =>
      obtain ⟨q, level'⟩ := s
      obtain rfl : q = (quoting r).next c := (parenStep_cases hstep).1
      rw [splitClosing_of_parenStep hstep] at hsplit
      obtain ⟨⟨body', behind'⟩, hrest, hpair⟩ := Option.map_eq_some_iff.1 hsplit
      cases hpair
      have htext := eq_of_splitClosing hrest
      have hmem : ')' ∈ rest := by
        rw [htext]
        exact List.mem_append_right _ List.mem_cons_self
      have hquoting := quoting_next (h'.line hmem) fun hc => (h'.tame hc).1
      rw [← hquoting] at hrest
      refine Closes.cons htext h'.tame (ih ?_ hrest)
      cases hc : isBlank c with
      | true =>
        rw [hc, if_pos rfl] at hnext
        rw [depth_of_parenStep_blank hc hstep, hdeep]
        exact hnext
      | false =>
        rw [hc, if_neg Bool.false_ne_true, ← hdeep, h'.pastParen_of_parenStep hc hstep] at hnext
        exact hnext

end LogScript.Layout
