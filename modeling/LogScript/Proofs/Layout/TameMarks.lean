import LogScript.Proofs.Highlight.CodeCharacters
import LogScript.Proofs.Layout.ListRelaid

/-!
Texts in which the layout of lists takes nothing for what it is not. The layout knows literals in double
quotes, but neither comments nor literals in single quotes. Where these hold none of the characters that
the layout acts on, its quoting follows the reading of the text.
-/

namespace LogScript.Layout

open Highlight (Mark Quote Reading)
open Highlight.Reading hiding marks next

/-- A character that the layout acts on. -/
def isActive (c : Char) : Bool :=
  ['(', ')', '[', ']', '\x7b', '\x7d', '<', '>', ',', '"'].contains c

/-- The character is none that the layout takes for code or for a quote though it is not. -/
def tame (m : Char × Mark) : Bool :=
  match m.2 with
  | .comment | .inside .single => !isActive m.1
  | .code | .inside .double | .opening _ | .closing _ => true

/-- What may follow a visible character: no comma a comment, and a literal goes on to its end. -/
def goes (m m' : Char × Mark) : Bool :=
  match m.2 with
  | .comment => m' != (',', .code)
  | .opening q | .inside q => m'.2 == .inside q || m'.2 == .closing q
  | .code | .closing _ => true

def pastParen (depth : Nat) (m : Char × Mark) : Nat :=
  if m == ('(', .code) then depth + 1 else if m == (')', .code) then depth - 1 else depth

/-- In parentheses, comments and literals are tame and end before the code behind them. -/
def orderly (depth : Nat) : List (Char × Mark) → Bool
  | [] => true
  | m :: rest =>
    (depth == 0 || tame m && rest.head?.all (goes m)) && orderly (pastParen depth m) rest

/-- Marks that are all inside parentheses, behind the character `last`. -/
def tidy (last : Option (Char × Mark)) : List (Char × Mark) → Bool
  | [] => true
  | m :: rest => last.all (goes · m) && tame m && tidy (some m) rest

theorem orderly_append {depth : Nat} {a b : List (Char × Mark)} (h : orderly depth (a ++ b)) :
    orderly (a.foldl pastParen depth) b := by
  induction a generalizing depth with
  | nil => exact h
  | cons m a ih =>
    rw [List.cons_append, orderly, Bool.and_eq_true] at h
    exact ih h.2

theorem orderly_left {depth : Nat} {a b : List (Char × Mark)} (h : orderly depth (a ++ b)) :
    orderly depth a := by
  induction a generalizing depth with
  | nil => rfl
  | cons m a ih =>
    rw [List.cons_append, orderly, Bool.and_eq_true, Bool.or_eq_true, Bool.and_eq_true] at h
    rw [orderly, Bool.and_eq_true, Bool.or_eq_true, Bool.and_eq_true]
    refine ⟨h.1.imp id (And.imp id fun hgoes => ?_), ih h.2⟩
    cases a with
    | nil => rfl
    | cons m' a => exact hgoes

/-- The layout reads everything outside literals in double quotes alike. -/
def quoting : Reading → Quoting
  | .literal .double => .inside
  | .escaped .double => .escaped
  | .literal .single | .escaped .single | .plain | .run | .comment => .outside

/-- What stands in a literal follows a visible character of it, and what follows an open one, or
none at all, is open. -/
structure Carried (r : Reading) (last : Option (Char × Mark)) : Prop where
  quoted : r.isQuoted → ∃ m ∈ last, m.2.isQuoted
  opens : last.all (·.2.isOpen) → r.isOpen

theorem carried_plain (last : Option (Char × Mark)) : Carried .plain last :=
  ⟨fun h => absurd h Bool.false_ne_true, fun _ => rfl⟩

section Step

variable {r : Reading} {last : Option (Char × Mark)} {c : Char} {ahead : Option Char}

theorem sign_wpl_of_mem (h : c ∈ ['(', ')', ',']) : Sign .wpl c := by
  simp only [List.mem_cons, List.not_mem_nil, or_false] at h
  rcases h with rfl | rfl | rfl
  all_goals exact ⟨⟨by decide, by decide, rfl, fun _ h => absurd h (by decide)⟩, by decide, by decide⟩

theorem not_blank_of_active (h : isActive c) : isBlank c = false := by
  simp only [isActive, List.contains_iff_mem, List.mem_cons, List.not_mem_nil, or_false] at h
  rcases h with rfl | rfl | rfl | rfl | rfl | rfl | rfl | rfl | rfl | rfl <;> decide

/-- The last visible character behind one more. -/
def pastVisible (last : Option (Char × Mark)) (r r' : Reading) (c : Char) : Option (Char × Mark) :=
  if isBlank c then last else some (c, r.mark r')

theorem carried_next (h : Carried r last) :
    Carried (r.next .wpl c ahead) (pastVisible last r (r.next .wpl c ahead) c) := by
  unfold pastVisible
  cases hc : isBlank c with
  | true =>
    constructor
    · intro hquoted
      apply h.quoted
      cases r with
      | plain => rw [next_of_blank rfl hc] at hquoted; cases hquoted
      | run => rw [next_of_blank rfl hc] at hquoted; cases hquoted
      | literal q => rfl
      | escaped q => rfl
      | comment =>
        rw [Reading.next] at hquoted
        cases hline : c == '\n' <;> rw [hline] at hquoted <;> cases hquoted
    · intro hopen
      rw [next_of_blank (h.opens hopen) hc]
      rfl
  | false =>
    have hnext : (r.mark (r.next .wpl c ahead)).isOpen = (r.next .wpl c ahead).isOpen ∧
        (r.mark (r.next .wpl c ahead)).isQuoted = (r.next .wpl c ahead).isQuoted := mark_next hc
    obtain ⟨hopen, hquoted⟩ := hnext
    exact ⟨fun h => ⟨_, rfl, by rw [hquoted, h]⟩, fun h => by rw [← hopen]; exact h⟩

/-- A line does not end in a literal if something visible follows it. -/
theorem not_quoted_of_goes (h : Carried r last) {m : Char × Mark}
    (hm : ∀ q, m.2 ≠ .inside q ∧ m.2 ≠ .closing q) (hgoes : last.all (goes · m)) :
    r.isQuoted = false := by
  cases hquoted : r.isQuoted with
  | false => rfl
  | true =>
    obtain ⟨m', rfl, hm'⟩ := h.quoted hquoted
    rw [Option.all_some, goes] at hgoes
    cases hmark : m'.2 with
    | opening q | inside q =>
      rw [hmark, Bool.or_eq_true, beq_iff_eq, beq_iff_eq] at hgoes
      exact absurd hgoes (not_or.2 (hm q))
    | code | comment | closing q => rw [hmark] at hm'; cases hm'

theorem quoting_next_of_isOpen (hr : r.isOpen) :
    quoting (r.next .wpl c ahead) = Quoting.outside.next c := by
  by_cases hc : c = '"'
  · subst hc
    cases r <;> first | rfl | cases hr
  · have hquote : (c == '"') = false := beq_false_of_ne hc
    have hopening : quoting (opening .wpl c ahead) = .outside := by
      unfold opening
      split
      · rfl
      · split
        · rename_i q hq
          cases q with
          | double => exact absurd (quote?_eq_some hq) hc
          | single => rfl
        · split <;> rfl
    rw [Quoting.next, hquote]
    rcases next_of_isOpen hr .wpl c with hnext | hnext
    · rw [hnext]
      rfl
    · rw [hnext]
      exact hopening

theorem outside_next {c : Char} (hc : c ≠ '"') : Quoting.outside.next c = .outside :=
  if_neg (by simpa using hc)

/-- Both follow the literals in double quotes, as long as nothing else holds such a quote. -/
theorem quoting_next (hline : c = '\n' → r.isQuoted = false)
    (htame : isBlank c = false → tame (c, r.mark (r.next .wpl c ahead))) :
    quoting (r.next .wpl c ahead) = (quoting r).next c := by
  have hbreak : r.isQuoted = true → (c == '\n') = false := fun hquoted =>
    beq_false_of_ne fun hc => by rw [hline hc] at hquoted; cases hquoted
  cases r with
  | plain => exact quoting_next_of_isOpen rfl
  | run => exact quoting_next_of_isOpen rfl
  | literal q =>
    cases q with
    | double =>
      rw [quoting, Quoting.next, Reading.next, hbreak rfl, if_neg Bool.false_ne_true]
      cases c == '\\' with
      | true => rfl
      | false => cases hquote : c == '"' <;> simp [Quote.char, hquote, quoting]
    | single =>
      have hc : c ≠ '"' := by
        rintro rfl
        exact absurd (htame rfl) Bool.false_ne_true
      rw [quoting, outside_next hc, Reading.next, hbreak rfl, if_neg Bool.false_ne_true]
      cases c == '\\' with
      | true => rfl
      | false => cases c == Quote.char .single <;> rfl
  | escaped q =>
    rw [Reading.next, hbreak rfl, if_neg Bool.false_ne_true]
    cases q with
    | double => rfl
    | single =>
      have hc : c ≠ '"' := by
        rintro rfl
        exact absurd (htame rfl) Bool.false_ne_true
      exact (outside_next hc).symm
  | comment =>
    have hc : c ≠ '"' := by
      rintro rfl
      exact absurd (htame rfl) Bool.false_ne_true
    rw [quoting, outside_next hc, Reading.next]
    cases c == '\n' <;> rfl

/-- What the layout acts on outside the literals that it knows is code. -/
theorem isOpen_of_active (hc : isActive c) (hcovers : (quoting r).covers c = false)
    (htame : tame (c, r.mark (r.next .wpl c ahead))) : r.isOpen := by
  have hblank := not_blank_of_active hc
  have hline : (c == '\n') = false := by
    apply beq_false_of_ne
    rintro rfl
    exact absurd hblank (by decide)
  have hout := Quoting.eq_outside_of_not_covers hcovers
  cases r with
  | plain => rfl
  | run => rfl
  | literal q =>
    cases q with
    | double => cases hout
    | single =>
      have hchar : (c == Quote.char .single) = false := by
        apply beq_false_of_ne
        rintro rfl
        exact absurd hc (by decide)
      rw [Reading.next, hline, hchar] at htame
      cases hslash : c == '\\' <;> rw [hslash] at htame <;> simp [mark, tame, hc] at htame
  | escaped q =>
    cases q with
    | double => cases hout
    | single =>
      rw [Reading.next, hline] at htame
      simp [mark, tame, hc] at htame
  | comment =>
    rw [Reading.next, hline] at htame
    simp [mark, tame, hc] at htame

end Step

end LogScript.Layout
