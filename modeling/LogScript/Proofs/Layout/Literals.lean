import Mathlib.Data.List.Induction
import LogScript.Proofs.Layout.ListRelaid
import LogScript.Proofs.Layout.Scans

/-!
The literals of a text, one after the other and each with its quotes. A text without quotes has none,
and where a text ends inside a literal, the literal goes on behind it.
-/

namespace LogScript.Layout

/-- Following the quotes of a text. -/
abbrev literalScan : Scan Quoting where
  next := Quoting.next
  rest := .outside
  blank q c hc := by
    have hquote : (c == '"') = false := ne_of_isBlank hc (by decide)
    cases q with
    | outside => simp [Quoting.next, hquote]
    | inside =>
      rw [Quoting.next, hquote]
      split <;> simp
    | escaped => simp [Quoting.next]

def literals (text : List Char) : List (List Char) :=
  literalScan.parts text

section Plain

variable {q : Quoting} {c : Char} {a b text : List Char}

/-- Only a quote ends a literal. -/
theorem next_ne_outside (h : q ≠ .outside) (hc : c ≠ '"') : q.next c ≠ .outside := by
  cases q with
  | outside => exact absurd rfl h
  | inside =>
    rw [Quoting.next, beq_false_of_ne hc]
    split <;> simp
  | escaped => exact Quoting.noConfusion

/-- Only a quote starts a literal. -/
theorem next_outside (hc : c ≠ '"') : Quoting.outside.next c = .outside := by
  rw [Quoting.next, beq_false_of_ne hc]
  rfl

theorem literals_append (h : literalScan.past .outside a = .outside) (b : List Char) :
    literals (a ++ b) = literals a ++ literals b :=
  Scan.partsFrom_append h b

theorem literals_of_idle (hc : literalScan.next .outside c = .outside) (text : List Char) :
    literals (c :: text) = literals text :=
  Scan.parts_of_idle hc text

theorem literals_of_closes (hc : literalScan.next .outside c ≠ .outside)
    (h : literalScan.Closes (literalScan.next .outside c) a) (text : List Char) :
    literals (c :: (a ++ text)) = (c :: a) :: literals text :=
  Scan.parts_of_closes hc h text

theorem Scan.Same.literals (h : literalScan.Same .outside a b) : literals a = literals b :=
  h.parts

/-- What holds no quote holds no literal. -/
theorem same_plain (h : '"' ∉ text) : literalScan.Same .outside text [] :=
  Scan.same_idle fun _ hc => next_outside fun heq => h (heq ▸ hc)

theorem past_plain (h : '"' ∉ text) : literalScan.past .outside text = .outside :=
  (same_plain h).past

end Plain

section Around

variable {q : Quoting} {c : Char} {text : List Char}

theorem literalRest_cons (h : q.next c ≠ .outside) (rest : List Char) :
    literalRest q (c :: rest) = c :: literalRest (q.next c) rest := by
  rw [literalRest, if_neg h]

/-- An open literal goes on over everything that is not a quote. -/
theorem literalRest_append (h : q ≠ .outside) (htext : '"' ∉ text) (rest : List Char) :
    literalRest q (text ++ rest) = text ++ literalRest (literalScan.past q text) rest ∧
      literalScan.past q text ≠ .outside := by
  induction text generalizing q with
  | nil => exact ⟨rfl, h⟩
  | cons c text ih =>
    rw [List.mem_cons, not_or] at htext
    have hnext : q.next c ≠ .outside := next_ne_outside h fun hc => htext.1 hc.symm
    obtain ⟨hrest, hpast⟩ := ih hnext htext.2
    rw [List.cons_append, literalRest_cons hnext, hrest]
    exact ⟨rfl, hpast⟩

theorem exists_consHead_partsFrom (h : q ≠ .outside) (c : Char) (rest : List Char) :
    ∃ pieces, consHead c (literalScan.partsFrom q rest) = (c :: literalRest q rest) :: pieces := by
  induction rest generalizing q c with
  | nil => exact ⟨[], rfl⟩
  | cons d rest ih =>
    by_cases hnext : q.next d = .outside
    · rw [Scan.partsFrom_of_closes h hnext, literalRest, if_pos hnext]
      exact ⟨literals rest, rfl⟩
    · obtain ⟨pieces, hpieces⟩ := ih hnext d
      rw [Scan.partsFrom_of_opens hnext, hpieces, literalRest_cons hnext]
      exact ⟨pieces, rfl⟩

/-- A position inside a literal: where the literal starts, and how it goes on. -/
theorem exists_literal_of_past (h : literalScan.past .outside text ≠ .outside) :
    ∃ front inner, text = front ++ '"' :: inner ∧ ∀ behind,
      '"' :: inner ++ literalRest (literalScan.past .outside text) behind ∈
        literals (text ++ behind) := by
  induction text using List.reverseRecOn with
  | nil => exact absurd rfl h
  | append_singleton text c ih =>
    rw [Scan.past_append] at h
    by_cases hopen : literalScan.past .outside text = .outside
    · -- The literal starts here.
      rw [hopen, Scan.past_cons, Scan.past_nil] at h
      obtain rfl : c = '"' := Decidable.byContradiction fun hc => h (next_outside hc)
      refine ⟨text, [], rfl, fun behind => ?_⟩
      obtain ⟨pieces, hpieces⟩ :=
        exists_consHead_partsFrom (show Quoting.inside ≠ .outside by decide) '"' behind
      rw [List.append_assoc, literals_append hopen, Scan.past_append, hopen]
      refine List.mem_append_right _ ?_
      have hliteral : literals (['"'] ++ behind) =
          consHead '"' (literalScan.partsFrom .inside behind) := rfl
      rw [hliteral, hpieces]
      exact List.mem_cons_self
    · obtain ⟨front, inner, htext, hmem⟩ := ih hopen
      refine ⟨front, inner ++ [c], by rw [htext]; simp, fun behind => ?_⟩
      have hmem := hmem (c :: behind)
      rw [literalRest_cons h] at hmem
      rw [Scan.past_append, List.append_assoc, List.singleton_append]
      simpa using hmem

end Around

end LogScript.Layout
