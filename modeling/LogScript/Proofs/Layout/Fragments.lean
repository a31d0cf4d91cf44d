import LogScript.Proofs.Layout.Literals
import LogScript.Proofs.Layout.OmlCode

/-!
The fragments of a statement: its literals, and the groups that round and square brackets enclose. The
layout keeps the characters of a literal, and in a group it joins lines: a blank run that has a line
feed becomes a space. A relaid group is a group, so a text that holds the characters of relaid
fragments has these fragments.
-/

namespace LogScript.Layout

/-- Where a scan stands: in a literal or not, and in how many brackets. -/
@[ext]
structure Place where
  quoting : Quoting
  depth : Nat
  deriving DecidableEq, Repr

namespace Place

abbrev start : Place :=
  ⟨.outside, 0⟩

def next (p : Place) (c : Char) : Place where
  quoting := p.quoting.next c
  depth := if p.quoting.covers c then p.depth else pastBracket p.depth c

theorem next_of_blank {c : Char} (hc : isBlank c) (p : Place) :
    p.next c = ⟨p.quoting.next c, p.depth⟩ := by
  rw [next, pastBracket_of_blank hc, ite_self]

end Place

/-- Following the quotes and brackets of a text. -/
abbrev fragmentScan : Scan Place where
  next := Place.next
  rest := .start
  blank p c hc := by
    have hquoting := literalScan.blank p.quoting c hc
    obtain ⟨q, depth⟩ := p
    rw [Place.next_of_blank hc, Place.mk.injEq, Place.mk.injEq]
    exact and_congr_left' hquoting

/-- The literals of a text outside brackets, and its outermost groups, with their brackets. -/
def fragments (text : List Char) : List (List Char) :=
  fragmentScan.parts text

/-- Every blank run outside literals that has a line feed becomes one space. The characters in `run`
belong to the run that the text starts with. -/
def joinBreaks (q : Quoting) (run : List Char) : List Char → List Char
  | [] => Body.kept run
  | c :: text =>
    if !q.covers c && isBlank c then joinBreaks (q.next c) (run ++ [c]) text
    else Body.kept run ++ c :: joinBreaks (q.next c) [] text

/-- A fragment as the layout leaves it. -/
def relaid (fragment : List Char) : List Char :=
  if fragment.head? = some '"' then fragment else joinBreaks .outside [] fragment

section Blanks

variable {q : Quoting} {c : Char} {run blanks text : List Char}

theorem joinBreaks_blank (hc : isBlank c) (run text : List Char) :
    joinBreaks .outside run (c :: text) = joinBreaks .outside (run ++ [c]) text := by
  rw [joinBreaks, covers_of_blank hc, hc, next_of_isBlank hc]
  rfl

theorem joinBreaks_kept (h : q.covers c = true ∨ isBlank c = false) (run text : List Char) :
    joinBreaks q run (c :: text) = Body.kept run ++ c :: joinBreaks (q.next c) [] text := by
  rw [joinBreaks, if_neg]
  rcases h with h | h <;> simp [h]

theorem joinBreaks_run (htext : ∀ c ∈ text.head?, isBlank c = false) (run : List Char) :
    joinBreaks .outside run text = Body.kept run ++ joinBreaks .outside [] text := by
  cases text with
  | nil => exact (List.append_nil _).symm
  | cons c text =>
    have hc : isBlank c = false := htext c rfl
    rw [joinBreaks_kept (.inr hc), joinBreaks_kept (.inr hc)]
    rfl

/-- A blank run in front of a visible character. -/
theorem joinBreaks_blanks_append (hblanks : ∀ c ∈ blanks, isBlank c)
    (htext : ∀ c ∈ text.head?, isBlank c = false) :
    joinBreaks .outside [] (blanks ++ text) = Body.kept blanks ++ joinBreaks .outside [] text := by
  suffices hrun : ∀ run, joinBreaks .outside run (blanks ++ text) =
      joinBreaks .outside (run ++ blanks) text by
    rw [hrun, List.nil_append, joinBreaks_run htext]
  induction blanks with
  | nil => exact fun run => by rw [List.nil_append, List.append_nil]
  | cons c blanks ih =>
    rw [List.forall_mem_cons] at hblanks
    intro run
    rw [List.cons_append, joinBreaks_blank hblanks.1, ih hblanks.2, List.append_assoc]
    rfl

theorem next_of_ne (hc : c ≠ '"') (depth : Nat) :
    fragmentScan.next ⟨.outside, depth⟩ c = ⟨.outside, pastBracket depth c⟩ := by
  have hcovers : Quoting.outside.covers c = false := by
    rw [Quoting.covers, beq_false_of_ne hc]
    rfl
  change Place.next _ c = _
  rw [Place.next, next_outside hc, hcovers]
  rfl

theorem next_inner_blank (hc : isBlank c) (depth : Nat) :
    fragmentScan.next ⟨.outside, depth⟩ c = ⟨.outside, depth⟩ := by
  change Place.next _ c = _
  rw [Place.next_of_blank hc, next_of_isBlank hc]

theorem inner_ne_rest {depth : Nat} (hdepth : 0 < depth) :
    (⟨.outside, depth⟩ : Place) ≠ fragmentScan.rest := by
  rw [ne_eq, Place.mk.injEq]
  omega

/-- Blank characters in a group stay in it. -/
theorem past_inner_blanks (hblanks : ∀ c ∈ blanks, isBlank c) (depth : Nat) :
    fragmentScan.past ⟨.outside, depth⟩ blanks = ⟨.outside, depth⟩ := by
  induction blanks with
  | nil => rfl
  | cons c blanks ih =>
    rw [List.forall_mem_cons] at hblanks
    rw [Scan.past_cons, next_inner_blank hblanks.1, ih hblanks.2]

theorem held_inner_blanks (hblanks : ∀ c ∈ blanks, isBlank c) {depth : Nat} (hdepth : 0 < depth)
    (text : List Char) :
    fragmentScan.held ⟨.outside, depth⟩ (blanks ++ text) =
      blanks ++ fragmentScan.held ⟨.outside, depth⟩ text := by
  induction blanks with
  | nil => rfl
  | cons c blanks ih =>
    rw [List.forall_mem_cons] at hblanks
    rw [List.cons_append, Scan.held, if_pos (fragmentScan.holds_of_ne (inner_ne_rest hdepth) c),
      next_inner_blank hblanks.1, ih hblanks.2, List.cons_append]

/-- In a group, a visible character in front of a text stays there. -/
theorem head?_held_inner {depth : Nat} (hdepth : 0 < depth)
    (htext : ∀ c ∈ text.head?, isBlank c = false) :
    ∀ c ∈ (fragmentScan.held ⟨.outside, depth⟩ text).head?, isBlank c = false := by
  cases text with
  | nil => exact htext
  | cons d text =>
    rw [Scan.held, if_pos (fragmentScan.holds_of_ne (inner_ne_rest hdepth) d)]
    exact htext

theorem closes_blanks_append {body : List Char} (hblanks : ∀ c ∈ blanks, isBlank c) {depth : Nat}
    (hdepth : 0 < depth) (h : fragmentScan.Closes ⟨.outside, depth⟩ body) :
    fragmentScan.Closes ⟨.outside, depth⟩ (blanks ++ body) := by
  induction blanks with
  | nil => exact h
  | cons c blanks ih =>
    rw [List.forall_mem_cons] at hblanks
    have hnext := next_inner_blank hblanks.1 depth
    exact .cons (hnext.symm ▸ inner_ne_rest hdepth) (hnext.symm ▸ ih hblanks.2)

theorem kept_blank (hblanks : ∀ c ∈ blanks, isBlank c) : ∀ c ∈ Body.kept blanks, isBlank c := by
  intro c hc
  rw [Body.kept] at hc
  split at hc
  · exact blank_of_mem_space c hc
  · exact hblanks c hc

end Blanks

section Literals

variable {q : Quoting} {c : Char} {body text : List Char}

theorem covers_of_ne (h : q ≠ .outside) (c : Char) : q.covers c = true := by
  rw [Quoting.covers, bne_iff_ne.2 h, Bool.true_or]

/-- Brackets in a literal do not count. -/
theorem next_literal (h : q ≠ .outside) (c : Char) (depth : Nat) :
    fragmentScan.next ⟨q, depth⟩ c = ⟨q.next c, depth⟩ := by
  change Place.next _ c = _
  rw [Place.next, if_pos (covers_of_ne h c)]

theorem quoting_past (p : Place) (text : List Char) :
    (fragmentScan.past p text).quoting = literalScan.past p.quoting text := by
  induction text generalizing p with
  | nil => rfl
  | cons c text ih => exact ih (p.next c)

/-- What follows an open literal up to its closing quote. -/
theorem closes_of_literalRest (hne : body ≠ [])
    (h : ∀ more, literalRest q (body ++ more) = body) : literalScan.Closes q body := by
  induction body generalizing q with
  | nil => exact absurd rfl hne
  | cons c body ih =>
    by_cases hnext : q.next c = .outside
    · have hrest := h []
      rw [List.append_nil, literalRest, if_pos hnext] at hrest
      obtain rfl : [] = body := (List.cons.inj hrest).2
      exact .last hnext
    · have hrest : ∀ more, literalRest (q.next c) (body ++ more) = body := fun more => by
        have hmore := h more
        rw [List.cons_append, literalRest_cons hnext] at hmore
        exact (List.cons.inj hmore).2
      refine .cons hnext (ih ?_ hrest)
      rintro rfl
      have hmore := hrest ['"']
      rw [List.nil_append, literalRest] at hmore
      split at hmore <;> cases hmore

theorem literalRest_of_closes (h : literalScan.Closes q body) (more : List Char) :
    literalRest q (body ++ more) = body := by
  induction h with
  | last closes => exact if_pos closes
  | cons stays _ ih => rw [List.cons_append, literalRest_cons stays, ih]

theorem not_openLiteral (h : literalScan.past .inside text = .outside) : ¬OpenLiteral text := by
  intro hopen
  obtain ⟨body, behind, rfl, hbody, -⟩ := Scan.exists_closes (by decide) h
  have hall := hopen (body ++ behind) [' '] List.prefix_rfl (by simp)
  rw [List.append_assoc, literalRest_of_closes hbody] at hall
  have hlength := congrArg List.length hall
  simp only [List.length_append, List.length_singleton] at hlength
  omega

theorem past_literal (h : literalScan.Closes q body) (hq : q ≠ .outside) (depth : Nat) :
    fragmentScan.past ⟨q, depth⟩ body = ⟨.outside, depth⟩ := by
  induction h with
  | @last q c closes =>
    rw [Scan.past_cons, next_literal hq]
    exact congrArg (Place.mk · depth) closes
  | cons stays _ ih =>
    rw [Scan.past_cons, next_literal hq]
    exact ih stays

theorem held_literal (h : literalScan.Closes q body) (hq : q ≠ .outside) (depth : Nat) :
    fragmentScan.held ⟨q, depth⟩ body = body := by
  have hholds : ∀ {q : Quoting} (c : Char), q ≠ .outside →
      fragmentScan.holds ⟨q, depth⟩ c = true := fun c hq =>
    fragmentScan.holds_of_ne (fun hrest => hq (congrArg Place.quoting hrest)) c
  induction h with
  | last _ =>
    rw [Scan.held, if_pos (hholds _ hq)]
    rfl
  | cons stays _ ih =>
    rw [Scan.held, if_pos (hholds _ hq), next_literal hq]
    exact congrArg _ (ih stays)

/-- A literal is left as it is. -/
theorem joinBreaks_literal (h : literalScan.Closes q body) (hq : q ≠ .outside) (text : List Char) :
    joinBreaks q [] (body ++ text) = body ++ joinBreaks .outside [] text := by
  induction h with
  | @last q c closes =>
    have hnext : q.next c = .outside := closes
    rw [List.singleton_append, joinBreaks_kept (.inl (covers_of_ne hq _)), hnext]
    rfl
  | cons stays _ ih =>
    rw [List.cons_append, joinBreaks_kept (.inl (covers_of_ne hq _))]
    exact congrArg (_ :: ·) (ih stays)

/-- Outside brackets, what is left of a fragment that starts in a literal is what is left of it. -/
theorem closes_literal {p : Place} (h : fragmentScan.Closes p body) (hq : p.quoting ≠ .outside)
    (hdepth : p.depth = 0) : literalScan.Closes p.quoting body := by
  induction h with
  | last closes => exact .last (congrArg Place.quoting closes)
  | @cons p c body stays _ ih =>
    obtain ⟨q, depth⟩ := p
    obtain rfl : depth = 0 := hdepth
    rw [next_literal hq] at stays ih
    have hopen : q.next c ≠ .outside := fun hclosed => stays (Place.ext hclosed rfl)
    exact .cons hopen (ih hopen rfl)

end Literals

section Relaid

variable {p : Place} {c : Char} {body text : List Char}

/-- A character goes on with the blank run in front of it, or it ends the run. -/
theorem joinBreaks_cons_cases (p : Place) (c : Char) :
    (isBlank c = true ∧ p.quoting = .outside ∧ fragmentScan.next p c = p ∧ ∀ run text,
      joinBreaks p.quoting run (c :: text) = joinBreaks p.quoting (run ++ [c]) text) ∨
    ∀ run text, joinBreaks p.quoting run (c :: text) =
      Body.kept run ++ c :: joinBreaks (fragmentScan.next p c).quoting [] text := by
  by_cases h : p.quoting.covers c = true ∨ isBlank c = false
  · exact .inr (joinBreaks_kept h)
  · rw [not_or, Bool.not_eq_true, Bool.not_eq_false] at h
    obtain ⟨q, depth⟩ := p
    obtain rfl : q = .outside := Quoting.eq_outside_of_not_covers h.1
    exact .inl ⟨h.2, rfl, next_inner_blank h.2 depth, joinBreaks_blank h.2⟩

/-- What closes a fragment ends the blank run in front of it. -/
theorem joinBreaks_last (hp : p ≠ fragmentScan.rest) (hc : fragmentScan.next p c = fragmentScan.rest)
    (run text : List Char) :
    joinBreaks p.quoting run (c :: text) = Body.kept run ++ c :: joinBreaks .outside [] text := by
  have houtside : p.quoting.next c = .outside := congrArg Place.quoting hc
  rw [joinBreaks_kept (.inr (fragmentScan.not_blank_of_closes hp hc)), houtside]

/-- What stands behind a fragment is joined by itself. -/
theorem joinBreaks_append (h : fragmentScan.Closes p body) (hp : p ≠ fragmentScan.rest)
    (run text : List Char) :
    joinBreaks p.quoting run (body ++ text) =
      joinBreaks p.quoting run body ++ joinBreaks .outside [] text := by
  induction h generalizing run with
  | last closes =>
    rw [List.singleton_append, joinBreaks_last hp closes, joinBreaks_last hp closes,
      List.append_assoc]
    rfl
  | @cons p c body stays later ih =>
    rw [List.cons_append]
    rcases joinBreaks_cons_cases p c with ⟨-, -, hnext, hjoin⟩ | hjoin
    · rw [hnext] at ih
      rw [hjoin, hjoin, ih hp]
    · rw [hjoin, hjoin, ih stays, List.append_assoc, List.cons_append]

/-- A blank run can stand at the place. -/
structure Run (p : Place) (run : List Char) : Prop where
  blank : ∀ c ∈ run, isBlank c
  inner : run ≠ [] → p.quoting = .outside

theorem Run.nil (p : Place) : Run p [] :=
  ⟨fun _ hc => absurd hc List.not_mem_nil, fun hne => absurd rfl hne⟩

theorem Run.closes_kept_append {run : List Char} (hrun : Run p run) (hp : p ≠ fragmentScan.rest)
    (h : fragmentScan.Closes p body) : fragmentScan.Closes p (Body.kept run ++ body) := by
  by_cases hne : run = []
  · rw [hne]
    exact h
  · obtain ⟨q, depth⟩ := p
    obtain rfl : q = .outside := hrun.inner hne
    refine closes_blanks_append (kept_blank hrun.blank) (Nat.pos_of_ne_zero ?_) h
    rintro rfl
    exact hp rfl

/-- A group with its lines joined closes where it did. -/
theorem closes_joinBreaks (h : fragmentScan.Closes p body) (hp : p ≠ fragmentScan.rest)
    {run : List Char} (hrun : Run p run) : fragmentScan.Closes p (joinBreaks p.quoting run body) := by
  induction h generalizing run with
  | last closes =>
    rw [joinBreaks_last hp closes]
    exact hrun.closes_kept_append hp (.last closes)
  | @cons p c body stays later ih =>
    rcases joinBreaks_cons_cases p c with ⟨hblank, hquoting, hnext, hjoin⟩ | hjoin
    · rw [hnext] at ih
      rw [hjoin]
      refine ih hp ⟨fun d hd => ?_, fun _ => hquoting⟩
      rcases List.mem_append.1 hd with hd | hd
      · exact hrun.blank d hd
      · rw [List.mem_singleton.1 hd]
        exact hblank
    · rw [hjoin]
      exact hrun.closes_kept_append hp (.cons stays (ih stays (.nil _)))

theorem joinBreaks_opens (hopens : fragmentScan.next fragmentScan.rest c ≠ fragmentScan.rest)
    (text : List Char) : joinBreaks .outside [] (c :: text) =
      c :: joinBreaks (fragmentScan.next fragmentScan.rest c).quoting [] text :=
  joinBreaks_kept (.inr (fragmentScan.not_blank_of_opens hopens)) [] text

/-- A fragment that is relaid, in front of what opens it. -/
theorem relaid_cons (hopens : fragmentScan.next fragmentScan.rest c ≠ fragmentScan.rest)
    (h : fragmentScan.Closes (fragmentScan.next fragmentScan.rest c) body) :
    relaid (c :: body) = c :: joinBreaks (fragmentScan.next fragmentScan.rest c).quoting [] body := by
  by_cases hc : c = '"'
  · subst hc
    have hliteral : literalScan.Closes .inside body := closes_literal h (by decide) rfl
    have hbody := joinBreaks_literal hliteral (by decide) []
    rw [List.append_nil, joinBreaks, Body.kept, if_neg (by decide), List.append_nil] at hbody
    exact congrArg (_ :: ·) hbody.symm
  · have hhead : (c :: body).head? ≠ some '"' := by simpa using hc
    rw [relaid, if_neg hhead, joinBreaks_opens hopens]

/-- Where all fragments are closed, a text that holds what they are relaid to has these fragments. -/
theorem fragments_of_held {laid : List Char}
    (hclosed : fragmentScan.past .start text = .start)
    (hheld : fragmentScan.held .start laid =
      joinBreaks .outside [] (fragmentScan.held .start text)) :
    fragments laid = (fragments text).map relaid := by
  have hlaid : fragments laid = fragments (fragmentScan.held .start laid) :=
    (fragmentScan.partsFrom_held _ laid).symm
  rw [hlaid, hheld]
  clear hlaid hheld laid
  induction text, hclosed using Scan.closed_induction with
  | nil => rfl
  | idle c text _ _ hidle ih =>
    have hheld : fragmentScan.held .start (c :: text) =
        fragmentScan.held .start text := by
      rw [Scan.held, fragmentScan.holds_of_idle hidle, hidle]
      rfl
    have hparts : fragments (c :: text) = fragments text := Scan.parts_of_idle hidle text
    rw [hheld, hparts, ih]
  | part c body text _ _ hopens hbody ih =>
    have hheld : fragmentScan.held .start (c :: (body ++ text)) =
        c :: (body ++ fragmentScan.held .start text) := by
      rw [Scan.held, if_pos (fragmentScan.holds_of_opens hopens), hbody.held hopens]
    have hparts : fragments (c :: (body ++ text)) = (c :: body) :: fragments text :=
      Scan.parts_of_closes hopens hbody text
    have hjoined := closes_joinBreaks hbody hopens (.nil _)
    rw [hheld, hparts, List.map_cons, relaid_cons hopens hbody, joinBreaks_opens hopens,
      joinBreaks_append hbody hopens, ← ih]
    exact Scan.parts_of_closes hopens hjoined _

end Relaid

end LogScript.Layout
