import Mathlib.Data.List.Induction
import Mathlib.Data.List.TakeWhile
import LogScript.Proofs.Completion.WrittenTemplates

/-!
The numbers of tab stops. Written numbers are kept. A slot without a number has the number of the
first slot of its name, and a slot without a name is always a first one. The first ones are counted
from behind the largest written number on, so the number of a slot is told by the segments in front of
the first one of its name, and is the largest number there is where counting goes beyond that.
-/

namespace LogScript.Template

def largestWritten (segments : List Segment) : Nat :=
  (segments.map writtenNumber).foldl max 0

def isUnnumbered : Segment → Bool
  | .slot none _ => true
  | _ => false

/-- Behind `front`, the slot is the first one of its name. -/
def opens (front : List Segment) : Segment → Bool
  | .slot none name => name.isEmpty || !front.contains (.slot none name)
  | _ => false

/-- The places of the slots that are the first ones of their names. -/
def openings (segments : List Segment) : List Nat :=
  (List.range segments.length).filter fun i => segments[i]?.any (opens (segments.take i))

/-- What stands in front of the first slot of a name, which is `front` for a new name. -/
def origin (front : List Segment) (name : List Char) : List Segment :=
  if name = [] then front else front.takeWhile (· != .slot none name)

/-- The number of a slot that is the first one of its name behind `front`. -/
def openingNumber (largest : Nat) (front : List Segment) : Nat :=
  min (largest + 1 + (openings front).length) largestNumber

/-- What a segment behind `front` is numbered to be. -/
def numberedBehind (largest : Nat) (front : List Segment) : Segment → Piece
  | .text content => .text content
  | .slot (some n) name => .stop n name
  | .slot none name => .stop (openingNumber largest (origin front name)) name

theorem opens_slot {front : List Segment} {name : List Char} :
    opens front (.slot none name) = true ↔ name = [] ∨ .slot none name ∉ front := by
  simp [opens]

theorem exists_of_opens {front : List Segment} {s : Segment} (h : opens front s = true) :
    ∃ name, s = .slot none name := by
  cases s with
  | text content => cases h
  | slot number name =>
    cases number with
    | none => exact ⟨name, rfl⟩
    | some n => cases h

/-- Whether a slot is the first one of its name does not depend on what stands behind it. -/
theorem any_opens_append (front back : List Segment) {i : Nat} (hi : i < front.length) :
    (front ++ back)[i]?.any (opens ((front ++ back).take i)) =
      front[i]?.any (opens (front.take i)) := by
  rw [List.getElem?_append_left hi, List.take_append_of_le_length hi.le]

theorem openings_concat (front : List Segment) (s : Segment) :
    openings (front ++ [s]) = openings front ++ if opens front s then [front.length] else [] := by
  have hfront := List.filter_congr fun i (hi : i ∈ List.range front.length) =>
    any_opens_append front [s] (List.mem_range.1 hi)
  rw [openings, List.length_append, List.length_singleton, List.range_succ, List.filter_append,
    hfront]
  simp [openings, List.filter_cons]

theorem length_openings_le (front back : List Segment) :
    (openings front).length ≤ (openings (front ++ back)).length := by
  induction back using List.reverseRecOn with
  | nil => rw [List.append_nil]
  | append_singleton back s ih =>
    rw [← List.append_assoc, openings_concat, List.length_append]
    omega

theorem length_openings_le_count (segments : List Segment) :
    (openings segments).length ≤ segments.countP isUnnumbered := by
  induction segments using List.reverseRecOn with
  | nil => exact Nat.le_refl 0
  | append_singleton front s ih =>
    rw [openings_concat, List.length_append, List.countP_append]
    split
    · rename_i hopens
      obtain ⟨name, rfl⟩ := exists_of_opens hopens
      simpa [isUnnumbered] using ih
    · simp only [List.length_nil]
      omega

theorem origin_of_opens {front : List Segment} {name : List Char}
    (h : opens front (.slot none name) = true) : origin front name = front := by
  rw [origin]
  split
  · rfl
  · rename_i hname
    have hnew := (opens_slot.1 h).resolve_left hname
    apply List.takeWhile_eq_self_iff.2
    intro s hs
    simpa using ne_of_mem_of_not_mem hs hnew

theorem origin_append_cons {first : List Segment} {name : List Char} (hname : name ≠ [])
    (hfirst : .slot none name ∉ first) (back : List Segment) :
    origin (first ++ .slot none name :: back) name = first := by
  have hpasses : ∀ s ∈ first, (s != .slot none name) = true := by
    intro s hs
    simpa using ne_of_mem_of_not_mem hs hfirst
  rw [origin, if_neg hname, List.takeWhile_append_of_pos hpasses,
    List.takeWhile_cons_of_neg (by simp), List.append_nil]

/-- What stands behind a slot does not matter for the first slot of its name. -/
theorem origin_append_of_mem {front : List Segment} {name : List Char} (hname : name ≠ [])
    (h : .slot none name ∈ front) (back : List Segment) :
    origin (front ++ back) name = origin front name := by
  obtain ⟨first, rest, rfl, hfirst⟩ := List.eq_append_cons_of_mem h
  rw [List.append_assoc, List.cons_append, origin_append_cons hname hfirst,
    origin_append_cons hname hfirst]

/-- The first slot of a name stands behind the origin, at the latest where the name is asked for. -/
theorem exists_origin (front : List Segment) (name : List Char) :
    ∃ back, front ++ [.slot none name] = origin front name ++ .slot none name :: back ∧
      opens (origin front name) (.slot none name) = true := by
  by_cases hopens : opens front (.slot none name) = true
  · rw [origin_of_opens hopens]
    exact ⟨[], rfl, hopens⟩
  · rw [opens_slot, not_or, not_not] at hopens
    obtain ⟨first, rest, rfl, hfirst⟩ := List.eq_append_cons_of_mem hopens.2
    rw [origin_append_cons hopens.1 hfirst]
    exact ⟨rest ++ [.slot none name], by simp, opens_slot.2 (.inr hfirst)⟩

/-- What numbering has counted and remembers behind `front`. -/
structure Counted (largest : Nat) (front : List Segment) (next : Nat)
    (named : List (List Char × Nat)) : Prop where
  next_eq : next = openingNumber largest front
  named_eq : ∀ name, name ≠ [] → named.lookup name =
    if .slot none name ∈ front then some (openingNumber largest (origin front name)) else none

theorem openingNumber_concat {front : List Segment} {s : Segment} (largest : Nat)
    (h : opens front s = true) :
    openingNumber largest (front ++ [s]) = numberAfter (openingNumber largest front) := by
  rw [openingNumber, openings_concat, if_pos h, List.length_append, List.length_singleton,
    numberAfter, openingNumber]
  omega

theorem openingNumber_concat_of_not {front : List Segment} {s : Segment} (largest : Nat)
    (h : opens front s = false) :
    openingNumber largest (front ++ [s]) = openingNumber largest front := by
  rw [openingNumber, openings_concat, h]
  simp [openingNumber]

section Counted

variable {largest next : Nat} {front : List Segment} {named : List (List Char × Nat)}

/-- What is remembered of a name stays as it is behind a segment that does not bring the name. -/
theorem Counted.named_eq_concat (h : Counted largest front next named) {s : Segment}
    {name : List Char} (hname : name ≠ []) (hs : s = .slot none name → .slot none name ∈ front) :
    named.lookup name = if .slot none name ∈ front ++ [s] then
      some (openingNumber largest (origin (front ++ [s]) name)) else none := by
  rw [h.named_eq name hname]
  by_cases hmem : .slot none name ∈ front
  · rw [if_pos hmem, if_pos (List.mem_append_left [s] hmem), origin_append_of_mem hname hmem]
  · have hnot : .slot none name ∉ front ++ [s] := by
      intro hbehind
      rcases List.mem_append.1 hbehind with hfront | hlast
      · exact hmem hfront
      · exact hmem (hs (List.mem_singleton.1 hlast).symm)
    rw [if_neg hmem, if_neg hnot]

/-- A segment that is the first slot of no name leaves everything as it is. -/
theorem Counted.keep (h : Counted largest front next named) {s : Segment}
    (hs : opens front s = false) : Counted largest (front ++ [s]) next named where
  next_eq := by
    rw [openingNumber_concat_of_not largest hs]
    exact h.next_eq
  named_eq name hname := by
    apply h.named_eq_concat hname
    rintro rfl
    by_contra hmem
    rw [opens_slot.2 (.inr hmem)] at hs
    cases hs

/-- A slot without a name takes the next number, and nothing is remembered. -/
theorem Counted.nameless (h : Counted largest front next named) :
    Counted largest (front ++ [.slot none []]) (numberAfter next) named where
  next_eq := by
    rw [openingNumber_concat largest (opens_slot.2 (.inl rfl)), h.next_eq]
  named_eq name hname := by
    apply h.named_eq_concat hname
    intro heq
    cases heq
    exact absurd rfl hname

/-- A new name takes the next number and is remembered with it. -/
theorem Counted.newName (h : Counted largest front next named) {name : List Char}
    (hname : name ≠ []) (hnew : .slot none name ∉ front) :
    Counted largest (front ++ [.slot none name]) (numberAfter next) ((name, next) :: named) where
  next_eq := by
    rw [openingNumber_concat largest (opens_slot.2 (.inr hnew)), h.next_eq]
  named_eq other hother := by
    by_cases heq : other = name
    · subst heq
      rw [List.lookup_cons_self, if_pos (by simp), origin_append_cons hname hnew, h.next_eq]
    · have hskip : (other == name) = false := by simpa using heq
      rw [List.lookup_cons, hskip]
      apply h.named_eq_concat hother
      intro hslot
      cases hslot
      exact absurd rfl heq

/-- Numbering goes on behind a segment as it has counted it. -/
theorem Counted.step (h : Counted largest front next named) (s : Segment) (rest : List Segment) :
    ∃ next' named', numberFrom next named (s :: rest) =
        numberedBehind largest front s :: numberFrom next' named' rest ∧
      Counted largest (front ++ [s]) next' named' := by
  cases s with
  | text content => exact ⟨next, named, rfl, h.keep rfl⟩
  | slot number name =>
    cases number with
    | some n => exact ⟨next, named, rfl, h.keep rfl⟩
    | none =>
      by_cases hname : name = []
      · subst hname
        refine ⟨numberAfter next, named, ?_, h.nameless⟩
        simp [numberFrom, numberedBehind, origin, h.next_eq]
      by_cases hmem : .slot none name ∈ front
      · have hlookup := h.named_eq name hname
        rw [if_pos hmem] at hlookup
        refine ⟨next, named, ?_, h.keep ?_⟩
        · simp [numberFrom, numberedBehind, hname, hlookup]
        · simpa [opens, hname] using hmem
      · have hlookup := h.named_eq name hname
        rw [if_neg hmem] at hlookup
        refine ⟨numberAfter next, (name, next) :: named, ?_, h.newName hname hmem⟩
        have horigin := origin_of_opens (opens_slot.2 (.inr hmem))
        simp [numberFrom, numberedBehind, hname, hlookup, horigin, h.next_eq]

/-- Every segment is numbered as the segments in front of it tell. -/
theorem Counted.run (h : Counted largest front next named) (rest : List Segment) (i : Nat) :
    (numberFrom next named rest)[i]? =
      rest[i]?.map (numberedBehind largest (front ++ rest.take i)) := by
  induction rest generalizing front next named i with
  | nil => simp [numberFrom]
  | cons s rest ih =>
    obtain ⟨next', named', hnumber, hcounted⟩ := h.step s rest
    rw [hnumber]
    cases i with
    | zero => simp
    | succ i => simpa using ih hcounted i

end Counted

theorem firstFreeNumber_eq (segments : List Segment) :
    firstFreeNumber segments = openingNumber (largestWritten segments) [] := rfl

theorem numbered_getElem? (segments : List Segment) (i : Nat) :
    (numbered segments)[i]? =
      segments[i]?.map (numberedBehind (largestWritten segments) (segments.take i)) := by
  have hstart : Counted (largestWritten segments) [] (firstFreeNumber segments) [] :=
    ⟨firstFreeNumber_eq segments, fun name _ => by simp⟩
  exact hstart.run segments i

def Piece.number? : Piece → Option Nat
  | .text _ => none
  | .stop n _ => some n

/-- The number of the slot at a place. -/
def numberAt (segments : List Segment) (i : Nat) : Option Nat :=
  (numbered segments)[i]?.bind Piece.number?

theorem foldl_max_le_iff {ns : List Nat} {m bound : Nat} :
    ns.foldl max m ≤ bound ↔ m ≤ bound ∧ ∀ n ∈ ns, n ≤ bound := by
  induction ns generalizing m with
  | nil => simp
  | cons n ns ih =>
    rw [List.foldl_cons, ih, Nat.max_le, List.forall_mem_cons, and_assoc]

theorem largestWritten_le_iff {segments : List Segment} {bound : Nat} :
    largestWritten segments ≤ bound ↔ ∀ n name, .slot (some n) name ∈ segments → n ≤ bound := by
  rw [largestWritten, foldl_max_le_iff, List.forall_mem_map]
  constructor
  · rintro ⟨-, h⟩ n name hmem
    exact h _ hmem
  · intro h
    refine ⟨Nat.zero_le bound, ?_⟩
    intro s hs
    cases s with
    | text content => exact Nat.zero_le bound
    | slot number name =>
      cases number with
      | none => exact Nat.zero_le bound
      | some n => exact h n name hs

section Slots

variable {segments : List Segment} {i : Nat} {name : List Char}

theorem numberAt_written {n : Nat} (h : segments[i]? = some (.slot (some n) name)) :
    numberAt segments i = some n := by
  rw [numberAt, numbered_getElem?, h]
  rfl

theorem numberAt_unnumbered (h : segments[i]? = some (.slot none name)) :
    numberAt segments i =
      some (openingNumber (largestWritten segments) (origin (segments.take i) name)) := by
  rw [numberAt, numbered_getElem?, h]
  rfl

/-- The first slot of a name stands in the segments behind its origin. -/
theorem origin_prefix (h : segments[i]? = some (.slot none name)) :
    origin (segments.take i) name ++ [.slot none name] <+: segments ∧
      opens (origin (segments.take i) name) (.slot none name) = true := by
  obtain ⟨back, hback, hopens⟩ := exists_origin (segments.take i) name
  refine ⟨?_, hopens⟩
  have hfront : segments.take (i + 1) = segments.take i ++ [.slot none name] := by
    rw [List.take_add_one, h]
    rfl
  apply List.IsPrefix.trans ?_ (List.take_prefix (i + 1) segments)
  rw [hfront, hback]
  exact ⟨back, by simp⟩

/-- The numbers do not reach the largest one. -/
def Fits (segments : List Segment) : Prop :=
  largestWritten segments + segments.countP isUnnumbered ≤ largestNumber

theorem openingNumber_of_fits (hfits : Fits segments) {front : List Segment}
    (hstands : front ++ [.slot none name] <+: segments)
    (hopens : opens front (.slot none name) = true) :
    openingNumber (largestWritten segments) front =
      largestWritten segments + 1 + (openings front).length := by
  obtain ⟨back, rfl⟩ := hstands
  have hcount := length_openings_le_count (front ++ [.slot none name])
  rw [openings_concat, if_pos hopens, List.length_append, List.length_singleton] at hcount
  rw [Fits, List.countP_append] at hfits
  rw [openingNumber]
  omega

/-- Two first slots with as many first slots in front are one. -/
theorem eq_of_length_openings {front other : List Segment} {s t : Segment}
    (hfront : front ++ [s] <+: segments) (hother : other ++ [t] <+: segments)
    (hs : opens front s = true) (ht : opens other t = true)
    (hlength : (openings front).length = (openings other).length) :
    front ++ [s] = other ++ [t] := by
  have hgrows {front other : List Segment} {s : Segment} (hs : opens front s = true)
      (h : front ++ [s] <+: other) : (openings front).length < (openings other).length := by
    obtain ⟨back, rfl⟩ := h
    have hle := length_openings_le (front ++ [s]) back
    rw [openings_concat, if_pos hs, List.length_append, List.length_singleton] at hle
    omega
  rcases List.prefix_or_prefix_of_prefix hfront hother with h | h
  · rcases List.prefix_concat_iff.1 h with heq | hshorter
    · exact heq
    · have hlt := hgrows hs hshorter
      omega
  · rcases List.prefix_concat_iff.1 h with heq | hshorter
    · exact heq.symm
    · have hlt := hgrows ht hshorter
      omega

theorem origin_take (hname : name ≠ []) (h : segments[i]? = some (.slot none name)) :
    origin (segments.take i) name = origin segments name := by
  obtain ⟨⟨back, hback⟩, hopens⟩ := origin_prefix h
  have hfirst := (opens_slot.1 hopens).resolve_left hname
  have horigin := origin_append_cons hname hfirst back
  rw [List.append_cons, hback] at horigin
  exact horigin.symm

end Slots

theorem map_length_openings (segments : List Segment) :
    (openings segments).map (fun i => (openings (segments.take i)).length) =
      List.range (openings segments).length := by
  induction segments using List.reverseRecOn with
  | nil => rfl
  | append_singleton front s ih =>
    have hfront : (openings front).map (fun i => (openings ((front ++ [s]).take i)).length) =
        List.range (openings front).length := by
      rw [← ih]
      apply List.map_congr_left
      intro i hi
      have hlt : i < front.length := List.mem_range.1 (List.mem_filter.1 hi).1
      rw [List.take_append_of_le_length hlt.le]
    rw [openings_concat, List.map_append, hfront]
    split
    · simp [List.range_succ]
    · simp

theorem mem_openings_iff {segments : List Segment} {i : Nat} :
    i ∈ openings segments ↔ ∃ name, segments[i]? = some (.slot none name) ∧
      (name = [] ∨ .slot none name ∉ segments.take i) := by
  rw [openings, List.mem_filter, List.mem_range, Option.any_eq_true]
  constructor
  · rintro ⟨-, s, hs, hopens⟩
    obtain ⟨name, rfl⟩ := exists_of_opens hopens
    exact ⟨name, hs, opens_slot.1 hopens⟩
  · rintro ⟨name, hs, hopens⟩
    obtain ⟨hlt, -⟩ := List.getElem?_eq_some_iff.1 hs
    exact ⟨hlt, _, hs, opens_slot.2 hopens⟩

/-- The numbers of the slots without a written one: they are greater than the written ones, two slots
share one exactly if they share a name, and the first slots of the names are counted one by one. -/
structure Consistent (segments : List Segment) : Prop where
  above : ∀ i name, segments[i]? = some (.slot none name) → ∃ n,
    numberAt segments i = some n ∧ 1 ≤ n ∧ ∀ m other, .slot (some m) other ∈ segments → m < n
  same_iff : ∀ i j name other, i ≠ j → segments[i]? = some (.slot none name) →
    segments[j]? = some (.slot none other) →
      (numberAt segments i = numberAt segments j ↔ name = other ∧ name ≠ [])
  consecutive : (openings segments).map (numberAt segments) =
    (List.range' (largestWritten segments + 1) (openings segments).length).map some

section Fits

variable {segments : List Segment} (h : Fits segments)

include h

theorem numberAt_of_fits {i : Nat} {name : List Char} (hi : segments[i]? = some (.slot none name)) :
    numberAt segments i =
      some (largestWritten segments + 1 + (openings (origin (segments.take i) name)).length) := by
  obtain ⟨hstands, hopens⟩ := origin_prefix hi
  rw [numberAt_unnumbered hi, openingNumber_of_fits h hstands hopens]

theorem numberAt_eq_iff {i j : Nat} {name other : List Char} (hne : i ≠ j)
    (hi : segments[i]? = some (.slot none name)) (hj : segments[j]? = some (.slot none other)) :
    numberAt segments i = numberAt segments j ↔ name = other ∧ name ≠ [] := by
  obtain ⟨hstands, hopens⟩ := origin_prefix hi
  obtain ⟨hstands', hopens'⟩ := origin_prefix hj
  rw [numberAt_of_fits h hi, numberAt_of_fits h hj]
  constructor
  · intro heq
    have hlength := Nat.add_left_cancel (Option.some.inj heq)
    have hsame := eq_of_length_openings hstands hstands' hopens hopens' hlength
    obtain ⟨horigin, hslot⟩ := List.append_inj' hsame rfl
    cases hslot
    refine ⟨rfl, ?_⟩
    rintro rfl
    -- A slot without a name is its own first one.
    obtain ⟨hlt, -⟩ := List.getElem?_eq_some_iff.1 hi
    obtain ⟨hlt', -⟩ := List.getElem?_eq_some_iff.1 hj
    have hplaces := congrArg List.length horigin
    rw [origin, origin, if_pos rfl, if_pos rfl, List.length_take, List.length_take] at hplaces
    omega
  · rintro ⟨rfl, hname⟩
    rw [origin_take hname hi, origin_take hname hj]

theorem map_numberAt_openings : (openings segments).map (numberAt segments) =
    (List.range' (largestWritten segments + 1) (openings segments).length).map some := by
  rw [List.range'_eq_map_range, ← map_length_openings, List.map_map, List.map_map]
  apply List.map_congr_left
  intro i hi
  obtain ⟨name, hslot, hfirst⟩ := mem_openings_iff.1 hi
  rw [numberAt_of_fits h hslot, origin_of_opens (opens_slot.2 hfirst)]
  rfl

theorem consistent_of_fits : Consistent segments where
  above i name hi := by
    refine ⟨_, numberAt_of_fits h hi, by omega, ?_⟩
    intro m other hmem
    have hle := largestWritten_le_iff.1 (Nat.le_refl (largestWritten segments)) m other hmem
    omega
  same_iff _ _ _ _ hne hi hj := numberAt_eq_iff h hne hi hj
  consecutive := map_numberAt_openings h

end Fits

/-- In every template, the written numbers are kept, and the others are not below them. Where the
largest written number and the number of the other slots have 32 bits together, the numbers of the
other slots are consistent. -/
theorem numberAt_parse (template : List Char) :
    (∀ i n name, (parse template)[i]? = some (.slot (some n) name) →
      numberAt (parse template) i = some n) ∧
    (∀ i name, (parse template)[i]? = some (.slot none name) → ∃ n,
      numberAt (parse template) i = some n ∧ n ≤ largestNumber ∧
        ∀ m other, .slot (some m) other ∈ parse template → m ≤ n) ∧
    (Fits (parse template) → Consistent (parse template)) := by
  refine ⟨fun i n name => numberAt_written, ?_, consistent_of_fits⟩
  intro i name hi
  refine ⟨_, numberAt_unnumbered hi, Nat.min_le_right _ _, ?_⟩
  intro m other hmem
  have hle := largestWritten_le_iff.1 (Nat.le_refl (largestWritten (parse template))) m other hmem
  have hbits : m ≤ largestNumber := (sound_of_mem_parse hmem).2
  rw [openingNumber]
  omega

instance (segments : List Segment) : Decidable (Fits segments) :=
  inferInstanceAs (Decidable (_ ≤ _))

/-- Two names return, two slots have no name, and the largest number is written last. -/
def returningNames : List Char :=
  "$\x7bb\x7d $0 $\x7ba\x7d $\x7b\x7d $\x7bb\x7d $\x7b1:b\x7d $\x7ba\x7d $\x7b\x7d $3".toList

theorem numberAt_parse_returningNames :
    Fits (parse returningNames) ∧ Consistent (parse returningNames) := by
  have hfits : Fits (parse returningNames) := by decide +kernel
  exact ⟨hfits, (numberAt_parse returningNames).2.2 hfits⟩

/-- Behind the largest number, counting stops. -/
example : (List.range 4).map (numberAt (parse "$4294967295$\x7ba\x7d$\x7bb\x7d$\x7ba\x7d".toList)) =
    List.replicate 4 (some 4294967295) := by
  decide +kernel

end LogScript.Template
