import LogScript.Layout.OmlBody
import LogScript.Proofs.Layout.Trimmed

/-!
Attributes that are laid out already. Outside its literals such an attribute has single spaces
only, and none next to an opening bracket, a closing bracket or a comma; laying it out again, also
with blank characters behind it, leaves it as it is. The bracket that closes an attribute closes
its layout too.
-/

namespace LogScript.Layout

/-- How many brackets are open behind a character; none when it closes the outermost. -/
def depthBehind (q : Quoting) (depth : Nat) (c : Char) : Option Nat :=
  if q.covers c then some depth
  else if c == '[' then some (depth + 1)
  else if c == ']' then if depth = 0 then none else some (depth - 1)
  else some depth

/-- The text behind the square bracket that closes, when one does. -/
def behindClosing (q : Quoting) (depth : Nat) (text : List Char) : Option (List Char) :=
  (splitClosing '[' ']' q depth text).map Prod.snd

theorem behindClosing_cons (q : Quoting) (depth : Nat) (c : Char) (rest : List Char) :
    behindClosing q depth (c :: rest) =
      match depthBehind q depth c with
      | none => some rest
      | some behind => behindClosing (q.next c) behind rest := by
  have hfound : ∀ d, ((splitClosing '[' ']' (q.next c) d rest).map
      (fun r => (c :: r.1, r.2))).map Prod.snd = behindClosing (q.next c) d rest := by
    intro d
    rw [Option.map_map]
    rfl
  rw [behindClosing, splitClosing, depthBehind]
  simp only [apply_ite (Option.map Prod.snd), hfound, Option.map_some]
  split
  · rfl
  split
  · rfl
  split
  · split <;> rfl
  · rfl

/-- Only a closing bracket outside literals closes. -/
theorem of_depthBehind_eq_none {q : Quoting} {depth : Nat} {c : Char}
    (h : depthBehind q depth c = none) : q.covers c = false ∧ c = ']' := by
  rw [depthBehind] at h
  split at h
  · cases h
  rename_i hq
  split at h
  · cases h
  split at h
  · rename_i hc
    exact ⟨by simpa using hq, eq_of_beq hc⟩
  · cases h

theorem depthBehind_of_blank {c : Char} (hc : isBlank c) (q : Quoting) (depth : Nat) :
    depthBehind q depth c = some depth := by
  have hne : ∀ bracket, isBlank bracket = false → (c == bracket) = false := by
    intro bracket hbracket
    refine beq_false_of_ne fun heq => ?_
    rw [heq, hbracket] at hc
    cases hc
  rw [depthBehind, hne '[' (by decide), hne ']' (by decide)]
  simp

theorem behindClosing_append {q : Quoting} {depth : Nat} {text behind : List Char}
    (h : behindClosing q depth text = some behind) (more : List Char) :
    behindClosing q depth (text ++ more) = some (behind ++ more) := by
  induction text generalizing q depth with
  | nil => cases h
  | cons c rest ih =>
    rw [behindClosing_cons] at h
    rw [List.cons_append, behindClosing_cons]
    cases hdepth : depthBehind q depth c with
    | none =>
      rw [hdepth] at h
      cases h
      rfl
    | some d =>
      rw [hdepth] at h
      exact ih h

/-- The text through the bracket that closes, by itself. -/
theorem exists_behindClosing_eq_nil {q : Quoting} {depth : Nat} {text behind : List Char}
    (h : behindClosing q depth text = some behind) :
    ∃ inner, text = inner ++ behind ∧ behindClosing q depth inner = some [] := by
  induction text generalizing q depth with
  | nil => cases h
  | cons c rest ih =>
    rw [behindClosing_cons] at h
    cases hdepth : depthBehind q depth c with
    | none =>
      rw [hdepth] at h
      cases h
      exact ⟨[c], rfl, by rw [behindClosing_cons, hdepth]⟩
    | some d =>
      rw [hdepth] at h
      obtain ⟨inner, hrest, hinner⟩ := ih h
      exact ⟨c :: inner, by rw [hrest]; rfl, by rw [behindClosing_cons, hdepth]; exact hinner⟩

theorem behindClosing_append_blanks {blanks : List Char} (hblanks : ∀ c ∈ blanks, isBlank c)
    {q : Quoting} {depth : Nat} {text : List Char} (h : behindClosing q depth text = none) :
    behindClosing q depth (text ++ blanks) = none := by
  induction text generalizing q depth with
  | nil =>
    clear h
    rw [List.nil_append]
    induction blanks generalizing q with
    | nil => rfl
    | cons c blanks ih =>
      rw [behindClosing_cons, depthBehind_of_blank (hblanks c List.mem_cons_self)]
      exact ih (fun d hd => hblanks d (List.mem_cons_of_mem c hd))
  | cons c rest ih =>
    rw [behindClosing_cons] at h
    rw [List.cons_append, behindClosing_cons]
    cases hdepth : depthBehind q depth c with
    | none =>
      rw [hdepth] at h
      cases h
    | some d =>
      rw [hdepth] at h
      exact ih h

/-- Trimming a text takes blank characters behind the closing bracket at most. -/
theorem behindClosing_trimEnd (q : Quoting) (depth : Nat) (text : List Char) :
    ∃ blanks : List Char, (∀ c ∈ blanks, isBlank c) ∧
      behindClosing q depth text = (behindClosing q depth (trimEnd text)).map (· ++ blanks) := by
  obtain ⟨blanks, htext, hblanks⟩ := exists_trimEnd_append text
  refine ⟨blanks, hblanks, ?_⟩
  cases hclose : behindClosing q depth (trimEnd text) with
  | none => rw [htext, behindClosing_append_blanks hblanks hclose]; rfl
  | some behind => rw [htext, behindClosing_append hclose]; rfl

theorem behindClosing_collapseBlanks (q : Quoting) (afterSpace : Bool) (depth : Nat)
    (text : List Char) :
    behindClosing q depth (collapseBlanks q afterSpace text) =
      (behindClosing q depth text).map (collapseBlanks .outside false) := by
  induction text generalizing q afterSpace depth with
  | nil => rfl
  | cons c rest ih =>
    rw [collapseBlanks, behindClosing_cons]
    split
    · rename_i h
      simp only [Bool.and_eq_true, Bool.not_eq_true'] at h
      rw [depthBehind_of_blank h.2, Quoting.next_of_not_covers h.1,
        Quoting.eq_outside_of_not_covers h.1]
      split
      · exact ih .outside true depth
      · rw [behindClosing_cons, depthBehind_of_blank (by decide)]
        exact ih .outside true depth
    · rw [behindClosing_cons]
      cases hdepth : depthBehind q depth c with
      | none =>
        obtain ⟨hq, rfl⟩ := of_depthBehind_eq_none hdepth
        rw [Quoting.next_of_not_covers hq]
        rfl
      | some d => exact ih (q.next c) (c == ' ') d

theorem behindClosing_tightenSpaces (q : Quoting) (last : Option Char) (depth : Nat)
    (text : List Char) :
    behindClosing q depth (tightenSpaces q last text) =
      (behindClosing q depth text).map (tightenSpaces .outside (some ']')) := by
  induction text generalizing q last depth with
  | nil => rfl
  | cons c rest ih =>
    rw [tightenSpaces, behindClosing_cons]
    split
    · rename_i h
      simp only [Bool.and_eq_true, Bool.not_eq_true', beq_iff_eq] at h
      rw [h.1.2, depthBehind_of_blank (by decide), Quoting.eq_outside_of_not_covers h.1.1]
      exact ih .outside last depth
    · rw [behindClosing_cons]
      cases hdepth : depthBehind q depth c with
      | none =>
        obtain ⟨hq, rfl⟩ := of_depthBehind_eq_none hdepth
        rw [Quoting.next_of_not_covers hq]
        rfl
      | some d => exact ih (q.next c) (some c) d

/-- Outside literals, blank characters are single spaces; `afterSpace` tells whether one stands in
front of the text. -/
def SingleSpaced (q : Quoting) (afterSpace : Bool) : List Char → Prop
  | [] => True
  | c :: rest =>
    (q.covers c = false → isBlank c → c = ' ' ∧ afterSpace = false) ∧
      SingleSpaced (q.next c) (c == ' ') rest

theorem singleSpaced_collapseBlanks (q : Quoting) (afterSpace : Bool) (text : List Char) :
    SingleSpaced q afterSpace (collapseBlanks q afterSpace text) := by
  induction text generalizing q afterSpace with
  | nil => trivial
  | cons c rest ih =>
    rw [collapseBlanks]
    split
    · rename_i h
      simp only [Bool.and_eq_true, Bool.not_eq_true'] at h
      rw [Quoting.next_of_not_covers h.1, Quoting.eq_outside_of_not_covers h.1]
      split
      · rename_i hafter
        rw [hafter]
        exact ih .outside true
      · rename_i hafter
        exact ⟨fun _ _ => ⟨rfl, by simpa using hafter⟩, ih .outside true⟩
    · rename_i h
      refine ⟨fun hq hc => absurd (by simp [hq, hc]) h, ih (q.next c) (c == ' ')⟩

theorem SingleSpaced.of_append {q : Quoting} {afterSpace : Bool} {front behind : List Char}
    (h : SingleSpaced q afterSpace (front ++ behind)) : SingleSpaced q afterSpace front := by
  induction front generalizing q afterSpace with
  | nil => trivial
  | cons c front ih => exact ⟨h.1, ih h.2⟩

/-- Collapsing changes a single-spaced text with blank characters behind it only there. -/
theorem SingleSpaced.collapseBlanks_append {q : Quoting} {afterSpace : Bool} {text : List Char}
    (h : SingleSpaced q afterSpace text) {blanks : List Char} (hblanks : ∀ c ∈ blanks, isBlank c) :
    ∃ kept : List Char, (∀ c ∈ kept, isBlank c) ∧
      collapseBlanks q afterSpace (text ++ blanks) = text ++ kept := by
  induction text generalizing q afterSpace with
  | nil =>
    refine ⟨collapseBlanks q afterSpace blanks, ?_, rfl⟩
    clear h
    induction blanks generalizing q afterSpace with
    | nil => exact fun c hc => absurd hc List.not_mem_nil
    | cons d blanks ih =>
      have hrest := fun c hc => hblanks c (List.mem_cons_of_mem d hc)
      rw [collapseBlanks]
      split
      · split
        · exact ih hrest
        · intro c hc
          rcases List.mem_cons.1 hc with rfl | hc
          · decide
          · exact ih hrest c hc
      · intro c hc
        rcases List.mem_cons.1 hc with rfl | hc
        · exact hblanks c List.mem_cons_self
        · exact ih hrest c hc
  | cons c rest ih =>
    obtain ⟨kept, hkept, hrest⟩ := ih h.2
    refine ⟨kept, hkept, ?_⟩
    rw [List.cons_append, collapseBlanks]
    split
    · rename_i hc
      simp only [Bool.and_eq_true, Bool.not_eq_true'] at hc
      obtain ⟨rfl, rfl⟩ := h.1 hc.1 hc.2
      exact congrArg (List.cons ' ') hrest
    · rw [hrest, List.cons_append]

/-- A space outside literals is superfluous between these neighbours. -/
def hugsSpace (last next : Option Char) : Bool :=
  (last == some '[' || last == some '(' || last == some ',') ||
    (next == some ']' || next == some ')' || next == some ',')

theorem tightenSpaces_cons (q : Quoting) (last : Option Char) (c : Char) (rest : List Char) :
    tightenSpaces q last (c :: rest) =
      if !q.covers c && c == ' ' && hugsSpace last rest.head? then
        tightenSpaces (q.next c) last rest
      else c :: tightenSpaces (q.next c) (some c) rest := rfl

/-- Outside literals, no space stands next to a bracket or a comma. -/
def Tight (q : Quoting) (last : Option Char) : List Char → Prop
  | [] => True
  | c :: rest =>
    (q.covers c = false → c = ' ' → hugsSpace last rest.head? = false) ∧
      Tight (q.next c) (some c) rest

theorem Tight.tightenSpaces_eq {q : Quoting} {last : Option Char} {text : List Char}
    (h : Tight q last text) : tightenSpaces q last text = text := by
  induction text generalizing q last with
  | nil => rfl
  | cons c rest ih =>
    rw [tightenSpaces_cons, ih h.2]
    refine if_neg fun hc => ?_
    simp only [Bool.and_eq_true, Bool.not_eq_true', beq_iff_eq] at hc
    rw [h.1 hc.1.1 hc.1.2] at hc
    exact Bool.false_ne_true hc.2

/-- Behind a space a single-spaced text starts with a character that stays. -/
theorem head?_tightenSpaces {q : Quoting} {last : Option Char} {text : List Char}
    (h : SingleSpaced q true text) : (tightenSpaces q last text).head? = text.head? := by
  cases text with
  | nil => rfl
  | cons c rest =>
    rw [tightenSpaces_cons, if_neg]
    · rfl
    · intro hc
      simp only [Bool.and_eq_true, Bool.not_eq_true', beq_iff_eq] at hc
      have hblank : isBlank c := by rw [hc.1.2]; decide
      exact absurd (h.1 hc.1.1 hblank).2 (by decide)

theorem SingleSpaced.after_any {q : Quoting} {afterSpace : Bool} {text : List Char}
    (h : SingleSpaced q true text) : SingleSpaced q afterSpace text := by
  cases text with
  | nil => trivial
  | cons c rest =>
    exact ⟨fun hq hc => absurd (h.1 hq hc).2 (by decide), h.2⟩

/-- Taking superfluous spaces out of a single-spaced text leaves it single-spaced and tight. -/
theorem SingleSpaced.tightenSpaces {q : Quoting} {afterSpace : Bool} {text : List Char}
    (h : SingleSpaced q afterSpace text) (last : Option Char) :
    SingleSpaced q afterSpace (tightenSpaces q last text) ∧
      Tight q last (tightenSpaces q last text) := by
  induction text generalizing q last afterSpace with
  | nil => exact ⟨trivial, trivial⟩
  | cons c rest ih =>
    rw [tightenSpaces_cons]
    split
    · rename_i hc
      simp only [Bool.and_eq_true, Bool.not_eq_true', beq_iff_eq] at hc
      obtain ⟨⟨hq, rfl⟩, -⟩ := hc
      obtain rfl := Quoting.eq_outside_of_not_covers hq
      have hrest : SingleSpaced .outside true rest := h.2
      exact ⟨(ih hrest.after_any last).1, (ih hrest last).2⟩
    · rename_i hc
      refine ⟨⟨h.1, (ih h.2 (some c)).1⟩, ⟨fun hq hspace => ?_, (ih h.2 (some c)).2⟩⟩
      subst hspace
      rw [head?_tightenSpaces h.2]
      simpa [hq] using hc

theorem getLast?_tightenSpaces {q : Quoting} {last : Option Char} {text : List Char}
    (h : ∀ c ∈ text.getLast?, isBlank c = false) :
    (tightenSpaces q last text).getLast? = text.getLast? := by
  induction text generalizing q last with
  | nil => rfl
  | cons c rest ih =>
    cases rest with
    | nil =>
      have hc : isBlank c = false := h c rfl
      rw [tightenSpaces_cons, if_neg]
      · rfl
      · intro hspace
        simp only [Bool.and_eq_true, beq_iff_eq] at hspace
        rw [hspace.1.2] at hc
        exact absurd hc (by decide)
    | cons d rest =>
      have hlast : ∀ c ∈ (d :: rest).getLast?, isBlank c = false := by
        rwa [List.getLast?_cons_cons] at h
      have hne : ∀ last', (tightenSpaces (q.next c) last' (d :: rest)) ≠ [] := by
        intro last' hnil
        have hkept := @ih (q.next c) last' hlast
        rw [hnil, List.getLast?_nil] at hkept
        exact absurd (List.getLast?_eq_none_iff.1 hkept.symm) (List.cons_ne_nil d rest)
      rw [tightenSpaces_cons, List.getLast?_cons_cons]
      split
      · exact ih hlast
      · rw [List.getLast?_cons_of_ne_nil (hne _)]
        exact ih hlast

/-- The layout of what stands behind the bracket that opens an attribute. -/
def neatInner (text : List Char) : List Char :=
  tightenSpaces .outside (some '[') (trimEnd (collapseBlanks .outside false text))

theorem normalizeAttribute_hash (text : List Char) :
    normalizeAttribute ('#' :: text) =
      '#' :: tightenSpaces .outside (some '#') (trimEnd (collapseBlanks .outside false text)) := by
  have hcollapse : collapseBlanks .outside false ('#' :: text) =
      '#' :: collapseBlanks .outside false text := rfl
  have hhash : isBlank '#' = false := by decide
  have htrim : trim ('#' :: collapseBlanks .outside false text) =
      '#' :: trimEnd (collapseBlanks .outside false text) := by
    rw [trim_of_head? (fun c hc => by cases hc; exact hhash), trimEnd_cons_of_not_blank hhash]
  rw [normalizeAttribute, hcollapse, htrim]
  rfl

theorem normalizeAttribute_bracket (text : List Char) :
    normalizeAttribute ('#' :: '[' :: text) = '#' :: '[' :: neatInner text := by
  have hcollapse : collapseBlanks .outside false ('[' :: text) =
      '[' :: collapseBlanks .outside false text := rfl
  rw [normalizeAttribute_hash, hcollapse, trimEnd_cons_of_not_blank (by decide)]
  rfl

/-- An attribute that its layout leaves as it is. -/
structure NeatAttribute (text : List Char) : Prop where
  spaced : SingleSpaced .outside false text
  tight : Tight .outside none text
  trimmed : trim text = text

theorem neatAttribute_normalizeAttribute (text : List Char) :
    NeatAttribute (normalizeAttribute ('#' :: text)) := by
  have hsingle : SingleSpaced .outside false ('#' :: trimEnd (collapseBlanks .outside false text)) := by
    refine ⟨fun _ hc => absurd hc (by decide), ?_⟩
    obtain ⟨blanks, hkept, -⟩ := exists_trimEnd_append (collapseBlanks .outside false text)
    have hspaced := singleSpaced_collapseBlanks .outside false text
    rw [hkept] at hspaced
    exact hspaced.of_append
  have htight : tightenSpaces .outside none ('#' :: trimEnd (collapseBlanks .outside false text)) =
      normalizeAttribute ('#' :: text) := (normalizeAttribute_hash text).symm
  have hneat := hsingle.tightenSpaces none
  have hlast : ∀ c ∈ ('#' :: trimEnd (collapseBlanks .outside false text)).getLast?,
      isBlank c = false := by
    rw [← trimEnd_cons_of_not_blank (by decide)]
    exact getLast?_trimEnd _
  rw [htight] at hneat
  refine ⟨hneat.1, hneat.2, trim_of_ends ?_ ?_⟩
  · rw [normalizeAttribute_hash]
    intro c hc
    cases hc
    decide
  · rw [← htight, getLast?_tightenSpaces hlast]
    exact hlast

/-- A neat attribute stays as it is, and takes in blank characters that follow it. -/
theorem NeatAttribute.normalizeAttribute_append {text : List Char} (h : NeatAttribute text)
    {blanks : List Char} (hblanks : ∀ c ∈ blanks, isBlank c) :
    normalizeAttribute (text ++ blanks) = text := by
  obtain ⟨kept, hkept, hcollapse⟩ := h.spaced.collapseBlanks_append hblanks
  rw [normalizeAttribute, hcollapse, trim_append_blanks _ hkept, h.trimmed, h.tight.tightenSpaces_eq]

theorem NeatAttribute.normalizeAttribute_eq {text : List Char} (h : NeatAttribute text) :
    normalizeAttribute text = text := by
  have heq := h.normalizeAttribute_append (fun c (hc : c ∈ []) => absurd hc List.not_mem_nil)
  rwa [List.append_nil] at heq

/-- The layout of an attribute is closed when the attribute is. -/
theorem behindClosing_neatInner (text : List Char) :
    (behindClosing .outside 0 (neatInner text) = none ↔ behindClosing .outside 0 text = none) ∧
      (behindClosing .outside 0 text = some [] →
        behindClosing .outside 0 (neatInner text) = some []) := by
  obtain ⟨blanks, -, htrim⟩ := behindClosing_trimEnd .outside 0 (collapseBlanks .outside false text)
  rw [behindClosing_collapseBlanks] at htrim
  rw [neatInner, behindClosing_tightenSpaces]
  cases hclose : behindClosing .outside 0 text with
  | none =>
    rw [hclose, Option.map_none, eq_comm, Option.map_eq_none_iff] at htrim
    rw [htrim]
    exact ⟨Iff.rfl, id⟩
  | some behind =>
    rw [hclose, Option.map_some, eq_comm, Option.map_eq_some_iff] at htrim
    obtain ⟨kept, hkept, hbehind⟩ := htrim
    rw [hkept]
    refine ⟨by simp, fun hnil => ?_⟩
    cases hnil
    rw [(List.append_eq_nil_iff.1 hbehind).1]
    rfl

theorem splitClosing_of_behindClosing {q : Quoting} {depth : Nat} {text behind : List Char}
    (h : behindClosing q depth text = some behind) :
    ∃ inner, splitClosing '[' ']' q depth text = some (inner, behind) ∧
      text = inner ++ ']' :: behind := by
  obtain ⟨⟨inner, rest⟩, hsplit, rfl⟩ := Option.map_eq_some_iff.1 h
  exact ⟨inner, hsplit, eq_of_splitClosing hsplit⟩

end LogScript.Layout
