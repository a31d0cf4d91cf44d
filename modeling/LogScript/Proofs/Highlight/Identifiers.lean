import LogScript.Highlight.Decoration

/-!
The identifiers of a text. An identifier is a letter or an underscore and then word characters, each
of them perhaps with a double colon or a slash in front. Two identifiers that overlap make one
identifier together. So those that no other one contains lie one behind the other, and they are what
the scan finds when it takes the longest identifier wherever one starts.
-/

namespace LogScript.Identifier

/-- What may follow inside an identifier: word characters, each perhaps with a mark in front. -/
inductive Tail : List Char → Prop where
  | nil : Tail []
  | word {c : Char} {rest : List Char} (hc : Run.isWordChar c = true) (h : Tail rest) :
    Tail (c :: rest)
  | colons {c : Char} {rest : List Char} (hc : Run.isWordChar c = true) (h : Tail rest) :
    Tail (':' :: ':' :: c :: rest)
  | slash {c : Char} {rest : List Char} (hc : Run.isWordChar c = true) (h : Tail rest) :
    Tail ('/' :: c :: rest)

inductive IsName : List Char → Prop where
  | intro {c : Char} {rest : List Char} (hc : Run.startsIdentifier c = true) (h : Tail rest) :
    IsName (c :: rest)

/-- The name stands between `front` and `behind`, and no other identifier there contains it. -/
structure Maximal (front name behind : List Char) : Prop where
  isName : IsName name
  maximal : ∀ a b, a <:+ front → b <+: behind → IsName (a ++ name ++ b) → a = [] ∧ b = []

variable {a b front name behind text : List Char} {c : Char} {i : Identifier}

theorem isWordChar_of_startsIdentifier (h : Run.startsIdentifier c = true) :
    Run.isWordChar c = true := by
  simp only [Run.startsIdentifier, Bool.or_eq_true] at h
  rcases h with h | h
  · simp [Run.isWordChar, Char.isAlphanum, h]
  · simp [Run.isWordChar, h]

/-- The last character, if there is one, is a word character. -/
def EndsInWord (text : List Char) : Prop :=
  ∀ c ∈ text.getLast?, Run.isWordChar c = true

theorem endsInWord_cons (hc : Run.isWordChar c = true) (h : EndsInWord text) :
    EndsInWord (c :: text) := by
  intro d hd
  rw [List.getLast?_cons, Option.mem_some_iff] at hd
  subst hd
  cases hlast : text.getLast? with
  | none => exact hc
  | some d => exact h d hlast

theorem EndsInWord.of_append (h : EndsInWord (a ++ b)) : EndsInWord b := by
  intro c hc
  apply h
  rw [List.getLast?_append, hc]
  rfl

theorem EndsInWord.tail (h : EndsInWord (c :: text)) : EndsInWord text :=
  @EndsInWord.of_append [c] text h

theorem Tail.endsInWord (h : Tail text) : EndsInWord text := by
  induction h with
  | nil => exact nofun
  | word hc _ ih => exact endsInWord_cons hc ih
  | colons hc _ ih =>
    have hword := endsInWord_cons hc ih
    exact fun d hd => hword d (by simpa using hd)
  | slash hc _ ih =>
    have hword := endsInWord_cons hc ih
    exact fun d hd => hword d (by simpa using hd)

theorem Tail.append (ha : Tail a) (hb : Tail b) : Tail (a ++ b) := by
  induction ha with
  | nil => exact hb
  | word hc _ ih => exact .word hc ih
  | colons hc _ ih => exact .colons hc ih
  | slash hc _ ih => exact .slash hc ih

/-- Cut anywhere but inside a double colon, the rest still follows inside an identifier. -/
theorem Tail.cut (h : Tail (a ++ b)) :
    Tail b ∨ ∃ front rest, a = front ++ [':'] ∧ b = ':' :: rest := by
  generalize htext : a ++ b = text at h
  induction h generalizing a with
  | nil =>
    obtain ⟨-, rfl⟩ := List.append_eq_nil_iff.1 htext
    exact .inl .nil
  | @word c rest hc h ih =>
    obtain ⟨-, rfl⟩ | ⟨a, rfl, hrest⟩ := List.append_eq_cons_iff.1 htext
    · exact .inl (.word hc h)
    · exact (ih hrest.symm).imp_right fun ⟨front, rest, ha, hb⟩ =>
        ⟨c :: front, rest, by simp [ha], hb⟩
  | @colons c rest hc h ih =>
    obtain ⟨-, rfl⟩ | ⟨a, rfl, hcolon⟩ := List.append_eq_cons_iff.1 htext
    · exact .inl (.colons hc h)
    obtain ⟨rfl, rfl⟩ | ⟨a, rfl, hpart⟩ := List.append_eq_cons_iff.1 hcolon.symm
    · exact .inr ⟨[], c :: rest, rfl, rfl⟩
    obtain ⟨rfl, rfl⟩ | ⟨a, rfl, hrest⟩ := List.append_eq_cons_iff.1 hpart.symm
    · exact .inl (.word hc h)
    · exact (ih hrest.symm).imp_right fun ⟨front, rest, ha, hb⟩ =>
        ⟨':' :: ':' :: c :: front, rest, by simp [ha], hb⟩
  | @slash c rest hc h ih =>
    obtain ⟨-, rfl⟩ | ⟨a, rfl, hpart⟩ := List.append_eq_cons_iff.1 htext
    · exact .inl (.slash hc h)
    obtain ⟨rfl, rfl⟩ | ⟨a, rfl, hrest⟩ := List.append_eq_cons_iff.1 hpart.symm
    · exact .inl (.word hc h)
    · exact (ih hrest.symm).imp_right fun ⟨front, rest, ha, hb⟩ =>
        ⟨'/' :: c :: front, rest, by simp [ha], hb⟩

theorem Tail.of_append (h : Tail (a ++ b)) (ha : EndsInWord a) : Tail b := by
  rcases h.cut with hb | ⟨front, rest, rfl, -⟩
  · exact hb
  · exact absurd (ha.of_append ':' rfl) (by decide)

theorem IsName.ne_nil (h : IsName name) : name ≠ [] := by
  cases h with
  | intro => exact List.cons_ne_nil _ _

theorem IsName.endsInWord (h : IsName name) : EndsInWord name := by
  cases h with
  | intro hc h => exact endsInWord_cons (isWordChar_of_startsIdentifier hc) h.endsInWord

theorem IsName.append (h : IsName name) (hb : Tail b) : IsName (name ++ b) := by
  cases h with
  | intro hc h => exact .intro hc (h.append hb)

/-- What an identifier has behind a word character of its own. -/
theorem IsName.tail_of_append (h : IsName (a ++ b)) (hne : a ≠ []) (ha : EndsInWord a) :
    Tail b := by
  obtain ⟨c, a, rfl⟩ := List.exists_cons_of_ne_nil hne
  cases h with
  | intro hc h => exact h.of_append ha.tail

/-- Two identifiers that overlap are one identifier together. -/
theorem IsName.union {mid : List Char} (h : IsName (a ++ mid)) (h' : IsName (mid ++ b))
    (hmid : mid ≠ []) : IsName (a ++ mid ++ b) :=
  h.append (h'.tail_of_append hmid h.endsInWord.of_append)

/-- The character may stand in an identifier, in front of this text: a word character, a colon, or a
slash with a word character behind it. -/
inductive Inside : Char → List Char → Prop where
  | word {c : Char} (behind : List Char) (hc : Run.isWordChar c = true) : Inside c behind
  | colon (behind : List Char) : Inside ':' behind
  | slash {d : Char} (behind : List Char) (hd : Run.isWordChar d = true) : Inside '/' (d :: behind)

theorem Inside.append (h : Inside c text) (behind : List Char) : Inside c (text ++ behind) := by
  cases h with
  | word _ hc => exact .word _ hc
  | colon => exact .colon _
  | slash _ hd => exact .slash _ hd

theorem Tail.inside (h : Tail (a ++ c :: b)) : Inside c b := by
  rcases h.cut with hb | ⟨_, _, -, hcolon⟩
  · cases hb with
    | word hc _ => exact .word b hc
    | colons => exact .colon _
    | slash hc _ => exact .slash _ hc
  · obtain ⟨rfl, -⟩ := List.cons.inj hcolon
    exact .colon b

theorem IsName.inside (h : IsName (a ++ c :: b)) : Inside c b := by
  cases a with
  | nil =>
    cases h with
    | intro hc _ => exact .word b (isWordChar_of_startsIdentifier hc)
  | cons d a =>
    cases h with
    | intro _ h => exact h.inside

/-- Nothing at the front of the text goes on with an identifier in front of it. -/
def Stops (text : List Char) : Prop :=
  ∀ more, Tail more → more <+: text → more = []

theorem stops_nil : Stops [] := fun _ _ hmore => List.prefix_nil.1 hmore

/-- An identifier that nothing goes on with is not the front of a longer one. -/
theorem Stops.eq_nil (h : Stops behind) (hname : IsName name) (hlonger : IsName (name ++ b))
    (hb : b <+: behind) : b = [] :=
  h b (hlonger.tail_of_append hname.ne_nil hname.endsInWord) hb

/-- Where no mark with a word character behind it stands, and no word character, the identifier
ends. -/
theorem stops_of_partMark (hhead : ∀ c ∈ text.head?, Run.isWordChar c = false)
    (hmark : Run.partMark text = 0 ∨
      (text.drop (Run.partMark text)).takeWhile Run.isWordChar = []) :
    Stops text := by
  rintro more hmore ⟨behind, rfl⟩
  cases hmore with
  | nil => rfl
  | word hc _ =>
    rw [hhead _ rfl] at hc
    cases hc
  | colons hc _ => simp [Run.partMark, hc] at hmark
  | slash hc _ => simp [Run.partMark, hc] at hmark

/-- A mark with a word character behind it goes on with an identifier. -/
theorem tail_mark_append {rest : List Char} (hmark : Run.partMark text ≠ 0)
    (hc : Run.isWordChar c = true) (h : Tail rest) :
    Tail (text.take (Run.partMark text) ++ c :: rest) := by
  unfold Run.partMark at hmark ⊢
  split
  · obtain ⟨behind, rfl⟩ := List.isPrefixOf_iff_prefix.1 ‹_›
    exact .colons hc h
  split
  · obtain ⟨behind, rfl⟩ := List.head?_eq_some_iff.1 (eq_of_beq ‹_›)
    exact .slash hc h
  · simp_all

theorem tail_of_isWordChar (h : ∀ c ∈ text, Run.isWordChar c = true) : Tail text := by
  induction text with
  | nil => exact .nil
  | cons c text ih =>
    rw [List.forall_mem_cons] at h
    exact .word h.1 (ih h.2)

/-- The parts that the scan takes are all that goes on with an identifier. The induction is on the
length of the text, as the parts are found one after the other. -/
theorem exists_identifierParts : ∀ text : List Char,
    (∀ c ∈ text.head?, Run.isWordChar c = false) →
      ∃ behind, text = Run.identifierParts text ++ behind ∧ Tail (Run.identifierParts text) ∧
        Stops behind
  | [], _ => by
    rw [Run.identifierParts]
    exact ⟨[], rfl, .nil, stops_nil⟩
  | c :: rest, hhead => by
    rw [Run.identifierParts]
    generalize hmark : Run.partMark (c :: rest) = mark
    generalize hpart : ((c :: rest).drop mark).takeWhile Run.isWordChar = part
    split
    · rename_i hnone
      subst hmark hpart
      exact ⟨c :: rest, rfl, .nil, stops_of_partMark hhead hnone⟩
    · rename_i hsome
      have hsome : mark ≠ 0 ∧ part ≠ [] := not_or.1 hsome
      have hword : ∀ d ∈ part, Run.isWordChar d = true :=
        hpart ▸ List.all_eq_true.1 List.all_takeWhile
      have hlater : ∀ d ∈ ((c :: rest).drop (mark + part.length)).head?,
          Run.isWordChar d = false := by
        rw [← List.drop_drop, ← hpart]
        exact head?_drop_takeWhile Run.isWordChar _
      obtain ⟨behind, hbehind, htail, hstops⟩ :=
        exists_identifierParts ((c :: rest).drop (mark + part.length)) hlater
      refine ⟨behind, ?_, ?_, hstops⟩
      · rw [List.append_assoc, List.append_assoc, ← hbehind, ← List.drop_drop, ← hpart,
          takeWhile_append_drop, List.take_append_drop]
      · obtain ⟨d, part, rfl⟩ := List.exists_cons_of_ne_nil hsome.2
        rw [List.forall_mem_cons] at hword
        rw [List.append_assoc, List.cons_append]
        subst hmark
        exact tail_mark_append hsome.1 hword.1 ((tail_of_isWordChar hword.2).append htail)
termination_by text => text.length
decreasing_by
  have hpos := List.length_pos_iff.2 hsome.2
  simp only [List.length_drop, List.length_cons]
  omega

/-- Where an identifier starts, the scan takes all of it and goes on behind it. -/
theorem exists_scanFrom_name {rest : List Char} (hc : Run.startsIdentifier c = true) :
    ∃ name behind, c :: rest = name ++ behind ∧ behind.length < (c :: rest).length ∧
      IsName name ∧ Stops behind ∧ ∀ offset, scanFrom offset (c :: rest) =
        ⟨offset, name, Run.opensCall behind⟩ :: scanFrom (offset + byteLength name) behind := by
  have hword : (c :: rest).takeWhile Run.isWordChar = c :: rest.takeWhile Run.isWordChar :=
    List.takeWhile_cons_of_pos (isWordChar_of_startsIdentifier hc)
  have hwordEnds := head?_drop_takeWhile Run.isWordChar (c :: rest)
  have hrun : ∀ d ∈ rest.takeWhile Run.isWordChar, Run.isWordChar d = true :=
    List.all_eq_true.1 List.all_takeWhile
  obtain ⟨behind, hbehind, htail, hstops⟩ := exists_identifierParts _ hwordEnds
  have htext : c :: rest = Run.identifier (c :: rest) ++ behind := by
    rw [Run.identifier, List.append_assoc, ← hbehind, takeWhile_append_drop]
  have hname : IsName (Run.identifier (c :: rest)) := by
    rw [Run.identifier]
    generalize Run.identifierParts _ = parts at htail
    rw [hword]
    exact .intro hc ((tail_of_isWordChar hrun).append htail)
  have hshorter : behind.length < (c :: rest).length := by
    have hlength := congrArg List.length htext
    have hpos := List.length_pos_iff.2 hname.ne_nil
    rw [List.length_append] at hlength
    omega
  refine ⟨_, behind, htext, hshorter, hname, hstops, fun offset => ?_⟩
  rw [scanFrom, if_pos hc]
  generalize Run.identifier (c :: rest) = name at htext hname
  obtain ⟨d, more, rfl⟩ := List.exists_cons_of_ne_nil hname.ne_nil
  obtain ⟨-, rfl⟩ := List.cons.inj htext
  simp

/-- No identifier reaches across the border between the two. -/
def Parted (front behind : List Char) : Prop :=
  ∀ a b, a <:+ front → b <+: behind → IsName (a ++ b) → a = [] ∨ b = []

theorem parted_nil (behind : List Char) : Parted [] behind :=
  fun _ _ ha _ _ => .inl (List.suffix_nil.1 ha)

/-- A character that starts no identifier is passed over. -/
theorem Parted.past_char {rest : List Char} (h : Parted front (c :: rest))
    (hc : Run.startsIdentifier c = false) : Parted (front ++ [c]) rest := by
  intro a b ha hb hname
  obtain rfl | ⟨a, rfl, hfront⟩ := List.suffix_concat_iff.1 ha
  · exact .inl rfl
  · rw [List.append_assoc] at hname
    obtain rfl | hnil := h a (c :: b) hfront (List.cons_prefix_cons.2 ⟨rfl, hb⟩) hname
    · cases hname with
      | intro hstarts _ =>
        rw [hc] at hstarts
        cases hstarts
    · cases hnil

/-- So is an identifier with all that goes on with it. -/
theorem Parted.past_name (h : Parted front (name ++ behind)) (hname : IsName name)
    (hstops : Stops behind) : Parted (front ++ name) behind := by
  rintro a b ⟨before, hfront⟩ hb hab
  rcases List.append_eq_append_iff.1 hfront with ⟨a, rfl, rfl⟩ | ⟨before, rfl, rfl⟩
  · rw [List.append_assoc] at hab
    obtain rfl | hnil := h a (name ++ b) (List.suffix_append _ _)
      ((List.prefix_append_right_inj name).2 hb) hab
    · exact .inr (hstops.eq_nil hname hab hb)
    · exact absurd (List.append_eq_nil_iff.1 hnil).1 hname.ne_nil
  · by_cases hne : a = []
    · exact .inl hne
    · exact .inr (hstops.eq_nil hname (hname.union hab hne) hb)

/-- An identifier at a border that none reaches across, taken as long as it goes on, is contained in
no other. -/
theorem Parted.maximal (h : Parted front (name ++ behind)) (hname : IsName name)
    (hstops : Stops behind) : Maximal front name behind where
  isName := hname
  maximal a b ha hb hab := by
    rw [List.append_assoc] at hab
    obtain rfl | hnil := h a (name ++ b) ha ((List.prefix_append_right_inj name).2 hb) hab
    · exact ⟨rfl, hstops.eq_nil hname hab hb⟩
    · exact absurd (List.append_eq_nil_iff.1 hnil).1 hname.ne_nil

/-- An identifier that no other contains is the one at the front, or stands behind it. -/
theorem Maximal.eq_or_behind {other later : List Char} (h : Maximal (front ++ a) other later)
    (htext : name ++ behind = a ++ (other ++ later)) (hname : IsName name) (hstops : Stops behind) :
    a = [] ∧ other = name ∨ ∃ between, a = name ++ between := by
  rcases List.append_eq_append_iff.1 htext with ⟨between, ha, -⟩ | ⟨inside, hinside, hothers⟩
  · exact .inr ⟨between, ha⟩
  by_cases hne : inside = []
  · exact .inr ⟨[], by rw [hinside, hne]; simp⟩
  have hfront : a <:+ front ++ a := List.suffix_append front a
  rcases List.append_eq_append_iff.1 hothers with ⟨more, rfl, hlater⟩ | ⟨more, rfl, hbehind⟩
  · -- the one at the front contains the other
    rw [hinside, ← List.append_assoc] at hname
    obtain ⟨rfl, rfl⟩ := h.maximal a more hfront ⟨behind, hlater.symm⟩ hname
    exact .inl ⟨rfl, by simpa using hinside.symm⟩
  · -- they overlap, and make one together
    rw [hinside] at hname
    have hunion := hname.union h.isName hne
    rw [List.append_assoc, ← List.append_nil (a ++ _)] at hunion
    obtain ⟨rfl, -⟩ := h.maximal a [] hfront List.nil_prefix hunion
    obtain rfl := hstops.eq_nil hname h.isName ⟨later, hbehind.symm⟩
    exact .inl ⟨rfl, by simpa using hinside.symm⟩

/-- The identifier stands between the two, no other contains it, and it is known whether a call
follows. -/
structure Stands (i : Identifier) (front behind : List Char) : Prop where
  start : i.start = byteLength front
  maximal : Maximal front i.text behind
  call : i.call = Run.opensCall behind

/-- The identifier stands somewhere in the text behind `front`. -/
def StandsIn (i : Identifier) (front text : List Char) : Prop :=
  ∃ a behind, text = a ++ (i.text ++ behind) ∧ i.Stands (front ++ a) behind

theorem not_standsIn_nil : ¬ i.StandsIn front [] := by
  rintro ⟨a, behind, htext, hi⟩
  have hnil := (List.append_eq_nil_iff.1 (List.append_eq_nil_iff.1 htext.symm).2).1
  exact hi.maximal.isName.ne_nil hnil

theorem standsIn_cons {rest : List Char} (hc : Run.startsIdentifier c = false) :
    i.StandsIn front (c :: rest) ↔ i.StandsIn (front ++ [c]) rest := by
  constructor
  · rintro ⟨a, behind, htext, hi⟩
    rcases List.cons_eq_append_iff.1 htext with ⟨rfl, hfirst⟩ | ⟨a, rfl, hrest⟩
    · obtain ⟨d, name, hname⟩ := List.exists_cons_of_ne_nil hi.maximal.isName.ne_nil
      rw [hname] at hfirst
      have hstarts := hname ▸ hi.maximal.isName
      cases hstarts with
      | intro hd _ =>
        rw [(List.cons.inj hfirst).1, hc] at hd
        cases hd
    · exact ⟨a, behind, hrest, by simpa using hi⟩
  · rintro ⟨a, behind, rfl, hi⟩
    exact ⟨c :: a, behind, rfl, by simpa using hi⟩

theorem standsIn_append (h : Parted front (name ++ behind)) (hname : IsName name)
    (hstops : Stops behind) :
    i.StandsIn front (name ++ behind) ↔
      i = ⟨byteLength front, name, Run.opensCall behind⟩ ∨ i.StandsIn (front ++ name) behind := by
  constructor
  · rintro ⟨a, later, htext, hi⟩
    rcases hi.maximal.eq_or_behind htext hname hstops with ⟨rfl, hsame⟩ | ⟨between, rfl⟩
    · obtain ⟨start, text, call⟩ := i
      obtain ⟨hstart, -, hcall⟩ := hi
      subst hsame
      obtain rfl : behind = later := List.append_cancel_left htext
      rw [List.append_nil] at hstart
      exact .inl (by rw [← hstart, ← hcall])
    · rw [List.append_assoc] at htext
      exact .inr ⟨between, later, List.append_cancel_left htext, by simpa using hi⟩
  · rintro (rfl | ⟨a, later, rfl, hi⟩)
    · refine ⟨[], behind, rfl, ?_⟩
      rw [List.append_nil]
      exact ⟨rfl, h.maximal hname hstops, rfl⟩
    · exact ⟨name ++ a, later, (List.append_assoc ..).symm, by simpa using hi⟩

/-- Behind a border that none reaches across, the scan finds the identifiers that no other
contains. The induction is on the text that is left, as long as the scan goes on. -/
theorem mem_scanFrom_iff (i : Identifier) : ∀ front text : List Char, Parted front text →
    (i ∈ scanFrom (byteLength front) text ↔ i.StandsIn front text)
  | front, [], _ => by simp [scanFrom, not_standsIn_nil]
  | front, c :: rest, hparted => by
    cases hc : Run.startsIdentifier c with
    | false =>
      have ih := mem_scanFrom_iff i (front ++ [c]) rest (hparted.past_char hc)
      rw [byteLength_append, byteLength_cons, byteLength_nil, Nat.add_zero] at ih
      rw [scanFrom, if_neg (by simp [hc]), ih, standsIn_cons hc]
    | true =>
      obtain ⟨name, behind, htext, hshorter, hname, hstops, hscan⟩ :=
        @exists_scanFrom_name c rest hc
      rw [htext] at hparted
      have ih := mem_scanFrom_iff i (front ++ name) behind (hparted.past_name hname hstops)
      rw [byteLength_append] at ih
      rw [hscan, List.mem_cons, ih, htext, standsIn_append hparted hname hstops]
termination_by _ text => text.length
decreasing_by
  · simp
  · exact hshorter

/-- The scan finds the identifiers that no other contains. -/
theorem mem_scan_iff : i ∈ scan text ↔ i.StandsIn [] text :=
  mem_scanFrom_iff i [] text (parted_nil text)

/-- It finds them from the front of the text to its end. -/
theorem scanFrom_ordered : ∀ (offset : Nat) (text : List Char),
    (∀ i ∈ scanFrom offset text, offset ≤ i.start) ∧
      (scanFrom offset text).Pairwise fun i j => i.stop ≤ j.start
  | _, [] => by simp [scanFrom]
  | offset, c :: rest => by
    cases hc : Run.startsIdentifier c with
    | false =>
      obtain ⟨hstart, hordered⟩ := scanFrom_ordered (offset + c.utf8Size) rest
      rw [scanFrom, if_neg (by simp [hc])]
      exact ⟨fun i hi => Nat.le_trans (Nat.le_add_right ..) (hstart i hi), hordered⟩
    | true =>
      obtain ⟨name, behind, -, hshorter, -, -, hscan⟩ := @exists_scanFrom_name c rest hc
      obtain ⟨hstart, hordered⟩ := scanFrom_ordered (offset + byteLength name) behind
      rw [hscan]
      refine ⟨List.forall_mem_cons.2 ⟨Nat.le_refl _, fun i hi => ?_⟩, .cons hstart hordered⟩
      exact Nat.le_trans (Nat.le_add_right ..) (hstart i hi)
termination_by _ text => text.length
decreasing_by
  · simp
  · exact hshorter

end LogScript.Identifier
