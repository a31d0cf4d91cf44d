import LogScript.Proofs.Layout.WplVisible

/-!
Where the call pass finds a call. The first call of a text is found whatever stands behind it, and
a character that no name holds parts the search into one in front of it and one behind it.
-/

namespace LogScript.Layout

/-- A character that neither a name nor the opening parenthesis of a split call holds. -/
structure Breaks (c : Char) : Prop where
  name : isNameChar c = false
  call : ∀ call ∈ splitCallNames, c ∉ call

theorem breaks_of_blank {c : Char} (h : isBlank c) : Breaks c := by
  have hnames : ∀ n ∈ [0x9, 0xA, 0xB, 0xC, 0xD, 0x20, 0x85, 0xA0, 0x1680, 0x2000, 0x2001, 0x2002,
      0x2003, 0x2004, 0x2005, 0x2006, 0x2007, 0x2008, 0x2009, 0x200A, 0x2028, 0x2029, 0x202F, 0x205F,
      0x3000], isNameChar (Char.ofNat n) = false := by
    decide +kernel
  have hcalls : ∀ call ∈ splitCallNames, call.any isBlank = false := by decide
  refine ⟨?_, fun call hcall hc => ?_⟩
  · have hname := hnames c.toNat
    rw [Char.ofNat_toNat] at hname
    apply hname
    simp only [isBlank, Bool.or_eq_true, Bool.and_eq_true, decide_eq_true_eq, beq_iff_eq] at h
    simp only [List.mem_cons, List.not_mem_nil, or_false]
    omega
  · exact List.any_eq_false.1 (hcalls call hcall) c hc h

theorem breaks_lineFeed : Breaks '\n' := breaks_of_blank (by decide)

theorem breaks_comma : Breaks ',' := ⟨by decide, by decide⟩

theorem breaks_space : Breaks ' ' := breaks_of_blank (by decide)

section Front

variable {c : Char} {a b text call : List Char}

theorem call_cases (hcall : call ∈ splitCallNames) :
    ∃ name, call = name ++ ['('] ∧ '(' ∉ name := by
  simp only [splitCallNames, List.mem_cons, List.not_mem_nil, or_false] at hcall
  rcases hcall with rfl | rfl | rfl
  · exact ⟨"json".toList, rfl, by decide⟩
  · exact ⟨"csv".toList, rfl, by decide⟩
  · exact ⟨"kv".toList, rfl, by decide⟩

theorem callAt?_eq_none : callAt? text = none ↔ ∀ call ∈ splitCallNames, ¬call <+: text := by
  simp only [callAt?, List.find?_eq_none, List.isPrefixOf_iff_prefix]

theorem callAt?_congr (h : ∀ call ∈ splitCallNames, call <+: a ↔ call <+: b) :
    callAt? a = callAt? b := by
  have hprefix : ∀ call ∈ splitCallNames, call.isPrefixOf a = call.isPrefixOf b := by
    intro call hcall
    rw [Bool.eq_iff_iff, List.isPrefixOf_iff_prefix, List.isPrefixOf_iff_prefix]
    exact h call hcall
  rw [callAt?, callAt?, ← List.head?_filter, ← List.head?_filter, List.filter_congr hprefix]

theorem callAt?_append (h : Breaks c) (text rest : List Char) :
    callAt? (text ++ c :: rest) = callAt? text := by
  refine callAt?_congr fun call hcall =>
    ⟨fun hlong => ?_, fun hshort => hshort.trans (List.prefix_append _ _)⟩
  rcases List.prefix_or_prefix_of_prefix hlong (List.prefix_append text (c :: rest)) with
    hshort | ⟨tail, rfl⟩
  · exact hshort
  · cases tail with
    | nil => exact ⟨[], by simp⟩
    | cons d tail =>
      have hhead := (List.prefix_append_right_inj text).1 hlong
      obtain rfl := (List.cons_prefix_cons.1 hhead).1
      exact absurd (List.mem_append_right _ List.mem_cons_self) (h.call _ hcall)

/-- No call reaches over the parenthesis of another one. -/
theorem callAt?_append_paren (front rest : List Char) :
    callAt? (front ++ '(' :: rest) = callAt? (front ++ ['(']) := by
  have hfront : front ++ ['('] <+: front ++ '(' :: rest := ⟨rest, by simp⟩
  refine callAt?_congr fun call hcall => ⟨fun hlong => ?_, fun hshort => hshort.trans hfront⟩
  obtain ⟨name, rfl, hname⟩ := call_cases hcall
  rcases List.prefix_or_prefix_of_prefix hlong hfront with hshort | hover
  · exact hshort
  · rcases List.prefix_concat_iff.1 hover with heq | hover
    · exact ⟨[], by rw [heq, List.append_nil]⟩
    · exact absurd (hover.subset (List.mem_append_right _ (List.mem_singleton_self _))) hname

theorem callAt?_call (hcall : call ∈ splitCallNames) (rest : List Char) :
    callAt? (call ++ rest) = some call := by
  simp only [splitCallNames, List.mem_cons, List.not_mem_nil, or_false] at hcall
  rcases hcall with rfl | rfl | rfl <;> simp [callAt?, splitCallNames, List.isPrefixOf]

theorem callAt?_eq_none_of_append (h : callAt? (a ++ b) = none) : callAt? a = none :=
  callAt?_eq_none.2 fun call hcall hprefix =>
    callAt?_eq_none.1 h call hcall (List.IsPrefix.trans hprefix (List.prefix_append a b))

theorem callAt?_of_head (hc : isBlank c ∨ c = '(') (text : List Char) :
    callAt? (c :: text) = none := by
  have hhead : ∀ call ∈ splitCallNames, ∃ d name, call = d :: name ∧ isBlank d = false ∧ d ≠ '(' := by
    intro call hcall
    simp only [splitCallNames, List.mem_cons, List.not_mem_nil, or_false] at hcall
    rcases hcall with rfl | rfl | rfl <;> exact ⟨_, _, rfl, by decide, by decide⟩
  refine callAt?_eq_none.2 fun call hcall hprefix => ?_
  obtain ⟨d, name, rfl, hblank, hparen⟩ := hhead call hcall
  obtain ⟨rfl, -⟩ := List.cons_prefix_cons.1 hprefix
  rcases hc with hc | rfl
  · rw [hblank] at hc
    cases hc
  · exact hparen rfl

end Front

section Find

variable {c : Char} {bounded : Bool} {text before call inner : List Char}

/-- The first call stands at the front of a text, or behind its first character. -/
theorem findCall?_cons_cases
    (h : findCall? bounded (c :: text) = some (before, call, inner)) :
    (bounded = true ∧ callAt? (c :: text) = some call ∧ before = []) ∨
      ∃ front, before = c :: front ∧ (if bounded then callAt? (c :: text) else none) = none ∧
        findCall? (!isNameChar c) text = some (front, call, inner) := by
  rw [findCall?] at h
  split at h
  · rename_i hat
    cases h
    cases bounded with
    | false => cases hat
    | true => exact .inl ⟨rfl, hat, rfl⟩
  · rename_i hat
    obtain ⟨⟨front, call', inner'⟩, hrest, hpair⟩ := Option.map_eq_some_iff.1 h
    cases hpair
    exact .inr ⟨front, rfl, hat, hrest⟩

theorem findCall?_cons_eq_none (h : findCall? bounded (c :: text) = none) :
    (if bounded then callAt? (c :: text) else none) = none ∧
      findCall? (!isNameChar c) text = none := by
  rw [findCall?] at h
  split at h
  · cases h
  · rename_i hat
    exact ⟨hat, Option.map_eq_none_iff.1 h⟩

theorem findCall?_cons_of_not (h : (if bounded then callAt? (c :: text) else none) = none) :
    findCall? bounded (c :: text) =
      (findCall? (!isNameChar c) text).map fun found => (c :: found.1, found.2) := by
  rw [findCall?, h]

theorem mem_of_findCall? (h : findCall? bounded text = some (before, call, inner)) :
    call ∈ splitCallNames := by
  induction text generalizing bounded before with
  | nil => cases h
  | cons c text ih =>
    rcases findCall?_cons_cases h with ⟨-, hat, -⟩ | ⟨front, -, -, hrest⟩
    · exact List.mem_of_find?_eq_some hat
    · exact ih hrest

theorem findCall?_call (hcall : call ∈ splitCallNames) (rest : List Char) :
    findCall? true (call ++ rest) = some ([], call, rest) := by
  have hat := callAt?_call hcall rest
  obtain ⟨c, tail, htext⟩ : ∃ c tail, call ++ rest = c :: tail := by
    obtain ⟨name, rfl, -⟩ := call_cases hcall
    exact List.exists_cons_of_ne_nil (by simp)
  have hdrop : (c :: tail).drop call.length = rest := by
    rw [← htext, List.drop_left]
  rw [htext] at hat ⊢
  rw [findCall?, if_pos rfl, hat]
  dsimp only
  rw [hdrop]

/-- Whatever follows a call, it is found behind the same text. -/
theorem findCall?_of_findCall? (h : findCall? bounded text = some (before, call, inner))
    (rest : List Char) : findCall? bounded (before ++ call ++ rest) = some (before, call, rest) := by
  have hcall := mem_of_findCall? h
  obtain ⟨name, hname, -⟩ := call_cases hcall
  induction text generalizing bounded before with
  | nil => cases h
  | cons c text ih =>
    rcases findCall?_cons_cases h with ⟨rfl, -, rfl⟩ | ⟨front, rfl, hat, hrest⟩
    · exact findCall?_call hcall rest
    · have htext := eq_of_findCall? hrest
      have hparen : ∀ rest, c :: (front ++ call ++ rest) = (c :: (front ++ name)) ++ '(' :: rest := by
        intro rest
        rw [hname]
        simp
      have hsame : callAt? (c :: (front ++ call ++ rest)) = callAt? (c :: text) := by
        rw [htext, hparen, hparen, callAt?_append_paren, callAt?_append_paren _ inner]
      rw [← hsame] at hat
      rw [List.cons_append, List.cons_append, findCall?_cons_of_not hat, ih hrest]
      rfl

theorem findCall?_append_of_some (h : findCall? bounded text = some (before, call, inner))
    (more : List Char) : findCall? bounded (text ++ more) = some (before, call, inner ++ more) := by
  have htext := eq_of_findCall? h
  rw [htext, List.append_assoc, findCall?_of_findCall? h]

/-- No call stands in front of the first one. -/
theorem findCall?_before (h : findCall? bounded text = some (before, call, inner)) :
    findCall? bounded before = none := by
  induction text generalizing bounded before with
  | nil => cases h
  | cons c text ih =>
    rcases findCall?_cons_cases h with ⟨-, -, rfl⟩ | ⟨front, rfl, hat, hrest⟩
    · rfl
    · have hfront : (if bounded then callAt? (c :: front) else none) = none := by
        cases bounded with
        | false => rfl
        | true =>
          rw [if_pos rfl, eq_of_findCall? hrest, List.append_assoc, ← List.cons_append] at hat
          exact callAt?_eq_none_of_append hat
      rw [findCall?_cons_of_not hfront, ih hrest]
      rfl

theorem findCall?_append_of_none (hc : Breaks c) (h : findCall? bounded text = none)
    (rest : List Char) : findCall? bounded (text ++ c :: rest) =
      (findCall? true rest).map fun found => (text ++ c :: found.1, found.2) := by
  induction text generalizing bounded with
  | nil =>
    have hat : callAt? (c :: rest) = none := callAt?_append hc [] rest
    rw [List.nil_append, findCall?_cons_of_not (by rw [hat, ite_self]), hc.name]
    rfl
  | cons d text ih =>
    obtain ⟨hat, hrest⟩ := findCall?_cons_eq_none h
    rw [← callAt?_append hc (d :: text) rest, List.cons_append] at hat
    rw [List.cons_append, findCall?_cons_of_not hat, ih hrest, Option.map_map]
    rfl

/-- Blank characters and opening parentheses hold no call. -/
theorem findCall?_of_heads (h : ∀ c ∈ text, isBlank c ∨ c = '(') :
    findCall? bounded text = none := by
  induction text generalizing bounded with
  | nil => rfl
  | cons c text ih =>
    rw [List.forall_mem_cons] at h
    rw [findCall?_cons_of_not (by rw [callAt?_of_head h.1, ite_self]), ih h.2]
    rfl

/-- Blank characters in front of a text make no difference to its first call. -/
theorem findCall?_blanks_append {blanks : List Char} (h : ∀ c ∈ blanks, isBlank c)
    (text : List Char) : findCall? true (blanks ++ text) =
      (findCall? true text).map fun found => (blanks ++ found.1, found.2) := by
  induction blanks with
  | nil => simp
  | cons c blanks ih =>
    rw [List.forall_mem_cons] at h
    have hat : callAt? (c :: (blanks ++ text)) = none := callAt?_of_head (.inl h.1) _
    rw [List.cons_append, findCall?_cons_of_not (by rw [hat, ite_self]),
      (breaks_of_blank h.1).name, Bool.not_false, ih h.2, Option.map_map]
    rfl

theorem findCall?_paren {indent : List Char} (hindent : ∀ c ∈ indent, isBlank c) :
    findCall? bounded (indent ++ ['(']) = none := by
  refine findCall?_of_heads fun c hc => ?_
  rcases List.mem_append.1 hc with hc | hc
  · exact .inl (hindent c hc)
  · exact .inr (List.mem_singleton.1 hc)

end Find

end LogScript.Layout
