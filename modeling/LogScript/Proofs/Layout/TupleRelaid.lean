import LogScript.Proofs.Layout.ListRelaid

/-!
Tuples that are gathered again. A tuple that was laid out takes up other lines than before, but they
stand open to their last, so the same tuple is gathered from them and laid out as before.
-/

namespace LogScript.Layout

section Gather

variable {b : Balance} {q q' : Quoting} {depth depth' : Nat} {text : List Char}

theorem pastText_append (b : Balance) (front text : List Char) :
    b.pastText (front ++ text) = (b.pastText front).pastText text :=
  List.foldl_append

theorem past_of_parenStep {c : Char} (h : parenStep (q, depth) c = some (q', depth')) :
    Balance.past ⟨q, depth + 1⟩ c = ⟨q', depth' + 1⟩ := by
  obtain ⟨rfl, ⟨hcovers | ⟨hopening, hclosing⟩, rfl⟩ |
    ⟨hcovers, ⟨rfl, rfl⟩ | ⟨rfl, rfl⟩⟩⟩ := parenStep_cases h
  · simp [Balance.past, hcovers]
  · simp [Balance.past, hopening, hclosing]
  · simp [Balance.past, hcovers]
  · have hdepth : (depth' : Int) + 1 + 1 + -1 = depth' + 1 := by omega
    simp [Balance.past, hcovers, hdepth]

theorem pastText_of_foldlM (h : text.foldlM parenStep (q, depth) = some (q', depth')) :
    Balance.pastText ⟨q, depth + 1⟩ text = ⟨q', depth' + 1⟩ := by
  induction text generalizing q depth with
  | nil =>
    cases h
    rfl
  | cons c text ih =>
    rw [List.foldlM_cons] at h
    obtain ⟨⟨q₁, depth₁⟩, hstep, hrest⟩ := Option.bind_eq_some_iff.1 h
    rw [Balance.pastText, List.foldl_cons, past_of_parenStep hstep]
    exact ih hrest

/-- Inside parentheses, one is open at least. -/
theorem depth_pos_of_foldlM {s : Quoting × Nat} {front : List Char}
    (h : (front ++ text).foldlM parenStep (q, depth) = some s) :
    0 < (Balance.pastText ⟨q, depth + 1⟩ front).depth := by
  rw [List.foldlM_append] at h
  obtain ⟨⟨q', depth'⟩, hfront, -⟩ := Option.bind_eq_some_iff.1 h
  rw [pastText_of_foldlM hfront]
  dsimp only
  omega

theorem past_of_blank {c : Char} (hc : isBlank c) (depth : Int) :
    Balance.past ⟨.outside, depth⟩ c = ⟨.outside, depth⟩ := by
  rw [Balance.past]
  dsimp only
  rw [covers_of_blank hc, ne_of_isBlank hc (by decide), ne_of_isBlank hc (by decide),
    next_of_isBlank hc]
  simp

theorem pastText_of_blanks {blanks : List Char} (hblanks : ∀ c ∈ blanks, isBlank c) (depth : Int) :
    Balance.pastText ⟨.outside, depth⟩ blanks = ⟨.outside, depth⟩ := by
  induction blanks with
  | nil => rfl
  | cons c blanks ih =>
    rw [List.forall_mem_cons] at hblanks
    rw [Balance.pastText, List.foldl_cons, past_of_blank hblanks.1]
    exact ih hblanks.2

/-- Blank characters open and close nothing. -/
theorem depth_past_blanks {blanks : List Char} (hblanks : ∀ c ∈ blanks, isBlank c) (b : Balance) :
    (b.pastText blanks).depth = b.depth := by
  induction blanks generalizing b with
  | nil => rfl
  | cons c blanks ih =>
    rw [List.forall_mem_cons] at hblanks
    rw [Balance.pastText, List.foldl_cons]
    refine (ih hblanks.2 _).trans ?_
    rw [Balance.past]
    dsimp only
    rw [ne_of_isBlank hblanks.1 (by decide), ne_of_isBlank hblanks.1 (by decide)]
    simp

/-- Lines that stand open to their last, where they are balanced or nothing follows. -/
structure Gathers (b : Balance) (text : List Char) (behind : List (List Char)) : Prop where
  opens : ∀ front rest, text = front ++ '\n' :: rest → 0 < (b.pastText front).depth
  ends : (b.pastText text).depth ≤ 0 ∨ behind = []

variable {line : List Char} {ls behind : List (List Char)}

theorem Gathers.behind_append {front : List Char} (h : Gathers b (front ++ text) behind) :
    Gathers (b.pastText front) text behind where
  opens := by
    intro more rest htext
    rw [← pastText_append]
    exact h.opens _ rest (by rw [htext, List.append_assoc])
  ends := by
    rw [← pastText_append]
    exact h.ends

theorem Gathers.append {front : List Char} (h : Gathers (b.pastText front) text behind)
    (hfront : ∀ more rest, front = more ++ '\n' :: rest → 0 < (b.pastText more).depth) :
    Gathers b (front ++ text) behind where
  opens := by
    intro more rest htext
    rcases List.append_eq_append_iff.1 htext with ⟨tail, rfl, htail⟩ | ⟨tail, hmore, htail⟩
    · rw [pastText_append]
      exact h.opens tail rest htail
    · cases tail with
      | nil =>
        rw [List.append_nil] at hmore
        have hdeep := h.opens [] rest htail.symm
        rwa [hmore] at hdeep
      | cons c tail =>
        obtain rfl : '\n' = c := (List.cons.inj htail).1
        exact hfront more tail hmore
  ends := by
    rw [pastText_append]
    exact h.ends

/-- The lines that were gathered, each behind its line feed, stand open to their last. -/
theorem gathers_gatherLines (b : Balance) (h : ∀ line ∈ ls, '\n' ∉ line) :
    Gathers b ((gatherLines b ls).1.flatMap ('\n' :: ·)) (gatherLines b ls).2 := by
  induction ls generalizing b with
  | nil => exact ⟨fun front rest htext => by simp [gatherLines] at htext, .inr rfl⟩
  | cons line ls ih =>
    rw [List.forall_mem_cons] at h
    rw [gatherLines]
    split
    · rename_i hdepth
      exact ⟨fun front rest htext => by simp at htext, .inl hdepth⟩
    · rename_i hdepth
      have hrest : Gathers (b.pastText ('\n' :: line)) _ _ := ih ((b.past '\n').pastText line) h.2
      rw [List.flatMap_cons]
      refine hrest.append fun more rest hmore => ?_
      cases more with
      | nil => exact Int.not_le.1 hdepth
      | cons c more =>
        rw [List.cons_append, List.cons.injEq] at hmore
        rw [hmore.2] at h
        exact absurd (List.mem_append_right _ List.mem_cons_self) h.1

/-- Lines that stand open to their last are gathered. -/
theorem gatherLines_of_gathers (h : Gathers b (ls.flatMap ('\n' :: ·)) behind) :
    gatherLines b (ls ++ behind) = (ls, behind) := by
  induction ls generalizing b with
  | nil =>
    rcases h.ends with hdepth | rfl
    · cases behind with
      | nil => rfl
      | cons line ls => exact if_pos hdepth
    · rfl
  | cons line ls ih =>
    have hdepth : ¬b.depth ≤ 0 := Int.not_le.2 (h.opens [] _ rfl)
    rw [List.flatMap_cons] at h
    have hrest : gatherLines ((b.past '\n').pastText line) (ls ++ behind) = (ls, behind) :=
      ih h.behind_append
    rw [List.cons_append, gatherLines, if_neg hdepth, hrest]

theorem joinLines_eq (line : List Char) (ls : List (List Char)) :
    joinLines (line :: ls) = line ++ ls.flatMap ('\n' :: ·) := by
  induction ls generalizing line with
  | nil => simp [joinLines]
  | cons next ls ih =>
    rw [joinLines_cons (List.cons_ne_nil _ _), ih, List.flatMap_cons, List.cons_append]

/-- The block of a tuple that opens a line. -/
theorem gathers_block (hline : '\n' ∉ line) (hls : ∀ line ∈ ls, '\n' ∉ line) :
    Gathers {} (joinLines (line :: (gatherLines (Balance.pastText {} line) ls).1))
      (gatherLines (Balance.pastText {} line) ls).2 := by
  rw [joinLines_eq]
  refine (gathers_gatherLines _ hls).append fun more rest hmore => ?_
  rw [hmore] at hline
  exact absurd (List.mem_append_right _ List.mem_cons_self) hline

theorem splitTuples_of_gathers (hopens : opensTuple line)
    (h : Gathers {} (joinLines (line :: ls)) behind) :
    splitTuples (line :: ls ++ behind) = layoutTuple (joinLines (line :: ls)) ++ splitTuples behind := by
  rw [joinLines_eq] at h
  have hgather := gatherLines_of_gathers h.behind_append
  rw [List.cons_append, splitTuples, if_pos hopens, hgather]

theorem Gathers.of_trim (h : Gathers {} text behind) : Gathers {} (trim text) behind := by
  obtain ⟨blanks, htext, hblanks⟩ := exists_trim_append text
  have hindent : Balance.pastText {} (indentOf text) = {} :=
    pastText_of_blanks (blank_of_mem_indentOf text) 0
  rw [htext] at h
  have hrest := h.behind_append
  rw [hindent] at hrest
  constructor
  · intro front rest htext
    exact hrest.opens front (rest ++ blanks) (by rw [htext, List.append_assoc]; rfl)
  · rw [← depth_past_blanks hblanks, ← pastText_append]
    exact hrest.ends

variable {indent body list after : List Char}

theorem pastText_paren (hindent : ∀ c ∈ indent, isBlank c) (text : List Char) :
    Balance.pastText {} (indent ++ '(' :: text) = Balance.pastText ⟨.outside, (0 : Nat) + 1⟩ text := by
  rw [pastText_append]
  rw [pastText_of_blanks hindent]
  rfl

theorem pastText_parens (hindent : ∀ c ∈ indent, isBlank c)
    (hlist : list.foldlM parenStep (.outside, 0) = some (.outside, 0)) :
    Balance.pastText {} (indent ++ '(' :: (list ++ [')'])) = {} := by
  rw [pastText_paren hindent, pastText_append, pastText_of_foldlM hlist]
  rfl

/-- Where a line feed stands in a text around another character. -/
theorem lineFeed_cases {c : Char} {front text more rest : List Char} (hc : c ≠ '\n')
    (h : front ++ c :: text = more ++ '\n' :: rest) :
    (∃ tail, front = more ++ '\n' :: tail) ∨
      ∃ inner, more = front ++ c :: inner ∧ text = inner ++ '\n' :: rest := by
  rcases List.append_eq_append_iff.1 h with ⟨tail, rfl, htail⟩ | ⟨tail, rfl, htail⟩
  · cases tail with
    | nil => exact absurd (List.cons.inj htail).1 hc
    | cons d tail =>
      obtain ⟨rfl, rfl⟩ := List.cons.inj htail
      exact .inr ⟨tail, rfl, rfl⟩
  · cases tail with
    | nil => exact absurd (List.cons.inj htail).1.symm hc
    | cons d tail =>
      obtain ⟨rfl, -⟩ := List.cons.inj htail
      exact .inl ⟨tail, rfl⟩

/-- The block of a tuple whose list is spread out in another way. -/
theorem Gathers.relaid {behind' : List (List Char)}
    (h : Gathers {} (indent ++ '(' :: (body ++ ')' :: after)) behind)
    (hindent : ∀ c ∈ indent, isBlank c) (hline : '\n' ∉ indent)
    (hbody : body.foldlM parenStep (.outside, 0) = some (.outside, 0))
    (hlist : list.foldlM parenStep (.outside, 0) = some (.outside, 0))
    (hbehind : behind = [] → behind' = []) :
    Gathers {} (indent ++ '(' :: (list ++ ')' :: trim after)) behind' := by
  have hparts : ∀ list after : List Char, indent ++ '(' :: (list ++ ')' :: after) =
      (indent ++ '(' :: (list ++ [')'])) ++ after := by
    intro list after
    simp
  rw [hparts] at h ⊢
  have hafter := h.behind_append
  rw [pastText_parens hindent hbody] at hafter
  have hends : Gathers (Balance.pastText {} (indent ++ '(' :: (list ++ [')']))) (trim after) behind' := by
    rw [pastText_parens hindent hlist]
    exact ⟨hafter.of_trim.opens, hafter.of_trim.ends.imp id hbehind⟩
  refine hends.append fun more rest hmore => ?_
  rcases lineFeed_cases (by decide) hmore with ⟨tail, htail⟩ | ⟨inner, rfl, hinner⟩
  · rw [htail] at hline
    exact absurd (List.mem_append_right _ List.mem_cons_self) hline
  rcases lineFeed_cases (by decide) hinner with ⟨tail, rfl⟩ | ⟨more, -, hnil⟩
  · rw [pastText_paren hindent]
    exact depth_pos_of_foldlM hlist
  · cases more <;> cases hnil

theorem layoutTuple_eq (hindent : ∀ c ∈ indent, isBlank c)
    (hbody : body.foldlM parenStep (.outside, 0) = some (.outside, 0))
    (hitems : (Arguments.ofText body).items ≠ []) :
    layoutTuple (indent ++ '(' :: (body ++ ')' :: after)) =
      indent ++ '(' :: '\n' :: (argumentLines (indent ++ indentStep)
        (Arguments.ofText body).trailingComma (Arguments.ofText body).items ++
          (indent ++ ')' :: (trim after ++ ['\n']))) := by
  have hdrop : (indent ++ '(' :: (body ++ ')' :: after)).drop (indent.length + 1) =
      body ++ ')' :: after := by
    rw [List.drop_length_add_append]
    rfl
  rw [layoutTuple, indentOf_append hindent (by decide), hdrop, splitClosing_of_foldlM hbody]
  dsimp only
  rw [if_neg (by simpa using hitems)]
  simp

/-- A tuple whose list is spread out in another way, from a line feed on, is laid out as before. -/
theorem splitTuples_relaid
    (h : Gathers {} (indent ++ '(' :: (body ++ ')' :: after)) behind)
    (hindent : ∀ c ∈ indent, isBlank c) (hline : '\n' ∉ indent)
    (hbody : body.foldlM parenStep (.outside, 0) = some (.outside, 0))
    (hitems : (Arguments.ofText body).items ≠ [])
    (hlist : ('\n' :: list).foldlM parenStep (.outside, 0) = some (.outside, 0))
    (hsame : Arguments.ofText ('\n' :: list) = Arguments.ofText body)
    (text : List Char) (hbehind : behind = [] → lines text = []) :
    splitTuples (lines (indent ++ '(' :: ('\n' :: list ++ ')' :: trim after) ++ '\n' :: text)) =
      layoutTuple (indent ++ '(' :: (body ++ ')' :: after)) ++ splitTuples (lines text) := by
  obtain ⟨more, hmore⟩ : ∃ more, more = list ++ ')' :: trim after := ⟨_, rfl⟩
  have hblock : indent ++ '(' :: ('\n' :: list ++ ')' :: trim after) =
      (indent ++ ['(']) ++ '\n' :: more := by
    rw [hmore]
    simp
  have hhead : '\n' ∉ indent ++ ['('] := by simpa using hline
  have hlines : lines ((indent ++ ['(']) ++ '\n' :: more ++ ['\n']) =
      (indent ++ ['(']) :: lines (more ++ ['\n']) := by
    rw [List.append_assoc, List.cons_append, lines_of_not_mem hhead]
  have hjoin := joinLines_lines ((indent ++ ['(']) ++ '\n' :: more)
  rw [hlines] at hjoin
  have hopens : opensTuple (indent ++ ['(']) := by
    rw [opensTuple, trimStart_append_of_blanks hindent]
    decide
  have hgathers := h.relaid hindent hline hbody hlist hbehind
  rw [hblock, ← hjoin] at hgathers
  rw [lines_append_lineFeed, hblock, hlines, splitTuples_of_gathers hopens hgathers, hjoin, ← hblock,
    layoutTuple_eq hindent hlist (by rwa [hsame]), layoutTuple_eq hindent hbody hitems, hsame,
    trim_trim]

end Gather

end LogScript.Layout
