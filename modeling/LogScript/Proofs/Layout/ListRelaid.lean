import LogScript.Proofs.Layout.Trimmed
import LogScript.Proofs.Layout.WplVisible

/-!
Bracketed lists that are read again. The layout looks for the closing parenthesis and for the
commas outside literals, where blank characters make no difference. A list whose items have other
blank characters around them is therefore closed by the same parenthesis and read as the same items.
-/

namespace LogScript.Layout

/-- One step inside parentheses: how the next character stands to literals and how many more
parentheses are open. There is none past the closing parenthesis. -/
def parenStep (s : Quoting × Nat) (c : Char) : Option (Quoting × Nat) :=
  if s.1.covers c then some (s.1.next c, s.2)
  else if c == '(' then some (s.1.next c, s.2 + 1)
  else if c == ')' then if s.2 = 0 then none else some (s.1.next c, s.2 - 1)
  else some (s.1.next c, s.2)

/-- One step inside a piece of a list, with the depth of nesting. There is none past the comma that
ends the piece. -/
def pieceStep (s : Quoting × Nat) (c : Char) : Option (Quoting × Nat) :=
  if s.1.covers c then some (s.1.next c, s.2)
  else if c == ',' && s.2 == 0 then none
  else some (s.1.next c, nesting s.2 c)

section Step

variable {q q' : Quoting} {depth depth' : Nat} {c : Char}

theorem parenStep_cases (h : parenStep (q, depth) c = some (q', depth')) :
    q' = q.next c ∧ ((q.covers c ∨ c ≠ '(' ∧ c ≠ ')') ∧ depth' = depth ∨
      q.covers c = false ∧ (c = '(' ∧ depth' = depth + 1 ∨ c = ')' ∧ depth = depth' + 1)) := by
  unfold parenStep at h
  dsimp only at h
  split at h
  · rename_i hcovers
    cases h
    exact ⟨rfl, .inl ⟨.inl hcovers, rfl⟩⟩
  rename_i hcovers
  rw [Bool.not_eq_true] at hcovers
  split at h
  · rename_i hopening
    cases h
    exact ⟨rfl, .inr ⟨hcovers, .inl ⟨eq_of_beq hopening, rfl⟩⟩⟩
  rename_i hopening
  split at h
  · rename_i hclosing
    split at h <;> cases h
    exact ⟨rfl, .inr ⟨hcovers, .inr ⟨eq_of_beq hclosing, by omega⟩⟩⟩
  · rename_i hclosing
    cases h
    exact ⟨rfl, .inl ⟨.inr ⟨by simpa using hopening, by simpa using hclosing⟩, rfl⟩⟩

/-- Nothing but the closing parenthesis is stepped over. -/
theorem eq_of_parenStep_eq_none (h : parenStep (q, depth) c = none) :
    c = ')' ∧ q = .outside ∧ depth = 0 := by
  unfold parenStep at h
  dsimp only at h
  split at h
  · cases h
  rename_i hcovers
  split at h
  · cases h
  split at h
  · rename_i hclosing
    split at h
    · rename_i hdepth
      exact ⟨eq_of_beq hclosing, Quoting.eq_outside_of_not_covers (by simpa using hcovers), hdepth⟩
    · cases h
  · cases h

theorem splitClosing_of_parenStep (h : parenStep (q, depth) c = some (q', depth'))
    (rest : List Char) : splitClosing '(' ')' q depth (c :: rest) =
      (splitClosing '(' ')' q' depth' rest).map fun r => (c :: r.1, r.2) := by
  obtain ⟨rfl, ⟨hcovers | ⟨hopening, hclosing⟩, rfl⟩ |
    ⟨hcovers, ⟨rfl, rfl⟩ | ⟨rfl, rfl⟩⟩⟩ := parenStep_cases h
  · simp [splitClosing, hcovers]
  · simp [splitClosing, hopening, hclosing]
  · simp [splitClosing, hcovers]
  · simp [splitClosing, hcovers]

theorem pieceStep_cases (h : pieceStep (q, depth) c = some (q', depth')) :
    q' = q.next c ∧ (q.covers c ∧ depth' = depth ∨
      q.covers c = false ∧ (c == ',' && depth == 0) = false ∧ depth' = nesting depth c) := by
  unfold pieceStep at h
  dsimp only at h
  split at h
  · rename_i hcovers
    cases h
    exact ⟨rfl, .inl ⟨hcovers, rfl⟩⟩
  rename_i hcovers
  split at h
  · cases h
  · rename_i hcomma
    cases h
    exact ⟨rfl, .inr ⟨by simpa using hcovers, by simpa using hcomma, rfl⟩⟩

theorem eq_of_pieceStep_eq_none (h : pieceStep (q, depth) c = none) :
    c = ',' ∧ q = .outside ∧ depth = 0 := by
  unfold pieceStep at h
  dsimp only at h
  split at h
  · cases h
  rename_i hcovers
  split at h
  · rename_i hcomma
    rw [Bool.and_eq_true, beq_iff_eq, beq_iff_eq] at hcomma
    exact ⟨hcomma.1, Quoting.eq_outside_of_not_covers (by simpa using hcovers), hcomma.2⟩
  · cases h

theorem commaPieces_of_pieceStep (h : pieceStep (q, depth) c = some (q', depth'))
    (rest : List Char) :
    commaPieces q depth (c :: rest) = consHead c (commaPieces q' depth' rest) := by
  obtain ⟨rfl, ⟨hcovers, rfl⟩ | ⟨hcovers, hcomma, rfl⟩⟩ := pieceStep_cases h
  · rw [commaPieces, if_pos hcovers]
  · rw [commaPieces, hcovers, hcomma, Quoting.next_of_not_covers hcovers]
    rfl

end Step

/-- Steps that follow the literals and pass over blank characters. -/
structure Follows (step : Quoting × Nat → Char → Option (Quoting × Nat)) : Prop where
  quoting : ∀ {s s' c}, step s c = some s' → s'.1 = s.1.next c
  blank : ∀ {depth c}, isBlank c → step (.outside, depth) c = some (.outside, depth)

theorem ne_of_isBlank {c d : Char} (hc : isBlank c) (hd : isBlank d = false) : (c == d) = false :=
  beq_false_of_ne (ne_of_accepts hc hd)

theorem covers_of_blank {c : Char} (hc : isBlank c) : Quoting.outside.covers c = false := by
  rw [Quoting.covers, ne_of_isBlank hc (by decide)]
  rfl

theorem next_of_isBlank {c : Char} (hc : isBlank c) : Quoting.outside.next c = .outside :=
  Quoting.next_of_not_covers (covers_of_blank hc)

theorem follows_parenStep : Follows parenStep where
  quoting := fun h => (parenStep_cases h).1
  blank := by
    intro depth c hc
    rw [parenStep, covers_of_blank hc, ne_of_isBlank hc (by decide), ne_of_isBlank hc (by decide),
      next_of_isBlank hc]
    rfl

theorem depth_of_parenStep_blank {q q' : Quoting} {depth depth' : Nat} {c : Char} (hc : isBlank c)
    (h : parenStep (q, depth) c = some (q', depth')) : depth' = depth := by
  obtain ⟨-, ⟨-, rfl⟩ | ⟨-, ⟨rfl, -⟩ | ⟨rfl, -⟩⟩⟩ := parenStep_cases h
  · rfl
  · exact absurd hc (by decide)
  · exact absurd hc (by decide)

theorem nesting_of_blank {c : Char} (hc : isBlank c) (depth : Nat) : nesting depth c = depth := by
  have hne : ∀ d : Char, isBlank d = false → (c == d) = false := fun _ hd => ne_of_isBlank hc hd
  rw [nesting]
  simp only [hne '(' (by decide), hne '[' (by decide), hne '\x7b' (by decide), hne '<' (by decide),
    hne ')' (by decide), hne ']' (by decide), hne '\x7d' (by decide), hne '>' (by decide)]
  rfl

theorem follows_pieceStep : Follows pieceStep where
  quoting := fun h => (pieceStep_cases h).1
  blank := by
    intro depth c hc
    rw [pieceStep, covers_of_blank hc, ne_of_isBlank hc (by decide), nesting_of_blank hc,
      next_of_isBlank hc]
    rfl

section Follows

variable {step : Quoting × Nat → Char → Option (Quoting × Nat)} {s s' : Quoting × Nat}
  {depth depth' : Nat} {text : List Char}

theorem Follows.quoting_foldlM (h : Follows step) (htext : text.foldlM step s = some s') :
    s'.1 = text.foldl Quoting.next s.1 := by
  induction text generalizing s with
  | nil =>
    cases htext
    rfl
  | cons c text ih =>
    rw [List.foldlM_cons] at htext
    obtain ⟨s₁, hstep, hrest⟩ := Option.bind_eq_some_iff.1 htext
    rw [List.foldl_cons, ← h.quoting hstep]
    exact ih hrest

theorem Follows.foldlM_blanks (h : Follows step) {blanks : List Char}
    (hblanks : ∀ c ∈ blanks, isBlank c) (depth : Nat) :
    blanks.foldlM step (.outside, depth) = some (.outside, depth) := by
  induction blanks with
  | nil => rfl
  | cons c blanks ih =>
    rw [List.forall_mem_cons] at hblanks
    rw [List.foldlM_cons, h.blank hblanks.1]
    exact ih hblanks.2

/-- Blank characters end no literal. -/
theorem foldl_next_blanks {blanks : List Char} (hblanks : ∀ c ∈ blanks, isBlank c) {q : Quoting}
    (h : blanks.foldl Quoting.next q = .outside) : q = .outside := by
  induction blanks generalizing q with
  | nil => exact h
  | cons c blanks ih =>
    rw [List.forall_mem_cons] at hblanks
    have hnext := ih hblanks.2 h
    cases q with
    | outside => rfl
    | inside =>
      rw [Quoting.next, ne_of_isBlank hblanks.1 (by decide : isBlank '"' = false)] at hnext
      split at hnext <;> cases hnext
    | escaped => cases hnext

theorem Follows.foldlM_append_blanks (h : Follows step) {blanks : List Char}
    (hblanks : ∀ c ∈ blanks, isBlank c) :
    (text ++ blanks).foldlM step s = some (.outside, depth) ↔
      text.foldlM step s = some (.outside, depth) := by
  rw [List.foldlM_append]
  constructor
  · intro hall
    obtain ⟨⟨q, d⟩, htext, hrest⟩ := Option.bind_eq_some_iff.1 hall
    obtain rfl : q = .outside := foldl_next_blanks hblanks (h.quoting_foldlM hrest).symm
    rw [h.foldlM_blanks hblanks] at hrest
    rw [htext, hrest]
  · intro htext
    rw [htext]
    exact h.foldlM_blanks hblanks depth

/-- Trimming makes no difference to a text between two places outside literals. -/
theorem Follows.foldlM_trim (h : Follows step) :
    (trim text).foldlM step (.outside, depth) = some (.outside, depth') ↔
      text.foldlM step (.outside, depth) = some (.outside, depth') := by
  obtain ⟨blanks, htext, hblanks⟩ := exists_trim_append text
  conv => rhs; rw [htext]
  rw [List.foldlM_append, h.foldlM_blanks (blank_of_mem_indentOf text)]
  exact (h.foldlM_append_blanks hblanks).symm

theorem Follows.foldlM_of_trim_eq (h : Follows step) {text' : List Char}
    (htrim : trim text' = trim text)
    (htext : text.foldlM step (.outside, depth) = some (.outside, depth')) :
    text'.foldlM step (.outside, depth) = some (.outside, depth') := by
  rwa [← h.foldlM_trim, htrim, h.foldlM_trim]

end Follows

section Lists

variable {q : Quoting} {depth : Nat} {text body after : List Char}

theorem foldlM_parenStep_of_splitClosing
    (h : splitClosing '(' ')' q depth text = some (body, after)) :
    body.foldlM parenStep (q, depth) = some (.outside, 0) := by
  induction text generalizing q depth body with
  | nil => cases h
  | cons c rest ih =>
    cases hstep : parenStep (q, depth) c with
    | none =>
      obtain ⟨rfl, rfl, rfl⟩ := eq_of_parenStep_eq_none hstep
      cases h
      rfl
    | some s =>
      rw [splitClosing_of_parenStep hstep] at h
      obtain ⟨⟨body', after'⟩, hrest, hpair⟩ := Option.map_eq_some_iff.1 h
      cases hpair
      rw [List.foldlM_cons, hstep]
      exact ih hrest

theorem splitClosing_of_foldlM (h : body.foldlM parenStep (q, depth) = some (.outside, 0))
    (after : List Char) :
    splitClosing '(' ')' q depth (body ++ ')' :: after) = some (body, after) := by
  induction body generalizing q depth with
  | nil =>
    cases h
    rfl
  | cons c body ih =>
    rw [List.foldlM_cons] at h
    obtain ⟨s, hstep, hrest⟩ := Option.bind_eq_some_iff.1 h
    rw [List.cons_append, splitClosing_of_parenStep hstep, ih hrest]
    rfl

/-- Pieces that commas part: they end outside literals, and all but the last outside brackets. -/
def Pieces (s : Quoting × Nat) : List (List Char) → Prop
  | [] => False
  | [piece] => ∃ depth, piece.foldlM pieceStep s = some (.outside, depth)
  | piece :: pieces =>
    piece.foldlM pieceStep s = some (.outside, 0) ∧ Pieces (.outside, 0) pieces

theorem Pieces.consHead {s s' : Quoting × Nat} {c : Char} {pieces : List (List Char)}
    (hstep : pieceStep s c = some s') (h : Pieces s' pieces) : Pieces s (consHead c pieces) := by
  have hcons : ∀ piece : List Char, (c :: piece).foldlM pieceStep s = piece.foldlM pieceStep s' := by
    intro piece
    rw [List.foldlM_cons, hstep]
    rfl
  cases pieces with
  | nil => exact h.elim
  | cons piece pieces =>
    cases pieces with
    | nil =>
      obtain ⟨depth, hpiece⟩ := h
      exact ⟨depth, (hcons piece).trans hpiece⟩
    | cons next pieces => exact ⟨(hcons piece).trans h.1, h.2⟩

theorem pieces_commaPieces (h : text.foldl Quoting.next q = .outside) :
    Pieces (q, depth) (commaPieces q depth text) := by
  induction text generalizing q depth with
  | nil =>
    obtain rfl : q = .outside := h
    exact ⟨depth, rfl⟩
  | cons c rest ih =>
    cases hstep : pieceStep (q, depth) c with
    | none =>
      obtain ⟨rfl, rfl, rfl⟩ := eq_of_pieceStep_eq_none hstep
      have hcomma : commaPieces .outside 0 (',' :: rest) = [] :: commaPieces .outside 0 rest := rfl
      have hrest : Pieces (.outside, 0) (commaPieces .outside 0 rest) := ih h
      obtain ⟨piece, pieces, hpieces⟩ :=
        List.exists_cons_of_ne_nil (commaPieces_ne_nil .outside 0 rest)
      rw [hpieces] at hrest
      rw [hcomma, hpieces]
      exact ⟨rfl, hrest⟩
    | some s =>
      obtain ⟨q', depth'⟩ := s
      obtain rfl : q' = q.next c := (pieceStep_cases hstep).1
      rw [commaPieces_of_pieceStep hstep]
      exact (ih h).consHead hstep

theorem commaPieces_of_foldlM {s : Quoting × Nat} (h : text.foldlM pieceStep (q, depth) = some s) :
    commaPieces q depth text = [text] := by
  induction text generalizing q depth with
  | nil => rfl
  | cons c rest ih =>
    rw [List.foldlM_cons] at h
    obtain ⟨s', hstep, hrest⟩ := Option.bind_eq_some_iff.1 h
    rw [commaPieces_of_pieceStep hstep, ih hrest]
    rfl

theorem commaPieces_append_comma (h : text.foldlM pieceStep (q, depth) = some (.outside, 0))
    (rest : List Char) :
    commaPieces q depth (text ++ ',' :: rest) = text :: commaPieces .outside 0 rest := by
  induction text generalizing q depth with
  | nil =>
    cases h
    rfl
  | cons c text ih =>
    rw [List.foldlM_cons] at h
    obtain ⟨s, hstep, hrest⟩ := Option.bind_eq_some_iff.1 h
    rw [List.cons_append, commaPieces_of_pieceStep hstep, ih hrest]
    rfl

theorem commaPieces_intercalate {pieces : List (List Char)} (h : Pieces (q, depth) pieces) :
    commaPieces q depth ([','].intercalate pieces) = pieces := by
  induction pieces generalizing q depth with
  | nil => exact h.elim
  | cons piece pieces ih =>
    cases pieces with
    | nil =>
      obtain ⟨depth', hpiece⟩ := h
      rw [List.intercalate_singleton]
      exact commaPieces_of_foldlM hpiece
    | cons next pieces =>
      rw [List.intercalate_cons_cons, List.append_assoc, List.singleton_append,
        commaPieces_append_comma h.1, ih h.2]

/-- Pieces with the same items inside blank characters. -/
theorem Pieces.of_map_trim {pieces pieces' : List (List Char)}
    (htrim : pieces'.map trim = pieces.map trim) (h : Pieces (.outside, depth) pieces) :
    Pieces (.outside, depth) pieces' := by
  induction pieces generalizing pieces' depth with
  | nil => exact h.elim
  | cons piece pieces ih =>
    cases pieces' with
    | nil => cases htrim
    | cons piece' pieces' =>
      rw [List.map_cons, List.map_cons, List.cons.injEq] at htrim
      cases pieces with
      | nil =>
        obtain ⟨depth', h⟩ := h
        rw [List.map_nil, List.map_eq_nil_iff] at htrim
        rw [htrim.2]
        exact ⟨depth', follows_pieceStep.foldlM_of_trim_eq htrim.1 h⟩
      | cons next pieces =>
        have hrest := ih htrim.2 h.2
        cases pieces' with
        | nil => exact hrest.elim
        | cons next' pieces' => exact ⟨follows_pieceStep.foldlM_of_trim_eq htrim.1 h.1, hrest⟩

/-- Blank characters around the items make no difference to the parentheses either. -/
theorem foldlM_parenStep_intercalate {pieces pieces' : List (List Char)} {level level' : Nat}
    (htrim : pieces'.map trim = pieces.map trim) (hpieces : Pieces (.outside, depth) pieces)
    (h : ([','].intercalate pieces).foldlM parenStep (.outside, level) = some (.outside, level')) :
    ([','].intercalate pieces').foldlM parenStep (.outside, level) = some (.outside, level') := by
  induction pieces generalizing pieces' depth level with
  | nil => exact hpieces.elim
  | cons piece pieces ih =>
    cases pieces' with
    | nil => cases htrim
    | cons piece' pieces' =>
      rw [List.map_cons, List.map_cons, List.cons.injEq] at htrim
      cases pieces with
      | nil =>
        rw [List.map_nil, List.map_eq_nil_iff] at htrim
        rw [List.intercalate_singleton] at h
        rw [htrim.2, List.intercalate_singleton]
        exact follows_parenStep.foldlM_of_trim_eq htrim.1 h
      | cons next pieces =>
        cases pieces' with
        | nil => cases htrim.2
        | cons next' pieces' =>
          have hcomma : ∀ level, parenStep (.outside, level) ',' = some (.outside, level) :=
            fun _ => rfl
          rw [List.intercalate_cons_cons, List.append_assoc, List.singleton_append,
            List.foldlM_append] at h
          obtain ⟨⟨q, level₁⟩, hfirst, hrest⟩ := Option.bind_eq_some_iff.1 h
          obtain rfl : q = .outside := (follows_parenStep.quoting_foldlM hfirst).trans
            (follows_pieceStep.quoting_foldlM hpieces.1).symm
          rw [List.foldlM_cons, hcomma] at hrest
          rw [List.intercalate_cons_cons, List.append_assoc, List.singleton_append,
            List.foldlM_append, follows_parenStep.foldlM_of_trim_eq htrim.1 hfirst]
          exact ih htrim.2 hpieces.2 hrest

/-- The text is a list of these items, with commas between them and blank characters around. -/
def Spread (items : List (List Char)) (text : List Char) : Prop :=
  ∃ pieces : List (List Char), pieces.map trim = items ∧ text = [','].intercalate pieces

theorem Spread.blanks_append {items : List (List Char)} {blanks : List Char}
    (h : Spread items text) (hne : items ≠ []) (hblanks : ∀ c ∈ blanks, isBlank c) :
    Spread items (blanks ++ text) := by
  obtain ⟨pieces, rfl, rfl⟩ := h
  cases pieces with
  | nil => exact absurd rfl hne
  | cons piece pieces =>
    refine ⟨(blanks ++ piece) :: pieces, ?_, ?_⟩
    · rw [List.map_cons, List.map_cons, trim_blanks_append hblanks]
    · cases pieces with
      | nil => simp
      | cons next pieces => simp [List.intercalate_cons_cons]

theorem Spread.append_blanks {items : List (List Char)} {blanks : List Char}
    (h : Spread items text) (hne : items ≠ []) (hblanks : ∀ c ∈ blanks, isBlank c) :
    Spread items (text ++ blanks) := by
  obtain ⟨pieces, rfl, rfl⟩ := h
  induction pieces with
  | nil => exact absurd rfl hne
  | cons piece pieces ih =>
    cases pieces with
    | nil =>
      refine ⟨[piece ++ blanks], ?_, by simp⟩
      rw [List.map_cons, List.map_cons, trim_append_blanks _ hblanks]
    | cons next pieces =>
      obtain ⟨pieces', htrim, hjoin⟩ := ih (by simp)
      cases pieces' with
      | nil => cases htrim
      | cons next' pieces' =>
        refine ⟨piece :: next' :: pieces', by rw [List.map_cons, htrim]; rfl, ?_⟩
        rw [List.intercalate_cons_cons, List.intercalate_cons_cons, ← hjoin]
        simp

/-- A list that is spread out is closed where the list was, and read as the same arguments. -/
theorem Spread.relaid {list : List Char}
    (h : Spread ((commaPieces .outside 0 body).map trim) list)
    (hclose : splitClosing '(' ')' .outside 0 text = some (body, after)) :
    list.foldlM parenStep (.outside, 0) = some (.outside, 0) ∧
      Arguments.ofText list = Arguments.ofText body := by
  obtain ⟨pieces, htrim, rfl⟩ := h
  have hbody := foldlM_parenStep_of_splitClosing hclose
  have hpieces : Pieces (.outside, 0) (commaPieces .outside 0 body) :=
    pieces_commaPieces (follows_parenStep.quoting_foldlM hbody).symm
  constructor
  · apply foldlM_parenStep_intercalate htrim hpieces
    rwa [intercalate_commaPieces]
  · rw [Arguments.ofText, Arguments.ofText, commaPieces_intercalate (hpieces.of_map_trim htrim),
      htrim]

/-- Items on lines of their own, up to the indentation of the closing parenthesis. -/
theorem Spread.relaid_lines {list indent : List Char}
    (h : Spread ((Arguments.ofText body).items ++
      if (Arguments.ofText body).trailingComma then [[]] else []) list)
    (hitems : (Arguments.ofText body).items ≠ [])
    (hclose : splitClosing '(' ')' .outside 0 text = some (body, after))
    (hindent : ∀ c ∈ indent, isBlank c) :
    ('\n' :: (list ++ indent)).foldlM parenStep (.outside, 0) = some (.outside, 0) ∧
      Arguments.ofText ('\n' :: (list ++ indent)) = Arguments.ofText body := by
  have hne : (commaPieces .outside 0 body).map trim ≠ [] := by
    simpa using commaPieces_ne_nil .outside 0 body
  rw [items_ofText hitems] at h
  exact ((h.append_blanks hne hindent).blanks_append hne blank_of_mem_lineFeed).relaid hclose

theorem spread_singleton (item : List Char) : Spread [trim item] item :=
  ⟨[item], rfl, List.intercalate_singleton.symm⟩

theorem Spread.comma {items : List (List Char)} (h : Spread items text) (hne : items ≠ [])
    (piece : List Char) : Spread (trim piece :: items) (piece ++ ',' :: text) := by
  obtain ⟨pieces, rfl, rfl⟩ := h
  cases pieces with
  | nil => exact absurd rfl hne
  | cons next pieces =>
    refine ⟨piece :: next :: pieces, rfl, ?_⟩
    rw [List.intercalate_cons_cons, List.append_assoc, List.singleton_append]

/-- The lines of a list with blank characters in front of its commas. -/
theorem spread_item {indent item gap : List Char} {items : List (List Char)}
    (hindent : ∀ c ∈ indent, isBlank c) (hitem : trim item = item) (hgap : ∀ c ∈ gap, isBlank c)
    (h : Spread items text) (hne : items ≠ []) :
    Spread (item :: items) (indent ++ item ++ (gap ++ ',' :: '\n' :: text)) := by
  have htrim : trim (indent ++ item ++ gap) = item := by
    rw [trim_append_blanks _ hgap, trim_blanks_append hindent, hitem]
  have hspread := (h.blanks_append hne blank_of_mem_lineFeed).comma hne (indent ++ item ++ gap)
  rw [htrim] at hspread
  simpa using hspread

theorem trim_of_mem_items {body item : List Char} (h : item ∈ (Arguments.ofText body).items) :
    trim item = item := by
  have hitem : item ∈ (commaPieces .outside 0 body).map trim := by
    have hne := List.ne_nil_of_mem h
    rw [← items_ofText hne]
    exact List.mem_append_left _ h
  obtain ⟨piece, -, rfl⟩ := List.mem_map.1 hitem
  exact trim_trim piece

theorem spread_argumentLines {indent : List Char} {items : List (List Char)}
    (hindent : ∀ c ∈ indent, isBlank c) (hitems : ∀ item ∈ items, trim item = item)
    (hne : items ≠ []) (trailingComma : Bool) :
    Spread (items ++ if trailingComma then [[]] else [])
      (argumentLines indent trailingComma items) := by
  induction items with
  | nil => exact absurd rfl hne
  | cons item items ih =>
    rw [List.forall_mem_cons] at hitems
    have hgap : ∀ c ∈ ([] : List Char), isBlank c := fun _ hc => absurd hc List.not_mem_nil
    cases items with
    | nil =>
      cases trailingComma with
      | true =>
        have hempty : Spread [[]] [] := spread_singleton []
        have hlist := spread_item hindent hitems.1 hgap hempty (List.cons_ne_nil _ _)
        simpa [argumentLines] using hlist
      | false =>
        have hlist := spread_singleton (indent ++ item ++ ['\n'])
        rw [trim_append_blanks _ blank_of_mem_lineFeed, trim_blanks_append hindent, hitems.1] at hlist
        simpa [argumentLines] using hlist
    | cons next items =>
      have hrest := ih hitems.2 (List.cons_ne_nil _ _)
      have hlist := spread_item hindent hitems.1 hgap hrest (by simp)
      rw [argumentLines.eq_3 indent trailingComma item (next :: items) (List.cons_ne_nil _ _)]
      simpa using hlist

end Lists

end LogScript.Layout
