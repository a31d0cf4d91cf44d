import LogScript.Proofs.Layout.WplStable

/-!
A call on one line, and what the layout makes of it. Arguments whose brackets are nested, with no
comma outside them, are read back from the list that commas make of them. A call with such
arguments is therefore laid out with a line per argument, and the lines are read as the same
arguments again.
-/

namespace LogScript.Layout

/-- The bracket that closes a bracket. -/
def closing? : Char → Option Char
  | '(' => some ')'
  | '[' => some ']'
  | '\x7b' => some '\x7d'
  | '<' => some '>'
  | _ => none

/-- A bracket that closes one of the four kinds. -/
def closes (c : Char) : Bool :=
  [')', ']', '\x7d', '>'].contains c

/-- Every bracket is closed by one of its kind, in the order that the nesting asks for, and no comma
stands outside brackets; `due` are the closing brackets of those that are open, innermost first. -/
def nested (due : List Char) : List Char → Bool
  | [] => due.isEmpty
  | c :: rest =>
    match closing? c with
    | some closing => nested (closing :: due) rest
    | none =>
      if closes c then due.head? == some c && nested due.tail rest
      else (c != ',' || !due.isEmpty) && nested due rest

section Nested

variable {c : Char} {due rest text : List Char} {pieces : List (List Char)}

/-- A character of a nested text opens a bracket, closes the innermost one, or is no bracket. -/
theorem nested_cons_cases (h : nested due (c :: rest)) :
    (∃ closing, closing? c = some closing ∧ nested (closing :: due) rest) ∨
      (∃ outer, closes c ∧ due = c :: outer ∧ nested outer rest) ∨
      (closing? c = none ∧ closes c = false ∧ (c = ',' → due ≠ []) ∧ nested due rest) := by
  rw [nested] at h
  split at h
  · rename_i closing hopens
    exact .inl ⟨closing, hopens, h⟩
  rename_i hopens
  split at h
  · rename_i hcloses
    rw [Bool.and_eq_true, beq_iff_eq] at h
    obtain ⟨outer, rfl⟩ := List.head?_eq_some_iff.1 h.1
    exact .inr (.inl ⟨outer, hcloses, rfl, h.2⟩)
  · rename_i hcloses
    rw [Bool.and_eq_true, Bool.or_eq_true] at h
    refine .inr (.inr ⟨hopens, by simpa using hcloses, ?_, h.2⟩)
    rintro rfl
    simpa using h.1

/-- Both the search for the closing parenthesis and the search for commas step over a character of
a nested text, and count the brackets that are open. -/
theorem steps_of_nested (h : nested due (c :: rest)) (hquote : c ≠ '"') :
    ∃ due', nested due' rest ∧
      parenStep (.outside, due.count ')') c = some (.outside, due'.count ')') ∧
      pieceStep (.outside, due.length) c = some (.outside, due'.length) := by
  -- The parenthesis search counts the round brackets among the open ones, the comma search all four
  -- kinds.
  rcases nested_cons_cases h with ⟨closing, hopens, hrest⟩ | ⟨outer, hcloses, rfl, hrest⟩ |
    ⟨hopens, hcloses, hcomma, hrest⟩
  · refine ⟨closing :: due, hrest, ?_⟩
    unfold closing? at hopens
    split at hopens <;> cases hopens <;>
      simp [parenStep, pieceStep, nesting, Quoting.covers, Quoting.next]
  · refine ⟨outer, hrest, ?_⟩
    rw [closes, List.contains_iff_mem] at hcloses
    simp only [List.mem_cons, List.not_mem_nil, or_false] at hcloses
    rcases hcloses with rfl | rfl | rfl | rfl <;>
      simp [parenStep, pieceStep, nesting, Quoting.covers, Quoting.next]
  · refine ⟨due, hrest, ?_⟩
    have hopening : c ≠ '(' ∧ c ≠ '[' ∧ c ≠ '\x7b' ∧ c ≠ '<' := by
      refine ⟨?_, ?_, ?_, ?_⟩ <;> rintro rfl <;> cases hopens
    have hclosing : c ≠ ')' ∧ c ≠ ']' ∧ c ≠ '\x7d' ∧ c ≠ '>' := by
      refine ⟨?_, ?_, ?_, ?_⟩ <;> rintro rfl <;> cases hcloses
    have hlist : (c == ',' && due.length == 0) = false := by
      rw [Bool.and_eq_false_iff, beq_eq_false_iff_ne, beq_eq_false_iff_ne]
      by_cases hc : c = ','
      · exact .inr fun hlength => hcomma hc (List.length_eq_zero_iff.1 hlength)
      · exact .inl hc
    have hcovers : Quoting.outside.covers c = false := by simpa [Quoting.covers] using hquote
    constructor
    · simp [parenStep, hcovers, Quoting.next_of_not_covers hcovers, hopening, hclosing]
    · rw [pieceStep]
      simp [hcovers, hlist, Quoting.next_of_not_covers hcovers, nesting, hopening, hclosing]

theorem foldlM_of_nested (h : nested due text) (hquote : '"' ∉ text) :
    text.foldlM parenStep (.outside, due.count ')') = some (.outside, 0) ∧
      text.foldlM pieceStep (.outside, due.length) = some (.outside, 0) := by
  induction text generalizing due with
  | nil =>
    obtain rfl : due = [] := List.isEmpty_iff.1 h
    exact ⟨rfl, rfl⟩
  | cons c rest ih =>
    rw [List.mem_cons, not_or] at hquote
    obtain ⟨due', hrest, hparen, hpiece⟩ := steps_of_nested h (Ne.symm hquote.1)
    rw [List.foldlM_cons, List.foldlM_cons, hparen, hpiece]
    exact ih hrest hquote.2

/-- Commas between pieces are read as such when every piece is nested. -/
theorem pieces_of_nested (h : ∀ piece ∈ pieces, nested [] piece ∧ '"' ∉ piece) (hne : pieces ≠ []) :
    ([','].intercalate pieces).foldlM parenStep (.outside, 0) = some (.outside, 0) ∧
      Pieces (.outside, 0) pieces := by
  induction pieces with
  | nil => exact absurd rfl hne
  | cons piece pieces ih =>
    rw [List.forall_mem_cons] at h
    obtain ⟨hparen, hpiece⟩ := foldlM_of_nested h.1.1 h.1.2
    cases pieces with
    | nil =>
      rw [List.intercalate_singleton]
      exact ⟨hparen, 0, hpiece⟩
    | cons next pieces =>
      obtain ⟨hrest, hpieces⟩ := ih h.2 (List.cons_ne_nil _ _)
      refine ⟨?_, hpiece, hpieces⟩
      rw [List.intercalate_cons_cons, List.append_assoc, List.foldlM_append]
      rw [List.count_nil] at hparen
      rw [hparen]
      exact hrest

end Nested

/-- An argument as it stands between commas: trimmed, on one line, with nested brackets and without
literals. It opens neither a tuple nor an attribute. -/
structure IsArgument (item : List Char) : Prop where
  nonempty : item ≠ []
  nested : nested [] item
  trimmed : trim item = item
  noQuote : '"' ∉ item
  noLineFeed : '\n' ∉ item
  noReturn : '\r' ∉ item
  noTuple : item.head? ≠ some '('
  noAttribute : item.head? ≠ some '#'

section Arguments

variable {items : List (List Char)} {item : List Char}

theorem intercalate_concat_nil (hne : items ≠ []) :
    [','].intercalate (items ++ [[]]) = [','].intercalate items ++ [','] := by
  induction items with
  | nil => exact absurd rfl hne
  | cons item items ih =>
    cases items with
    | nil => simp [List.intercalate_cons_cons]
    | cons next items =>
      rw [List.cons_append, List.cons_append, List.intercalate_cons_cons,
        List.intercalate_cons_cons, ← List.cons_append, ih (List.cons_ne_nil _ _)]
      simp

/-- Arguments that commas join are read back. -/
theorem ofText_intercalate (hne : items ≠ []) (hitems : ∀ item ∈ items, IsArgument item)
    (trailingComma : Bool) :
    ([','].intercalate items ++ if trailingComma then [','] else []).foldlM parenStep (.outside, 0) =
        some (.outside, 0) ∧
      Arguments.ofText ([','].intercalate items ++ if trailingComma then [','] else []) =
        ⟨items, trailingComma⟩ := by
  -- A trailing comma is read as one in front of an empty piece.
  have hjoin : ([','].intercalate items ++ if trailingComma then [','] else []) =
      [','].intercalate (items ++ if trailingComma then [[]] else []) := by
    cases trailingComma with
    | true => exact (intercalate_concat_nil hne).symm
    | false => simp
  have hpieces : ∀ piece ∈ items ++ (if trailingComma then [[]] else []),
      nested [] piece ∧ '"' ∉ piece ∧ trim piece = piece := by
    rw [List.forall_mem_append]
    refine ⟨fun piece hpiece => ?_, fun piece hpiece => ?_⟩
    · have hitem := hitems piece hpiece
      exact ⟨hitem.nested, hitem.noQuote, hitem.trimmed⟩
    · cases trailingComma with
      | true =>
        rw [List.mem_singleton.1 hpiece]
        exact ⟨rfl, List.not_mem_nil, rfl⟩
      | false => cases hpiece
  obtain ⟨hrun, hlist⟩ := pieces_of_nested (fun piece hpiece => ⟨(hpieces piece hpiece).1,
    (hpieces piece hpiece).2.1⟩) (List.append_ne_nil_of_left_ne_nil hne _)
  have htrim : (items ++ if trailingComma then [[]] else []).map trim =
      items ++ if trailingComma then [[]] else [] :=
    List.map_congr_left (fun piece hpiece => (hpieces piece hpiece).2.2) |>.trans (List.map_id _)
  rw [hjoin]
  refine ⟨hrun, ?_⟩
  rw [Arguments.ofText, commaPieces_intercalate hlist, htrim]
  cases trailingComma with
  | true => simp [hne]
  | false =>
    have hlast : (items.getLast hne).isEmpty = false :=
      List.isEmpty_eq_false_iff.2 (hitems _ (List.getLast_mem hne)).nonempty
    simp [List.getLast?_eq_some_getLast hne, hlast]

/-- The lines of a list: a comma behind every item but the last, and behind the last if the list had
one. -/
theorem argumentLines_concat (indent : List Char) (trailingComma : Bool) (front : List (List Char))
    (last : List Char) : argumentLines indent trailingComma (front ++ [last]) =
      (front.map (indent ++ · ++ [',']) ++
        [indent ++ last ++ if trailingComma then [','] else []]).flatMap (· ++ ['\n']) := by
  induction front with
  | nil => simp [argumentLines]
  | cons item front ih =>
    have hne : front ++ [last] ≠ [] := List.concat_ne_nil last front
    rw [List.cons_append, argumentLines.eq_3 indent trailingComma item _ hne, ih]
    simp

end Arguments

section Plain

variable {indent text : List Char} {c : Char}

/-- A line that opens neither a tuple nor an attribute. -/
theorem plain_line (hindent : ∀ c ∈ indent, isBlank c) (hhead : text.head? = some c)
    (hblank : isBlank c = false) (htuple : c ≠ '(') (hattribute : c ≠ '#') :
    opensTuple (indent ++ text) = false ∧ attributeFolded (indent ++ text) := by
  have hstart := trimStart_of_indent hindent hhead hblank
  obtain ⟨rest, rfl⟩ := List.head?_eq_some_iff.1 hhead
  constructor
  · rw [opensTuple, hstart]
    split
    · rename_i heq
      cases heq
      exact absurd rfl htuple
    · rfl
  · rw [attributeFolded, hstart, List.isPrefixOf, beq_false_of_ne hattribute.symm]
    rfl

/-- One line that opens no attribute gets its line feed. -/
theorem foldAttributes_plain (hindent : ∀ c ∈ indent, isBlank c) (hhead : text.head? = some c)
    (hblank : isBlank c = false) (hattribute : c ≠ '#') (hline : '\n' ∉ indent ++ text) :
    foldAttributes (indent ++ text) = indent ++ text ++ ['\n'] := by
  obtain ⟨hfirst, hafter⟩ := firstLine_of_not_mem hline
  obtain ⟨rest, rfl⟩ := List.head?_eq_some_iff.1 hhead
  obtain ⟨d, more, htext⟩ : ∃ d more, indent ++ c :: rest = d :: more :=
    List.exists_cons_of_ne_nil (by simp)
  have hnone : foldAttribute? (c :: rest) = none := by
    unfold foldAttribute?
    split
    · rename_i heq
      cases heq
      exact absurd rfl hattribute
    · rfl
  have hdrop : (indent ++ c :: rest).drop (indentOf (indent ++ c :: rest)).length = c :: rest := by
    rw [indentOf_append hindent hblank, List.drop_left]
  rw [htext] at hfirst hafter hdrop ⊢
  rw [foldAttributes_of_none (by rw [hfirst, hdrop, hnone]), hfirst, hafter, foldAttributes]

end Plain

/-- A call on one line. -/
def callOnLine (n : Nat) (call : List Char) (items : List (List Char)) (trailingComma : Bool) :
    List Char :=
  List.replicate n ' ' ++ call ++ [','].intercalate items ++ (if trailingComma then [','] else []) ++
    [')']

/-- A call with a line per argument; `last` is the last of the arguments. -/
def callOnLines (n : Nat) (call : List Char) (front : List (List Char)) (last : List Char)
    (trailingComma : Bool) : List (List Char) :=
  let indent := List.replicate n ' '
  let inner := List.replicate (n + 4) ' '
  [indent ++ call] ++ front.map (inner ++ · ++ [',']) ++
    [inner ++ last ++ if trailingComma then [','] else []] ++ [indent ++ [')']]

section Calls

variable {n : Nat} {call body last : List Char} {front : List (List Char)} {trailingComma : Bool}

/-- Whatever stands between the arguments of a call on lines of its own, they get a line each. -/
theorem splitCalls_of_arguments (hcall : call ∈ splitCallNames)
    (hrun : body.foldlM parenStep (.outside, 0) = some (.outside, 0))
    (hargs : Arguments.ofText body = ⟨front ++ [last], trailingComma⟩) :
    splitCalls (List.replicate n ' ' ++ call ++ body ++ [')', '\n']) =
      (callOnLines n call front last trailingComma).flatMap (· ++ ['\n']) := by
  have hblank : ∀ c ∈ List.replicate n ' ', isBlank c := blank_of_mem_spaces
  have hall : allBlank (List.replicate n ' ') = true := List.all_eq_true.2 hblank
  have hline : '\n' ∉ List.replicate n ' ' := fun hmem =>
    absurd (List.eq_of_mem_replicate hmem) (by decide)
  have hfind : findCall? true (List.replicate n ' ' ++ call ++ body ++ [')', '\n']) =
      some (List.replicate n ' ', call, body ++ [')', '\n']) := by
    rw [List.append_assoc, List.append_assoc, findCall?_blanks_append hblank, findCall?_call hcall]
    simp
  have hclose : splitClosing '(' ')' .outside 0 (body ++ [')', '\n']) =
      some (body, [] ++ '\n' :: []) := splitClosing_of_foldlM hrun ['\n']
  have hinner : List.replicate n ' ' ++ indentStep = List.replicate (n + 4) ' ' :=
    List.replicate_append_replicate
  rw [splitCalls_of_line hfind hclose List.not_mem_nil, splitCalls_nil, callLines, hargs,
    splitLastLine_of_not_mem hline]
  dsimp only
  rw [layoutCall, indentOf_of_blanks hblank, if_pos hall, if_pos hall, hinner,
    argumentLines_concat, callOnLines]
  simp [trim, trimStart, trimEnd]

theorem call_starts (hcall : call ∈ splitCallNames) :
    '\n' ∉ call ∧ '\r' ∉ call ∧
      ∃ c, call.head? = some c ∧ isBlank c = false ∧ c ≠ '(' ∧ c ≠ '#' := by
  simp only [splitCallNames, List.mem_cons, List.not_mem_nil, or_false] at hcall
  rcases hcall with rfl | rfl | rfl <;>
    exact ⟨by decide, by decide, _, rfl, by decide, by decide, by decide⟩

theorem IsArgument.starts {item : List Char} (h : IsArgument item) :
    ∃ c, item.head? = some c ∧ isBlank c = false ∧ c ≠ '(' ∧ c ≠ '#' := by
  obtain ⟨c, rest, rfl⟩ := List.exists_cons_of_ne_nil h.nonempty
  have hblank := head?_trim (c :: rest)
  rw [h.trimmed] at hblank
  refine ⟨c, rfl, hblank c rfl, fun hc => h.noTuple ?_, fun hc => h.noAttribute ?_⟩
  · rw [hc]
    rfl
  · rw [hc]
    rfl

/-- A line of a laid out call: it has no line break of its own, and no pass changes it. -/
structure IsSettled (line : List Char) : Prop where
  noLineFeed : '\n' ∉ line
  noReturn : '\r' ∉ line
  noTuple : opensTuple line = false
  folded : attributeFolded line

theorem isSettled_line {text : List Char} {c : Char} (hline : '\n' ∉ text) (hreturn : '\r' ∉ text)
    (hhead : text.head? = some c) (hblank : isBlank c = false) (htuple : c ≠ '(')
    (hattribute : c ≠ '#') : IsSettled (List.replicate n ' ' ++ text) := by
  obtain ⟨hopens, hfolded⟩ :=
    plain_line (blank_of_mem_spaces (n := n)) hhead hblank htuple hattribute
  refine ⟨?_, ?_, hopens, hfolded⟩
  · rw [List.mem_append, not_or]
    exact ⟨fun hmem => absurd (List.eq_of_mem_replicate hmem) (by decide), hline⟩
  · rw [List.mem_append, not_or]
    exact ⟨fun hmem => absurd (List.eq_of_mem_replicate hmem) (by decide), hreturn⟩

theorem isSettled_argument {item : List Char} (h : IsArgument item) (comma : Bool) :
    IsSettled (List.replicate n ' ' ++ item ++ if comma then [','] else []) := by
  obtain ⟨c, hhead, hblank, htuple, hattribute⟩ := h.starts
  rw [List.append_assoc]
  apply isSettled_line _ _ _ hblank htuple hattribute
  · cases comma <;> simpa using h.noLineFeed
  · cases comma <;> simpa using h.noReturn
  · rw [List.head?_append, hhead, Option.some_or]

theorem isSettled_callOnLines (hcall : call ∈ splitCallNames)
    (hitems : ∀ item ∈ front ++ [last], IsArgument item) :
    ∀ line ∈ callOnLines n call front last trailingComma, IsSettled line := by
  rw [List.forall_mem_append] at hitems
  obtain ⟨hline, hreturn, c, hhead, hblank, htuple, hattribute⟩ := call_starts hcall
  have hlast : IsArgument last := hitems.2 last (List.mem_singleton_self _)
  rw [callOnLines, List.forall_mem_append, List.forall_mem_append, List.forall_mem_append,
    List.forall_mem_singleton, List.forall_mem_singleton, List.forall_mem_singleton]
  refine ⟨⟨⟨isSettled_line hline hreturn hhead hblank htuple hattribute, ?_⟩,
    isSettled_argument hlast trailingComma⟩, ?_⟩
  · intro line hmem
    obtain ⟨item, hitem, rfl⟩ := List.mem_map.1 hmem
    exact isSettled_argument (hitems.1 item hitem) true
  · exact isSettled_line (by decide) (by decide) rfl (by decide) (by decide) (by decide)

theorem not_mem_callOnLine {c : Char} {items : List (List Char)} (hsigns : c ∉ [' ', ',', ')'])
    (hcall : c ∉ call) (hitems : ∀ item ∈ items, c ∉ item) :
    c ∉ callOnLine n call items trailingComma := by
  simp only [List.mem_cons, List.not_mem_nil, or_false, not_or] at hsigns
  obtain ⟨hspace, hcomma, hparen⟩ := hsigns
  have hindent : c ∉ List.replicate n ' ' := fun hmem => hspace (List.eq_of_mem_replicate hmem)
  have hlist : c ∉ [','].intercalate items := by
    intro hmem
    rcases mem_of_mem_intercalate hmem with hmem | hmem
    · exact hcomma (List.mem_singleton.1 hmem)
    · obtain ⟨item, hitem, hc⟩ := List.mem_flatten.1 hmem
      exact hitems item hitem hc
  have hlast : c ∉ if trailingComma then [','] else [] := by
    cases trailingComma <;> simp [hcomma]
  simp [callOnLine, hindent, hcall, hlist, hlast, hparen]

/-- There is no attribute to fold, so the line gets its line feed. -/
theorem folded_callOnLine (hcall : call ∈ splitCallNames) {items : List (List Char)}
    (hitems : ∀ item ∈ items, IsArgument item) :
    folded (callOnLine n call items trailingComma) =
      callOnLine n call items trailingComma ++ ['\n'] := by
  obtain ⟨hline, hreturn, c, hhead, hblank, -, hattribute⟩ := call_starts hcall
  have hreturn' : '\r' ∉ callOnLine n call items trailingComma :=
    not_mem_callOnLine (by decide) hreturn fun item hitem => (hitems item hitem).noReturn
  have hline' : '\n' ∉ callOnLine n call items trailingComma :=
    not_mem_callOnLine (by decide) hline fun item hitem => (hitems item hitem).noLineFeed
  rw [folded, normalizeNewlines_of_not_mem hreturn']
  rw [callOnLine, List.append_assoc, List.append_assoc, List.append_assoc] at hline' ⊢
  exact foldAttributes_plain blank_of_mem_spaces (by rw [List.head?_append, hhead, Option.some_or])
    hblank hattribute hline'

/-- The call pass finds a call with a line per argument as it puts it. -/
theorem splitCalls_callOnLines (hcall : call ∈ splitCallNames)
    (hitems : ∀ item ∈ front ++ [last], IsArgument item) :
    splitCalls ((callOnLines n call front last trailingComma).flatMap (· ++ ['\n'])) =
      (callOnLines n call front last trailingComma).flatMap (· ++ ['\n']) := by
  have hne : front ++ [last] ≠ [] := List.concat_ne_nil last front
  obtain ⟨hrun, hargs⟩ := ofText_intercalate hne hitems trailingComma
  have hclose := splitClosing_of_foldlM hrun []
  have hindent : ∀ {n}, ∀ c ∈ List.replicate n ' ', isBlank c := blank_of_mem_spaces
  have hlist := spread_argumentLines (hindent (n := n + 4))
    (fun item hitem => (hitems item hitem).trimmed) hne trailingComma
  generalize [','].intercalate (front ++ [last]) ++ (if trailingComma then [','] else []) = body at *
  -- The lines hold the pieces of the one-line call with blanks around them, so the arguments that
  -- are read from them are the same.
  have hspread : Spread ((Arguments.ofText body).items ++
      if (Arguments.ofText body).trailingComma then [[]] else [])
        (argumentLines (List.replicate (n + 4) ' ') trailingComma (front ++ [last])) := by
    rwa [hargs]
  obtain ⟨hrun', hargs'⟩ := hspread.relaid_lines (by rwa [hargs]) hclose (hindent (n := n))
  have hshape : (callOnLines n call front last trailingComma).flatMap (· ++ ['\n']) =
      List.replicate n ' ' ++ call ++ ('\n' :: (argumentLines (List.replicate (n + 4) ' ')
        trailingComma (front ++ [last]) ++ List.replicate n ' ')) ++ [')', '\n'] := by
    rw [argumentLines_concat, callOnLines]
    simp
  conv => lhs; rw [hshape]
  exact splitCalls_of_arguments hcall hrun' (hargs'.trans hargs)

/-- The layout gives every argument of a call a line, indented by four more spaces than the call, and
a second run finds the call as it is. -/
theorem formatWpl_callOnLine (hcall : call ∈ splitCallNames) (n : Nat)
    (hitems : ∀ item ∈ front ++ [last], IsArgument item) (trailingComma : Bool) :
    formatWpl (callOnLine n call (front ++ [last]) trailingComma) =
        (callOnLines n call front last trailingComma).flatMap (· ++ ['\n']) ∧
      formatWpl ((callOnLines n call front last trailingComma).flatMap (· ++ ['\n'])) =
        (callOnLines n call front last trailingComma).flatMap (· ++ ['\n']) := by
  have hsettled : ∀ line ∈ callOnLines n call front last trailingComma, IsSettled line :=
    isSettled_callOnLines hcall hitems
  have htuples := splitTuples_front
    (fun line hmem => ⟨(hsettled line hmem).noLineFeed, (hsettled line hmem).noTuple⟩) []
  rw [List.append_nil] at htuples
  constructor
  · obtain ⟨hrun, hargs⟩ := ofText_intercalate (List.concat_ne_nil last front) hitems trailingComma
    have hcalls := splitCalls_of_arguments (n := n) hcall hrun hargs
    have hshape : callOnLine n call (front ++ [last]) trailingComma ++ ['\n'] =
        List.replicate n ' ' ++ call ++ ([','].intercalate (front ++ [last]) ++
          if trailingComma then [','] else []) ++ [')', '\n'] := by
      simp [callOnLine]
    rw [formatWpl_eq, folded_callOnLine hcall hitems, hshape, hcalls, htuples]
    simp [lines, splitTuples]
  · have hfolded : folded ((callOnLines n call front last trailingComma).flatMap (· ++ ['\n'])) =
        (callOnLines n call front last trailingComma).flatMap (· ++ ['\n']) := by
      rw [folded, normalizeNewlines_of_not_mem]
      · exact foldAttributes_lines (fun line hmem => (hsettled line hmem).noLineFeed)
          fun line hmem => (hsettled line hmem).folded
      · simp only [List.mem_flatMap, List.mem_append, List.mem_singleton, not_exists, not_and, not_or]
        exact fun line hmem => ⟨(hsettled line hmem).noReturn, by decide⟩
    rw [formatWpl_eq, hfolded, splitCalls_callOnLines hcall hitems, htuples]
    simp [lines, splitTuples]

/-- Arguments with brackets of all four kinds, commas inside them, and a call. -/
theorem formatWpl_callOnLine_kv :
    ("kv(".toList ∈ splitCallNames ∧ ∀ item ∈ ["_:pri<<,>>".toList, "f(a[1, \x7b2,3\x7d])".toList] ++
      ["json(@x, y)".toList], IsArgument item) ∧
    formatWpl "  kv(_:pri<<,>>,f(a[1, \x7b2,3\x7d]),json(@x, y),)".toList =
        "  kv(\n      _:pri<<,>>,\n      f(a[1, \x7b2,3\x7d]),\n      json(@x, y),\n  )\n".toList ∧
      formatWpl
          "  kv(\n      _:pri<<,>>,\n      f(a[1, \x7b2,3\x7d]),\n      json(@x, y),\n  )\n".toList =
        "  kv(\n      _:pri<<,>>,\n      f(a[1, \x7b2,3\x7d]),\n      json(@x, y),\n  )\n".toList := by
  have hcall : "kv(".toList ∈ splitCallNames := by decide
  have hitems : ∀ item ∈ ["_:pri<<,>>".toList, "f(a[1, \x7b2,3\x7d])".toList] ++
      ["json(@x, y)".toList], IsArgument item := by
    simp only [List.cons_append, List.nil_append, List.forall_mem_cons]
    refine ⟨?_, ?_, ?_, fun _ hmem => absurd hmem List.not_mem_nil⟩ <;> constructor <;> decide
  exact ⟨⟨hcall, hitems⟩, formatWpl_callOnLine hcall 2 hitems true⟩

end Calls

end LogScript.Layout
