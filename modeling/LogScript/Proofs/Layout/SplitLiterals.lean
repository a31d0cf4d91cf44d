import LogScript.Proofs.Layout.UndisturbedLiterals

/-!
Splitting calls and tuples keeps literals. The passes look for parentheses and commas outside literals
and trim what stands between them. So an item keeps its literals, and so does a call or a tuple that
gets a line per item; whatever is put around them holds no quote.
-/

namespace LogScript.Layout

theorem eq_lineFeed_of_getLast? {text : List Char} {c : Char} (h : c ∈ (text ++ ['\n']).getLast?) :
    c = '\n' := by
  rw [List.getLast?_concat] at h
  exact (Option.mem_some_iff.1 h).symm

section Lists

variable {q : Quoting} {opening closing : Char} {depth : Nat} {text inner after body : List Char}

/-- What brackets enclose ends outside literals. -/
theorem past_of_splitClosing
    (h : splitClosing opening closing q depth text = some (inner, after)) :
    literalScan.past q inner = .outside := by
  induction text generalizing q depth inner with
  | nil => cases h
  | cons c rest ih =>
    have hfound : ∀ {d}, (splitClosing opening closing (q.next c) d rest).map
        (fun r => (c :: r.1, r.2)) = some (inner, after) → literalScan.past q inner = .outside := by
      intro d hd
      obtain ⟨⟨inner', after'⟩, hrest, hpair⟩ := Option.map_eq_some_iff.1 hd
      cases hpair
      rw [Scan.past_cons]
      exact ih hrest
    rw [splitClosing] at h
    split at h
    · exact hfound h
    · rename_i hcovers
      split at h
      · exact hfound h
      · split at h
        · split at h
          · cases h
            exact Quoting.eq_outside_of_not_covers (by simpa using hcovers)
          · exact hfound h
        · exact hfound h

theorem Pieces.past {pieces : List (List Char)} (h : Pieces (.outside, depth) pieces) :
    ∀ piece ∈ pieces, literalScan.past .outside piece = .outside := by
  have hpast : ∀ {piece : List Char} {depth depth' : Nat},
      piece.foldlM pieceStep (.outside, depth) = some (.outside, depth') →
        literalScan.past .outside piece = .outside :=
    fun hpiece => (follows_pieceStep.quoting_foldlM hpiece).symm
  induction pieces generalizing depth with
  | nil => exact h.elim
  | cons piece pieces ih =>
    cases pieces with
    | nil =>
      obtain ⟨depth', hpiece⟩ := h
      exact List.forall_mem_singleton.2 (hpast hpiece)
    | cons next pieces => exact List.forall_mem_cons.2 ⟨hpast h.1, ih h.2⟩

variable {pieces : List (List Char)}

theorem same_intercalate (h : ∀ piece ∈ pieces, literalScan.past .outside piece = .outside) :
    literalScan.Same .outside ([','].intercalate pieces) pieces.flatten := by
  induction pieces with
  | nil => exact .refl _ _
  | cons piece pieces ih =>
    cases pieces with
    | nil => simpa using Scan.Same.refl _ _
    | cons next pieces =>
      rw [List.forall_mem_cons] at h
      rw [List.intercalate_cons_cons, List.append_assoc, List.flatten_cons]
      exact (Scan.Same.refl _ piece).append_closed h.1
        (((same_plain (show '"' ∉ [','] by decide)).append_right _).trans (ih h.2))

theorem same_map_trim (h : ∀ piece ∈ pieces, literalScan.past .outside piece = .outside) :
    literalScan.Same .outside pieces.flatten (pieces.map trim).flatten := by
  induction pieces with
  | nil => exact .refl _ _
  | cons piece pieces ih =>
    rw [List.forall_mem_cons] at h
    exact (Scan.same_trim (.inl h.1)).append_closed h.1 (ih h.2)

theorem same_argumentLines {indent : List Char} (hindent : ∀ c ∈ indent, isBlank c)
    (trailingComma : Bool) {items : List (List Char)}
    (h : ∀ item ∈ items, literalScan.past .outside item = .outside) :
    literalScan.Same .outside items.flatten (argumentLines indent trailingComma items) := by
  induction items with
  | nil => exact .refl _ _
  | cons item items ih =>
    rw [List.forall_mem_cons] at h
    have hitem : literalScan.Same .outside item (indent ++ item) :=
      (Scan.same_blanks_append hindent _).symm
    cases items with
    | nil =>
      have hend : literalScan.Same .outside [] ((if trailingComma then [','] else []) ++ ['\n']) :=
        (same_plain (by cases trailingComma <;> decide)).symm
      rw [argumentLines, List.append_assoc]
      exact hitem.append_closed h.1 hend
    | cons next items =>
      have hcomma : literalScan.Same .outside (next :: items).flatten
          ([',', '\n'] ++ argumentLines indent trailingComma (next :: items)) :=
        (ih h.2).trans ((same_plain (show '"' ∉ [',', '\n'] by decide)).append_right _).symm
      rw [argumentLines.eq_3 indent trailingComma item (next :: items) (List.cons_ne_nil _ _),
        List.append_assoc]
      exact hitem.append_closed h.1 hcomma

/-- A list with a line per item has the literals of the text that it was read from. -/
theorem same_argumentLines_ofText {indent : List Char} (hindent : ∀ c ∈ indent, isBlank c)
    (hbody : literalScan.past .outside body = .outside) (hitems : (Arguments.ofText body).items ≠ []) :
    literalScan.Same .outside body (argumentLines indent (Arguments.ofText body).trailingComma
      (Arguments.ofText body).items) := by
  have hpieces : ∀ piece ∈ commaPieces .outside 0 body, literalScan.past .outside piece = .outside :=
    (pieces_commaPieces hbody : Pieces (.outside, 0) (commaPieces .outside 0 body)).past
  have htrimmed : ∀ piece ∈ (commaPieces .outside 0 body).map trim,
      literalScan.past .outside piece = .outside := by
    intro piece hpiece
    obtain ⟨untrimmed, hmem, rfl⟩ := List.mem_map.1 hpiece
    have hpast := hpieces untrimmed hmem
    rw [← (Scan.same_trim (.inl hpast)).past, hpast]
  have hflatten : ((commaPieces .outside 0 body).map trim).flatten =
      (Arguments.ofText body).items.flatten := by
    rw [← items_ofText hitems, List.flatten_append]
    split <;> simp
  have hbodyPieces := same_intercalate hpieces
  rw [intercalate_commaPieces] at hbodyPieces
  have hread := hbodyPieces.trans (same_map_trim hpieces)
  rw [hflatten] at hread
  refine hread.trans (same_argumentLines hindent _ fun item hitem => htrimmed item ?_)
  rw [← items_ofText hitems]
  exact List.mem_append_left _ hitem

end Lists

section Calls

variable {q : Quoting} {lead call body line before : List Char}

theorem same_lineFeed (text : List Char) : literalScan.Same .outside ('\n' :: text) text :=
  Scan.same_blanks_append blank_of_mem_lineFeed text

theorem same_append_lineFeed {text : List Char} (h : literalScan.past q text = .outside) :
    literalScan.Same q text (text ++ ['\n']) :=
  (Scan.same_append_blanks h blank_of_mem_lineFeed).symm

/-- A call on lines of its own has the literals of the line that it was on. -/
theorem same_layoutCall (hlead : literalScan.past q lead = .outside) (hcall : call ∈ splitCallNames)
    (hbody : literalScan.past .outside body = .outside) (hitems : (Arguments.ofText body).items ≠ [])
    (hline : literalScan.past .outside line = .outside ∨ ∀ c ∈ line.getLast?, isBlank c = false) :
    literalScan.Same q (lead ++ (call ++ (body ++ ([')'] ++ (line ++ ['\n'])))))
      (layoutCall lead call (Arguments.ofText body) line) := by
  obtain ⟨inner, hinner, hblank⟩ : ∃ inner, inner =
      (if allBlank lead then indentOf lead else indentOf lead ++ indentStep) ∧
        ∀ c ∈ inner, isBlank c := by
    refine ⟨_, rfl, ?_⟩
    split
    · exact blank_of_mem_indentOf lead
    · exact blank_of_mem_indent (blank_of_mem_indentOf lead)
  have hshape : layoutCall lead call (Arguments.ofText body) line =
      ((if allBlank lead then [] else lead ++ ['\n']) ++ inner) ++ ((call ++ ['\n']) ++
        (argumentLines (inner ++ indentStep) (Arguments.ofText body).trailingComma
          (Arguments.ofText body).items ++ ((inner ++ [')']) ++
            ((if (trim line).isEmpty then [] else '\n' :: indentOf lead ++ trim line) ++ ['\n'])))) := by
    rw [hinner, layoutCall]
    simp
  have hfront : literalScan.Same q lead ((if allBlank lead then [] else lead ++ ['\n']) ++ inner) := by
    split
    · rename_i hall
      have hall := List.all_eq_true.1 hall
      obtain rfl : q = .outside := (literalScan.past_blanks_iff hall).1 hlead
      exact (Scan.same_blanks hall).trans (Scan.same_blanks hblank).symm
    · have hrest : literalScan.Same .outside [] (['\n'] ++ inner) :=
        (same_lineFeed inner).trans (Scan.same_blanks hblank) |>.symm
      have hall := (Scan.Same.refl q lead).append_closed hlead hrest
      rwa [List.append_nil, ← List.append_assoc] at hall
  have hname : literalScan.Same .outside call (call ++ ['\n']) := by
    have hquote := not_mem_call hcall
    have hend : '"' ∉ call ++ ['\n'] := by simpa using hquote
    exact (same_plain hquote).trans (same_plain hend).symm
  have hclosing : literalScan.Same .outside [')'] (inner ++ [')']) :=
    (Scan.same_blanks_append hblank _).symm
  have htail : literalScan.Same .outside line
      (if (trim line).isEmpty then [] else '\n' :: indentOf lead ++ trim line) := by
    refine (Scan.same_trim hline).trans ?_
    split
    · rename_i hempty
      rw [List.isEmpty_iff.1 hempty]
      exact .refl _ _
    · exact ((same_lineFeed _).trans (Scan.same_blanks_append (blank_of_mem_indentOf lead) _)).symm
  rw [hshape]
  exact hfront.append_closed hlead (hname.append_closed (past_plain (not_mem_call hcall))
    ((same_argumentLines_ofText (blank_of_mem_indent hblank) hbody hitems).append_closed hbody
      (hclosing.append_closed rfl (htail.append_right _))))

theorem same_callLines (hbefore : literalScan.past q before = .outside) (hcall : call ∈ splitCallNames)
    (hbody : literalScan.past .outside body = .outside)
    (hline : literalScan.past .outside line = .outside ∨ ∀ c ∈ line.getLast?, isBlank c = false) :
    literalScan.Same q (before ++ call ++ body ++ ')' :: (line ++ ['\n']))
      (callLines before call body line) := by
  rw [callLines]
  split
  · exact .refl _ _
  · rename_i hitems
    have hshape : before ++ call ++ body ++ ')' :: (line ++ ['\n']) = (splitLastLine before).1 ++
        ((splitLastLine before).2 ++ (call ++ (body ++ ([')'] ++ (line ++ ['\n']))))) := by
      conv => lhs; rw [← splitLastLine_append before]
      simp
    rw [hshape]
    refine Scan.Same.append_left _ (same_layoutCall ?_ hcall hbody (by simpa using hitems) hline)
    rw [← Scan.past_append, splitLastLine_append, hbefore]

/-- The state behind a character that ends no literal and starts none. -/
theorem past_cons_plain {c : Char} (hc : c ≠ '"') (text : List Char) :
    literalScan.past .outside (c :: text) = literalScan.past .outside text := by
  rw [Scan.past_cons]
  exact congrArg (literalScan.past · text) (next_outside hc)

/-- What stands behind a bracket, up to the end of a line, loses nothing of a literal when it is
trimmed. -/
theorem Calm.line_ends {front line more : List Char} (h : Calm (front ++ line ++ '\n' :: more))
    (hfront : literalScan.past .outside front = .outside)
    (hline : more ≠ [] → ∀ c ∈ line.getLast?, c ≠ '\n') :
    literalScan.past .outside line = .outside ∨ ∀ c ∈ line.getLast?, isBlank c = false := by
  have hpast : literalScan.past .outside (front ++ line) = literalScan.past .outside line := by
    rw [Scan.past_append, hfront]
  rw [← hpast]
  refine or_iff_not_imp_left.2 fun hopen c hc => h.not_blank hopen ?_ (hline ?_ c hc)
  · rw [List.getLast?_append, Option.mem_def.1 hc]
    rfl
  · rintro rfl
    have hclosed := h.closed
    rw [Scan.past_append] at hclosed
    exact hopen ((literalScan.past_blanks_iff blank_of_mem_lineFeed).1 hclosed)

/-- On the last line, a call without arguments is left as it is, with no line feed behind it. -/
theorem splitCalls_of_lastLine {text inner : List Char}
    (hfind : findCall? true text = some (before, call, inner))
    (hclose : splitClosing '(' ')' .outside 0 inner = some (body, line)) (hline : '\n' ∉ line) :
    splitCalls text = text ∨ splitCalls text = callLines before call body line := by
  obtain ⟨hfirst, hafter⟩ := firstLine_of_not_mem hline
  rw [splitCalls_of_closed hfind hclose, hfirst, hafter, splitCalls_nil, List.append_nil, callLines]
  split
  · rw [List.take_of_length_le (Nat.le_add_right _ 1), ← text_of_closed hfind hclose]
    exact .inl rfl
  · exact .inr rfl

theorem not_isNameChar_append {front text inner : List Char} (hfront : ∀ c ∈ front.getLast?, c = '\n')
    (hfind : findCall? true text = some (before, call, inner)) :
    ∀ c ∈ (front ++ before).getLast?, isNameChar c = false := by
  intro c hc
  rw [List.getLast?_append] at hc
  cases hlast : before.getLast? with
  | none =>
    rw [hlast] at hc
    rw [hfront c hc]
    decide
  | some d =>
    rw [hlast] at hc
    cases hc
    exact not_isNameChar_of_findCall? hfind c hlast

/-- A call stands outside literals, and what stands behind it as well. -/
theorem Calm.past_called {front text inner after : List Char} (h : Calm (front ++ text))
    (hfront : ∀ c ∈ front.getLast?, c = '\n') (hfind : findCall? true text = some (before, call, inner))
    (hclose : splitClosing '(' ')' .outside 0 inner = some (body, after)) :
    literalScan.past .outside (front ++ before) = .outside ∧
      literalScan.past .outside (front ++ (before ++ call ++ body ++ [')'])) = .outside := by
  have hcall := mem_of_findCall? hfind
  have hbefore : literalScan.past .outside (front ++ before) = .outside := by
    rw [text_of_closed hfind hclose, List.append_assoc, List.append_assoc, ← List.append_assoc] at h
    exact h.past_call hcall (not_isNameChar_append hfront hfind)
  refine ⟨hbefore, ?_⟩
  rw [List.append_assoc, List.append_assoc, ← List.append_assoc, Scan.past_append, hbefore,
    Scan.past_append, past_plain (not_mem_call hcall), Scan.past_append, past_of_splitClosing hclose]
  rfl

/-- Splitting calls leaves the literals of the text as they are. The text stands behind a line feed,
or nothing. -/
theorem Calm.same_splitCalls {front text : List Char} (h : Calm (front ++ text))
    (hfront : ∀ c ∈ front.getLast?, c = '\n') :
    literalScan.Same (literalScan.past .outside front) text (splitCalls text) := by
  induction text using splitCalls.induct generalizing front with
  | case1 text hnone =>
    rw [splitCalls_of_none hnone]
    exact .refl _ _
  | case2 text before call inner hfind hopen =>
    rw [splitCalls_of_open hfind hopen]
    exact .refl _ _
  | case3 text before call inner hfind body after hclose _ _ _ ih =>
    have hcall := mem_of_findCall? hfind
    have htext := text_of_closed hfind hclose
    have hbody : literalScan.past .outside body = .outside := past_of_splitClosing hclose
    obtain ⟨hbefore, hcalled⟩ := h.past_called hfront hfind hclose
    rw [Scan.past_append] at hbefore
    rcases line_cases after with hline | ⟨line, more, hline, rfl⟩
    · -- The call ends on the last line, which ends outside literals.
      have hclosed := h.closed
      rw [htext, List.append_cons, ← List.append_assoc, Scan.past_append, hcalled] at hclosed
      have hend : literalScan.Same (literalScan.past .outside front) text (text ++ ['\n']) :=
        same_append_lineFeed ((literalScan.past_append _ _ _).symm.trans h.closed)
      rcases splitCalls_of_lastLine hfind hclose hline with hsame | hlaid
      · rw [hsame]
        exact .refl _ _
      · rw [hlaid]
        refine hend.trans ?_
        rw [htext, List.append_assoc, List.cons_append]
        exact same_callLines hbefore hcall hbody (.inl hclosed)
    · have hshape : text = (before ++ call ++ body ++ ')' :: (line ++ ['\n'])) ++ more := by
        rw [htext]
        simp
      have hcalm : Calm (front ++ (before ++ call ++ body ++ [')']) ++ line ++ '\n' :: more) := by
        rw [hshape] at h
        simpa using h
      have hends := hcalm.line_ends hcalled fun _ c hc heq => hline (heq ▸ List.mem_of_getLast? hc)
      rw [splitCalls_of_line hfind hclose hline, hshape]
      refine (same_callLines hbefore hcall hbody hends).append ?_
      rw [(firstLine_append_lineFeed hline more).2] at ih
      rw [← Scan.past_append]
      refine ih (by simpa using hcalm) fun c hc => ?_
      rw [List.append_cons, ← List.append_assoc, ← List.append_assoc] at hc
      exact eq_lineFeed_of_getLast? hc

end Calls

section Tuples

variable {block inner : List Char}

/-- Of the lines that are gathered in front of others, the last is not empty. -/
theorem ne_nil_of_gatherLines {b : Balance} {ls : List (List Char)}
    (hmore : (gatherLines b ls).2 ≠ []) : ∀ line ∈ (gatherLines b ls).1.getLast?, line ≠ [] := by
  induction ls generalizing b with
  | nil => exact fun line hline => by cases hline
  | cons line rest ih =>
    intro last hlast
    rw [gatherLines] at hmore hlast
    split at hlast
    · cases hlast
    · rename_i hopen
      rw [if_neg hopen] at hmore
      dsimp only at hmore hlast
      cases hlater : (gatherLines ((b.past '\n').pastText line) rest).1 with
      | cons next later =>
        have hlater' := ih hmore
        rw [hlater] at hlater' hlast
        rw [List.getLast?_cons_cons] at hlast
        exact hlater' last hlast
      | nil =>
        rw [hlater] at hlast
        cases hlast
        rintro rfl
        -- An empty line closes no parenthesis, so that another line would have been taken.
        have hall := gatherLines_append ((b.past '\n').pastText []) rest
        rw [hlater, List.nil_append] at hall
        rw [hall] at hmore
        obtain ⟨next, later, rfl⟩ := List.exists_cons_of_ne_nil hmore
        have hdepth : ((b.past '\n').pastText []).depth = b.depth := by
          change b.depth + (if b.quoting.covers '\n' then 0 else 0) = b.depth
          split <;> simp
        rw [gatherLines, if_neg (by rw [hdepth]; exact hopen)] at hlater
        cases hlater

theorem getLast?_joinLines {ls : List (List Char)} (h : ∀ line ∈ ls, '\n' ∉ line)
    (hlast : ∀ line ∈ ls.getLast?, line ≠ []) : ∀ c ∈ (joinLines ls).getLast?, c ≠ '\n' := by
  induction ls with
  | nil => exact fun c hc => by cases hc
  | cons line ls ih =>
    rw [List.forall_mem_cons] at h
    intro c hc
    cases ls with
    | nil =>
      rw [joinLines, List.intercalate_singleton] at hc
      rintro rfl
      exact h.1 (List.mem_of_getLast? hc)
    | cons next ls =>
      rw [List.getLast?_cons_cons] at hlast
      rw [joinLines_cons (List.cons_ne_nil _ _), List.getLast?_append, List.getLast?_cons] at hc
      cases hrest : (joinLines (next :: ls)).getLast? with
      | some d =>
        rw [hrest] at hc
        cases hc
        exact ih h.2 hlast _ hrest
      | none =>
        have hnil : joinLines (next :: ls) = [] := List.getLast?_eq_none_iff.1 hrest
        cases ls with
        | nil =>
          rw [joinLines, List.intercalate_singleton] at hnil
          exact absurd hnil (hlast next rfl)
        | cons third ls =>
          rw [joinLines_cons (List.cons_ne_nil _ _)] at hnil
          exact absurd hnil (by simp)

/-- A tuple with a line per field has the literals of its block. -/
theorem same_layoutTuple (hblock : trimStart block = '(' :: inner)
    (hend : ∀ body after, inner = body ++ ')' :: after → literalScan.past .outside body = .outside →
      literalScan.past .outside after = .outside ∨ ∀ c ∈ after.getLast?, isBlank c = false) :
    literalScan.Same .outside (block ++ ['\n']) (layoutTuple block) := by
  obtain ⟨htext, hdrop⟩ := block_of_trimStart hblock
  rw [layoutTuple, hdrop]
  dsimp only
  split
  · exact .refl _ _
  · rename_i body after hclose
    have hbody : literalScan.past .outside body = .outside := past_of_splitClosing hclose
    have hinner := eq_of_splitClosing hclose
    split
    · exact .refl _ _
    · rename_i hitems
      have hindent := blank_of_mem_indentOf block
      have hshape : block ++ ['\n'] = indentOf block ++ (['('] ++ (body ++ ([')'] ++
          (after ++ ['\n'])))) := by
        conv => lhs; rw [htext, hinner]
        simp
      have hlaid : indentOf block ++ ['(', '\n'] ++ argumentLines (indentOf block ++ indentStep)
          (Arguments.ofText body).trailingComma (Arguments.ofText body).items ++ indentOf block ++
            [')'] ++ trim after ++ ['\n'] =
          indentOf block ++ (['(', '\n'] ++ (argumentLines (indentOf block ++ indentStep)
            (Arguments.ofText body).trailingComma (Arguments.ofText body).items ++
              ((indentOf block ++ [')']) ++ (trim after ++ ['\n'])))) := by
        simp
      have hopening : literalScan.Same .outside ['('] ['(', '\n'] :=
        (same_plain (by decide)).trans (same_plain (by decide)).symm
      have hlist := same_argumentLines_ofText (blank_of_mem_indent hindent) hbody
        (by simpa using hitems)
      have hclosing : literalScan.Same .outside [')'] (indentOf block ++ [')']) :=
        (Scan.same_blanks_append hindent _).symm
      have hafter := Scan.same_trim (hend body after hinner hbody)
      rw [hshape, hlaid]
      exact (Scan.Same.refl _ _).append_closed (Scan.past_blanks hindent)
        (hopening.append_closed rfl (hlist.append_closed hbody
          (hclosing.append_closed rfl (hafter.append_right _))))

/-- Where lines follow the block of a tuple, it does not end with a line feed. -/
theorem getLast?_block {b : Balance} {line : List Char} {rest : List (List Char)} (hline : line ≠ [])
    (hls : ∀ l ∈ line :: rest, '\n' ∉ l) (hmore : (gatherLines b rest).2 ≠ []) :
    ∀ c ∈ (joinLines (line :: (gatherLines b rest).1)).getLast?, c ≠ '\n' := by
  have hgathered := gatherLines_append b rest
  refine getLast?_joinLines (fun l hl => hls l ?_) fun l hl => ?_
  · rw [← hgathered, ← List.cons_append]
    exact List.mem_append_left _ hl
  · rw [List.getLast?_cons] at hl
    cases hlast : (gatherLines b rest).1.getLast? with
    | none =>
      rw [hlast] at hl
      cases hl
      exact hline
    | some last =>
      rw [hlast] at hl
      cases hl
      exact ne_nil_of_gatherLines hmore last hlast

/-- A line that opens a tuple starts outside literals. -/
theorem Calm.past_tuple {front line more : List Char} (h : Calm (front ++ (line ++ more)))
    (hfront : ∀ c ∈ front.getLast?, c = '\n') (hopens : opensTuple line = true) (hline : '\n' ∉ line) :
    literalScan.past .outside front = .outside := by
  obtain ⟨behind, hbehind⟩ := exists_of_opensTuple hopens
  have hindent : '\n' ∉ indentOf line := fun hmem =>
    hline ((List.takeWhile_sublist isBlank).mem hmem)
  have hcalm : Calm (front ++ (indentOf line ++ (['('] ++ (behind ++ more)))) := by
    rw [(block_of_trimStart hbehind).1, List.append_assoc] at h
    exact h
  exact hcalm.past_sign (by decide) (blank_of_mem_indentOf line) hindent hfront

/-- The block of a tuple, with the text around it. -/
theorem Calm.same_block {front more : List Char} (h : Calm (front ++ (block ++ ['\n'] ++ more)))
    (hfront : literalScan.past .outside front = .outside) (hblock : trimStart block = '(' :: inner)
    (hends : more ≠ [] → ∀ c ∈ block.getLast?, c ≠ '\n') :
    literalScan.Same .outside (block ++ ['\n']) (layoutTuple block) := by
  have htext := (block_of_trimStart hblock).1
  refine same_layoutTuple hblock fun body after hinner hbody => ?_
  rw [hinner] at htext
  have hcalm : Calm (front ++ (indentOf block ++ '(' :: body ++ [')']) ++ after ++ '\n' :: more) := by
    rw [htext] at h
    simpa using h
  refine hcalm.line_ends ?_ fun hmore c hc => hends hmore c ?_
  · rw [Scan.past_append, hfront, Scan.past_append, Scan.past_append,
      Scan.past_blanks (blank_of_mem_indentOf block), past_cons_plain (by decide), hbody]
    rfl
  · rw [htext, List.getLast?_append, List.getLast?_cons, List.getLast?_append, List.getLast?_cons,
      Option.mem_def.1 hc]
    rfl

/-- Splitting tuples leaves the literals of the text as they are. -/
theorem Calm.same_splitTuples {front : List Char} {ls : List (List Char)}
    (h : Calm (front ++ ls.flatMap (· ++ ['\n']))) (hfront : ∀ c ∈ front.getLast?, c = '\n')
    (hls : ∀ line ∈ ls, '\n' ∉ line) :
    literalScan.Same (literalScan.past .outside front) (ls.flatMap (· ++ ['\n'])) (splitTuples ls) := by
  revert front
  induction ls using splitTuples.induct with
  | case1 =>
    intros
    rw [splitTuples]
    exact .refl _ _
  | case2 line rest hopens gathered ih =>
    intro front h hfront
    have hgathered : gathered.1 ++ gathered.2 = rest := gatherLines_append _ rest
    obtain ⟨inner, hopen⟩ := exists_of_opensTuple_joinLines hopens gathered.1
    rw [splitTuples, if_pos hopens]
    change literalScan.Same _ _ (layoutTuple (joinLines (line :: gathered.1)) ++ splitTuples gathered.2)
    have hopenLine : literalScan.past .outside front = .outside := by
      rw [List.flatMap_cons, List.append_assoc] at h
      exact h.past_tuple hfront hopens (hls line List.mem_cons_self)
    have hshape : (line :: rest).flatMap (· ++ ['\n']) =
        (joinLines (line :: gathered.1) ++ ['\n']) ++ gathered.2.flatMap (· ++ ['\n']) := by
      rw [← flatMap_lineFeed, ← List.flatMap_append, List.cons_append, hgathered]
    rw [hshape] at h ⊢
    have hline : line ≠ [] := by
      rintro rfl
      cases hopens
    have hblock := h.same_block hopenLine hopen fun hmore =>
      getLast?_block hline hls fun hnil => hmore (by rw [hnil]; rfl)
    rw [hopenLine]
    refine hblock.append ?_
    rw [← hopenLine, ← Scan.past_append]
    refine ih (fun l hl => hls l ?_) (by simpa using h) fun c hc => ?_
    · rw [← hgathered, List.mem_cons]
      exact .inr (List.mem_append_right _ hl)
    · rw [← List.append_assoc] at hc
      exact eq_lineFeed_of_getLast? hc
  | case3 line rest hopens ih =>
    intro front h hfront
    rw [List.forall_mem_cons] at hls
    rw [splitTuples, if_neg hopens, List.flatMap_cons,
      List.append_cons line '\n' (splitTuples rest)]
    rw [List.flatMap_cons, ← List.append_assoc] at h
    refine Scan.Same.append_left _ ?_
    rw [← Scan.past_append]
    refine ih hls.2 h fun c hc => ?_
    rw [← List.append_assoc, List.getLast?_concat] at hc
    exact (Option.mem_some_iff.1 hc).symm

end Tuples

end LogScript.Layout
