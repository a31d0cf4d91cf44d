import LogScript.Proofs.Layout.CallSearch
import LogScript.Proofs.Layout.Trimmed

/-!
The call pass line by line. The pass looks for the next call from the start of a line, and behind
the line on which the call ends it starts again. A text whose calls are all closed is therefore
laid out by itself, whatever lines follow; and where every call stands as the layout puts it, the
pass changes nothing, except that it moves a comma behind a call to a line of its own.
-/

namespace LogScript.Layout

theorem splitLastLine_of_not_mem {lead : List Char} (h : '\n' ∉ lead) :
    splitLastLine lead = ([], lead) := by
  have htake : lead.reverse.takeWhile (· != '\n') = lead.reverse :=
    (firstLine_of_not_mem fun hmem => h (List.mem_reverse.1 hmem)).1
  have hdrop : lead.reverse.takeWhile (· != '\n') ++ lead.reverse.dropWhile (· != '\n') =
      lead.reverse := List.takeWhile_append_dropWhile
  rw [htake, List.append_right_eq_self] at hdrop
  rw [splitLastLine, htake, hdrop, List.reverse_reverse]
  rfl

theorem splitLastLine_append_lineFeed {lead : List Char} (h : '\n' ∉ lead) (front : List Char) :
    splitLastLine (front ++ '\n' :: lead) = (front ++ ['\n'], lead) := by
  have hall : ∀ c ∈ lead.reverse, (c != '\n') = true := by
    intro c hc
    rw [bne_iff_ne]
    rintro rfl
    exact h (List.mem_reverse.1 hc)
  have hreverse : (front ++ '\n' :: lead).reverse = lead.reverse ++ '\n' :: front.reverse := by
    simp
  rw [splitLastLine, hreverse, List.takeWhile_append_of_pos hall, List.dropWhile_append_of_pos hall]
  simp

/-- A text is one line, or further text in front of its last line. -/
theorem lastLine_cases (text : List Char) :
    '\n' ∉ text ∨ ∃ front lead, '\n' ∉ lead ∧ text = front ++ '\n' :: lead := by
  rcases line_cases text.reverse with hline | ⟨lead, front, hlead, htext⟩
  · exact .inl fun hmem => hline (List.mem_reverse.2 hmem)
  · refine .inr ⟨front.reverse, lead.reverse, fun hmem => hlead (List.mem_reverse.1 hmem), ?_⟩
    have hreverse := congrArg List.reverse htext
    rw [List.reverse_reverse] at hreverse
    simpa using hreverse

theorem not_mem_splitLastLine (text : List Char) : '\n' ∉ (splitLastLine text).2 := by
  rcases lastLine_cases text with hlead | ⟨front, lead, hlead, rfl⟩
  · rwa [splitLastLine_of_not_mem hlead]
  · rwa [splitLastLine_append_lineFeed hlead]

/-- What stands in front of a line feed makes no difference to the last line. -/
theorem splitLastLine_behind (front text : List Char) :
    splitLastLine (front ++ '\n' :: text) =
      (front ++ '\n' :: (splitLastLine text).1, (splitLastLine text).2) := by
  rcases lastLine_cases text with hlead | ⟨more, lead, hlead, rfl⟩
  · rw [splitLastLine_of_not_mem hlead, splitLastLine_append_lineFeed hlead]
  · have hsplit := splitLastLine_append_lineFeed hlead (front ++ '\n' :: more)
    rw [List.append_assoc, List.cons_append] at hsplit
    rw [splitLastLine_append_lineFeed hlead, hsplit]
    simp

theorem indentOf_of_blanks {blanks : List Char} (h : ∀ c ∈ blanks, isBlank c) :
    indentOf blanks = blanks := by
  induction blanks with
  | nil => rfl
  | cons c blanks ih =>
    rw [List.forall_mem_cons] at h
    rw [indentOf, List.takeWhile_cons_of_pos h.1]
    exact congrArg (c :: ·) (ih h.2)

section Closing

variable {opening closing c : Char} {q : Quoting} {depth : Nat} {text inner after : List Char}

/-- A character closes the text, or its bracket is looked for in the rest. -/
theorem splitClosing_cons_cases :
    (∀ rest, splitClosing opening closing q depth (c :: rest) = some ([], rest)) ∨
      ∃ depth', ∀ rest, splitClosing opening closing q depth (c :: rest) =
        (splitClosing opening closing (q.next c) depth' rest).map fun r => (c :: r.1, r.2) := by
  by_cases hcovers : q.covers c
  · exact .inr ⟨depth, fun rest => by rw [splitClosing, if_pos hcovers]⟩
  by_cases hopening : c == opening
  · exact .inr ⟨depth + 1, fun rest => by rw [splitClosing, if_neg hcovers, if_pos hopening]⟩
  by_cases hclosing : c == closing
  · by_cases hdepth : depth = 0
    · exact .inl fun rest => by
        rw [splitClosing, if_neg hcovers, if_neg hopening, if_pos hclosing, if_pos hdepth]
    · exact .inr ⟨depth - 1, fun rest => by
        rw [splitClosing, if_neg hcovers, if_neg hopening, if_pos hclosing, if_neg hdepth]⟩
  · exact .inr ⟨depth, fun rest => by
      rw [splitClosing, if_neg hcovers, if_neg hopening, if_neg hclosing]⟩

theorem splitClosing_append (h : splitClosing opening closing q depth text = some (inner, after))
    (more : List Char) :
    splitClosing opening closing q depth (text ++ more) = some (inner, after ++ more) := by
  induction text generalizing q depth inner with
  | nil => cases h
  | cons c rest ih =>
    rcases splitClosing_cons_cases with hcloses | ⟨depth', hstep⟩
    · rw [hcloses] at h
      cases h
      exact hcloses _
    · rw [hstep] at h
      obtain ⟨⟨inner', after'⟩, hrest, hpair⟩ := Option.map_eq_some_iff.1 h
      cases hpair
      rw [List.cons_append, hstep, ih hrest]
      rfl

theorem splitClosing_line_append {line more : List Char}
    (h : splitClosing opening closing q depth text = some (inner, line ++ '\n' :: more))
    (rest : List Char) : splitClosing opening closing q depth (text ++ rest) =
      some (inner, line ++ '\n' :: (more ++ rest)) := by
  rw [splitClosing_append h, List.append_assoc, List.cons_append]

end Closing

/-- A condition on a split call: the text in front of it on its line, its arguments, and the text
behind it on the line on which it ends. -/
abbrev CallCondition :=
  List Char → List Char → List Char → Bool

/-- Every call is closed, and meets the condition if it has arguments. -/
def everyCall (p : CallCondition) (text : List Char) : Bool :=
  match _ : findCall? true text with
  | none => true
  | some (before, _, inner) =>
    match _ : splitClosing '(' ')' .outside 0 inner with
    | none => false
    | some (body, after) =>
      ((Arguments.ofText body).items.isEmpty ||
          p (splitLastLine before).2 body (firstLine after)) &&
        everyCall p (afterFirstLine after)
termination_by text.length
decreasing_by
  rw [eq_of_findCall? ‹findCall? true text = _›,
    eq_of_splitClosing ‹splitClosing _ _ _ _ inner = _›]
  simp only [afterFirstLine, List.length_drop, List.length_cons, List.length_append]
  omega

section Conditions

variable {p : CallCondition} {text before call inner body after line more : List Char}

theorem everyCall_of_none (h : findCall? true text = none) : everyCall p text = true := by
  rw [everyCall.eq_def]
  split
  · rfl
  · rename_i hfind
    cases h.symm.trans hfind

@[simp] theorem everyCall_nil : everyCall p [] = true :=
  everyCall_of_none rfl

theorem everyCall_of_open (hfind : findCall? true text = some (before, call, inner))
    (hopen : splitClosing '(' ')' .outside 0 inner = none) : everyCall p text = false := by
  rw [everyCall.eq_def]
  split
  · rename_i hnone
    cases hfind.symm.trans hnone
  · rename_i hfind'
    cases hfind.symm.trans hfind'
    split
    · rfl
    · rename_i hclose
      cases hopen.symm.trans hclose

theorem everyCall_of_closed (hfind : findCall? true text = some (before, call, inner))
    (hclose : splitClosing '(' ')' .outside 0 inner = some (body, after)) :
    everyCall p text = (((Arguments.ofText body).items.isEmpty ||
      p (splitLastLine before).2 body (firstLine after)) && everyCall p (afterFirstLine after)) := by
  rw [everyCall.eq_def]
  split
  · rename_i hnone
    cases hfind.symm.trans hnone
  · rename_i hfind'
    cases hfind.symm.trans hfind'
    split
    · rename_i hopen
      cases hopen.symm.trans hclose
    · rename_i hclose'
      cases hclose.symm.trans hclose'
      rfl

theorem everyCall_of_line (hfind : findCall? true text = some (before, call, inner))
    (hclose : splitClosing '(' ')' .outside 0 inner = some (body, line ++ '\n' :: more))
    (hline : '\n' ∉ line) : everyCall p text = (((Arguments.ofText body).items.isEmpty ||
      p (splitLastLine before).2 body line) && everyCall p more) := by
  obtain ⟨hfirst, hafter⟩ := firstLine_append_lineFeed hline more
  rw [everyCall_of_closed hfind hclose, hfirst, hafter]

theorem everyCall_of_lastLine (hfind : findCall? true text = some (before, call, inner))
    (hclose : splitClosing '(' ')' .outside 0 inner = some (body, line)) (hline : '\n' ∉ line) :
    everyCall p text =
      ((Arguments.ofText body).items.isEmpty || p (splitLastLine before).2 body line) := by
  obtain ⟨hfirst, hafter⟩ := firstLine_of_not_mem hline
  rw [everyCall_of_closed hfind hclose, hfirst, hafter, everyCall_nil, Bool.and_true]

/-- Induction over the calls of a text that are all closed: each call stands on the last line, or
on a line in front of further text. -/
theorem everyCall_induction {motive : (text : List Char) → everyCall p text → Prop}
    (none : ∀ text (hfind : findCall? true text = none), motive text (everyCall_of_none hfind))
    (last : ∀ text before call inner body line (h : everyCall p text),
      findCall? true text = some (before, call, inner) →
      splitClosing '(' ')' .outside 0 inner = some (body, line) → '\n' ∉ line →
      ((Arguments.ofText body).items ≠ [] → p (splitLastLine before).2 body line) → motive text h)
    (line : ∀ text before call inner body line more (h : everyCall p text),
      findCall? true text = some (before, call, inner) →
      splitClosing '(' ')' .outside 0 inner = some (body, line ++ '\n' :: more) → '\n' ∉ line →
      ((Arguments.ofText body).items ≠ [] → p (splitLastLine before).2 body line) →
      ∀ hmore : everyCall p more, motive more hmore → motive text h)
    (text : List Char) (h : everyCall p text) : motive text h := by
  have hmeets : ∀ {items : List (List Char)} {meets : Bool}, (items.isEmpty || meets) →
      items ≠ [] → meets := by
    intro items meets hor hitems
    rw [Bool.or_eq_true] at hor
    exact hor.resolve_left fun hempty => hitems (List.isEmpty_iff.1 hempty)
  induction text using everyCall.induct with
  | case1 text hfind => exact none text hfind
  | case2 text before call inner hfind hopen =>
    rw [everyCall_of_open hfind hopen] at h
    cases h
  | case3 text before call inner hfind body after hclose ih =>
    have hcalls := h
    rcases line_cases after with hline | ⟨line', more, hline, rfl⟩
    · rw [everyCall_of_lastLine hfind hclose hline] at hcalls
      exact last text before call inner body after h hfind hclose hline (hmeets hcalls)
    · rw [everyCall_of_line hfind hclose hline, Bool.and_eq_true] at hcalls
      rw [(firstLine_append_lineFeed hline more).2] at ih
      exact line text before call inner body line' more h hfind hclose hline (hmeets hcalls.1)
        hcalls.2 (ih hcalls.2)

end Conditions

@[simp] theorem splitCalls_nil : splitCalls [] = [] :=
  splitCalls_of_none rfl

/-- What the layout makes of a call and the lines that it stands on. -/
def callLines (before call body line : List Char) : List Char :=
  if (Arguments.ofText body).items.isEmpty then before ++ call ++ body ++ ')' :: (line ++ ['\n'])
  else (splitLastLine before).1 ++
    layoutCall (splitLastLine before).2 call (Arguments.ofText body) line

section Lines

variable {p : CallCondition} {text before call inner body after line rest : List Char}

theorem splitCalls_of_line (hfind : findCall? true text = some (before, call, inner))
    (hclose : splitClosing '(' ')' .outside 0 inner = some (body, line ++ '\n' :: rest))
    (hline : '\n' ∉ line) : splitCalls text = callLines before call body line ++ splitCalls rest := by
  obtain ⟨hfirst, hafter⟩ := firstLine_append_lineFeed hline rest
  rw [splitCalls_of_closed hfind hclose, hfirst, hafter, callLines, List.take_length_add_append]
  rfl

theorem splitCalls_append_of_none (h : findCall? true text = none) (rest : List Char) :
    splitCalls (text ++ '\n' :: rest) = text ++ '\n' :: splitCalls rest := by
  have hfind := findCall?_append_of_none breaks_lineFeed h rest
  cases hrest : findCall? true rest with
  | none =>
    rw [hrest] at hfind
    rw [splitCalls_of_none hfind, splitCalls_of_none hrest]
  | some found =>
    obtain ⟨before, call, inner⟩ := found
    rw [hrest] at hfind
    cases hclose : splitClosing '(' ')' .outside 0 inner with
    | none => rw [splitCalls_of_open hfind hclose, splitCalls_of_open hrest hclose]
    | some parts =>
      obtain ⟨body, after⟩ := parts
      rw [splitCalls_of_closed hfind hclose, splitCalls_of_closed hrest hclose, splitLastLine_behind]
      split <;> simp

/-- A text whose calls are closed is laid out by itself. -/
theorem splitCalls_append (h : everyCall p text) (rest : List Char) :
    splitCalls (text ++ '\n' :: rest) = splitCalls (text ++ ['\n']) ++ splitCalls rest := by
  induction text, h using everyCall_induction with
  | none text hfind =>
    rw [splitCalls_append_of_none hfind, splitCalls_append_of_none hfind, splitCalls_nil]
    simp
  | last text before call inner body line _ hfind hclose hline _ =>
    have hfind' := findCall?_append_of_some hfind
    have hclose' := splitClosing_append hclose
    rw [splitCalls_of_line (hfind' ('\n' :: rest)) (hclose' _) hline,
      splitCalls_of_line (hfind' ['\n']) (hclose' _) hline, splitCalls_nil, List.append_nil]
  | line text before call inner body line more _ hfind hclose hline _ _ ih =>
    have hfind' := findCall?_append_of_some hfind
    have hclose' := splitClosing_line_append hclose
    rw [splitCalls_of_line (hfind' ('\n' :: rest)) (hclose' _) hline,
      splitCalls_of_line (hfind' ['\n']) (hclose' _) hline, ih, List.append_assoc]

theorem everyCall_append_of_none (h : findCall? true text = none) (rest : List Char) :
    everyCall p (text ++ '\n' :: rest) = everyCall p rest := by
  have hfind := findCall?_append_of_none breaks_lineFeed h rest
  cases hrest : findCall? true rest with
  | none =>
    rw [hrest] at hfind
    rw [everyCall_of_none hfind, everyCall_of_none hrest]
  | some found =>
    obtain ⟨before, call, inner⟩ := found
    rw [hrest] at hfind
    cases hclose : splitClosing '(' ')' .outside 0 inner with
    | none => rw [everyCall_of_open hfind hclose, everyCall_of_open hrest hclose]
    | some parts =>
      obtain ⟨body, after⟩ := parts
      rw [everyCall_of_closed hfind hclose, everyCall_of_closed hrest hclose, splitLastLine_behind]

/-- A text whose calls are closed is looked through by itself. -/
theorem everyCall_append {q : CallCondition} (h : everyCall q text) (rest : List Char) :
    everyCall p (text ++ '\n' :: rest) = (everyCall p text && everyCall p rest) := by
  induction text, h using everyCall_induction with
  | none text hfind =>
    rw [everyCall_append_of_none hfind, everyCall_of_none hfind, Bool.true_and]
  | last text before call inner body line _ hfind hclose hline _ =>
    have hfind' := findCall?_append_of_some hfind ('\n' :: rest)
    rw [everyCall_of_line hfind' (splitClosing_append hclose _) hline,
      everyCall_of_lastLine hfind hclose hline]
  | line text before call inner body line more _ hfind hclose hline _ _ ih =>
    have hfind' := findCall?_append_of_some hfind ('\n' :: rest)
    rw [everyCall_of_line hfind' (splitClosing_line_append hclose _) hline,
      everyCall_of_line hfind hclose hline, ih, Bool.and_assoc]

/-- No condition but that the calls are closed. -/
def closed : CallCondition := fun _ _ _ =>
  true

/-- A comma behind a text opens no call and closes none. -/
theorem everyCall_comma (h : everyCall p text) : everyCall closed (text ++ [',']) := by
  induction text, h using everyCall_induction with
  | none text hfind =>
    refine everyCall_of_none ?_
    rw [findCall?_append_of_none breaks_comma hfind]
    rfl
  | last text before call inner body line _ hfind hclose hline _ =>
    have hfind' := findCall?_append_of_some hfind [',']
    have hlast : '\n' ∉ line ++ [','] := by simpa using hline
    rw [everyCall_of_lastLine hfind' (splitClosing_append hclose _) hlast, closed, Bool.or_true]
  | line text before call inner body line more _ hfind hclose hline _ _ ih =>
    have hfind' := findCall?_append_of_some hfind [',']
    rw [everyCall_of_line hfind' (splitClosing_line_append hclose _) hline, closed, Bool.or_true,
      Bool.true_and]
    exact ih

/-- The call stands as the layout puts it: on lines of its own, with a line per argument. -/
def standing : CallCondition := fun lead body suffix =>
  allBlank lead && suffix.isEmpty &&
    body == '\n' :: (argumentLines (lead ++ indentStep) (Arguments.ofText body).trailingComma
      (Arguments.ofText body).items ++ lead)

theorem layoutCall_of_standing {lead suffix : List Char} (h : standing lead body suffix)
    (behind : List Char) : layoutCall lead call (Arguments.ofText body) behind =
      lead ++ call ++ body ++ ')' ::
        ((if (trim behind).isEmpty then [] else '\n' :: lead ++ trim behind) ++ ['\n']) := by
  rw [standing, Bool.and_eq_true, Bool.and_eq_true, beq_iff_eq] at h
  obtain ⟨⟨hlead, -⟩, hbody⟩ := h
  rw [layoutCall, indentOf_of_blanks (List.all_eq_true.1 hlead), if_pos hlead, if_pos hlead]
  conv => rhs; rw [hbody]
  simp

/-- The lines of a call that stands, or has no arguments, stay as they are. -/
theorem callLines_of_standing (h : (Arguments.ofText body).items ≠ [] →
    standing (splitLastLine before).2 body line) :
    callLines before call body line = before ++ call ++ body ++ ')' :: (line ++ ['\n']) := by
  rw [callLines]
  split
  · rfl
  · rename_i hitems
    have hstands := h (by simpa using hitems)
    have hline : line = [] := by
      rw [standing, Bool.and_eq_true, Bool.and_eq_true] at hstands
      exact List.isEmpty_iff.1 hstands.1.2
    have hlead := splitLastLine_append before
    rw [layoutCall_of_standing hstands, hline]
    generalize splitLastLine before = parts at hlead
    rw [← hlead]
    simp [trim, trimStart, trimEnd]

/-- Behind a call that stands, a comma goes to a line of its own. -/
theorem exists_callLines_comma (h : (Arguments.ofText body).items ≠ [] →
    standing (splitLastLine before).2 body line) :
    ∃ gap : List Char, (∀ c ∈ gap, isBlank c) ∧ callLines before call body (line ++ [',']) =
      before ++ call ++ body ++ ')' :: (line ++ (gap ++ [',', '\n'])) := by
  rw [callLines]
  split
  · exact ⟨[], by simp, by simp⟩
  · rename_i hitems
    have hstands := h (by simpa using hitems)
    have hlead := splitLastLine_append before
    have hblank := hstands
    rw [standing, Bool.and_eq_true, Bool.and_eq_true] at hblank
    rw [List.isEmpty_iff.1 hblank.1.2]
    refine ⟨'\n' :: (splitLastLine before).2, ?_, ?_⟩
    · rw [List.forall_mem_cons]
      exact ⟨by decide, List.all_eq_true.1 hblank.1.1⟩
    · have hcomma : trim [','] = [','] := by decide
      rw [layoutCall_of_standing hstands, List.nil_append, hcomma]
      generalize splitLastLine before = parts at hlead
      rw [← hlead]
      simp

theorem text_of_closed (hfind : findCall? true text = some (before, call, inner))
    (hclose : splitClosing '(' ')' .outside 0 inner = some (body, after)) :
    text = before ++ call ++ body ++ ')' :: after := by
  rw [eq_of_findCall? hfind, eq_of_splitClosing hclose]
  simp

/-- Standing calls stay as they are. -/
theorem splitCalls_of_standing (h : everyCall standing text) :
    splitCalls (text ++ ['\n']) = text ++ ['\n'] := by
  induction text, h using everyCall_induction with
  | none text hfind => rw [splitCalls_append_of_none hfind, splitCalls_nil]
  | last text before call inner body line _ hfind hclose hline hstands =>
    have hfind' := findCall?_append_of_some hfind ['\n']
    rw [splitCalls_of_line hfind' (splitClosing_append hclose _) hline,
      callLines_of_standing hstands, splitCalls_nil, text_of_closed hfind hclose]
    simp
  | line text before call inner body line more _ hfind hclose hline hstands _ ih =>
    have hfind' := findCall?_append_of_some hfind ['\n']
    rw [splitCalls_of_line hfind' (splitClosing_line_append hclose _) hline,
      callLines_of_standing hstands, ih, text_of_closed hfind hclose]
    simp

/-- A comma behind standing calls stays where it is, or goes to a line of its own. -/
theorem exists_splitCalls_comma (h : everyCall standing text) :
    ∃ gap : List Char, (∀ c ∈ gap, isBlank c) ∧
      splitCalls (text ++ [',', '\n']) = text ++ (gap ++ [',', '\n']) := by
  induction text, h using everyCall_induction with
  | none text hfind =>
    have hfind' : findCall? true (text ++ [',']) = none := by
      rw [findCall?_append_of_none breaks_comma hfind]
      rfl
    have hlines := splitCalls_append_of_none hfind' []
    rw [splitCalls_nil, List.append_assoc] at hlines
    exact ⟨[], by simp, hlines⟩
  | last text before call inner body line _ hfind hclose hline hstands =>
    have hfind' := findCall?_append_of_some hfind [',', '\n']
    have hclose' := splitClosing_append hclose [',', '\n']
    have hcomma : '\n' ∉ line ++ [','] := by simpa using hline
    have hsplit : line ++ [',', '\n'] = (line ++ [',']) ++ '\n' :: [] := by simp
    obtain ⟨gap, hgap, hlines⟩ := exists_callLines_comma hstands
    refine ⟨gap, hgap, ?_⟩
    rw [hsplit] at hclose'
    rw [splitCalls_of_line hfind' hclose' hcomma, hlines, splitCalls_nil,
      text_of_closed hfind hclose]
    simp
  | line text before call inner body line more _ hfind hclose hline hstands _ ih =>
    have hfind' := findCall?_append_of_some hfind [',', '\n']
    obtain ⟨gap, hgap, hmore⟩ := ih
    refine ⟨gap, hgap, ?_⟩
    rw [splitCalls_of_line hfind' (splitClosing_line_append hclose _) hline,
      callLines_of_standing hstands, hmore, text_of_closed hfind hclose]
    simp

end Lines

end LogScript.Layout
