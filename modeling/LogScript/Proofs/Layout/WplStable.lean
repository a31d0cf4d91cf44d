import LogScript.Proofs.Layout.CallsRelaid
import LogScript.Proofs.Layout.TupleRelaid
import LogScript.Proofs.Layout.WplCharacters

/-!
The layout of a laid out WPL document. A second run finds the attributes folded and the calls on
lines of their own; it moves the commas that the tuple pass put behind calls, and puts them back.
That needs every call to stand where the layout puts it once the tuple pass has moved the items of
tuples: a call at the front of an item has to be one level further in than the tuple, and no call
may stand behind another one on its line.
-/

namespace LogScript.Layout

section Arguments

variable {indent item : List Char} {items : List (List Char)}

theorem splitCalls_append_of_standing {text : List Char} (h : everyCall standing text)
    (rest : List Char) : splitCalls (text ++ '\n' :: rest) = text ++ '\n' :: splitCalls rest := by
  rw [splitCalls_append h, splitCalls_of_standing h, List.append_assoc, List.singleton_append]

/-- Where the calls of an item stand, the call pass puts blank characters in front of the comma at
most. -/
theorem exists_splitCalls_item (h : everyCall standing item) :
    ∃ gap : List Char, (∀ c ∈ gap, isBlank c) ∧ ∀ rest,
      splitCalls (item ++ ',' :: '\n' :: rest) = item ++ (gap ++ ',' :: '\n' :: splitCalls rest) := by
  obtain ⟨gap, hgap, hcomma⟩ := exists_splitCalls_comma h
  refine ⟨gap, hgap, fun rest => ?_⟩
  have hsplit := splitCalls_append (everyCall_comma h) rest
  rw [List.append_assoc, List.append_assoc] at hsplit
  rw [← List.singleton_append, hsplit]
  change splitCalls (item ++ [',', '\n']) ++ _ = _
  rw [hcomma]
  simp

theorem exists_splitCalls_argumentLines (hindent : ∀ c ∈ indent, isBlank c)
    (htrim : ∀ item ∈ items, trim item = item)
    (hitems : ∀ item ∈ items, everyCall standing (indent ++ item)) (hne : items ≠ [])
    (trailingComma : Bool) :
    ∃ list, Spread (items ++ if trailingComma then [[]] else []) list ∧ ∀ rest,
      splitCalls (argumentLines indent trailingComma items ++ rest) = list ++ splitCalls rest := by
  induction items with
  | nil => exact absurd rfl hne
  | cons item items ih =>
    rw [List.forall_mem_cons] at htrim hitems
    cases items with
    | nil =>
      cases trailingComma with
      | true =>
        obtain ⟨gap, hgap, hcomma⟩ := exists_splitCalls_item hitems.1
        have hempty : Spread [[]] [] := spread_singleton []
        refine ⟨_, spread_item hindent htrim.1 hgap hempty (List.cons_ne_nil _ _), fun rest => ?_⟩
        have hrest := hcomma rest
        simpa [argumentLines] using hrest
      | false =>
        have hlist := spread_singleton (indent ++ item ++ ['\n'])
        rw [trim_append_blanks _ blank_of_mem_lineFeed, trim_blanks_append hindent, htrim.1] at hlist
        refine ⟨_, hlist, fun rest => ?_⟩
        have hrest := splitCalls_append_of_standing hitems.1 rest
        simpa [argumentLines] using hrest
    | cons next items =>
      obtain ⟨list, hlist, hrest⟩ := ih htrim.2 hitems.2 (List.cons_ne_nil _ _)
      obtain ⟨gap, hgap, hcomma⟩ := exists_splitCalls_item hitems.1
      refine ⟨_, spread_item hindent htrim.1 hgap hlist (by simp), fun rest => ?_⟩
      rw [argumentLines.eq_3 indent trailingComma item (next :: items) (List.cons_ne_nil _ _)]
      have hline := hcomma (argumentLines indent trailingComma (next :: items) ++ rest)
      rw [hrest] at hline
      simpa using hline

end Arguments

/-- The calls of a block are closed in it, and those of a tuple stand once its items have moved to
lines of their own. -/
def tupleSettled (block : List Char) : Bool :=
  let indent := indentOf block
  everyCall closed block &&
    match splitClosing '(' ')' .outside 0 (block.drop (indent.length + 1)) with
    | none => true
    | some (body, after) =>
      let items := (Arguments.ofText body).items
      items.isEmpty || items.all (fun item => everyCall standing (indent ++ indentStep ++ item)) &&
        everyCall standing (indent ++ ')' :: trim after)

/-- Every call is closed within a tuple or between two, and every tuple is settled; `front` are the
lines behind the last tuple. -/
def settled (front : List (List Char)) (ls : List (List Char)) : Bool :=
  match ls with
  | [] => true
  | line :: rest =>
    if opensTuple line then
      let gathered := gatherLines (Balance.pastText {} line) rest
      everyCall closed (joinLines front) && tupleSettled (joinLines (line :: gathered.1)) &&
        settled [] gathered.2
    else settled (front ++ [line]) rest
termination_by ls.length
decreasing_by
  · have := length_gatherLines (Balance.pastText {} line) rest
    simp only [List.length_cons]
    omega
  · simp

section Tuples

variable {block : List Char} {behind : List (List Char)}

variable {line : List Char} {ls : List (List Char)}

theorem lines_joinLines_append (h : ∀ l ∈ line :: ls, '\n' ∉ l) (text : List Char) :
    lines (joinLines (line :: ls) ++ '\n' :: text) = line :: ls ++ lines text := by
  induction ls generalizing line with
  | nil =>
    rw [joinLines, List.intercalate_singleton, lines_of_not_mem (h line List.mem_cons_self)]
    rfl
  | cons next ls ih =>
    rw [List.forall_mem_cons] at h
    rw [joinLines_cons (List.cons_ne_nil _ _), List.append_assoc, List.cons_append,
      lines_of_not_mem h.1, ih h.2]
    rfl

theorem not_mem_indentOf_joinLines (hline : '\n' ∉ line) (hopens : opensTuple line)
    (ls : List (List Char)) : '\n' ∉ indentOf (joinLines (line :: ls)) := by
  obtain ⟨rest, hrest⟩ := exists_of_opensTuple hopens
  obtain ⟨htext, -⟩ := block_of_trimStart hrest
  have hblock : joinLines (line :: ls) =
      indentOf line ++ '(' :: (rest ++ ls.flatMap ('\n' :: ·)) := by
    rw [joinLines_eq, ← List.cons_append, ← List.append_assoc, ← htext]
  rw [hblock, indentOf_append (blank_of_mem_indentOf line) (by decide)]
  intro hmem
  rw [htext] at hline
  exact hline (List.mem_append_left _ hmem)

/-- The call pass over a laid out tuple, and the tuple pass over the result. -/
theorem exists_splitCalls_layoutTuple (hlines : ∀ l ∈ line :: ls, '\n' ∉ l)
    (hopens : opensTuple line) (hgathers : Gathers {} (joinLines (line :: ls)) behind)
    (hstands : everyCall standing (joinLines (line :: ls)))
    (hsettled : tupleSettled (joinLines (line :: ls))) :
    ∃ laid, (∀ rest, splitCalls (layoutTuple (joinLines (line :: ls)) ++ rest) =
        laid ++ '\n' :: splitCalls rest) ∧
      ∀ text, (behind = [] → lines text = []) →
        splitTuples (lines (laid ++ '\n' :: text)) =
          layoutTuple (joinLines (line :: ls)) ++ splitTuples (lines text) := by
  have hwhole : layoutTuple (joinLines (line :: ls)) = joinLines (line :: ls) ++ ['\n'] →
      ∃ laid, (∀ rest, splitCalls (layoutTuple (joinLines (line :: ls)) ++ rest) =
          laid ++ '\n' :: splitCalls rest) ∧
        ∀ text, (behind = [] → lines text = []) →
          splitTuples (lines (laid ++ '\n' :: text)) =
            layoutTuple (joinLines (line :: ls)) ++ splitTuples (lines text) := by
    intro hlayout
    refine ⟨joinLines (line :: ls), fun rest => ?_, fun text hbehind => ?_⟩
    · rw [hlayout, List.append_assoc, List.singleton_append, splitCalls_append_of_standing hstands]
    · have hgathers' : Gathers {} (joinLines (line :: ls)) (lines text) :=
        ⟨hgathers.opens, hgathers.ends.imp id hbehind⟩
      rw [lines_joinLines_append hlines, splitTuples_of_gathers hopens hgathers']
  obtain ⟨inner, hinner⟩ := exists_of_opensTuple_joinLines hopens ls
  have hline := not_mem_indentOf_joinLines (hlines line List.mem_cons_self) hopens ls
  generalize joinLines (line :: ls) = block at *
  obtain ⟨hblock, hdrop⟩ := block_of_trimStart hinner
  rw [tupleSettled, hdrop, Bool.and_eq_true] at hsettled
  replace hsettled := hsettled.2
  dsimp only at hsettled
  split at hsettled
  · rename_i hopen
    refine hwhole ?_
    rw [layoutTuple, hdrop, hopen]
  rename_i body after hclose
  by_cases hitems : (Arguments.ofText body).items = []
  · refine hwhole ?_
    rw [layoutTuple, hdrop, hclose]
    dsimp only
    rw [if_pos (List.isEmpty_iff.2 hitems)]
  rw [Bool.or_eq_true, List.isEmpty_iff, or_iff_right hitems, Bool.and_eq_true,
    List.all_eq_true] at hsettled
  rw [eq_of_splitClosing hclose] at hblock
  have hindent := blank_of_mem_indentOf block
  generalize indentOf block = indent at *
  obtain ⟨list, hlist, hcalls⟩ := exists_splitCalls_argumentLines (blank_of_mem_indent hindent)
    (fun _ => trim_of_mem_items) hsettled.1 hitems (Arguments.ofText body).trailingComma
  obtain ⟨hrun, hsame⟩ := hlist.relaid_lines hitems hclose hindent
  have hbody := foldlM_parenStep_of_splitClosing hclose
  rw [hblock] at hgathers ⊢
  refine ⟨indent ++ '(' :: ('\n' :: (list ++ indent) ++ ')' :: trim after), fun rest => ?_,
    fun text hbehind => splitTuples_relaid hgathers hindent hline hbody hitems hrun hsame text hbehind⟩
  have hshape : layoutTuple (indent ++ '(' :: (body ++ ')' :: after)) ++ rest =
      (indent ++ ['(']) ++ '\n' :: (argumentLines (indent ++ indentStep)
        (Arguments.ofText body).trailingComma (Arguments.ofText body).items ++
          ((indent ++ ')' :: trim after) ++ '\n' :: rest)) := by
    rw [layoutTuple_eq hindent hbody hitems]
    simp
  rw [hshape, splitCalls_append_of_none (findCall?_paren hindent), hcalls,
    splitCalls_append_of_standing hsettled.2]
  simp

theorem splitCalls_front {front : List (List Char)} (h : everyCall standing (joinLines front))
    (rest : List Char) : splitCalls (front.flatMap (· ++ ['\n']) ++ rest) =
      front.flatMap (· ++ ['\n']) ++ splitCalls rest := by
  cases front with
  | nil => rfl
  | cons line front =>
    rw [flatMap_lineFeed, List.append_assoc, List.singleton_append, splitCalls_append_of_standing h,
      List.append_assoc]
    rfl

theorem splitTuples_front {front : List (List Char)}
    (h : ∀ line ∈ front, '\n' ∉ line ∧ opensTuple line = false) (text : List Char) :
    splitTuples (lines (front.flatMap (· ++ ['\n']) ++ text)) =
      front.flatMap (· ++ ['\n']) ++ splitTuples (lines text) := by
  rw [lines_flatMap_lineFeed fun line hline => (h line hline).1]
  induction front with
  | nil => rfl
  | cons line front ih =>
    rw [List.forall_mem_cons] at h
    rw [List.cons_append, splitTuples, if_neg (by rw [h.1.2]; exact Bool.false_ne_true), ih h.2]
    simp

theorem everyCall_joinLines_append {p q : CallCondition} {front : List (List Char)}
    (h : everyCall q (joinLines front)) (ls : List (List Char)) :
    everyCall p (joinLines (front ++ ls)) =
      (everyCall p (joinLines front) && everyCall p (joinLines ls)) := by
  have hnil : everyCall p (joinLines []) = true := everyCall_nil
  cases front with
  | nil => rw [hnil, List.nil_append, Bool.true_and]
  | cons line front =>
    cases ls with
    | nil => rw [hnil, List.append_nil, Bool.and_true]
    | cons next ls =>
      have hjoin : joinLines (line :: front ++ next :: ls) =
          joinLines (line :: front) ++ '\n' :: joinLines (next :: ls) := by
        rw [List.cons_append, joinLines_eq, joinLines_eq, joinLines_eq]
        simp
      rw [hjoin, everyCall_append h]

/-- Where all calls stand, the tuple pass undoes what the call pass does to its result. -/
theorem splitTuples_splitCalls (front ls : List (List Char))
    (hfront : ∀ line ∈ front, '\n' ∉ line ∧ opensTuple line = false)
    (hls : ∀ line ∈ ls, '\n' ∉ line) (hstands : everyCall standing (joinLines (front ++ ls)))
    (h : settled front ls) :
    splitTuples (lines (splitCalls (front.flatMap (· ++ ['\n']) ++ splitTuples ls))) =
      front.flatMap (· ++ ['\n']) ++ splitTuples ls := by
  induction front, ls using settled.induct with
  | case1 front =>
    rw [List.append_nil] at hstands
    rw [splitTuples, splitCalls_front hstands, splitCalls_nil, splitTuples_front hfront, lines, splitTuples]
  | case2 front line rest hopens gathered ih =>
    rw [settled, if_pos hopens, Bool.and_eq_true, Bool.and_eq_true] at h
    obtain ⟨⟨hclosed, htuple⟩, hrest⟩ := h
    have hblockClosed : everyCall closed (joinLines (line :: gathered.1)) := by
      rw [tupleSettled, Bool.and_eq_true] at htuple
      exact htuple.1
    have hparts := gatherLines_append (Balance.pastText {} line) rest
    rw [← hparts, ← List.cons_append, everyCall_joinLines_append hclosed,
      everyCall_joinLines_append hblockClosed, Bool.and_eq_true, Bool.and_eq_true] at hstands
    rw [List.forall_mem_cons, ← hparts, List.forall_mem_append] at hls
    obtain ⟨hline, hblock, hbehind⟩ := hls
    have hgathers : Gathers {} (joinLines (line :: gathered.1)) gathered.2 := by
      apply gathers_block hline
      rw [← hparts, List.forall_mem_append]
      exact ⟨hblock, hbehind⟩
    obtain ⟨laid, hcalls, htuples⟩ := exists_splitCalls_layoutTuple
      (List.forall_mem_cons.2 ⟨hline, hblock⟩) hopens hgathers hstands.2.1 htuple
    have hmore : splitTuples (lines (splitCalls (splitTuples gathered.2))) =
        splitTuples gathered.2 :=
      ih (fun _ hmem => absurd hmem List.not_mem_nil) hbehind hstands.2.2 hrest
    have hnone : gathered.2 = [] → lines (splitCalls (splitTuples gathered.2)) = [] := by
      intro hnil
      rw [hnil, splitTuples, splitCalls_nil]
      rfl
    rw [splitTuples, if_pos hopens, splitCalls_front hstands.1, splitTuples_front hfront, hcalls,
      htuples _ hnone, hmore]
  | case3 front line rest hopens ih =>
    rw [settled, if_neg hopens] at h
    rw [List.forall_mem_cons] at hls
    have hfront' : ∀ l ∈ front ++ [line], '\n' ∉ l ∧ opensTuple l = false := by
      rw [List.forall_mem_append]
      refine ⟨hfront, fun l hl => ?_⟩
      rw [List.mem_singleton.1 hl]
      exact ⟨hls.1, by simpa using hopens⟩
    rw [List.append_cons] at hstands
    have hrest := ih hfront' hls.2 hstands h
    have hshape : (front ++ [line]).flatMap (· ++ ['\n']) ++ splitTuples rest =
        front.flatMap (· ++ ['\n']) ++ (line ++ '\n' :: splitTuples rest) := by
      simp
    rw [hshape] at hrest
    rw [splitTuples, if_neg hopens, hrest]

end Tuples

/-- A line that opens an attribute holds all of it, folded. -/
def attributeFolded (line : List Char) : Bool :=
  !List.isPrefixOf ['#', '['] (trimStart line) ||
    (foldAttribute? (trimStart line)).any fun found => indentOf line ++ found.1 == line

section Attributes

variable {line : List Char}

theorem foldAttribute?_append (hline : '\n' ∉ line) {folded behind : List Char}
    (h : foldAttribute? line = some (folded, behind)) (rest : List Char) :
    foldAttribute? (line ++ '\n' :: rest) = some (folded, rest) := by
  unfold foldAttribute? at h
  split at h
  · rename_i body
    obtain ⟨⟨inner, after⟩, hclose, hpair⟩ := Option.map_eq_some_iff.1 h
    cases hpair
    have hafter : '\n' ∉ after := by
      intro hmem
      rw [eq_of_splitClosing hclose] at hline
      exact hline (by simp [hmem])
    have hbody : '#' :: '[' :: body ++ '\n' :: rest = '#' :: '[' :: (body ++ '\n' :: rest) := rfl
    rw [hbody, foldAttribute?, splitClosing_append hclose, Option.map_some]
    dsimp only
    rw [(firstLine_append_lineFeed hafter rest).1, (firstLine_append_lineFeed hafter rest).2,
      (firstLine_of_not_mem hafter).1]
  · cases h

theorem foldAttribute?_of_not_prefix (h : List.isPrefixOf ['#', '['] line = false) (rest : List Char) :
    foldAttribute? (line ++ '\n' :: rest) = none := by
  unfold foldAttribute?
  split
  · rename_i body htext
    cases line with
    | nil => cases htext
    | cons c line =>
      cases line with
      | nil => cases htext
      | cons d line =>
        cases htext
        cases h
  · rfl

theorem foldAttributes_line (hline : '\n' ∉ line) (h : attributeFolded line) (rest : List Char) :
    foldAttributes (line ++ '\n' :: rest) = line ++ '\n' :: foldAttributes rest := by
  obtain ⟨c, more, htext⟩ : ∃ c more, line ++ '\n' :: rest = c :: more :=
    List.exists_cons_of_ne_nil (by simp)
  obtain ⟨hfirst, hafter⟩ := firstLine_append_lineFeed hline rest
  have hdrop : (line ++ '\n' :: rest).drop (indentOf line).length =
      trimStart line ++ '\n' :: rest := by
    have hsplit : indentOf line ++ trimStart line = line := List.takeWhile_append_dropWhile
    conv => lhs; rw [← hsplit, List.append_assoc]
    rw [hsplit, List.drop_left]
  rw [attributeFolded, Bool.or_eq_true, Option.any_eq_true] at h
  rw [htext] at hfirst hafter hdrop ⊢
  rcases h with hplain | ⟨⟨folded, behind⟩, hfold, hsame⟩
  · rw [foldAttributes_of_none, hfirst, hafter]
    rw [hfirst, hdrop]
    exact foldAttribute?_of_not_prefix (by simpa using hplain) rest
  · have hline' : '\n' ∉ trimStart line := fun hmem =>
      hline ((List.dropWhile_suffix isBlank).subset hmem)
    have hrest := foldAttribute?_append hline' hfold rest
    have hfound : foldAttribute? ((c :: more).drop (indentOf (firstLine (c :: more))).length) =
        some (folded, rest) := by
      rw [hfirst, hdrop, hrest]
    rw [foldAttributes_of_fold hfound, hfirst, eq_of_beq hsame]

end Attributes

section Documents

variable {text : List Char}

/-- A text that ends with a line feed is made of its lines. -/
theorem flatMap_lines (h : EndsLine text) : (lines text).flatMap (· ++ ['\n']) = text := by
  rcases h with rfl | ⟨front, rfl⟩
  · rfl
  · cases hlines : lines (front ++ ['\n']) with
    | nil =>
      have hjoin := joinLines_lines front
      rw [hlines] at hjoin
      rw [← show [] = front from hjoin] at hlines
      cases hlines
    | cons line ls => rw [flatMap_lineFeed, ← hlines, joinLines_lines]

theorem foldAttributes_lines {ls : List (List Char)} (hlines : ∀ line ∈ ls, '\n' ∉ line)
    (h : ∀ line ∈ ls, attributeFolded line) :
    foldAttributes (ls.flatMap (· ++ ['\n'])) = ls.flatMap (· ++ ['\n']) := by
  induction ls with
  | nil => rw [List.flatMap_nil, foldAttributes]
  | cons line ls ih =>
    rw [List.forall_mem_cons] at hlines h
    rw [List.flatMap_cons, List.append_assoc, List.singleton_append,
      foldAttributes_line hlines.1 h.1, ih hlines.2 h.2]

/-- The text with its attributes folded. -/
def folded (text : List Char) : List Char :=
  foldAttributes (normalizeNewlines text)

theorem formatWpl_eq (text : List Char) :
    formatWpl text = splitTuples (lines (splitCalls (folded text))) := rfl

/-- A layout whose attributes stand folded goes into the call pass of a second run as it is. -/
theorem folded_formatWpl (h : ∀ line ∈ lines (formatWpl text), attributeFolded line) :
    folded (formatWpl text) = formatWpl text := by
  have hreturn : '\r' ∉ formatWpl text := by
    refine not_mem_splitTuples fun line hline hc => ?_
    have hcalls : '\r' ∉ splitCalls (folded text) :=
      not_mem_splitCalls (not_mem_foldAttributes (not_mem_normalizeNewlines text))
    exact hcalls (mem_of_mem_lines (List.mem_flatten.2 ⟨line, hline, hc⟩))
  have hlines := flatMap_lines (endsLine_splitTuples (lines (splitCalls (folded text))))
  rw [← formatWpl_eq] at hlines
  rw [folded, normalizeNewlines_of_not_mem hreturn, ← hlines]
  exact foldAttributes_lines (fun line hline => not_mem_of_mem_lines hline) h

/-- Where every call is alone on its line, the calls stand behind the call pass. -/
theorem everyCall_standing_splitCalls (h : EndsLine text)
    (hlone : everyCall lone (joinLines (lines text))) :
    everyCall standing (joinLines (lines (splitCalls text))) := by
  rcases h with rfl | ⟨front, rfl⟩
  · rw [splitCalls_nil]
    exact everyCall_nil
  · rw [joinLines_lines] at hlone
    obtain ⟨laid, hlaid, hstands⟩ := exists_splitCalls_standing hlone
    rwa [hlaid, joinLines_lines]

/-- A second run changes nothing where every call is closed and alone on its line, where calls and
tuples lie within one another or apart and no item of a tuple moves a call to another indentation,
and where the layout leaves every attribute folded on its line. -/
theorem formatWpl_formatWpl (hlone : everyCall lone (joinLines (lines (folded text))))
    (hsettled : settled [] (lines (splitCalls (folded text))))
    (hattributes : ∀ line ∈ lines (formatWpl text), attributeFolded line) :
    formatWpl (formatWpl text) = formatWpl text := by
  have hstands := everyCall_standing_splitCalls (endsLine_foldAttributes (normalizeNewlines text)) hlone
  have hpasses := splitTuples_splitCalls [] (lines (splitCalls (folded text)))
    (fun _ hmem => absurd hmem List.not_mem_nil) (fun _ hline => not_mem_of_mem_lines hline) hstands
    hsettled
  rw [formatWpl_eq, folded_formatWpl hattributes]
  exact hpasses

/-- A document with a folded attribute, calls within tuples and within calls, and text behind the
closing parentheses. -/
def nestedCalls : List Char :=
  "#[tag(a:\n \"x\"), b] c\nrule r \x7b\n  (json(a, kv(b)), c) d\n  e kv(f,) (g)\n\x7d".toList

theorem formatWpl_formatWpl_nestedCalls :
    (everyCall lone (joinLines (lines (folded nestedCalls))) ∧
      settled [] (lines (splitCalls (folded nestedCalls))) ∧
      ∀ line ∈ lines (formatWpl nestedCalls), attributeFolded line) ∧
    formatWpl (formatWpl nestedCalls) = formatWpl nestedCalls := by
  have hlone : everyCall lone (joinLines (lines (folded nestedCalls))) := by decide +kernel
  have hsettled : settled [] (lines (splitCalls (folded nestedCalls))) := by decide +kernel
  have hattributes : (lines (formatWpl nestedCalls)).all attributeFolded := by decide +kernel
  rw [List.all_eq_true] at hattributes
  exact ⟨⟨hlone, hsettled, hattributes⟩, formatWpl_formatWpl hlone hsettled hattributes⟩

/-- A call behind another one on its line is laid out by the second run. -/
example : formatWpl (formatWpl "kv(a)kv(b)".toList) ≠ formatWpl "kv(a)kv(b)".toList := by
  decide +kernel

end Documents

end LogScript.Layout
