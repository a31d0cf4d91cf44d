import LogScript.Proofs.Layout.Visible

/-!
The layout of WPL moves blank characters only. Every piece that a pass cuts out of a text, be it
an attribute, a call or a tuple, is put back with the same visible characters between the pieces
around it: the text before an opening bracket, the arguments with the commas between them, and the
text behind the closing bracket.
-/

namespace LogScript.Layout

theorem visible_flatten_words (text : List Char) : visible (words text).flatten = visible text := by
  induction text with
  | nil => rfl
  | cons c rest ih =>
    rw [words]
    split
    · rename_i hc
      rw [ih, visible_cons_of_blank hc]
    · split
      · rw [List.flatten_cons, visible_append, ih, ← visible_append, List.singleton_append]
      · rw [flatten_consHead, visible_cons, ih, ← visible_cons]

theorem visible_indentOf (text : List Char) : visible (indentOf text) = [] :=
  visible_takeWhile_blank text

theorem visible_indentStep : visible indentStep = [] := rfl

theorem blank_of_mem_indentStep : ∀ c ∈ indentStep, isBlank c := by
  intro c hc
  rw [List.eq_of_mem_replicate hc]
  decide

/-- One level further in. -/
theorem blank_of_mem_indent {indent : List Char} (h : ∀ c ∈ indent, isBlank c) :
    ∀ c ∈ indent ++ indentStep, isBlank c :=
  List.forall_mem_append.2 ⟨h, blank_of_mem_indentStep⟩

theorem visible_lineFeed : visible ['\n'] = [] := rfl

theorem visible_lineFeed_cons (text : List Char) : visible ('\n' :: text) = visible text :=
  visible_cons_of_blank (by decide) text

/-- A text is its first line and what follows it, apart from the line feed between them. -/
theorem visible_firstLine_append (text : List Char) :
    visible (firstLine text) ++ visible (afterFirstLine text) = visible text := by
  induction text with
  | nil => rfl
  | cons c rest ih =>
    by_cases hc : c = '\n'
    · rw [hc, firstLine_lineFeed, afterFirstLine_lineFeed, visible_lineFeed_cons]
      rfl
    · rw [firstLine_cons hc, afterFirstLine_cons hc, visible_cons, List.append_assoc, ih,
        ← visible_cons]

theorem visible_foldAttribute? {text folded rest : List Char}
    (h : foldAttribute? text = some (folded, rest)) :
    visible folded ++ visible rest = visible text := by
  unfold foldAttribute? at h
  split at h
  · rename_i body
    obtain ⟨⟨inner, after⟩, hclose, hpair⟩ := Option.map_eq_some_iff.1 h
    have hgap : visible (if (trim (firstLine after)).isEmpty then [] else [' ']) = [] := by
      split <;> rfl
    have hinner : visible ([' '].intercalate (words inner)) = visible inner := by
      rw [visible_intercalate rfl, visible_flatten_words]
    have hbody : '#' :: '[' :: (inner ++ ']' :: after) = ['#', '['] ++ inner ++ [']'] ++ after := by
      simp
    cases hpair
    rw [eq_of_splitClosing hclose, hbody]
    simp only [visible_append, hgap, hinner, visible_trim, List.append_assoc, List.nil_append,
      visible_firstLine_append]
  · cases h

theorem visible_drop_indentOf (text : List Char) :
    visible (text.drop (indentOf (firstLine text)).length) = visible text := by
  have hprefix : indentOf (firstLine text) <+: text :=
    (List.takeWhile_prefix isBlank).trans (List.takeWhile_prefix (· != '\n'))
  have hsplit := visible_drop_of_prefix hprefix
  rwa [visible_indentOf, List.nil_append] at hsplit

theorem visible_foldAttributes (text : List Char) :
    visible (foldAttributes text) = visible text := by
  induction text using foldAttributes.induct with
  | case1 => rw [foldAttributes]
  | case2 c more line indent folded rest hfold ih =>
    rw [foldAttributes_of_fold hfold, visible_append, visible_append, visible_indentOf,
      visible_lineFeed_cons, ih, List.nil_append, visible_foldAttribute? hfold,
      visible_drop_indentOf]
  | case3 c more line indent hfold ih =>
    rw [foldAttributes_of_none hfold, visible_append, visible_lineFeed_cons, ih,
      visible_firstLine_append]

theorem intercalate_consHead (gap : List Char) (c : Char) {pieces : List (List Char)}
    (h : pieces ≠ []) : gap.intercalate (consHead c pieces) = c :: gap.intercalate pieces := by
  cases pieces with
  | nil => exact absurd rfl h
  | cons piece pieces =>
    cases pieces with
    | nil => simp [consHead]
    | cons next pieces =>
      rw [consHead, List.intercalate_cons_cons, List.intercalate_cons_cons]
      rfl

theorem consHead_ne_nil (c : Char) (pieces : List (List Char)) : consHead c pieces ≠ [] := by
  cases pieces <;> simp [consHead]

theorem commaPieces_ne_nil (q : Quoting) (depth : Nat) (body : List Char) :
    commaPieces q depth body ≠ [] := by
  cases body with
  | nil => simp [commaPieces]
  | cons c rest =>
    rw [commaPieces]
    split
    · exact consHead_ne_nil _ _
    · split
      · exact List.cons_ne_nil _ _
      · exact consHead_ne_nil _ _

/-- The pieces between the commas, put together with commas again. -/
theorem intercalate_commaPieces (q : Quoting) (depth : Nat) (body : List Char) :
    [','].intercalate (commaPieces q depth body) = body := by
  induction body generalizing q depth with
  | nil => rfl
  | cons c rest ih =>
    rw [commaPieces]
    split
    · rw [intercalate_consHead _ _ (commaPieces_ne_nil _ _ _), ih]
    · split
      · rename_i hcomma
        simp only [Bool.and_eq_true, beq_iff_eq] at hcomma
        obtain ⟨piece, pieces, hpieces⟩ :=
          List.exists_cons_of_ne_nil (commaPieces_ne_nil .outside depth rest)
        have hrest := ih .outside depth
        rw [hpieces] at hrest ⊢
        rw [List.intercalate_cons_cons, hrest, hcomma.1]
        rfl
      · rw [intercalate_consHead _ _ (commaPieces_ne_nil _ _ _), ih]

theorem visible_intercalate_map_trim (pieces : List (List Char)) :
    visible ([','].intercalate (pieces.map trim)) = visible ([','].intercalate pieces) := by
  induction pieces with
  | nil => rfl
  | cons piece pieces ih =>
    cases pieces with
    | nil => simp [visible_trim]
    | cons next pieces =>
      rw [List.map_cons] at ih
      rw [List.map_cons, List.map_cons, List.intercalate_cons_cons, List.intercalate_cons_cons,
        visible_append, visible_append, visible_append, visible_append, visible_trim, ih]

/-- The visible characters of a list with a comma behind every item but the last, or behind every
item. -/
theorem visible_argumentLines {indent : List Char} (hindent : visible indent = [])
    (trailingComma : Bool) {items : List (List Char)} (h : items ≠ []) :
    visible (argumentLines indent trailingComma items) =
      visible ([','].intercalate (items ++ if trailingComma then [[]] else [])) := by
  induction items with
  | nil => exact absurd rfl h
  | cons item items ih =>
    cases items with
    | nil =>
      have hcomma : visible [',', '\n'] = visible [','] := rfl
      cases trailingComma with
      | true => simp [argumentLines, visible_append, hindent, hcomma]
      | false => simp [argumentLines, visible_append, hindent, visible_lineFeed]
    | cons next items =>
      have hcomma : visible [',', '\n'] = visible [','] := rfl
      have hlines : argumentLines indent trailingComma (item :: next :: items) =
          indent ++ item ++ [',', '\n'] ++ argumentLines indent trailingComma (next :: items) :=
        argumentLines.eq_3 indent trailingComma item (next :: items) (List.cons_ne_nil _ _)
      rw [hlines, List.cons_append, List.cons_append, List.intercalate_cons_cons,
        ← List.cons_append, visible_append, visible_append, visible_append, visible_append,
        visible_append, ih (List.cons_ne_nil _ _), hindent, hcomma, List.nil_append]

/-- The items, and an empty one when a comma follows the last, are the trimmed pieces. -/
theorem items_ofText {body : List Char} (h : (Arguments.ofText body).items ≠ []) :
    ((Arguments.ofText body).items ++
      if (Arguments.ofText body).trailingComma then [[]] else []) =
        (commaPieces .outside 0 body).map trim := by
  have hpieces : (commaPieces .outside 0 body).map trim ≠ [] := by
    simpa using commaPieces_ne_nil .outside 0 body
  unfold Arguments.ofText at h ⊢
  dsimp only at h ⊢
  generalize (commaPieces .outside 0 body).map trim = pieces at h hpieces ⊢
  obtain ⟨front, tail, rfl⟩ : ∃ front tail, pieces = front ++ [tail] :=
    ⟨pieces.dropLast, pieces.getLast hpieces, (List.dropLast_concat_getLast hpieces).symm⟩
  simp only [List.getLast?_concat, Option.getD_some, List.dropLast_concat] at h ⊢
  cases tail with
  | nil =>
    have hfront : front ≠ [] := by simpa using h
    simpa using hfront
  | cons c tail => simp

/-- A bracketed list with an item shows the text it was read from. -/
theorem visible_argumentLines_ofText {indent body : List Char} (hindent : visible indent = [])
    (h : (Arguments.ofText body).items ≠ []) :
    visible (argumentLines indent (Arguments.ofText body).trailingComma
      (Arguments.ofText body).items) = visible body := by
  rw [visible_argumentLines hindent _ h, items_ofText h, visible_intercalate_map_trim,
    intercalate_commaPieces]

theorem splitLastLine_append (text : List Char) :
    (splitLastLine text).1 ++ (splitLastLine text).2 = text := by
  rw [splitLastLine, ← List.reverse_append, List.takeWhile_append_dropWhile, List.reverse_reverse]

theorem visible_layoutCall (lead call suffix : List Char) {body : List Char}
    (h : (Arguments.ofText body).items ≠ []) :
    visible (layoutCall lead call (Arguments.ofText body) suffix) =
      visible lead ++ visible call ++ visible body ++ visible [')'] ++ visible suffix := by
  have hlead : visible (if allBlank lead then [] else lead ++ ['\n']) = visible lead := by
    split
    · rename_i hblank
      rw [visible_of_allBlank hblank, visible_nil]
    · rw [visible_append, visible_lineFeed, List.append_nil]
  have hinner : visible (if allBlank lead then indentOf lead else indentOf lead ++ indentStep) =
      [] := by
    split
    · exact visible_indentOf lead
    · rw [visible_append, visible_indentOf, visible_indentStep, List.nil_append]
  have hsuffix : visible (if (trim suffix).isEmpty then []
      else '\n' :: indentOf lead ++ trim suffix) = visible suffix := by
    split
    · rename_i hempty
      rw [visible_eq_nil_of_trim (List.isEmpty_iff.1 hempty), visible_nil]
    · rw [List.cons_append, visible_lineFeed_cons, visible_append, visible_indentOf, visible_trim,
        List.nil_append]
  have hindent : visible ((if allBlank lead then indentOf lead else indentOf lead ++ indentStep) ++
      indentStep) = [] := by
    rw [visible_append, hinner, visible_indentStep, List.nil_append]
  have harguments := visible_argumentLines_ofText hindent h
  unfold layoutCall
  simp only [visible_append, hlead, hinner, harguments, hsuffix, visible_lineFeed,
    List.append_nil]

theorem visible_take_firstLine (text : List Char) :
    visible (text.take ((firstLine text).length + 1)) = visible (firstLine text) := by
  induction text with
  | nil => rfl
  | cons c rest ih =>
    by_cases hc : c = '\n'
    · rw [hc]
      rfl
    · rw [firstLine_cons hc, List.length_cons, List.take_succ_cons, visible_cons, ih,
        ← visible_cons]

theorem visible_splitCalls (text : List Char) : visible (splitCalls text) = visible text := by
  induction text using splitCalls.induct with
  | case1 text hnone => rw [splitCalls_of_none hnone]
  | case2 text before call inner hfind hopen => rw [splitCalls_of_open hfind hopen]
  | case3 text before call inner hfind body after hclose _ _ _ ih =>
    have htext : text = before ++ call ++ (body ++ [')'] ++ after) := by
      rw [eq_of_findCall? hfind, eq_of_splitClosing hclose]
      simp
    have hafter : visible (firstLine after) ++ visible (afterFirstLine after) = visible after :=
      visible_firstLine_append after
    rw [splitCalls_of_closed hfind hclose, visible_append, ih, htext]
    split
    · rw [List.append_cons]
      simp only [visible_append, visible_take_firstLine, ← hafter, List.append_assoc]
    · rename_i hitems
      have hbefore := congrArg visible (splitLastLine_append before)
      rw [visible_append] at hbefore
      rw [visible_append, visible_layoutCall _ _ _ (by simpa using hitems)]
      simp only [visible_append, ← hafter, ← hbefore, List.append_assoc]

/-- A block that starts with an opening parenthesis, and what stands behind that. -/
theorem block_of_trimStart {block rest : List Char} (h : trimStart block = '(' :: rest) :
    block = indentOf block ++ '(' :: rest ∧ block.drop ((indentOf block).length + 1) = rest := by
  have hblock : block = indentOf block ++ '(' :: rest := by
    rw [← h]
    exact List.takeWhile_append_dropWhile.symm
  have hdropped := congrArg (List.drop (indentOf block).length) hblock
  rw [List.drop_left] at hdropped
  exact ⟨hblock, by rw [← List.drop_drop, hdropped, List.drop_one, List.tail_cons]⟩

/-- A block that starts with an opening parenthesis behind its indentation. -/
theorem visible_layoutTuple {block rest : List Char} (h : trimStart block = '(' :: rest) :
    visible (layoutTuple block) = visible block := by
  obtain ⟨hblock, hdrop⟩ := block_of_trimStart h
  have hwhole : visible (block ++ ['\n']) = visible block := by
    rw [visible_append, visible_lineFeed, List.append_nil]
  unfold layoutTuple
  dsimp only
  rw [hdrop]
  split
  · exact hwhole
  · rename_i body after hclose
    split
    · exact hwhole
    · rename_i hitems
      have hindent : visible (indentOf block ++ indentStep) = [] := by
        rw [visible_append, visible_indentOf, visible_indentStep, List.nil_append]
      have hopen : visible ['(', '\n'] = visible ['('] := rfl
      have htext : block = indentOf block ++ (['('] ++ body ++ [')'] ++ after) := by
        rw [eq_of_splitClosing hclose] at hblock
        simpa using hblock
      have hshown := congrArg visible htext
      rw [hshown]
      simp only [visible_append, visible_indentOf, hopen, visible_trim, visible_lineFeed,
        visible_argumentLines_ofText hindent (by simpa using hitems), List.append_nil,
        List.nil_append]

theorem trimStart_append {a : List Char} {c : Char} {rest : List Char}
    (h : trimStart a = c :: rest) (b : List Char) : trimStart (a ++ b) = c :: rest ++ b := by
  induction a with
  | nil => cases h
  | cons d a ih =>
    by_cases hd : isBlank d
    · rw [trimStart, List.dropWhile_cons_of_pos hd] at h
      rw [List.cons_append, trimStart, List.dropWhile_cons_of_pos hd]
      exact ih h
    · rw [trimStart, List.dropWhile_cons_of_neg hd] at h
      rw [List.cons_append, trimStart, List.dropWhile_cons_of_neg hd, ← List.cons_append, h]

theorem exists_of_opensTuple {line : List Char} (h : opensTuple line) :
    ∃ rest, trimStart line = '(' :: rest := by
  unfold opensTuple at h
  split at h
  · rename_i rest hline
    exact ⟨rest, hline⟩
  · cases h

theorem exists_joinLines_cons (line : List Char) (ls : List (List Char)) :
    ∃ behind, joinLines (line :: ls) = line ++ behind := by
  cases ls with
  | nil => exact ⟨[], by simp [joinLines]⟩
  | cons next ls =>
    exact ⟨_, by rw [joinLines, List.intercalate_cons_cons, List.append_assoc]⟩

/-- The block that starts with a line which opens a tuple. -/
theorem exists_of_opensTuple_joinLines {line : List Char} (h : opensTuple line)
    (ls : List (List Char)) : ∃ rest, trimStart (joinLines (line :: ls)) = '(' :: rest := by
  obtain ⟨inner, hline⟩ := exists_of_opensTuple h
  obtain ⟨behind, hblock⟩ := exists_joinLines_cons line ls
  exact ⟨inner ++ behind, by rw [hblock, trimStart_append hline, List.cons_append]⟩

theorem visible_splitTuples (ls : List (List Char)) :
    visible (splitTuples ls) = visible ls.flatten := by
  induction ls using splitTuples.induct with
  | case1 => rw [splitTuples, List.flatten_nil]
  | case2 line rest hopens gathered ih =>
    obtain ⟨inner, hopen⟩ := exists_of_opensTuple_joinLines hopens gathered.1
    have hgathered := gatherLines_append (Balance.pastText {} line) rest
    rw [splitTuples, if_pos hopens, visible_append, visible_layoutTuple hopen, ih,
      visible_joinLines, ← visible_append, ← List.flatten_append, List.cons_append, hgathered]
  | case3 line rest hopens ih =>
    rw [splitTuples, if_neg hopens, visible_append, visible_lineFeed_cons, ih, List.flatten_cons,
      visible_append]

/-- Laying out a document moves blank characters only. -/
theorem visible_formatWpl (text : List Char) : visible (formatWpl text) = visible text := by
  rw [formatWpl, visible_splitTuples, visible_flatten_lines, visible_splitCalls,
    visible_foldAttributes, visible_normalizeNewlines]

end LogScript.Layout
