import LogScript.Proofs.Layout.BraceLevel

/-!
The shape of a laid out OML body. A document without literals, comments, attributes and separators is
laid out in lines that have no blank characters behind them, with single blank lines between, and with
an indentation that the braces in front of a line call for.
-/

namespace LogScript.Layout

/-- A line as it should read where the scan stands at `n`: the signs of statements stand at its ends,
and it is indented by four spaces a level, one level less when it starts with a closing brace. -/
structure Shaped (n : Nest) (line : List Char) : Prop where
  signs : Signs Placed n line
  indent : ∀ c, (trimStart line).head? = some c →
    indentOf line = List.replicate (4 * (n.level - if c = '\x7d' then 1 else 0)) ' '

/-- Every line reads as it should where the lines in front of it leave the scan. -/
def ShapedFrom (n : Nest) (ls : List (List Char)) : Prop :=
  ∀ front line behind, ls = front ++ line :: behind → Shaped (n.past front.flatten) line

/-- A body as it should be laid out: it is empty or ends with one blank line, and no other blank lines
stand at its front or side by side. -/
structure NormalForm (text : List Char) : Prop where
  ending : text = [] ∨ ∃ front c, text = front ++ [c, '\n', '\n'] ∧ isBlank c = false
  noTab : '\t' ∉ text
  noTrailing : ∀ line ∈ lines text, trimEnd line = line
  noLeading : (lines text).head? ≠ some []
  single : (lines text).IsChain fun line next => line ≠ [] ∨ next ≠ []
  shaped : ShapedFrom .start (lines text)

section Shapes

variable {n : Nest} {level : Nat} {line content : List Char} {ls : List (List Char)}

theorem shaped_nil : Shaped n [] :=
  ⟨signs_nil, fun _ hc => by cases hc⟩

theorem shapedFrom_nil : ShapedFrom n [] := by
  intro front line behind hls
  exact absurd hls.symm (List.append_ne_nil_of_right_ne_nil front (List.cons_ne_nil line behind))

theorem shapedFrom_cons :
    ShapedFrom n (line :: ls) ↔ Shaped n line ∧ ShapedFrom (n.past line) ls := by
  constructor
  · intro h
    refine ⟨h [] line ls rfl, fun front next behind hls => ?_⟩
    have hnext := h (line :: front) next behind (by rw [hls]; rfl)
    rwa [List.flatten_cons, Nest.past_append] at hnext
  · rintro ⟨hline, hls⟩ front next behind hsplit
    cases front with
    | nil =>
      cases hsplit
      exact hline
    | cons first front =>
      cases hsplit
      rw [List.flatten_cons, Nest.past_append]
      exact hls front next behind rfl

theorem Laid.ne_nil (h : Laid n level content) : content ≠ [] := by
  obtain ⟨c, hhead, -⟩ := h.first
  rintro rfl
  cases hhead

theorem Laid.exists_concat (h : Laid n level content) :
    ∃ front c, content = front ++ [c] ∧ isBlank c = false := by
  have hlast := getLast?_trimEnd content
  rw [h.last] at hlast
  refine ⟨content.dropLast, content.getLast h.ne_nil,
    (List.dropLast_concat_getLast h.ne_nil).symm, hlast _ ?_⟩
  rw [List.getLast?_eq_some_getLast h.ne_nil]
  rfl

theorem past_indented (n : Nest) (level : Nat) (content : List Char) :
    n.past (Line.indented level content) = n.past content := by
  rw [Line.indented, Nest.past_append, Nest.past_blanks blank_of_mem_spaces]

theorem Laid.shaped (h : Laid n level content) : Shaped n (Line.indented level content) := by
  constructor
  · refine signs_blanks_append blank_of_mem_spaces ?_ (h.signs.imp fun hplaced => ?_)
    · exact fun ⟨hsemicolon, hopening, hclosing⟩ =>
        (placedWithin_of_ne hsemicolon hopening hclosing).placed
    · refine ⟨hplaced.semicolon, hplaced.opening, fun hc => ?_⟩
      rcases hplaced.closing hc with hlast | hblank
      · exact .inl (by rw [List.getLast?_append, hlast, Option.some_or])
      · exact .inr (List.forall_mem_append.2 ⟨blank_of_mem_spaces, hblank⟩)
  · intro c hc
    obtain ⟨d, hhead, hblank⟩ := h.first
    have hindent := trimStart_of_indent (blank_of_mem_spaces (n := 4 * level)) hhead hblank
    rw [Line.indented, hindent, hhead] at hc
    obtain ⟨rest, rfl⟩ := List.head?_eq_some_iff.1 hhead
    cases hc
    rw [Line.indented, indentOf_append blank_of_mem_spaces hblank, h.level, outward]
    simp only [List.head?_cons, Option.some.injEq]

end Shapes

section Settled

variable {n : Nest} {ls : List Line}

theorem shapedFrom_settle (h : LaidFrom n ls) (gap : Bool) :
    ShapedFrom n (Line.settle gap ls ++ [[]]) := by
  induction ls generalizing n gap with
  | nil => exact shapedFrom_cons.2 ⟨shaped_nil, shapedFrom_nil⟩
  | cons line ls ih =>
    cases line with
    | blank => exact ih h true
    | text level content =>
      have hrest : ShapedFrom n (Line.indented level content :: (Line.settle false ls ++ [[]])) := by
        rw [shapedFrom_cons, past_indented]
        exact ⟨h.1.shaped, ih h.2 false⟩
      cases gap with
      | false => exact hrest
      | true => exact shapedFrom_cons.2 ⟨shaped_nil, hrest⟩

theorem Laid.indented_ne_nil {level : Nat} {content : List Char} (h : Laid n level content) :
    Line.indented level content ≠ [] :=
  List.append_ne_nil_of_right_ne_nil _ h.ne_nil

/-- Behind a line of text, no two blank lines stand side by side. -/
theorem single_settle (h : LaidFrom n ls) (gap : Bool) {first : List Char} (hfirst : first ≠ []) :
    (first :: (Line.settle gap ls ++ [[]])).IsChain fun line next => line ≠ [] ∨ next ≠ [] := by
  induction ls generalizing n gap first with
  | nil => exact List.isChain_cons_cons.2 ⟨.inl hfirst, .singleton _⟩
  | cons line ls ih =>
    cases line with
    | blank => exact ih h true hfirst
    | text level content =>
      have hne := h.1.indented_ne_nil
      have hrest := ih h.2 false hne
      cases gap with
      | false => exact List.isChain_cons_cons.2 ⟨.inl hfirst, hrest⟩
      | true =>
        exact List.isChain_cons_cons.2 ⟨.inl hfirst, List.isChain_cons_cons.2 ⟨.inr hne, hrest⟩⟩

theorem mem_settle_spec (h : LaidFrom n ls) {gap : Bool} {settled : List Char}
    (hmem : settled ∈ Line.settle gap ls) : trimEnd settled = settled ∧ '\n' ∉ settled := by
  induction ls generalizing n gap with
  | nil => cases hmem
  | cons line ls ih =>
    cases line with
    | blank => exact ih h hmem
    | text level content =>
      rw [Line.settle, List.mem_append, List.mem_cons] at hmem
      rcases hmem with hmem | rfl | hmem
      · obtain rfl : settled = [] := by
          cases gap with
          | false => cases hmem
          | true => exact List.mem_singleton.1 hmem
        exact ⟨rfl, List.not_mem_nil⟩
      · constructor
        · rw [Line.indented, trimEnd_append_of_ne, h.1.last]
          rw [h.1.last]
          exact h.1.ne_nil
        · rw [Line.indented, List.mem_append, not_or]
          exact ⟨fun hc => absurd (List.eq_of_mem_replicate hc) (by decide), h.1.noLineFeed⟩
      · exact ih h.2 hmem

/-- A text of lines ends with a visible character. -/
theorem ends_after (h : LaidFrom n ls) (gap : Bool) (front : List Char) {c : Char}
    (hc : isBlank c = false) :
    ∃ front' c', front ++ c :: Line.after gap ls = front' ++ [c'] ∧ isBlank c' = false := by
  induction ls generalizing n gap front c with
  | nil => exact ⟨front, c, rfl, hc⟩
  | cons line ls ih =>
    cases line with
    | blank => exact ih h true front hc
    | text level content =>
      obtain ⟨inner, d, hcontent, hd⟩ := h.1.exists_concat
      obtain ⟨front', c', hsplit, hc'⟩ := ih h.2 false (front ++ c :: '\n' ::
        ((if gap then ['\n'] else []) ++ List.replicate (4 * level) ' ' ++ inner)) hd
      refine ⟨front', c', ?_, hc'⟩
      rw [← hsplit, Line.after_text, Line.indented, hcontent]
      simp

theorem laidFrom_dropWhile (h : LaidFrom n ls) : LaidFrom n (ls.dropWhile Line.isBlankLine) := by
  induction ls with
  | nil => exact h
  | cons line ls ih =>
    cases line with
    | blank => exact ih h
    | text level content => exact h

/-- Laid out lines are rendered in normal form. -/
theorem normalForm_render (h : LaidFrom .start ls) (htab : '\t' ∉ Line.render ls) :
    NormalForm (Line.render ls) := by
  have hlaid := laidFrom_dropWhile h
  rcases Line.dropWhile_isBlankLine ls with hdrop | ⟨level, content, rest, hdrop⟩
  · rw [Line.render_of_dropWhile_nil hdrop]
    exact ⟨.inl rfl, List.not_mem_nil, fun _ hmem => absurd hmem List.not_mem_nil, by decide, .nil,
      shapedFrom_nil⟩
  rw [hdrop] at hlaid
  have hne := hlaid.1.indented_ne_nil
  have hlines : lines (Line.render ls) =
      Line.indented level content :: (Line.settle false rest ++ [[]]) := by
    rw [Line.render_eq_written (by rw [hdrop]; exact List.cons_ne_nil _ _), hdrop, Line.written,
      lines_flatMap_lineFeed fun line hmem => (mem_settle_spec hlaid hmem).2]
    rfl
  refine ⟨.inr ?_, htab, ?_, ?_, ?_, ?_⟩
  · obtain ⟨inner, d, hcontent, hd⟩ := hlaid.1.exists_concat
    obtain ⟨front, c, hsplit, hc⟩ :=
      ends_after hlaid.2 false (List.replicate (4 * level) ' ' ++ inner) hd
    refine ⟨front, c, ?_, hc⟩
    rw [Line.render_of_dropWhile hdrop, List.append_cons front, ← hsplit, Line.indented, hcontent]
    simp
  · rw [hlines]
    intro line hmem
    have hmem' : line ∈ Line.settle false (.text level content :: rest) ∨ line = [] := by
      simpa [Line.settle, or_assoc] using hmem
    rcases hmem' with hmem | rfl
    · exact (mem_settle_spec hlaid hmem).1
    · rfl
  · rw [hlines]
    exact fun hhead => hne (Option.some.inj hhead)
  · rw [hlines]
    exact single_settle hlaid.2 false hne
  · rw [hlines]
    exact shapedFrom_settle hlaid false

end Settled

section Documents

variable {c : Char} {text line : List Char}

theorem mem_of_mem_prepared (hc : isBlank c = false) (h : c ∈ prepared text) : c ∈ text := by
  have hmem : c ∈ visible (prepared text) := List.mem_filter.2 ⟨h, by simp [hc]⟩
  rw [prepared, visible_expandTabs, visible_normalizeNewlines] at hmem
  exact (List.mem_filter.1 hmem).1

theorem infix_prepared {a b : Char} (ha : isBlank a = false) (hb : isBlank b = false)
    (h : [a, b] <:+: prepared text) : [a, b] <:+: text := by
  have hne : ∀ {c d : Char}, isBlank c = false → isBlank d → c ≠ d := fun hc hd heq =>
    ne_of_accepts hd hc heq.symm
  exact infix_normalizeNewlines (hne ha (by decide)) (hne hb (by decide))
    (infix_expandTabs (hne ha (by decide)) (hne hb (by decide)) h)

theorem lines_expandTabs (text : List Char) :
    lines (expandTabs text) = (lines text).map expandTabs := by
  induction text with
  | nil => rfl
  | cons c rest ih =>
    by_cases htab : c = '\t'
    · subst htab
      rw [expandTabs_tab, lines_cons (by decide), lines_cons (by decide), lines_cons (by decide),
        lines_cons (by decide), lines_cons (by decide), ih]
      cases lines rest <;> rfl
    · rw [expandTabs_cons htab]
      by_cases hbreak : c = '\n'
      · rw [hbreak, lines_lineFeed, lines_lineFeed, ih]
        rfl
      · rw [lines_cons hbreak, lines_cons hbreak, ih]
        cases lines rest with
        | nil => exact congrArg ([·]) (expandTabs_cons htab []).symm
        | cons line ls => exact congrArg (· :: ls.map expandTabs) (expandTabs_cons htab line).symm

theorem blank_of_mem_expandTabs {blanks : List Char} (hblanks : ∀ c ∈ blanks, isBlank c) :
    ∀ c ∈ expandTabs blanks, isBlank c := by
  intro c hc
  rcases (mem_expandTabs hc).2 with rfl | hc
  · decide
  · exact hblanks c hc

theorem expandTabs_append (a b : List Char) : expandTabs (a ++ b) = expandTabs a ++ expandTabs b :=
  List.flatMap_append

theorem trim_expandTabs (line : List Char) : trim (expandTabs line) = expandTabs (trim line) := by
  obtain ⟨blanks, hline, hblanks⟩ := exists_trim_append line
  have htrim : trim (expandTabs line) = trim (expandTabs (trim line)) := by
    conv => lhs; rw [hline, expandTabs_append, expandTabs_append]
    rw [trim_blanks_append (blank_of_mem_expandTabs (blank_of_mem_indentOf line)),
      trim_append_blanks _ (blank_of_mem_expandTabs hblanks)]
  have hvisible : ∀ {c : Char}, isBlank c = false → expandTabs [c] = [c] := fun hc =>
    expandTabs_cons (fun heq => by rw [heq] at hc; cases hc) []
  have hfirst := head?_trim line
  have hlast := getLast?_trim line
  rw [htrim]
  generalize trim line = content at hfirst hlast
  -- Both ends of a trimmed text are visible, so they are no tabs.
  apply trim_of_ends
  · cases content with
    | nil => exact hfirst
    | cons c rest =>
      rw [← List.singleton_append, expandTabs_append, hvisible (hfirst c rfl)]
      exact hfirst
  · rcases List.eq_nil_or_concat content with rfl | ⟨front, c, rfl⟩
    · exact hlast
    · rw [List.concat_eq_append] at hlast ⊢
      rw [List.getLast?_concat] at hlast
      rw [expandTabs_append, hvisible (hlast c rfl), List.getLast?_concat]
      exact hlast

/-- Tabs make no difference to separators. -/
theorem trim_ne_separator_prepared
    (h : ∀ line ∈ lines (normalizeNewlines text), trim line ≠ separator) :
    ∀ line ∈ lines (prepared text), trim line ≠ separator := by
  rw [prepared, lines_expandTabs, List.forall_mem_map]
  intro line hmem htrim
  rw [trim_expandTabs] at htrim
  have htab : '\t' ∉ trim line := by
    intro hc
    have hspace : ' ' ∈ expandTabs (trim line) := List.mem_flatMap.2 ⟨'\t', hc, by decide⟩
    rw [htrim] at hspace
    exact absurd hspace (by decide)
  rw [expandTabs_of_not_mem htab] at htrim
  exact h line hmem htrim

/-- A body without literals, comments, attributes and separators is laid out in normal form, and shows
the characters that it showed. -/
theorem normalForm_formatOml (hquote : '"' ∉ text) (hhash : '#' ∉ text)
    (hslashes : ¬['/', '/'] <:+: text)
    (hseparator : ∀ line ∈ lines (normalizeNewlines text), trim line ≠ separator) :
    NormalForm (formatOml text) ∧ visible (formatOml text) = visible text := by
  have hlaid : formatOml text = Line.render (bodyLines (prepared text)) := by
    rw [formatOml_eq, documentLines,
      splitSeparator?_eq_none.2 (trim_ne_separator_prepared hseparator)]
  have htab := tab_not_mem_formatOml text
  have hstart : Body.Scanned .start {} := Body.scanned_of_built (b := {}) rfl rfl
  have hlines : LaidFrom .start (bodyLines (prepared text)) :=
    Body.laidFrom_run (Body.regular_of_built rfl rfl _) hstart
      (fun hmem => hquote (mem_of_mem_prepared (by decide) hmem))
      (fun hmem => hhash (mem_of_mem_prepared (by decide) hmem))
      (fun hmem => hslashes (infix_prepared (by decide) (by decide) hmem))
  rw [hlaid] at htab ⊢
  refine ⟨normalForm_render hlines htab, ?_⟩
  rw [Line.visible_render, shown_bodyLines, prepared, visible_expandTabs, visible_normalizeNewlines]

/-- Braces and brackets that nothing closes or opens, blank lines, a tab in empty braces, and a
semicolon and braces in brackets. -/
def unbalanced : List Char :=
  "\x7d;x=\x7ba : f(1;\r\n \x7b),b;\x7d ,\x7b\t\x7d\n\n\n c\x7d\x7d;\n]z=>\x7by : [\x7b; ".toList

theorem normalForm_formatOml_unbalanced :
    ('"' ∉ unbalanced ∧ '#' ∉ unbalanced ∧ ¬['/', '/'] <:+: unbalanced ∧
      ∀ line ∈ lines (normalizeNewlines unbalanced), trim line ≠ separator) ∧
    formatOml unbalanced =
      ("\x7d;\nx = \x7b\n    a : f(1; \x7b),b;\n\x7d, \x7b\x7d\n\nc\n\x7d\n\x7d;\n" ++
        "]z => \x7b\n    y : [\x7b;\n\n").toList ∧
    NormalForm (formatOml unbalanced) ∧ visible (formatOml unbalanced) = visible unbalanced := by
  have hquote : '"' ∉ unbalanced := by decide +kernel
  have hhash : '#' ∉ unbalanced := by decide +kernel
  have hslashes : ¬['/', '/'] <:+: unbalanced := by decide +kernel
  have hseparator : ∀ line ∈ lines (normalizeNewlines unbalanced), trim line ≠ separator := by
    decide +kernel
  refine ⟨⟨hquote, hhash, hslashes, hseparator⟩, by decide +kernel, ?_⟩
  exact normalForm_formatOml hquote hhash hslashes hseparator

end Documents

end LogScript.Layout
