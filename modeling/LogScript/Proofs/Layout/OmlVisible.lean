import LogScript.Proofs.Layout.Visible

/-!
The layout of OML moves blank characters only. Each step of the body machine, and each line of a
header or privacy section, hands on the visible characters it has read: those of the lines it
completes, then those of the line it is building, then those still to come. Whatever the brackets,
quotes and separators of a document, its layout shows the same characters in the same order.
-/

namespace LogScript.Layout

namespace Line

def content : Line → List Char
  | .blank => []
  | .text _ content => content

/-- The visible characters of some lines. -/
def shown (ls : List Line) : List Char :=
  visible (ls.flatMap content)

@[simp] theorem shown_nil : shown [] = [] := rfl

@[simp] theorem shown_append (a b : List Line) : shown (a ++ b) = shown a ++ shown b := by
  simp [shown, visible_append]

@[simp] theorem shown_blank_cons (ls : List Line) : shown (.blank :: ls) = shown ls := rfl

@[simp] theorem shown_text_cons (level : Nat) (text : List Char) (ls : List Line) :
    shown (.text level text :: ls) = visible text ++ shown ls := by
  simp [shown, content, visible_append]

theorem visible_settle (gap : Bool) (ls : List Line) :
    visible (settle gap ls).flatten = shown ls := by
  induction ls generalizing gap with
  | nil => rfl
  | cons l ls ih =>
    cases l with
    | blank => rw [settle, ih, shown_blank_cons]
    | text level text =>
      rw [settle, List.flatten_append, List.flatten_cons, visible_append, visible_append, ih,
        indented, visible_append, visible_replicate_space, shown_text_cons]
      cases gap <;> rfl

theorem shown_dropWhile_isBlankLine (ls : List Line) :
    shown (ls.dropWhile isBlankLine) = shown ls := by
  induction ls with
  | nil => rfl
  | cons l ls ih =>
    cases l with
    | blank => rw [List.dropWhile_cons_of_pos rfl, ih, shown_blank_cons]
    | text level text => rw [List.dropWhile_cons_of_neg (by simp [isBlankLine])]

theorem visible_flatMap_lineFeed (ls : List (List Char)) :
    visible (ls.flatMap (· ++ ['\n'])) = visible ls.flatten := by
  induction ls with
  | nil => rfl
  | cons l ls ih =>
    have hbreak : visible ['\n'] = [] := rfl
    rw [List.flatMap_cons, visible_append, visible_append, ih, hbreak, List.append_nil,
      List.flatten_cons, visible_append]

theorem visible_render (ls : List Line) : visible (render ls) = shown ls := by
  rw [← shown_dropWhile_isBlankLine, ← visible_settle false, render]
  split
  · rename_i h
    rw [h]
    rfl
  · rw [visible_append, visible_flatMap_lineFeed]
    exact List.append_nil _

end Line

theorem visible_collapseBlanks (q : Quoting) (afterSpace : Bool) (text : List Char) :
    visible (collapseBlanks q afterSpace text) = visible text := by
  induction text generalizing q afterSpace with
  | nil => rfl
  | cons c rest ih =>
    rw [collapseBlanks]
    split
    · rename_i h
      have hc : isBlank c := by
        simp only [Bool.and_eq_true] at h
        exact h.2
      split
      · rw [ih, visible_cons_of_blank hc]
      · rw [visible_cons_of_blank (by decide), ih, visible_cons_of_blank hc]
    · rw [visible_cons, ih, ← visible_cons]

theorem visible_tightenSpaces (q : Quoting) (last : Option Char) (text : List Char) :
    visible (tightenSpaces q last text) = visible text := by
  induction text generalizing q last with
  | nil => rfl
  | cons c rest ih =>
    simp only [tightenSpaces]
    split
    · rename_i h
      have hc : c = ' ' := by
        simp only [Bool.and_eq_true, beq_iff_eq] at h
        exact h.1.2
      rw [ih, visible_cons_of_blank (by rw [hc]; decide)]
    · rw [visible_cons, ih, ← visible_cons]

theorem visible_normalizeAttribute (text : List Char) :
    visible (normalizeAttribute text) = visible text := by
  rw [normalizeAttribute, visible_tightenSpaces, visible_trim, visible_collapseBlanks]

namespace Body

theorem visible_line_push (b : Body) (text : List Char) :
    visible (b.push text).line = visible b.line ++ visible text := by
  have hline : (b.push text).line =
      b.line ++ ((if b.space && !b.built.isEmpty then [' '] else []) ++ text) :=
    b.line_add _
  have hgap : visible (if b.space && !b.built.isEmpty then [' '] else []) = [] := by
    split <;> rfl
  rw [hline, visible_append, visible_append, hgap, List.nil_append]

@[simp] theorem shown_pending (b : Body) : Line.shown b.pending = visible b.line := by
  rw [pending]
  split
  · rename_i h
    rw [← visible_trim, h]
    rfl
  · rw [Line.shown_text_cons, visible_trim]
    exact List.append_nil _

@[simp] theorem visible_line_cleared (b : Body) : visible b.cleared.line = [] := rfl

theorem visible_line_of_allBlank {b : Body} (h : allBlank b.built) : visible b.line = [] := by
  refine visible_of_blank (fun c hc => ?_)
  rw [line, List.mem_reverse] at hc
  exact List.all_eq_true.1 h c hc

end Body

namespace Move

/-- The visible characters behind a step: of its lines, and of the line that goes on. -/
def shown (m : Move) : List Char :=
  Line.shown m.lines ++ visible m.body.line

/-- A step from `b` at `c` in front of `rest` hands on what it has read. -/
def Keeps (m : Move) (b : Body) (c : Char) (rest : List Char) : Prop :=
  m.shown ++ visible (rest.drop m.taken) = visible b.line ++ visible (c :: rest)

/-- A step that shows the line and what it has taken keeps everything. -/
theorem keeps_of_shown {m : Move} {b : Body} {c : Char} {rest : List Char} (taken : List Char)
    (htaken : visible taken ++ visible (rest.drop m.taken) = visible (c :: rest))
    (hshown : m.shown = visible b.line ++ visible taken) : m.Keeps b c rest := by
  rw [Keeps, hshown, List.append_assoc, htaken]

end Move

namespace Body

theorem blankRun_keeps (b : Body) {c : Char} (hc : isBlank c) (rest : List Char) :
    (b.blankRun (c :: rest.takeWhile isBlank)).Keeps b c rest := by
  have hrest : visible (rest.drop ((c :: rest.takeWhile isBlank).length - 1)) =
      visible (c :: rest) := by
    rw [List.length_cons, Nat.add_sub_cancel, visible_drop_blanks, visible_cons_of_blank hc]
  have hrun : visible (c :: rest.takeWhile isBlank) = [] := by
    rw [visible_cons_of_blank hc, visible_takeWhile_blank]
  have hspace : visible [' '] = [] := rfl
  apply Move.keeps_of_shown []
  · unfold blankRun
    dsimp only
    split
    · split <;> exact hrest
    · split <;> exact hrest
  · unfold blankRun
    dsimp only
    split
    · split <;> simp [Move.shown, visible_append, hrun, hspace]
    · split
      · simp [Move.shown]
      · simp [Move.shown, line]

theorem literal_keeps (b : Body) (c : Char) (rest : List Char) :
    (b.literal c rest).Keeps b c rest := by
  apply Move.keeps_of_shown (c :: literalRest .inside rest)
  · have hrest := visible_drop_of_prefix (prefix_of_literalRest .inside rest)
    rw [visible_cons, visible_cons c rest, List.append_assoc, ← hrest]
    rfl
  · exact visible_line_push b _

theorem enclosed_keeps (b : Body) (c : Char) (rest : List Char) :
    (b.enclosed c).Keeps b c rest := by
  refine Move.keeps_of_shown [c] (visible_cons c rest).symm ?_
  change visible (b.add [c]).line = _
  rw [line_add, visible_append]

theorem comment_keeps (b : Body) (c : Char) (rest : List Char) :
    (b.comment c rest).Keeps b c rest := by
  have hrest := visible_drop_of_prefix (List.takeWhile_prefix (· != '\n') (l := rest))
  have htaken : visible (c :: firstLine rest) ++ visible (rest.drop (firstLine rest).length) =
      visible (c :: rest) := by
    rw [visible_cons, visible_cons c rest, List.append_assoc, ← hrest]
    rfl
  unfold comment
  dsimp only
  split
  · rename_i hb
    apply Move.keeps_of_shown _ htaken
    have hline : visible { b with built := [] }.line = [] := rfl
    rw [Move.shown, Line.shown_text_cons, visible_trimEnd, Line.shown_nil, hline,
      visible_line_of_allBlank hb, List.append_nil, List.append_nil, List.nil_append]
  · apply Move.keeps_of_shown _ htaken
    simp only [Move.shown, shown_pending, visible_line_push, visible_trimEnd,
      visible_line_cleared, List.append_nil]
    rfl

theorem attributeLine_keeps {b : Body} (hb : allBlank b.built) {rest : List Char}
    (hrest : rest.head? = some '[') : (b.attributeLine rest).Keeps b '#' rest := by
  have htail : ∀ tail : List Char, tail <+: rest →
      Move.Keeps ⟨{ b with built := [] }, [.text b.level (normalizeAttribute ('#' :: tail))],
        tail.length⟩ b '#' rest := by
    intro tail hstarts
    apply Move.keeps_of_shown ('#' :: tail)
    · rw [visible_cons, visible_cons '#' rest, List.append_assoc, visible_drop_of_prefix hstarts]
    · have hline : visible { b with built := [] }.line = [] := rfl
      rw [Move.shown, Line.shown_text_cons, visible_normalizeAttribute, Line.shown_nil, hline,
        visible_line_of_allBlank hb, List.append_nil, List.append_nil, List.nil_append]
  unfold attributeLine
  apply htail
  split
  · rename_i inner after hclose
    cases rest with
    | nil => cases hrest
    | cons c rest =>
      cases hrest
      have heq : rest = inner ++ ']' :: after := eq_of_splitClosing hclose
      refine ⟨after, ?_⟩
      rw [heq]
      simp
  · exact List.prefix_rfl

theorem openBrace_keeps (b : Body) (rest : List Char) :
    (b.openBrace rest).Keeps b '\x7b' rest := by
  have hspace : visible { b with space := true }.line = visible b.line := rfl
  unfold openBrace
  dsimp only
  split
  · rename_i hclose
    apply Move.keeps_of_shown ['\x7b', '\x7d']
    · have hblanks := visible_drop_blanks rest
      obtain ⟨behind, hbehind⟩ : ∃ behind,
          rest.drop (rest.takeWhile isBlank).length = '\x7d' :: behind := by
        cases hdrop : rest.drop (rest.takeWhile isBlank).length with
        | nil => simp [hdrop] at hclose
        | cons c behind =>
          rw [hdrop, List.head?_cons, Option.some.injEq] at hclose
          exact ⟨behind, by rw [hclose]⟩
      rw [← List.drop_drop, hbehind, List.drop_one, List.tail_cons, visible_cons '\x7b' rest,
        ← hblanks, hbehind, ← visible_append, ← visible_append]
      rfl
    · exact visible_line_push _ _
  · refine Move.keeps_of_shown ['\x7b'] (visible_cons '\x7b' rest).symm ?_
    simp only [Move.shown, shown_pending, visible_line_push, hspace]
    exact List.append_nil _

theorem closeBrace_keeps (b : Body) (rest : List Char) :
    (b.closeBrace rest).Keeps b '\x7d' rest := by
  have hline : visible ({ b.cleared with level := b.level - 1 }.push ['\x7d']).line =
      visible ['\x7d'] := visible_line_push _ _
  unfold closeBrace
  dsimp only
  split
  · apply Move.keeps_of_shown ['\x7d']
    · rw [visible_drop_blanks, ← visible_cons]
    · rw [Move.shown, shown_pending, hline]
  · refine Move.keeps_of_shown ['\x7d'] (visible_cons '\x7d' rest).symm ?_
    rw [Move.shown, Line.shown_append, shown_pending, shown_pending, hline]
    exact List.append_nil _

theorem push_keeps (b : Body) (c : Char) (rest : List Char) :
    Move.Keeps ⟨b.push [c], [], 0⟩ b c rest :=
  Move.keeps_of_shown [c] (visible_cons c rest).symm (visible_line_push b [c])

theorem visible_line_spaced (b : Body) (operator : List Char) :
    visible (b.spaced operator).line = visible b.line ++ visible operator :=
  visible_line_push { b with space := true } operator

theorem equals_keeps (b : Body) (rest : List Char) :
    (b.equals rest.head?).Keeps b '=' rest := by
  unfold equals
  split
  · rename_i hnext
    cases rest with
    | nil => cases hnext
    | cons c rest =>
      cases hnext
      exact Move.keeps_of_shown ['=', '>'] (visible_append ['=', '>'] rest).symm
        (visible_line_spaced b _)
  · split
    · exact push_keeps b '=' rest
    · exact Move.keeps_of_shown ['='] (visible_cons '=' rest).symm
        (visible_line_spaced b _)

theorem bar_keeps (b : Body) (rest : List Char) : (b.bar rest.head?).Keeps b '|' rest := by
  unfold bar
  split
  · exact push_keeps b '|' rest
  · exact Move.keeps_of_shown ['|'] (visible_cons '|' rest).symm
      (visible_line_spaced b _)

theorem statement_keeps (b : Body) (c : Char) (rest : List Char) :
    (b.statement c rest).Keeps b c rest := by
  unfold statement
  split
  · rename_i h
    simp only [Bool.and_eq_true, beq_iff_eq] at h
    obtain ⟨⟨rfl, hnext⟩, hblank⟩ := h
    exact attributeLine_keeps hblank hnext
  split
  · exact push_keeps b c rest
  split
  · rename_i hc
    rw [eq_of_beq hc]
    refine Move.keeps_of_shown [';'] (visible_cons ';' rest).symm ?_
    rw [Move.shown, shown_pending, visible_line_push]
    exact List.append_nil _
  split
  · rename_i hc
    rw [eq_of_beq hc]
    exact equals_keeps b rest
  split
  · rename_i hc
    rw [eq_of_beq hc]
    exact bar_keeps b rest
  split
  · rename_i hc
    rw [eq_of_beq hc]
    exact openBrace_keeps b rest
  split
  · rename_i hc
    rw [eq_of_beq hc]
    exact closeBrace_keeps b rest
  · exact push_keeps b c rest

theorem step_keeps (b : Body) (c : Char) (rest : List Char) : (b.step c rest).Keeps b c rest := by
  unfold step
  split
  · exact blankRun_keeps b ‹_› rest
  split
  · exact literal_keeps b c rest
  split
  · exact enclosed_keeps b c rest
  split
  · exact comment_keeps b c rest
  · exact statement_keeps b c rest

/-- The lines of a run show what the line already built shows, and then the text. -/
theorem shown_run (b : Body) (text : List Char) :
    Line.shown (b.run text) = visible b.line ++ visible text := by
  induction b, text using Body.run.induct with
  | case1 b => rw [run_nil, shown_pending, visible_nil, List.append_nil]
  | case2 b c rest move ih =>
    rw [run_cons, Line.shown_append, ih, ← List.append_assoc]
    exact step_keeps b c rest

end Body

theorem shown_bodyLines (text : List Char) : Line.shown (bodyLines text) = visible text :=
  Body.shown_run {} text

theorem visible_gatherAttribute (text : List Char) (ls : List (List Char)) :
    visible (gatherAttribute text ls).1 ++ visible (gatherAttribute text ls).2.flatten =
      visible text ++ visible ls.flatten := by
  induction ls generalizing text with
  | nil => rfl
  | cons line ls ih =>
    rw [gatherAttribute]
    split
    · rfl
    · rw [ih, visible_append, visible_cons_of_blank (by decide), visible_trim, List.flatten_cons,
        visible_append, List.append_assoc]

/-- A line that ends with a colon keeps the colon. -/
theorem visible_key {content : List Char} (h : content.getLast? = some ':') :
    visible (trimEnd content.dropLast ++ [' ', ':', ' ']) = visible content := by
  have hcontent : content.dropLast ++ [':'] = content := by
    obtain ⟨front, rfl⟩ := List.getLast?_eq_some_iff.1 h
    rw [List.dropLast_concat]
  have hcolon : visible [' ', ':', ' '] = visible [':'] := rfl
  rw [visible_append, visible_trimEnd, hcolon, ← visible_append, hcontent]

theorem shown_sectionLines (underKey : Bool) (ls : List (List Char)) :
    Line.shown (sectionLines underKey ls) = visible ls.flatten := by
  induction underKey, ls using sectionLines.induct with
  | case1 underKey => rw [sectionLines, Line.shown_nil, List.flatten_nil, visible_nil]
  | case2 underKey line rest content hempty ih =>
    have hline : visible line = [] := visible_eq_nil_of_trim (List.isEmpty_iff.1 hempty)
    rw [sectionLines, if_pos hempty, Line.shown_blank_cons, ih, List.flatten_cons,
      visible_append, hline, List.nil_append]
  | case3 underKey line rest content hempty hcomment ih =>
    rw [sectionLines, if_neg hempty, if_pos hcomment, Line.shown_text_cons, ih, visible_trim,
      List.flatten_cons, visible_append]
  | case4 underKey line rest content hempty hcomment hattribute ih =>
    rw [sectionLines, if_neg hempty, if_neg hcomment, if_pos hattribute, Line.shown_text_cons, ih,
      visible_normalizeAttribute, visible_gatherAttribute, visible_trim, List.flatten_cons,
      visible_append]
  | case5 underKey line rest content hempty hcomment hattribute hkey ih =>
    rw [sectionLines, if_neg hempty, if_neg hcomment, if_neg hattribute, if_pos hkey,
      Line.shown_text_cons, ih, visible_key hkey, visible_trim, List.flatten_cons, visible_append]
  | case6 underKey line rest content hempty hcomment hattribute hkey hvalue ih =>
    rw [sectionLines, if_neg hempty, if_neg hcomment, if_neg hattribute, if_neg hkey,
      if_pos hvalue, Line.shown_text_cons, ih, visible_trim, List.flatten_cons, visible_append]
  | case7 underKey line rest content hempty hcomment hattribute hkey hvalue ih =>
    rw [sectionLines, if_neg hempty, if_neg hcomment, if_neg hattribute, if_neg hkey,
      if_neg hvalue, Line.shown_text_cons, ih, visible_trim, List.flatten_cons, visible_append]

theorem visible_expandTabs (text : List Char) : visible (expandTabs text) = visible text := by
  induction text with
  | nil => rfl
  | cons c rest ih =>
    rw [expandTabs, List.flatMap_cons, visible_append, visible_cons c rest, ← ih]
    split
    · rename_i hc
      rw [eq_of_beq hc]
      rfl
    · rfl

/-- The separator that divides some lines shows between the lines around it. -/
theorem visible_of_splitSeparator? {ls before after : List (List Char)}
    (h : splitSeparator? ls = some (before, after)) :
    visible before.flatten ++ visible separator ++ visible after.flatten =
      visible ls.flatten := by
  induction ls generalizing before with
  | nil => cases h
  | cons line ls ih =>
    rw [splitSeparator?] at h
    split at h
    · rename_i hline
      cases h
      rw [List.flatten_cons, visible_append, ← visible_trim line, hline]
      rfl
    · obtain ⟨⟨front, back⟩, hsplit, hpair⟩ := Option.map_eq_some_iff.1 h
      cases hpair
      rw [List.flatten_cons, List.flatten_cons, visible_append, visible_append, ← ih hsplit]
      simp only [List.append_assoc]

theorem shown_separatorLines : Line.shown separatorLines = visible separator := rfl

theorem shown_mainLines (ls : List (List Char)) :
    Line.shown (mainLines ls) = visible ls.flatten := by
  rw [mainLines]
  split
  · rw [shown_bodyLines, visible_joinLines]
  · rename_i hsplit
    rw [Line.shown_append, Line.shown_append, shown_bodyLines, visible_joinLines,
      shown_separatorLines, shown_sectionLines, visible_of_splitSeparator? hsplit]

theorem shown_documentLines (text : List Char) :
    Line.shown (documentLines text) = visible text := by
  rw [documentLines]
  split
  · exact shown_bodyLines text
  · rename_i hsplit
    rw [Line.shown_append, Line.shown_append, shown_sectionLines, shown_separatorLines,
      shown_mainLines, visible_of_splitSeparator? hsplit, visible_flatten_lines]

/-- Laying out a document moves blank characters only. -/
theorem visible_formatOml (text : List Char) : visible (formatOml text) = visible text := by
  rw [formatOml, Line.visible_render, shown_documentLines, visible_expandTabs,
    visible_normalizeNewlines]

end LogScript.Layout
