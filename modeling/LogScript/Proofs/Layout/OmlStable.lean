import LogScript.Proofs.Layout.BodyRelaid
import LogScript.Proofs.Layout.OmlCharacters
import LogScript.Proofs.Layout.SectionRelaid

/-!
Laying out the layout of an OML document. As long as the layout of the body has no new separator,
a second pass divides the layout as the first pass divided the document, and reads each of its
parts again. It changes nothing, unless the first pass meets a tight arrow in the body, or leaves
an empty line between the body and the separator in front of the privacy section.
-/

namespace LogScript.Layout

section Body

variable {text content : List Char} {level : Nat} {rest : List Line}

theorem startsVisibly_bodyLines (text : List Char) :
    ∀ line ∈ bodyLines text, Body.StartsVisibly line :=
  Body.startsVisibly_run (Body.regular_of_built rfl rfl text)

theorem visible_of_dropWhile
    (hdrop : (bodyLines text).dropWhile Line.isBlankLine = .text level content :: rest) :
    visible text ≠ [] := by
  have hfirst : .text level content ∈ (bodyLines text).dropWhile Line.isBlankLine := by
    rw [hdrop]
    exact List.mem_cons_self
  obtain ⟨c, hhead, hc⟩ :=
    startsVisibly_bodyLines text _ ((List.dropWhile_sublist _).mem hfirst)
  have hmem : c ∈ Line.after true (bodyLines text) := by
    rw [Line.after_true_of_dropWhile hdrop, Line.indented]
    simp [List.mem_of_head? hhead]
  have hvisible : c ∈ visible text := by
    rw [← shown_bodyLines, ← Line.visible_after true]
    exact List.mem_filter.2 ⟨hmem, by rw [hc]; rfl⟩
  exact List.ne_nil_of_mem hvisible

/-- A second pass over a body, behind blank characters that do not end a statement. -/
theorem relaid_bodyLines
    (hdrop : (bodyLines text).dropWhile Line.isBlankLine = .text level content :: rest)
    {blanks : List Char} (hblanks : ∀ c ∈ blanks, isBlank c) (hcount : blanks.count '\n' < 2)
    (k : Nat) :
    Line.Relaid (({} : Body).MeetsTightArrow text) k (.text level content :: rest)
      (bodyLines (blanks ++ (content ++ Line.trail k rest))) := by
  have hsynced := fun due =>
    Body.synced_run (Body.regular_of_built rfl rfl text) level content rest hdrop due k
      (fun _ => .inr rfl)
  have hcontent :=
    Body.first_of_dropWhile (startsVisibly_bodyLines text) hdrop (Line.trail k rest)
  by_cases hne : blanks = []
  · rw [hne]
    exact hsynced false
  · have hreads : ({} : Body).Reads (blanks ++ (content ++ Line.trail k rest)) []
        { ({} : Body) with space := true } (content ++ Line.trail k rest) :=
      .spaces rfl hne hblanks hcontent hcount
    rw [bodyLines, hreads.run_eq]
    exact hsynced true

theorem after_bodyLines_iff {again : List Char} {k : Nat}
    (hdrop : (bodyLines text).dropWhile Line.isBlankLine = .text level content :: rest)
    (hrelaid : Line.Relaid (({} : Body).MeetsTightArrow text) k (.text level content :: rest)
      (bodyLines again)) :
    Line.after true (bodyLines again) = Line.after true (bodyLines text) ↔
      ¬({} : Body).MeetsTightArrow text := by
  rw [← Line.after_true_dropWhile (bodyLines text), hdrop]
  constructor
  · intro heq hmeets
    exact hrelaid.diverges hmeets true [] [] (by rw [heq])
  · intro hmeets
    exact (hrelaid.restores hmeets).text true

/-- A body without text meets nothing. -/
theorem not_meetsTightArrow_of_blank (h : (bodyLines text).dropWhile Line.isBlankLine = []) :
    ¬({} : Body).MeetsTightArrow text := by
  intro hmeets
  apply Body.visible_ne_nil_of_meetsTightArrow hmeets
  rw [← shown_bodyLines, Line.shown_of_dropWhile_nil h]

end Body

section Section

variable {underKey gap : Bool} {ls : List (List Char)}

theorem not_mem_settle_sectionLines (h : ∀ line ∈ ls, '\n' ∉ line) :
    ∀ line ∈ Line.settle gap (sectionLines underKey ls), '\n' ∉ line := by
  intro line hline hc
  rcases Line.mem_of_mem_settle hline hc with hc | hc
  · exact absurd hc (by decide)
  · rcases mem_of_mem_sectionLines hc with hc | ⟨l, hl, hc⟩
    · exact absurd hc (by decide)
    · exact h l hl hc

theorem trim_ne_separator_of_mem_settle (h : ∀ line ∈ ls, trim line ≠ separator) :
    ∀ line ∈ Line.settle gap (sectionLines underKey ls), trim line ≠ separator := by
  intro line hline
  rcases Line.mem_settle hline with rfl | ⟨level, content, hmem, rfl⟩
  · decide
  · rw [trim_indented]
    exact trim_ne_separator_of_mem_sectionLines h hmem

/-- Without the blank lines in front, the lines of a section are those of a later part of it. -/
theorem exists_sectionLines_dropWhile (underKey : Bool) (ls : List (List Char)) :
    ∃ ls', ls' <:+ ls ∧
      (sectionLines underKey ls).dropWhile Line.isBlankLine = sectionLines underKey ls' := by
  induction ls with
  | nil => exact ⟨[], List.suffix_rfl, by rw [sectionLines]; rfl⟩
  | cons line rest ih =>
    by_cases hempty : (trim line).isEmpty
    · obtain ⟨ls', hsuffix, hdrop⟩ := ih
      refine ⟨ls', hsuffix.trans (List.suffix_cons line rest), ?_⟩
      rw [sectionLines, if_pos hempty]
      exact hdrop
    · refine ⟨line :: rest, List.suffix_rfl, ?_⟩
      rw [sectionLines, if_neg hempty]
      split
      · rfl
      split
      · rfl
      split
      · rfl
      split <;> rfl

end Section

/-- The lines of a header as they stand in the layout of a document. -/
def laidHeader (header : List (List Char)) : List (List Char) :=
  let ls := (sectionLines false header).dropWhile Line.isBlankLine
  Line.settle false ls ++ (if Line.gapBehind false ls then [[]] else [])

section Header

variable {header : List (List Char)}

theorem mem_laidHeader (h : ∀ line ∈ header, '\n' ∉ line ∧ trim line ≠ separator) :
    ∀ line ∈ laidHeader header, '\n' ∉ line ∧ trim line ≠ separator := by
  obtain ⟨ls, hsuffix, hdrop⟩ := exists_sectionLines_dropWhile false header
  have hls : ∀ line ∈ ls, '\n' ∉ line ∧ trim line ≠ separator :=
    fun line hline => h line (hsuffix.subset hline)
  intro line hline
  rw [laidHeader, hdrop, List.mem_append] at hline
  rcases hline with hline | hline
  · exact ⟨not_mem_settle_sectionLines (fun l hl => (hls l hl).1) line hline,
      trim_ne_separator_of_mem_settle (fun l hl => (hls l hl).2) line hline⟩
  · split at hline
    · rw [List.mem_singleton.1 hline]
      decide
    · cases hline

/-- A header is read again as it was. -/
theorem sectionLines_laidHeader (header : List (List Char)) :
    Line.after true (sectionLines false (laidHeader header)) =
        Line.after true (sectionLines false header) ∧
      Line.gapBehind true (sectionLines false (laidHeader header)) =
        Line.gapBehind true (sectionLines false header) := by
  obtain ⟨ls, -, hdrop⟩ := exists_sectionLines_dropWhile false header
  rw [← Line.after_true_dropWhile (sectionLines false header),
    ← Line.gapBehind_true_dropWhile (sectionLines false header), laidHeader, hdrop]
  cases hdue : Line.gapBehind false (sectionLines false ls) with
  | false =>
    have hresettles := sectionLines_settle (.inl rfl) false false ls
    exact ⟨hresettles.text true, hresettles.behind (by rw [hdue]; rfl) true⟩
  | true =>
    have hresettles := sectionLines_settle (.inr rfl) false false ls
    exact ⟨hresettles.text true, hresettles.behind (by rw [hdue]; rfl) true⟩

theorem render_header (header : List (List Char)) (ls : List Line) :
    Line.render (sectionLines false header ++ (separatorLines ++ ls)) =
      (laidHeader header ++ [separator]).flatMap (· ++ ['\n']) ++
        (Line.written true ls ++ ['\n']) := by
  have hdrop : (sectionLines false header ++ (separatorLines ++ ls)).dropWhile Line.isBlankLine =
      (sectionLines false header).dropWhile Line.isBlankLine ++ (separatorLines ++ ls) := by
    rw [List.dropWhile_append]
    split
    · rename_i hnil
      rw [List.isEmpty_iff.1 hnil]
      rfl
    · rfl
  have hne : (sectionLines false header).dropWhile Line.isBlankLine ++ (separatorLines ++ ls) ≠ [] :=
    fun hnil => List.cons_ne_nil _ _ (List.append_eq_nil_iff.1 hnil).2
  have hseparator : ∀ gap, Line.written gap separatorLines =
      ((if gap then [[]] else []) ++ [separator]).flatMap (· ++ ['\n']) := fun _ => rfl
  have hbehind : ∀ gap, Line.gapBehind gap separatorLines = true := fun _ => rfl
  rw [Line.render_eq_written (by rw [hdrop]; exact hne), hdrop, Line.written_append,
    Line.written_append, hseparator, hbehind, laidHeader]
  simp only [Line.written, List.flatMap_append, List.append_assoc]

end Header

/-- What a second pass reads from lines that stand behind the first separator. -/
def mainAgain (ls : List Line) : List Line :=
  mainLines (lines (Line.written true ls ++ ['\n']))

/-- A second pass over a document comes down to what stands behind the first separator. -/
theorem render_main_iff {text : List Char} {header rest : List (List Char)}
    (hsplit : splitSeparator? (lines text) = some (header, rest)) :
    Line.render (documentLines (Line.render (documentLines text))) =
        Line.render (documentLines text) ↔
      Line.after true (mainAgain (mainLines rest)) = Line.after true (mainLines rest) := by
  obtain ⟨divider, hlines, -, hheader⟩ := splitSeparator?_eq_some.1 hsplit
  have hbreak : ∀ line ∈ header, '\n' ∉ line := by
    intro line hline
    have hmem : line ∈ lines text := by
      rw [hlines]
      exact List.mem_append_left _ hline
    exact not_mem_of_mem_lines hmem
  have hlaid := mem_laidHeader fun line hline => ⟨hbreak line hline, hheader line hline⟩
  have hdocument : documentLines text =
      sectionLines false header ++ (separatorLines ++ mainLines rest) := by
    rw [documentLines, hsplit]
    exact List.append_assoc _ _ _
  have hagain : lines (Line.render (documentLines text)) =
      laidHeader header ++ separator :: lines (Line.written true (mainLines rest) ++ ['\n']) := by
    rw [hdocument, render_header, lines_flatMap_lineFeed, List.append_assoc]
    · rfl
    · intro line hline
      rcases List.mem_append.1 hline with hline | hline
      · exact (hlaid line hline).1
      · rw [List.mem_singleton.1 hline]
        decide
  have hdocument' : documentLines (Line.render (documentLines text)) =
      sectionLines false (laidHeader header) ++ (separatorLines ++ mainAgain (mainLines rest)) := by
    rw [documentLines, splitSeparator?_eq_some.2
      ⟨separator, hagain, by decide, fun line hline => (hlaid line hline).2⟩]
    exact List.append_assoc _ _ _
  obtain ⟨htext, hbehind⟩ := sectionLines_laidHeader header
  rw [Line.render_eq_iff, hdocument', hdocument, Line.after_append, Line.after_append,
    Line.after_append, Line.after_append, htext, hbehind, List.append_cancel_left_eq,
    List.append_cancel_left_eq]
  rfl

theorem bodyLines_nil : bodyLines [] = [] :=
  (Body.run_nil {}).trans (Body.pending_of_built rfl)

theorem written_of_blank {ls : List Line} (h : ls.dropWhile Line.isBlankLine = []) :
    Line.written true ls = [] := by
  have hwritten := Line.lineFeed_written true ls
  rw [Line.after_of_dropWhile_nil h] at hwritten
  exact (List.cons.inj hwritten).2

/-- The layout of a body behind a separator, with line feeds at its end. -/
def laidBody (level : Nat) (content : List Char) (rest : List Line) (k : Nat) : List Char :=
  ('\n' :: List.replicate (4 * level) ' ') ++ (content ++ Line.trail k rest)

section LaidBody

variable {ls rest : List Line} {level : Nat} {content : List Char}

theorem laidBody_succ (level : Nat) (content : List Char) (rest : List Line) (k : Nat) :
    laidBody level content rest (k + 1) = laidBody level content rest k ++ ['\n'] := by
  simp only [laidBody, Line.trail, List.replicate_succ', List.append_assoc]

theorem written_of_dropWhile (h : ls.dropWhile Line.isBlankLine = .text level content :: rest) :
    Line.written true ls = laidBody level content rest 1 := by
  have hwritten := Line.lineFeed_written true ls
  rw [Line.after_true_of_dropWhile h, List.cons_append, List.cons.injEq] at hwritten
  rw [hwritten.2, laidBody, Line.trail, Line.indented]
  simp only [List.cons_append, List.append_assoc]
  rfl

theorem lineFeed_render (h : ls.dropWhile Line.isBlankLine = .text level content :: rest) :
    '\n' :: Line.render ls = laidBody level content rest 2 := by
  rw [Line.render_of_dropWhile h, laidBody, Line.trail, Line.indented]
  simp only [List.cons_append, List.append_assoc]
  rfl

theorem relaid_laidBody {text : List Char}
    (h : (bodyLines text).dropWhile Line.isBlankLine = .text level content :: rest) (k : Nat) :
    Line.Relaid (({} : Body).MeetsTightArrow text) k (.text level content :: rest)
      (bodyLines (laidBody level content rest k)) := by
  refine relaid_bodyLines h (fun c hc => ?_) ?_ k
  · rcases List.mem_cons.1 hc with rfl | hc
    · decide
    · exact blank_of_mem_spaces c hc
  · rw [List.count_cons, Line.count_spaces]
    decide

theorem after_laidBody_iff {text : List Char}
    (h : (bodyLines text).dropWhile Line.isBlankLine = .text level content :: rest) (k : Nat) :
    Line.after true (bodyLines (laidBody level content rest k)) =
      Line.after true (bodyLines text) ↔ ¬({} : Body).MeetsTightArrow text :=
  after_bodyLines_iff h (relaid_laidBody h k)

end LaidBody

/-- A document without separators is read again as its body is. -/
theorem render_body_iff {text : List Char} (hsplit : splitSeparator? (lines text) = none)
    (hlaid : splitSeparator? (lines (Line.render (bodyLines text))) = none) :
    Line.render (documentLines (Line.render (documentLines text))) =
        Line.render (documentLines text) ↔ ¬({} : Body).MeetsTightArrow text := by
  have hdocument : documentLines text = bodyLines text := by rw [documentLines, hsplit]
  have hagain : documentLines (Line.render (bodyLines text)) =
      bodyLines (Line.render (bodyLines text)) := by rw [documentLines, hlaid]
  rw [hdocument, hagain, Line.render_eq_iff]
  rcases Line.dropWhile_isBlankLine (bodyLines text) with hdrop | ⟨level, content, rest, hdrop⟩
  · rw [Line.render_of_dropWhile_nil hdrop, Line.after_of_dropWhile_nil hdrop, bodyLines_nil]
    exact iff_of_true rfl (not_meetsTightArrow_of_blank hdrop)
  · rw [Line.render_of_dropWhile hdrop, Line.indented, List.append_assoc, List.append_assoc]
    refine after_bodyLines_iff hdrop (relaid_bodyLines hdrop blank_of_mem_spaces ?_ 2)
    rw [Line.count_spaces]
    decide

/-- A body without a privacy section behind it is read again from its layout. -/
theorem mainAgain_body {ls : List Line} (hlaid : splitSeparator? (lines (Line.render ls)) = none) :
    mainAgain ls = bodyLines (Line.written true ls) := by
  have hsplit : splitSeparator? (lines (Line.written true ls ++ ['\n'])) = none := by
    rcases Line.dropWhile_isBlankLine ls with hdrop | ⟨level, content, rest, hdrop⟩
    · rw [written_of_blank hdrop]
      rfl
    · rw [written_of_dropWhile hdrop, ← laidBody_succ, ← lineFeed_render hdrop, lines_lineFeed,
        splitSeparator?_eq_none, List.forall_mem_cons]
      exact ⟨by decide, splitSeparator?_eq_none.1 hlaid⟩
  rw [mainAgain, mainLines, hsplit, joinLines_lines]

theorem main_body_iff {ls : List (List Char)} (hsplit : splitSeparator? ls = none)
    (hlaid : splitSeparator? (lines (Line.render (bodyLines (joinLines ls)))) = none) :
    Line.after true (mainAgain (mainLines ls)) = Line.after true (mainLines ls) ↔
      ¬({} : Body).MeetsTightArrow (joinLines ls) := by
  have hmain : mainLines ls = bodyLines (joinLines ls) := by rw [mainLines, hsplit]
  rw [hmain, mainAgain_body hlaid]
  rcases Line.dropWhile_isBlankLine (bodyLines (joinLines ls)) with
    hdrop | ⟨level, content, rest, hdrop⟩
  · rw [written_of_blank hdrop, bodyLines_nil, Line.after_of_dropWhile_nil hdrop]
    exact iff_of_true rfl (not_meetsTightArrow_of_blank hdrop)
  · rw [written_of_dropWhile hdrop]
    exact after_laidBody_iff hdrop 1

/-- A body with text that leaves an empty line behind its last statement. -/
def LeavesGap (body : List Char) : Prop :=
  visible body ≠ [] ∧ Line.gapBehind false (bodyLines body) = true

instance (body : List Char) : Decidable (LeavesGap body) :=
  inferInstanceAs (Decidable (_ ∧ _))

section Privacy

variable {privacy : List (List Char)}

theorem lines_privacy (h : ∀ line ∈ privacy, '\n' ∉ line) (gap : Bool) :
    lines (Line.written gap (separatorLines ++ sectionLines false privacy) ++ ['\n']) =
      (if gap then [[]] else []) ++
        separator :: (Line.settle true (sectionLines false privacy) ++ [[]]) := by
  have hsettle : Line.settle gap (separatorLines ++ sectionLines false privacy) =
      (if gap then [[]] else []) ++
        separator :: Line.settle true (sectionLines false privacy) := rfl
  rw [Line.written, hsettle, lines_flatMap_lineFeed, List.append_assoc]
  · rfl
  · intro line hline
    rcases List.mem_append.1 hline with hline | hline
    · split at hline
      · rw [List.mem_singleton.1 hline]
        decide
      · cases hline
    · rcases List.mem_cons.1 hline with rfl | hline
      · decide
      · exact not_mem_settle_sectionLines h line hline

/-- A privacy section is read again as it was. -/
theorem after_mainAgain {ls : List Line} {front : List (List Char)}
    (hlines : lines (Line.written true ls ++ ['\n']) =
      front ++ separator :: (Line.settle true (sectionLines false privacy) ++ [[]]))
    (hfront : ∀ line ∈ front, trim line ≠ separator) :
    Line.after true (mainAgain ls) =
      Line.after true (bodyLines (joinLines front)) ++
        Line.after (Line.gapBehind true (bodyLines (joinLines front)))
          (separatorLines ++ sectionLines false privacy) := by
  have hresettles := sectionLines_settle (.inr rfl) false true privacy
  have hbehind : ∀ gap, Line.gapBehind gap separatorLines = true := fun _ => rfl
  rw [mainAgain, mainLines, splitSeparator?_eq_some.2 ⟨separator, hlines, by decide, hfront⟩]
  simp only [Line.after_append, hbehind, hresettles.text, List.append_assoc]
  rfl

theorem after_separatorLines_iff {gap gap' : Bool} {ls : List Line} :
    Line.after gap (separatorLines ++ ls) = Line.after gap' (separatorLines ++ ls) ↔
      gap = gap' := by
  have hafter : ∀ due : Bool, Line.after due (separatorLines ++ ls) =
      '\n' :: ((if due then ['\n'] else []) ++ separator ++
        Line.after false (.blank :: ls)) := fun due => Line.after_text due 0 separator _
  constructor
  · intro h
    rw [hafter, hafter] at h
    cases gap <;> cases gap' <;> simp [separator] at h ⊢
  · rintro rfl
    rfl

variable {body content : List Char} {level : Nat} {rest : List Line}

/-- A body without text is read again as no body. -/
theorem after_mainAgain_of_blank (h : ∀ line ∈ privacy, '\n' ∉ line)
    (hdrop : (bodyLines body).dropWhile Line.isBlankLine = []) :
    Line.after true (mainAgain (bodyLines body ++ (separatorLines ++ sectionLines false privacy))) =
      Line.after true (bodyLines body ++ (separatorLines ++ sectionLines false privacy)) := by
  have hgap : Line.gapBehind true (bodyLines body) = true := by
    rw [← Line.gapBehind_true_dropWhile, hdrop]
    rfl
  have hlines : lines (Line.written true (bodyLines body ++
      (separatorLines ++ sectionLines false privacy)) ++ ['\n']) =
        [[]] ++ separator :: (Line.settle true (sectionLines false privacy) ++ [[]]) := by
    rw [Line.written_append, written_of_blank hdrop, hgap, List.nil_append, lines_privacy h]
    rfl
  have hjoin : bodyLines (joinLines [[]]) = [] := bodyLines_nil
  rw [after_mainAgain hlines (by decide), hjoin, Line.after_append _ (bodyLines body), hgap,
    Line.after_of_dropWhile_nil hdrop]
  rfl

/-- A body with text is read again with one line feed behind it if it leaves an empty line. -/
theorem after_mainAgain_of_text (h : ∀ line ∈ privacy, '\n' ∉ line)
    (hdrop : (bodyLines body).dropWhile Line.isBlankLine = .text level content :: rest)
    (hlaid : splitSeparator? (lines (Line.render (bodyLines body))) = none) :
    ∃ k < 2, Line.after true
        (mainAgain (bodyLines body ++ (separatorLines ++ sectionLines false privacy))) =
      Line.after true (bodyLines (laidBody level content rest k)) ++
        Line.after (Line.gapBehind true (bodyLines (laidBody level content rest k)))
          (separatorLines ++ sectionLines false privacy) := by
  have hlaidLines : lines (laidBody level content rest 1) ++ [[]] =
      [] :: lines (Line.render (bodyLines body)) := by
    have hlineFeed : lines ['\n'] = [[]] := rfl
    rw [← lines_lineFeed, lineFeed_render hdrop, laidBody_succ level content rest 1,
      laidBody_succ, List.append_assoc, List.singleton_append,
      lines_append_lineFeed (laidBody level content rest 0) ['\n'], hlineFeed]
  have hfront : ∀ line ∈ lines (laidBody level content rest 1) ++ [[]], trim line ≠ separator := by
    rw [hlaidLines, List.forall_mem_cons]
    exact ⟨by decide, splitSeparator?_eq_none.1 hlaid⟩
  have hlines : lines (Line.written true (bodyLines body ++
      (separatorLines ++ sectionLines false privacy)) ++ ['\n']) =
        (lines (laidBody level content rest 1) ++
          (if Line.gapBehind true (bodyLines body) then [[]] else [])) ++
            separator :: (Line.settle true (sectionLines false privacy) ++ [[]]) := by
    rw [Line.written_append, written_of_dropWhile hdrop, laidBody_succ, List.append_assoc,
      List.append_assoc, List.singleton_append, lines_append_lineFeed, lines_privacy h,
      List.append_assoc]
  cases hgap : Line.gapBehind true (bodyLines body) with
  | false =>
    rw [hgap, if_neg Bool.false_ne_true, List.append_nil] at hlines
    refine ⟨0, by omega, ?_⟩
    rw [after_mainAgain hlines fun line hline => hfront line (List.mem_append_left _ hline),
      laidBody_succ, joinLines_lines]
  | true =>
    rw [hgap, if_pos rfl] at hlines
    have hjoin : joinLines (lines (laidBody level content rest 1) ++ [[]]) =
        laidBody level content rest 1 := by
      rw [hlaidLines, ← lines_lineFeed, lineFeed_render hdrop, laidBody_succ, joinLines_lines]
    refine ⟨1, by omega, ?_⟩
    rw [after_mainAgain hlines hfront, hjoin]

theorem main_privacy_iff {ls body : List (List Char)}
    (hsplit : splitSeparator? ls = some (body, privacy)) (h : ∀ line ∈ privacy, '\n' ∉ line)
    (hlaid : splitSeparator? (lines (Line.render (bodyLines (joinLines body)))) = none) :
    Line.after true (mainAgain (mainLines ls)) = Line.after true (mainLines ls) ↔
      ¬({} : Body).MeetsTightArrow (joinLines body) ∧ ¬LeavesGap (joinLines body) := by
  have hmain : mainLines ls =
      bodyLines (joinLines body) ++ (separatorLines ++ sectionLines false privacy) := by
    rw [mainLines, hsplit]
    exact List.append_assoc _ _ _
  rw [hmain]
  rcases Line.dropWhile_isBlankLine (bodyLines (joinLines body)) with
    hdrop | ⟨level, content, rest, hdrop⟩
  · have hvisible : visible (joinLines body) = [] := by
      rw [← shown_bodyLines, Line.shown_of_dropWhile_nil hdrop]
    exact iff_of_true (after_mainAgain_of_blank h hdrop)
      ⟨not_meetsTightArrow_of_blank hdrop, fun hleaves => hleaves.1 hvisible⟩
  obtain ⟨k, hk, hagain⟩ := after_mainAgain_of_text h hdrop hlaid
  have hne : Line.after true (bodyLines (joinLines body)) ≠ [] := by
    rw [Line.after_true_of_dropWhile hdrop]
    exact List.cons_ne_nil _ _
  have hrelaid := relaid_laidBody hdrop k
  rw [hagain, Line.after_append _ (bodyLines (joinLines body))]
  by_cases hmeets : ({} : Body).MeetsTightArrow (joinLines body)
  · refine iff_of_false ?_ fun hnot => hnot.1 hmeets
    rw [← Line.after_true_dropWhile (bodyLines (joinLines body)), hdrop]
    exact hrelaid.diverges hmeets true _ _
  · have htext := (after_laidBody_iff hdrop k).2 hmeets
    have hbehind : Line.gapBehind true (bodyLines (laidBody level content rest k)) = false := by
      rw [Line.gapBehind_of_after (by rw [htext]; exact hne) true false]
      exact (hrelaid.restores hmeets).behind hk
    rw [htext, hbehind, List.append_cancel_left_eq, after_separatorLines_iff,
      Line.gapBehind_of_after hne true false, and_iff_right hmeets, LeavesGap,
      and_iff_right (visible_of_dropWhile hdrop), eq_comm, Bool.not_eq_true]

end Privacy

/-- The part of a document that is laid out statement by statement. -/
def bodyText (text : List Char) : List Char :=
  match splitSeparator? (lines text) with
  | none => text
  | some (_, rest) =>
    match splitSeparator? rest with
    | none => joinLines rest
    | some (body, _) => joinLines body

/-- A document has a second separator. -/
def HasPrivacy (text : List Char) : Prop :=
  ((splitSeparator? (lines text)).bind fun parts => splitSeparator? parts.2).isSome

instance (text : List Char) : Decidable (HasPrivacy text) :=
  inferInstanceAs (Decidable (_ = _))

/-- The layout of the body has a separator, which the body itself has not. -/
def MakesSeparator (text : List Char) : Prop :=
  ∃ line ∈ lines (Line.render (bodyLines (bodyText text))), trim line = separator

instance (text : List Char) : Decidable (MakesSeparator text) :=
  inferInstanceAs (Decidable (∃ line ∈ _, _))

/-- Laying out a layout changes it exactly if the first pass met a tight arrow, or left an empty
line in front of the privacy section. -/
theorem formatOml_formatOml_iff (text : List Char) (h : ¬MakesSeparator (prepared text)) :
    formatOml (formatOml text) = formatOml text ↔
      ¬({} : Body).MeetsTightArrow (bodyText (prepared text)) ∧
        ¬(HasPrivacy (prepared text) ∧ LeavesGap (bodyText (prepared text))) := by
  have hlaid : splitSeparator? (lines (Line.render (bodyLines (bodyText (prepared text))))) = none :=
    splitSeparator?_eq_none.2 fun line hline htrim => h ⟨line, hline, htrim⟩
  rw [formatOml_eq (formatOml text), prepared_formatOml, formatOml_eq]
  generalize prepared text = text at hlaid ⊢
  cases hsplit : splitSeparator? (lines text) with
  | none =>
    have hbody : bodyText text = text := by simp only [bodyText, hsplit]
    have hprivacy : ¬HasPrivacy text := by simp [HasPrivacy, hsplit]
    rw [hbody] at hlaid ⊢
    rw [render_body_iff hsplit hlaid]
    exact (and_iff_left fun hboth => hprivacy hboth.1).symm
  | some parts =>
    obtain ⟨header, rest⟩ := parts
    rw [render_main_iff hsplit]
    cases hmain : splitSeparator? rest with
    | none =>
      have hbody : bodyText text = joinLines rest := by simp only [bodyText, hsplit, hmain]
      have hprivacy : ¬HasPrivacy text := by simp [HasPrivacy, hsplit, hmain]
      rw [hbody] at hlaid ⊢
      rw [main_body_iff hmain hlaid]
      exact (and_iff_left fun hboth => hprivacy hboth.1).symm
    | some parts =>
      obtain ⟨body, privacy⟩ := parts
      have hbody : bodyText text = joinLines body := by simp only [bodyText, hsplit, hmain]
      have hprivacy : HasPrivacy text := by simp [HasPrivacy, hsplit, hmain]
      have hbreak : ∀ line ∈ privacy, '\n' ∉ line := by
        obtain ⟨divider, hlines, -⟩ := splitSeparator?_eq_some.1 hsplit
        obtain ⟨divider', rfl, -⟩ := splitSeparator?_eq_some.1 hmain
        intro line hline
        have hmem : line ∈ lines text := by
          rw [hlines]
          simp [hline]
        exact not_mem_of_mem_lines hmem
      rw [hbody] at hlaid ⊢
      rw [main_privacy_iff hmain hbreak hlaid, and_iff_right hprivacy]

theorem formatOml_formatOml_document :
    ¬MakesSeparator (prepared "name : x\n---\na = b;\x7bc==d\x7d\n\ne => f\n---\np".toList) ∧
      formatOml (formatOml "name : x\n---\na = b;\x7bc==d\x7d\n\ne => f\n---\np".toList) =
        formatOml "name : x\n---\na = b;\x7bc==d\x7d\n\ne => f\n---\np".toList :=
  ⟨by decide +kernel, (formatOml_formatOml_iff _ (by decide +kernel)).2 (by decide +kernel)⟩

example : formatOml (formatOml "a==>".toList) ≠ formatOml "a==>".toList := by decide +kernel

example : formatOml (formatOml "---\na\n\n\n---".toList) ≠ formatOml "---\na\n\n\n---".toList := by
  decide +kernel

example : MakesSeparator "\x7b---".toList := by decide +kernel

end LogScript.Layout
