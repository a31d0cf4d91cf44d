import LogScript.Proofs.Layout.Fragments
import LogScript.Proofs.Layout.OmlCharacters

/-!
Fragments in the layout of an OML body. The body machine takes a literal as a whole, and it leaves what
it finds in brackets on one line, where only a blank run with a line feed becomes a space. It starts
and completes lines outside of fragments, so that the lines of a run hold the fragments of the text.
-/

namespace LogScript.Layout

section Lines

variable {σ : Type} {scan : Scan σ} {ls : List Line}

theorem closed_contents (h : ∀ line ∈ ls, scan.past scan.rest line.content = scan.rest) :
    scan.past scan.rest (ls.flatMap Line.content) = scan.rest := by
  induction ls with
  | nil => rfl
  | cons line ls ih =>
    rw [List.forall_mem_cons] at h
    rw [List.flatMap_cons, Scan.past_append, h.1, ih h.2]

theorem flatMap_content_dropWhile (ls : List Line) :
    (ls.dropWhile Line.isBlankLine).flatMap Line.content = ls.flatMap Line.content := by
  induction ls with
  | nil => rfl
  | cons line ls ih =>
    cases line with
    | blank => exact ih
    | text level content => rfl

variable [DecidableEq σ]

theorem same_settle (h : ∀ line ∈ ls, scan.past scan.rest line.content = scan.rest) (gap : Bool) :
    scan.Same scan.rest ((Line.settle gap ls).flatMap (· ++ ['\n'])) (ls.flatMap Line.content) := by
  induction ls generalizing gap with
  | nil => exact .refl _ _
  | cons line ls ih =>
    rw [List.forall_mem_cons] at h
    cases line with
    | blank => exact ih h.2 true
    | text level content =>
      have hgap : scan.Same scan.rest ((if gap then [[]] else []).flatMap (· ++ ['\n'])) [] :=
        Scan.same_blanks (by cases gap <;> simp [blank_of_mem_lineFeed])
      have hcontent : scan.Same scan.rest (Line.indented level content) content :=
        Scan.same_blanks_append blank_of_mem_spaces content
      have hrest := (Scan.same_blanks_append blank_of_mem_lineFeed _).trans (ih h.2 false)
      rw [Line.settle, List.flatMap_append, List.flatMap_cons, List.append_assoc]
      refine (hgap.append_right _).trans (hcontent.append_closed ?_ hrest)
      rw [hcontent.past]
      exact h.1

/-- Rendering puts blank characters around lines only. -/
theorem same_render (h : ∀ line ∈ ls, scan.past scan.rest line.content = scan.rest) :
    scan.Same scan.rest (Line.render ls) (ls.flatMap Line.content) := by
  have hsettle := same_settle
    (fun line hline => h line ((List.dropWhile_suffix Line.isBlankLine).subset hline)) false
  rw [flatMap_content_dropWhile] at hsettle
  rw [Line.render]
  split
  · rename_i hnone
    rwa [hnone] at hsettle
  · refine Scan.Same.trans (Scan.same_append_blanks ?_ blank_of_mem_lineFeed) hsettle
    rw [hsettle.past, closed_contents h]

end Lines

namespace Body

/-- Where the machine stands: outside literals, in the brackets that are open. -/
def place (b : Body) : Place :=
  ⟨.outside, b.depth⟩

/-- What the line holds in fragments, and the text behind it with the lines of its groups joined. -/
def joined (b : Body) (text : List Char) : List Char :=
  fragmentScan.held .start b.line ++
    joinBreaks .outside [] (fragmentScan.held b.place text)

/-- The line ends where the machine stands, and all fragments are closed behind it. -/
structure Aligned (b : Body) (text : List Char) : Prop where
  line : fragmentScan.past .start b.line = b.place
  closed : fragmentScan.past b.place text = .start

/-- A step completes lines with closed fragments, and hands on what it has not completed. -/
structure Joins (b b' : Body) (text text' : List Char) (lines : List Line) : Prop where
  closed : ∀ line ∈ lines, fragmentScan.past .start line.content = .start
  aligned : b'.Aligned text'
  joined : b.joined text =
    fragmentScan.held .start (lines.flatMap Line.content) ++ b'.joined text'

section Steps

variable {b b' : Body} {taken text : List Char} {lines : List Line}

/-- A step that writes characters behind the line as they are. -/
theorem joins_write (taken : List Char) (h : b.Aligned (taken ++ text))
    (hgap : b.gap = [] ∨ b.depth = 0) (hline : b'.line = b.line ++ (b.gap ++ taken))
    (hpast : fragmentScan.past b.place taken = b'.place)
    (hsolid : ∀ more, joinBreaks .outside [] (fragmentScan.held b.place taken ++ more) =
      fragmentScan.held b.place taken ++ joinBreaks .outside [] more) :
    b.Joins b' (taken ++ text) text [] := by
  have hwritten : fragmentScan.Same b.place (b.gap ++ taken) taken := by
    rcases hgap with hgap | hdepth
    · rw [hgap]
      exact .refl _ _
    · rw [place, hdepth]
      exact Scan.same_blanks_append b.blank_of_mem_gap taken
  refine ⟨fun _ hl => absurd hl List.not_mem_nil, ⟨?_, ?_⟩, ?_⟩
  · rw [hline, Scan.past_append, h.line, hwritten.past, hpast]
  · rw [← hpast, ← Scan.past_append]
    exact h.closed
  · rw [joined, joined, hline, Scan.held_append, Scan.held_append, h.line, hwritten.held, hsolid,
      hpast, List.append_assoc]
    rfl

/-- A step outside brackets that reads and writes nothing of a fragment. -/
theorem joins_idle (h : b.Aligned (taken ++ text)) (hdepth : b.depth = 0) (hdepth' : b'.depth = 0)
    (htaken : ∀ c ∈ taken, fragmentScan.next .start c = .start)
    (hclosed : ∀ line ∈ lines, fragmentScan.past .start line.content = .start)
    (hsame : fragmentScan.Same .start b.line (lines.flatMap Line.content ++ b'.line)) :
    b.Joins b' (taken ++ text) text lines := by
  have hidle : fragmentScan.Same .start (taken ++ text) text :=
    (Scan.same_idle htaken).append_right text
  obtain ⟨hline, htext⟩ := h
  have hplace : b.place = .start := by rw [place, hdepth]
  have hplace' : b'.place = .start := by rw [place, hdepth']
  have hlines : fragmentScan.past .start (lines.flatMap Line.content) = .start :=
    closed_contents hclosed
  rw [hplace] at hline htext
  refine ⟨hclosed, ⟨?_, ?_⟩, ?_⟩
  · have hend := hsame.past
    rw [hline, Scan.past_append, hlines] at hend
    rw [hplace']
    exact hend.symm
  · rw [hplace']
    exact hidle.past.symm.trans htext
  · rw [joined, joined, hplace, hplace', hidle.held, hsame.held, Scan.held_append, hlines,
      List.append_assoc]

theorem Aligned.line_start (h : b.Aligned text) (hdepth : b.depth = 0) :
    fragmentScan.past .start b.line = .start := by
  rw [h.line, place, hdepth]

theorem same_pending (h : fragmentScan.past .start b.line = .start) :
    (∀ line ∈ b.pending, fragmentScan.past .start line.content = .start) ∧
      fragmentScan.Same .start b.line (b.pending.flatMap Line.content) := by
  have htrim : fragmentScan.Same .start b.line (trim b.line) := Scan.same_trim (.inl h)
  rw [pending]
  split
  · rename_i hnone
    rw [hnone] at htrim
    exact ⟨fun _ hl => absurd hl List.not_mem_nil, htrim⟩
  · refine ⟨List.forall_mem_singleton.2 (htrim.past.symm.trans h), ?_⟩
    rwa [List.flatMap_singleton]

theorem same_push (h : fragmentScan.past .start b.line = .start) {pushed : List Char}
    (hpushed : ∀ c ∈ pushed, fragmentScan.next .start c = .start) :
    fragmentScan.Same .start b.line (b.push pushed).line := by
  have hadded : fragmentScan.Same .start (b.gap ++ pushed) [] :=
    (Scan.same_blanks_append b.blank_of_mem_gap pushed).trans (Scan.same_idle hpushed)
  have hline := Scan.Same.append_left b.line (h.symm ▸ hadded)
  rw [List.append_nil] at hline
  rw [line_push]
  exact hline.symm

/-- A step outside brackets that writes behind a space what belongs to no fragment. -/
theorem joins_push (taken pushed : List Char) (h : b.Aligned (taken ++ text)) (hdepth : b.depth = 0)
    (hdepth' : b'.depth = 0) (htaken : ∀ c ∈ taken, fragmentScan.next .start c = .start)
    (hpushed : ∀ c ∈ pushed, fragmentScan.next .start c = .start)
    (hline : b'.line = ({ b with space := true }.push pushed).line) :
    b.Joins b' (taken ++ text) text [] := by
  have hstart := h.line_start hdepth
  refine joins_idle h hdepth hdepth' htaken (fun _ hl => absurd hl List.not_mem_nil) ?_
  rw [hline]
  exact same_push (b := { b with space := true }) hstart hpushed

/-- A step outside brackets that completes the line with what belongs to no fragment. -/
theorem joins_complete (due : Bool) (taken pushed : List Char) (h : b.Aligned (taken ++ text))
    (hdepth : b.depth = 0) (hdepth' : b'.depth = 0) (hbuilt : b'.built = [])
    (htaken : ∀ c ∈ taken, fragmentScan.next .start c = .start)
    (hpushed : ∀ c ∈ pushed, fragmentScan.next .start c = .start) :
    b.Joins b' (taken ++ text) text ({ b with space := due }.push pushed).pending := by
  have hstart := h.line_start hdepth
  have hpush := same_push (b := { b with space := due }) hstart hpushed
  obtain ⟨hclosed, hpending⟩ := same_pending (hpush.past.symm.trans hstart)
  refine joins_idle h hdepth hdepth' htaken hclosed ?_
  rw [line_eq_nil.2 hbuilt, List.append_nil]
  exact hpush.trans hpending

/-- A step outside brackets that completes the line and writes nothing of a fragment behind it. -/
theorem joins_pending (taken : List Char) (more : List Line) (h : b.Aligned (taken ++ text))
    (hdepth : b.depth = 0) (hdepth' : b'.depth = 0)
    (htaken : ∀ c ∈ taken, fragmentScan.next .start c = .start)
    (hmore : ∀ line ∈ more, ∀ c ∈ line.content, fragmentScan.next .start c = .start)
    (hline : ∀ c ∈ b'.line, fragmentScan.next .start c = .start) :
    b.Joins b' (taken ++ text) text (b.pending ++ more) := by
  obtain ⟨hclosed, hpending⟩ := same_pending (h.line_start hdepth)
  have hwritten : fragmentScan.Same .start (more.flatMap Line.content ++ b'.line) [] := by
    refine Scan.same_idle fun c hc => ?_
    rcases List.mem_append.1 hc with hc | hc
    · obtain ⟨line, hmem, hc⟩ := List.mem_flatMap.1 hc
      exact hmore line hmem c hc
    · exact hline c hc
  have hlines : fragmentScan.past .start (b.pending.flatMap Line.content) = .start :=
    closed_contents hclosed
  refine joins_idle h hdepth hdepth' htaken ?_ ?_
  · rw [List.forall_mem_append]
    exact ⟨hclosed, fun line hline => (Scan.same_idle (hmore line hline)).past⟩
  · have hall := hpending.append_closed (h.line_start hdepth) hwritten.symm
    rwa [List.append_nil, ← List.append_assoc, ← List.flatMap_append] at hall

/-- A character outside literals that a step writes behind the line. -/
theorem joins_char {c : Char} (h : b.Aligned (c :: text)) (hgap : b.gap = [] ∨ b.depth = 0)
    (hblank : isBlank c = false) (hquote : c ≠ '"') (hline : b'.line = b.line ++ (b.gap ++ [c]))
    (hdepth : b'.depth = pastBracket b.depth c) : b.Joins b' (c :: text) text [] := by
  have hnext : fragmentScan.next b.place c = b'.place := by
    rw [place, place, hdepth, next_of_ne hquote]
  refine joins_write [c] h hgap hline hnext fun more => ?_
  rw [Scan.held]
  split
  · rw [Scan.held, List.singleton_append, joinBreaks_kept (.inr hblank), next_outside hquote]
    rfl
  · rfl

/-- A literal that a step writes behind the line. -/
theorem joins_literal {body : List Char} (h : b.Aligned ('"' :: (body ++ text)))
    (hgap : b.gap = [] ∨ b.depth = 0) (hbody : literalScan.Closes .inside body)
    (hline : b'.line = b.line ++ (b.gap ++ '"' :: body)) (hdepth : b'.depth = b.depth) :
    b.Joins b' ('"' :: (body ++ text)) text [] := by
  have hopens : fragmentScan.next b.place '"' = ⟨.inside, b.depth⟩ := rfl
  have hholds : fragmentScan.holds b.place '"' = true :=
    fragmentScan.holds_of_opens fun hrest => Quoting.noConfusion (congrArg Place.quoting hrest)
  have hheld : fragmentScan.held b.place ('"' :: body) = '"' :: body := by
    rw [Scan.held, if_pos hholds, hopens, held_literal hbody (by decide)]
  refine joins_write ('"' :: body) h hgap hline ?_ fun more => ?_
  · rw [Scan.past_cons, hopens, past_literal hbody (by decide), place, hdepth]
  · rw [hheld]
    exact congrArg (_ :: ·) (joinBreaks_literal hbody (by decide) more)

/-- A blank run in a group that a step writes behind the line. -/
theorem joins_kept {blanks : List Char} (h : b.Aligned (blanks ++ text)) (hdepth : 0 < b.depth)
    (hblanks : ∀ c ∈ blanks, isBlank c) (htext : ∀ c ∈ text.head?, isBlank c = false) :
    b.Joins (b.add (kept blanks)) (blanks ++ text) text [] := by
  have hplace : (b.add (kept blanks)).place = b.place := rfl
  have hkept : fragmentScan.held b.place (kept blanks) = kept blanks := by
    have hheld := held_inner_blanks (kept_blank hblanks) hdepth []
    rwa [List.append_nil, Scan.held, List.append_nil] at hheld
  refine ⟨fun _ hl => absurd hl List.not_mem_nil, ⟨?_, ?_⟩, ?_⟩
  · rw [line_add, Scan.past_append, h.line]
    exact past_inner_blanks (kept_blank hblanks) b.depth
  · have hclosed := h.closed
    rw [Scan.past_append] at hclosed
    rw [hplace, ← hclosed]
    exact congrArg (fragmentScan.past · text) (past_inner_blanks hblanks b.depth).symm
  · have hheld : fragmentScan.held b.place (blanks ++ text) =
        blanks ++ fragmentScan.held b.place text := held_inner_blanks hblanks hdepth text
    have hhead : ∀ c ∈ (fragmentScan.held b.place text).head?, isBlank c = false :=
      head?_held_inner hdepth htext
    rw [joined, joined, hheld, hplace, line_add, Scan.held_append, h.line, hkept,
      joinBreaks_blanks_append hblanks hhead, List.append_assoc]
    rfl

theorem not_opensComment_of_not_mem {c : Char} {rest : List Char} (hhash : '#' ∉ c :: rest)
    (hslashes : ¬['/', '/'] <:+: c :: rest) : ¬opensComment (c :: rest) = true := by
  rw [opensComment_cons]
  rintro (⟨rfl, hnext⟩ | ⟨rfl, -⟩)
  · obtain ⟨more, rfl⟩ := List.head?_eq_some_iff.1 hnext
    exact hslashes ⟨[], more, rfl⟩
  · exact hhash List.mem_cons_self

/-- Every rule joins the lines of groups, and keeps the fragments otherwise. -/
theorem Reads.joins {text' : List Char} (hreads : b.Reads text lines b' text')
    (hregular : b.Regular text) (h : b.Aligned text) (hhash : '#' ∉ text)
    (hslashes : ¬['/', '/'] <:+: text) : b.Joins b' text text' lines := by
  have hgap : b.gap = [] ∨ b.depth = 0 := by
    rcases Nat.eq_zero_or_pos b.depth with hdepth | hdepth
    · exact .inr hdepth
    · exact .inl (gap_of_space (hregular.inner hdepth).2)
  have hidle : ∀ {blanks : List Char}, (∀ c ∈ blanks, isBlank c) →
      ∀ c ∈ blanks, fragmentScan.next .start c = .start :=
    fun hblanks c hc => next_inner_blank (hblanks c hc) 0
  have hsign : ∀ {c : Char}, fragmentScan.next .start c = .start →
      ∀ d ∈ [c], fragmentScan.next .start d = .start :=
    fun hc => List.forall_mem_singleton.2 hc
  cases hreads with
  | kept hdepth hne hblanks htext => exact joins_kept h hdepth hblanks htext
  | spaces hdepth hne hblanks htext hcount =>
    have hline : fragmentScan.Same .start b.line b.line := .refl _ _
    exact joins_idle h hdepth hdepth (hidle hblanks) (fun _ hl => absurd hl List.not_mem_nil) hline
  | breaks hdepth hblanks htext hcount =>
    exact joins_pending _ [.blank] h hdepth hdepth (hidle hblanks)
      (List.forall_mem_singleton.2 fun _ hc => absurd hc List.not_mem_nil)
      fun _ hc => absurd hc List.not_mem_nil
  | @literal body _ hbody =>
    have hcloses : literalScan.Closes .inside (body ++ ['"']) := by
      refine closes_of_literalRest (by simp) fun more => ?_
      have hmore := hbody more
      rwa [List.append_cons body '"' more] at hmore
    rw [List.append_cons body '"' text'] at h ⊢
    exact joins_literal h hgap hcloses (line_push b _) rfl
  | openLiteral hopen =>
    have hquoting := congrArg Place.quoting h.closed
    rw [quoting_past] at hquoting
    exact absurd hopen (not_openLiteral hquoting)
  | enclosed hdepth hblank hquote =>
    have hnone : b.gap = [] := gap_of_space (hregular.inner hdepth).2
    refine joins_char h hgap hblank hquote ?_ rfl
    rw [hnone]
    exact line_add b _
  | comment hdepth hbuilt hcomment htail htext =>
    exact absurd hcomment (not_opensComment_of_not_mem hhash hslashes)
  | commentBehind hdepth hbuilt hcomment htail htext =>
    exact absurd hcomment (not_opensComment_of_not_mem hhash hslashes)
  | closedAttribute hdepth hbuilt hclosed => exact absurd List.mem_cons_self hhash
  | openAttribute hdepth hbuilt hopen => exact absurd List.mem_cons_self hhash
  | bracket hdepth hc =>
    rcases hc with rfl | rfl
    · exact joins_char h hgap (by decide) (by decide) (line_push b _) rfl
    · exact joins_char h hgap (by decide) (by decide) (line_push b _) rfl
  | semicolon hdepth =>
    exact joins_complete false [';'] [';'] h hdepth hdepth rfl (hsign rfl) (hsign rfl)
  | arrow hdepth =>
    have harrow : ∀ c ∈ ['=', '>'], fragmentScan.next .start c = .start :=
      List.forall_mem_cons.2 ⟨rfl, hsign rfl⟩
    exact joins_push ['=', '>'] ['=', '>'] h hdepth hdepth harrow harrow rfl
  | joinedEquals hdepth hnext hjoins =>
    exact joins_char h hgap (by decide) (by decide) (line_push b _) rfl
  | equals hdepth hnext hjoins =>
    exact joins_push ['='] ['='] h hdepth hdepth (hsign rfl) (hsign rfl) rfl
  | joinedBar hdepth hjoins =>
    exact joins_char h hgap (by decide) (by decide) (line_push b _) rfl
  | bar hdepth hjoins =>
    exact joins_push ['|'] ['|'] h hdepth hdepth (hsign rfl) (hsign rfl) rfl
  | @emptyBraces blanks _ hdepth hblanks =>
    have hbraces : ∀ c ∈ '\x7b' :: (blanks ++ ['\x7d']), fragmentScan.next .start c = .start := by
      rw [List.forall_mem_cons, List.forall_mem_append]
      exact ⟨rfl, hidle hblanks, hsign rfl⟩
    rw [List.append_cons blanks '\x7d' text'] at h ⊢
    exact joins_push ('\x7b' :: (blanks ++ ['\x7d'])) ['\x7b', '\x7d'] h hdepth hdepth hbraces
      (List.forall_mem_cons.2 ⟨rfl, hsign rfl⟩) rfl
  | openBrace hdepth htext =>
    exact joins_complete true ['\x7b'] ['\x7b'] h hdepth hdepth rfl (hsign rfl)
      (hsign rfl)
  | @followedBrace blanks c text hdepth hblanks hc =>
    have htaken : ∀ c ∈ '\x7d' :: blanks, fragmentScan.next .start c = .start :=
      List.forall_mem_cons.2 ⟨rfl, hidle hblanks⟩
    rw [← List.append_nil b.pending]
    exact joins_pending ('\x7d' :: blanks) [] h hdepth hdepth htaken
      (fun _ hl => absurd hl List.not_mem_nil) (hsign rfl)
  | closeBrace hdepth htext =>
    exact joins_pending ['\x7d'] [.text (b.level - 1) ['\x7d']] h hdepth hdepth (hsign rfl)
      (List.forall_mem_singleton.2 (hsign rfl)) fun _ hc => absurd hc List.not_mem_nil
  | ordinary hdepth hblank hquote hordinary hcomment hattribute =>
    refine joins_char h hgap hblank hquote (line_push b _) ?_
    rw [hdepth, pastBracket_of_isOrdinary hordinary]
    exact hdepth

/-- The lines of a run hold the fragments of the line already built, and of the text behind it with
the lines of its groups joined. -/
theorem joined_run (hregular : b.Regular text) (h : b.Aligned text) (hhash : '#' ∉ text)
    (hslashes : ¬['/', '/'] <:+: text) :
    (∀ line ∈ b.run text, fragmentScan.past .start line.content = .start) ∧
      fragmentScan.held .start ((b.run text).flatMap Line.content) = b.joined text := by
  refine hregular.induction
    (motive := fun b text => b.Aligned text → '#' ∉ text → ¬['/', '/'] <:+: text →
      (∀ line ∈ b.run text, fragmentScan.past .start line.content = .start) ∧
        fragmentScan.held .start ((b.run text).flatMap Line.content) = b.joined text)
    ?_ ?_ h hhash hslashes
  · intro b _ h _ _
    have hstart : fragmentScan.past .start b.line = .start := h.line.trans h.closed
    obtain ⟨hclosed, hpending⟩ := same_pending hstart
    rw [run_nil, joined, ← hpending.held]
    exact ⟨hclosed, (List.append_nil _).symm⟩
  · intro b b' text text' lines hregular hreads ih h hhash hslashes
    obtain ⟨hclosed, haligned, hjoined⟩ := hreads.joins hregular h hhash hslashes
    obtain ⟨hrest, hheld⟩ := ih haligned (fun hmem => hhash (hreads.suffix.subset hmem))
      fun hinfix => hslashes (List.IsInfix.trans hinfix hreads.suffix.isInfix)
    rw [hreads.run_eq, List.forall_mem_append, List.flatMap_append, Scan.held_append, hjoined]
    refine ⟨⟨hclosed, hrest⟩, ?_⟩
    have hlines : fragmentScan.past .start (lines.flatMap Line.content) = .start :=
      closed_contents hclosed
    rw [hlines, hheld]

end Steps

end Body

/-- A document without comments, attributes, tabs and separators whose fragments are all closed has
the same fragments when it is laid out: literals as they were, and groups with their lines joined. -/
theorem fragments_formatOml {text : List Char} (htab : '\t' ∉ text) (hreturn : '\r' ∉ text)
    (hhash : '#' ∉ text) (hslashes : ¬['/', '/'] <:+: text)
    (hseparator : ∀ line ∈ lines text, trim line ≠ separator)
    (hclosed : fragmentScan.past .start text = .start) :
    fragmentScan.past .start (formatOml text) = .start ∧
      fragments (formatOml text) = (fragments text).map relaid := by
  have hlaid : formatOml text = Line.render (bodyLines text) := by
    rw [formatOml, normalizeNewlines_of_not_mem hreturn, expandTabs_of_not_mem htab, documentLines,
      splitSeparator?_eq_none.2 hseparator]
  obtain ⟨hlines, hheld⟩ := Body.joined_run (b := {}) (Body.regular_of_built rfl rfl text)
    ⟨rfl, hclosed⟩ hhash hslashes
  have hrender := same_render hlines
  have hcontents : fragmentScan.past .start ((bodyLines text).flatMap Line.content) = .start :=
    closed_contents hlines
  rw [hlaid]
  exact ⟨hrender.past.trans hcontents, fragments_of_held hclosed (hrender.held.trans hheld)⟩

/-- A document with a group across lines, which holds a literal that goes on across lines as well. -/
def bracketed : List Char :=
  "x=f(a,\n  [b,  c] ,\"d\n (\");\ny=\"e  \\\"\n\"\x7bz : g (w\n)\x7d".toList

theorem fragments_formatOml_bracketed :
    ('\t' ∉ bracketed ∧ '\r' ∉ bracketed ∧ '#' ∉ bracketed ∧ ¬['/', '/'] <:+: bracketed ∧
      (∀ line ∈ lines bracketed, trim line ≠ separator) ∧
      fragmentScan.past .start bracketed = .start) ∧
    fragments (formatOml bracketed) =
      ["(a, [b,  c] ,\"d\n (\")".toList, "\"e  \\\"\n\"".toList, "(w )".toList] := by
  have htab : '\t' ∉ bracketed := by decide +kernel
  have hreturn : '\r' ∉ bracketed := by decide +kernel
  have hhash : '#' ∉ bracketed := by decide +kernel
  have hslashes : ¬['/', '/'] <:+: bracketed := by decide +kernel
  have hseparator : ∀ line ∈ lines bracketed, trim line ≠ separator := by decide +kernel
  have hclosed : fragmentScan.past .start bracketed = .start := by decide +kernel
  refine ⟨⟨htab, hreturn, hhash, hslashes, hseparator, hclosed⟩, ?_⟩
  rw [(fragments_formatOml htab hreturn hhash hslashes hseparator hclosed).2]
  decide +kernel

end LogScript.Layout
