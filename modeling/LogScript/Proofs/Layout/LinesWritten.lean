import LogScript.Proofs.Layout.BodyLines

/-!
What the body machine writes behind a line. The first line that a run completes extends the line that it
started from, with a character that the text in front of it shows.
-/

namespace LogScript.Layout

namespace Body

/-- What a step in front of `text` may write first behind the line `b`. -/
def MayFollow (b : Body) (text : List Char) (c : Char) : Prop :=
  isBlank c = true ∨ c = ';' ∨ b.space = false ∧ c ∈ text.head?

/-- A step goes on with the line `b`, of which `u` is written. -/
def GoesOn (b b' : Body) (u : List Char) (lines : List Line) : Prop :=
  lines = [] ∧ b'.line = b.line ++ u ∧ b'.level = b.level ∧ trimEnd u ≠ []

/-- A step completes the line `b` with `u`. -/
def Completes (b : Body) (u : List Char) (lines : List Line) : Prop :=
  ∃ more, lines = .text b.level (trimEnd (b.line ++ u)) :: more

theorem mayFollow_gap {b : Body} (hbuilt : b.built ≠ []) (c : Char) (rest text : List Char) :
    ∀ d ∈ (b.gap ++ c :: rest).head?, b.MayFollow (c :: text) d := by
  intro d hd
  rcases b.gap_eq_or with ⟨hgap, -, -⟩ | ⟨hgap, hspace⟩
  · rw [hgap] at hd
    cases hd
    exact .inl (by decide)
  · rw [hgap] at hd
    cases hd
    exact .inr (.inr ⟨hspace.resolve_right hbuilt, rfl⟩)

theorem completes_pending {b : Body} (hbuilt : b.built ≠ [])
    (hfirst : ∀ c ∈ b.line.head?, isBlank c = false) (more : List Line) :
    b.Completes [] (b.pending ++ more) :=
  ⟨more, by rw [pending_of_first hbuilt hfirst, List.append_nil]; rfl⟩

theorem completes_push {b : Body} (hbuilt : b.built ≠ [])
    (hfirst : ∀ c ∈ b.line.head?, isBlank c = false) (due : Bool) (pushed : List Char) :
    b.Completes (gap { b with space := due } ++ pushed)
      ({ b with space := due }.push pushed).pending := by
  refine ⟨[], ?_⟩
  rw [pending_of_first, line_push]
  · rfl
  · exact fun hnil => hbuilt (List.append_eq_nil_iff.1 hnil).2
  · rw [line_push]
    exact first_append hfirst fun hnil => absurd (line_eq_nil.1 hnil) hbuilt

/-- Outside brackets, a step from a line that is not empty calls for a space, writes behind the
line, or completes it. -/
theorem Reads.writes {b b' : Body} {text text' : List Char} {lines : List Line}
    (hreads : b.Reads text lines b' text') (hdepth : b.depth = 0) (hbuilt : b.built ≠ [])
    (hfirst : ∀ c ∈ b.line.head?, isBlank c = false) :
    (lines = [] ∧ b' = { b with space := true }) ∨
      ∃ u, (∀ c ∈ u.head?, b.MayFollow text c) ∧ (b.GoesOn b' u lines ∨ b.Completes u lines) := by
  have hpush : ∀ {c : Char} {pushed text : List Char} {b' : Body}, isBlank c = false →
      b'.line = b.line ++ (b.gap ++ c :: pushed) → b'.level = b.level →
        ∃ u, (∀ d ∈ u.head?, b.MayFollow (c :: text) d) ∧
          (b.GoesOn b' u [] ∨ b.Completes u []) := by
    intro c pushed text b' hc hline hlevel
    refine ⟨_, mayFollow_gap hbuilt c pushed text, .inl ⟨rfl, hline, hlevel, ?_⟩⟩
    exact trimEnd_ne_nil (c := c) (List.mem_append_right _ List.mem_cons_self) hc
  have hspaced : ∀ {c : Char} {pushed text : List Char} {b' : Body}, isBlank c = false →
      b'.line = ({ b with space := true }.push (c :: pushed)).line → b'.level = b.level →
        ∃ u, (∀ d ∈ u.head?, b.MayFollow text d) ∧ (b.GoesOn b' u [] ∨ b.Completes u []) := by
    intro c pushed text b' hc hline hlevel
    rw [line_push, gap_due hbuilt] at hline
    refine ⟨_, ?_, .inl ⟨rfl, hline, hlevel, ?_⟩⟩
    · intro d hd
      cases hd
      exact .inl (by decide)
    · exact trimEnd_ne_nil (c := c) (List.mem_append_right _ List.mem_cons_self) hc
  have hnone : ∀ {lines : List Line} {text : List Char}, b.Completes [] lines →
      ∃ u, (∀ d ∈ u.head?, b.MayFollow text d) ∧ (b.GoesOn b' u lines ∨ b.Completes u lines) :=
    fun hcompletes => ⟨[], fun d hd => absurd hd (by simp), .inr hcompletes⟩
  have hbehind : ∀ {text pushed : List Char} {b' : Body},
      ∃ u, (∀ d ∈ u.head?, b.MayFollow text d) ∧
        (b.GoesOn b' u ({ b with space := true }.push pushed).pending ∨
          b.Completes u ({ b with space := true }.push pushed).pending) := by
    intro text pushed b'
    refine ⟨_, ?_, .inr (completes_push hbuilt hfirst true pushed)⟩
    rw [gap_due hbuilt]
    intro d hd
    cases hd
    exact .inl (by decide)
  cases hreads with
  | kept hpos => omega
  | spaces => exact .inl ⟨rfl, rfl⟩
  | breaks => exact .inr (hnone (completes_pending hbuilt hfirst _))
  | literal => exact .inr (hpush (by decide) (line_push b _) rfl)
  | openLiteral => exact .inr (hpush (by decide) (line_push b _) rfl)
  | enclosed hpos => omega
  | comment _ hempty => exact absurd hempty hbuilt
  | commentBehind => exact .inr hbehind
  | closedAttribute _ hempty => exact absurd hempty hbuilt
  | openAttribute _ hempty => exact absurd hempty hbuilt
  | bracket _ hc =>
    refine .inr (hpush ?_ (line_push b _) rfl)
    rcases hc with rfl | rfl <;> decide
  | semicolon =>
    refine .inr ⟨_, ?_, .inr (completes_push hbuilt hfirst false [';'])⟩
    rw [gap_of_space rfl]
    intro d hd
    cases hd
    exact .inr (.inl rfl)
  | arrow => exact .inr (hspaced (by decide) rfl rfl)
  | joinedEquals => exact .inr (hpush (by decide) (line_push b _) rfl)
  | equals => exact .inr (hspaced (by decide) rfl rfl)
  | joinedBar => exact .inr (hpush (by decide) (line_push b _) rfl)
  | bar => exact .inr (hspaced (by decide) rfl rfl)
  | emptyBraces => exact .inr (hspaced (by decide) rfl rfl)
  | openBrace => exact .inr hbehind
  | followedBrace =>
    refine .inr (hnone ?_)
    rw [← List.append_nil b.pending]
    exact completes_pending hbuilt hfirst []
  | closeBrace => exact .inr (hnone (completes_pending hbuilt hfirst _))
  | ordinary _ hblank => exact .inr (hpush hblank (line_push b _) rfl)

/-- Inside brackets, a step goes on with the line. -/
theorem Reads.writes_inside {b b' : Body} {text text' : List Char} {lines : List Line}
    (hreads : b.Reads text lines b' text') (hdepth : 0 < b.depth) (hspace : b.space = false) :
    lines = [] ∧ b'.level = b.level ∧ ∃ u, b'.line = b.line ++ u ∧
      ∀ c ∈ text.head?, isBlank c = false → u.head? = some c := by
  have hline : ∀ pushed, (b.push pushed).line = b.line ++ pushed := fun pushed => by
    rw [line_push, gap_of_space hspace, List.nil_append]
  have hhead : ∀ (c : Char) (u text : List Char),
      ∀ d ∈ (c :: text).head?, isBlank d = false → (c :: u).head? = some d := by
    intro c u text d hd _
    cases hd
    rfl
  cases hreads with
  | kept _ hne hblanks =>
    refine ⟨rfl, rfl, _, line_add b _, fun c hc hblank => ?_⟩
    obtain ⟨d, more, rfl⟩ := List.exists_cons_of_ne_nil hne
    cases hc
    rw [hblanks c List.mem_cons_self] at hblank
    cases hblank
  | literal => exact ⟨rfl, rfl, _, hline _, hhead _ _ _⟩
  | openLiteral => exact ⟨rfl, rfl, _, hline _, hhead _ _ _⟩
  | enclosed => exact ⟨rfl, rfl, _, line_add b _, hhead _ _ _⟩
  | spaces hnone | breaks hnone | comment hnone | commentBehind hnone | closedAttribute hnone
  | openAttribute hnone | bracket hnone | semicolon hnone | arrow hnone | joinedEquals hnone
  | equals hnone | joinedBar hnone | bar hnone | emptyBraces hnone | openBrace hnone
  | followedBrace hnone | closeBrace hnone | ordinary hnone => omega

/-- The first line that a run completes extends the line that it starts from. -/
theorem run_extends {b : Body} {text : List Char} (h : b.Regular text) (hbuilt : b.built ≠ []) :
    ∃ content ls, b.run text = .text b.level content :: ls ∧ trimEnd b.line <+: content := by
  refine h.induction (motive := fun b text => b.built ≠ [] →
    ∃ content ls, b.run text = .text b.level content :: ls ∧ trimEnd b.line <+: content)
    ?_ ?_ hbuilt
  · intro b h hbuilt
    rw [run_nil, pending_of_first hbuilt h.first]
    exact ⟨_, _, rfl, List.prefix_rfl⟩
  · intro b b' text text' lines h hreads ih hbuilt
    have hgoesOn : ∀ u, b'.line = b.line ++ u → b'.level = b.level → lines = [] →
        ∃ content ls, b.run text = .text b.level content :: ls ∧ trimEnd b.line <+: content := by
      intro u hline hlevel hlines
      have hne : b'.built ≠ [] := by
        intro hnil
        rw [line_eq_nil.2 hnil, eq_comm, List.append_eq_nil_iff] at hline
        exact hbuilt (line_eq_nil.1 hline.1)
      obtain ⟨content, ls, hrun, hcontent⟩ := ih hne
      refine ⟨content, ls, ?_, ?_⟩
      · rw [hreads.run_eq, hrun, hlines, hlevel, List.nil_append]
      · rw [hline] at hcontent
        exact (prefix_trimEnd_append b.line u).trans hcontent
    rcases Nat.eq_zero_or_pos b.depth with hdepth | hdepth
    · rcases hreads.writes hdepth hbuilt h.first with ⟨hlines, hbody⟩ |
        ⟨u, -, ⟨hlines, hline, hlevel, -⟩ | ⟨more, hlines⟩⟩
      · refine hgoesOn [] ?_ (by rw [hbody]) hlines
        rw [hbody, List.append_nil]
        rfl
      · exact hgoesOn u hline hlevel hlines
      · refine ⟨_, more ++ b'.run text', ?_, prefix_trimEnd_append b.line u⟩
        rw [hreads.run_eq, hlines]
        rfl
    · obtain ⟨hlines, hlevel, u, hline, -⟩ := hreads.writes_inside hdepth (h.inner hdepth).2
      exact hgoesOn u hline hlevel hlines

/-- What a step writes behind a line is what the run writes first. -/
theorem Reads.run_writes {b b' : Body} {text text' : List Char}
    (hreads : b.Reads text [] b' text') (h : b.Regular text) {u : List Char}
    (hline : b'.line = b.line ++ u) (hu : trimEnd u ≠ []) :
    ∃ z ls, b.run text = .text b'.level (b.line ++ (trimEnd u ++ z)) :: ls := by
  have hbuilt' : b'.built ≠ [] := by
    intro hnil
    rw [line_eq_nil.2 hnil, eq_comm, List.append_eq_nil_iff] at hline
    rw [hline.2] at hu
    exact hu rfl
  obtain ⟨content, ls, hrun, hcontent⟩ := run_extends (hreads.regular h) hbuilt'
  rw [hline, trimEnd_append_of_ne _ hu] at hcontent
  obtain ⟨z, rfl⟩ := hcontent
  refine ⟨z, ls, ?_⟩
  rw [hreads.run_eq, List.nil_append, hrun, List.append_assoc]

/-- What stands behind the line in the first line of a run. -/
theorem eq_of_run {b : Body} {text z z' : List Char} {level level' : Nat} {ls ls' : List Line}
    (h : b.run text = .text level (b.line ++ z) :: ls)
    (h' : b.run text = .text level' (b.line ++ z') :: ls') : z' = z := by
  rw [h] at h'
  injection h' with hfirst
  injection hfirst with _ hcontent
  exact (List.append_cancel_left hcontent).symm

/-- A visible character that a step writes is what the run writes first. -/
theorem Reads.head?_run {b b' : Body} {text text' : List Char}
    (hreads : b.Reads text [] b' text') (h : b.Regular text) {c : Char} {u : List Char}
    (hline : b'.line = b.line ++ c :: u) (hc : isBlank c = false) {level : Nat} {z : List Char}
    {ls : List Line} (hrun : b.run text = .text level (b.line ++ z) :: ls) :
    z.head? = some c := by
  obtain ⟨z', ls', hrun'⟩ := hreads.run_writes h hline (trimEnd_ne_nil List.mem_cons_self hc)
  rw [eq_of_run hrun' hrun, trimEnd_cons_of_not_blank hc]
  rfl

/-- What a run writes first behind a line outside brackets may follow it. -/
theorem mayFollow_run {b : Body} {text : List Char} (h : b.Regular text) (hbuilt : b.built ≠ [])
    (hdepth : b.depth = 0) {level : Nat} {z : List Char} {ls : List Line}
    (hrun : b.run text = .text level (b.line ++ z) :: ls) :
    ∀ c ∈ z.head?, b.MayFollow text c := by
  refine h.induction (motive := fun b text => b.built ≠ [] → b.depth = 0 →
    ∀ {level z ls}, b.run text = .text level (b.line ++ z) :: ls →
      ∀ c ∈ z.head?, b.MayFollow text c) ?_ ?_ hbuilt hdepth hrun
  · intro b h hbuilt _ level z ls hrun c hc
    rw [run_nil, pending_of_first hbuilt h.first] at hrun
    injection hrun with hline
    injection hline with _ hcontent
    have hlength := (prefix_trimEnd b.line).length_le
    rw [hcontent, List.length_append] at hlength
    have hz : z = [] := List.eq_nil_of_length_eq_zero (by omega)
    rw [hz] at hc
    cases hc
  · intro b b' text text' lines h hreads ih hbuilt hdepth level z ls hrun c hc
    rw [hreads.run_eq] at hrun
    rcases hreads.writes hdepth hbuilt h.first with ⟨rfl, rfl⟩ |
      ⟨u, hu, ⟨rfl, hline, hlevel, hne⟩ | ⟨more, rfl⟩⟩
    · rcases ih hbuilt hdepth hrun c hc with hblank | hsemicolon | ⟨hspace, -⟩
      · exact .inl hblank
      · exact .inr (.inl hsemicolon)
      · cases hspace
    · obtain ⟨z', ls', hrun'⟩ := hreads.run_writes h hline hne
      rw [← hreads.run_eq] at hrun
      rw [eq_of_run hrun' hrun] at hc
      refine hu c (head?_of_head?_trimEnd ?_)
      obtain ⟨d, kept, hkept⟩ := List.exists_cons_of_ne_nil hne
      rw [hkept] at hc ⊢
      exact hc
    · injection hrun with hfirst
      injection hfirst with _ heq
      have hprefix : b.line ++ z <+: b.line ++ u := heq ▸ prefix_trimEnd _
      obtain ⟨more', hmore⟩ := (List.prefix_append_right_inj _).1 hprefix
      apply hu c
      rw [← hmore, List.head?_append, Option.mem_def.1 hc]
      rfl

/-- In brackets, a run goes on with the visible character in front of it. -/
theorem run_inside {b : Body} {c : Char} {rest : List Char} (h : b.Regular (c :: rest))
    (hdepth : 0 < b.depth) (hc : isBlank c = false) :
    ∃ level z ls, b.run (c :: rest) = .text level (b.line ++ c :: z) :: ls := by
  obtain ⟨lines, b', text', hreads⟩ :=
    exists_reads (List.cons_ne_nil c rest) (built_of_allBlank h.first)
  obtain ⟨rfl, -, u, hline, hu⟩ := hreads.writes_inside hdepth (h.inner hdepth).2
  obtain ⟨more, rfl⟩ := List.head?_eq_some_iff.1 (hu c rfl hc)
  obtain ⟨z, ls, hrun⟩ := hreads.run_writes h hline (trimEnd_ne_nil List.mem_cons_self hc)
  rw [trimEnd_cons_of_not_blank hc] at hrun
  exact ⟨_, _, ls, hrun⟩

end Body

end LogScript.Layout
