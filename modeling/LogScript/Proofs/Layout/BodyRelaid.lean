import LogScript.Proofs.Layout.SecondPassBraces

/-!
The second pass over a whole body: at every line that the first pass builds, it is in step, up to a
tight arrow.
-/

namespace LogScript.Layout

namespace Body

variable {flaw : Prop} {b b' : Body} {text text' : List Char}

/-- One step: the second pass is in step at a line, if it is behind the rule that the first pass
applies there. -/
theorem Reads.synced {lines : List Line} (hreads : b.Reads text lines b' text')
    (hregular : b.Regular text) (harrow : ¬b.TightArrow text) (hflaw : visible text' = [] → ¬flaw)
    (h : Synced flaw b' (b'.run text')) : Synced flaw b (lines ++ b'.run text') := by
  have hregular' := hreads.regular hregular
  have hpending : b.depth = 0 → b.built ≠ [] → text ≠ [] → b.pending = [.text b.level b.line] := by
    intro hdepth hbuilt hne
    have hlast := (hregular.last hne).resolve_right fun hpos => absurd hdepth (Nat.ne_of_gt hpos.1)
    rw [pending_of_first hbuilt hregular.first, trimEnd_of_getLast? hlast]
  have hoff : b.depth = 0 → 0 < b.depth → b.built ≠ [] ∧ true = false :=
    fun hdepth hpos => absurd hdepth (Nat.ne_of_gt hpos)
  cases hreads with
  | kept hdepth hne hblanks htext => exact synced_kept h hregular hdepth hne hblanks htext hflaw
  | spaces => exact h.of_space
  | breaks hdepth hblanks htext hcount =>
    rw [List.append_assoc]
    by_cases hbuilt : b.built = []
    · rw [pending_of_built hbuilt]
      exact h.blank_cons.of_cleared hbuilt
    · refine synced_endedByBreak h hdepth (hpending hdepth hbuilt fun hnil => ?_) hflaw
      rw [(List.append_eq_nil_iff.1 hnil).1] at hcount
      simp at hcount
  | @literal body _ hbody =>
    refine h.push _ hregular' hregular.inner rfl (by decide) (d := '"') ?_ (by decide) ?_
    · rw [← List.cons_append, List.getLast?_concat]
    · intro level z ls hrun k
      have hreads := @Reads.literal b _ (z ++ Line.trail k ls) hbody
      rw [List.append_assoc]
      exact hreads.run_eq
  | openLiteral hopen =>
    rw [run_nil, List.nil_append]
    exact synced_openLiteral hregular hopen (hflaw rfl)
  | @enclosed c _ hdepth hblank hquote =>
    have hspace := (hregular.inner hdepth).2
    refine h.push [] hregular' hregular.inner ?_ hblank rfl hblank ?_
    · rw [line_push, gap_of_space hspace]
      exact line_add b _
    · intro level z ls hrun k
      exact (Reads.enclosed hdepth hblank hquote).run_eq
  | comment hdepth hbuilt hcomment htail htext =>
    exact synced_comment h hdepth hbuilt hcomment htail htext hflaw
  | commentBehind hdepth hbuilt hcomment htail htext =>
    exact synced_commentBehind h hregular.first hdepth hbuilt hcomment htail htext hflaw
  | closedAttribute hdepth hbuilt hclosed =>
    exact synced_closedAttribute h hdepth hbuilt hclosed hflaw
  | openAttribute hdepth hbuilt hopen =>
    rw [run_nil, pending_of_built hbuilt, List.append_nil]
    exact synced_openAttribute hdepth hbuilt hopen (hflaw rfl)
  | @bracket c _ hdepth hc =>
    have hblank : isBlank c = false := by
      rcases hc with rfl | rfl <;> decide
    apply h.push [] hregular' hregular.inner rfl hblank rfl hblank
    intro level z ls hrun k
    exact (Reads.bracket hdepth hc).run_eq
  | semicolon hdepth =>
    have hline := pending_push (b := { b with space := false }) (c := ';') []
      hregular.first (by decide) rfl (by decide)
    rw [hline]
    refine h.completeLine rfl hdepth hflaw fun due k _ => ?_
    exact (Reads.semicolon (b := { b with space := due }) hdepth).run_eq.trans (by rw [hline]; rfl)
  | arrow hdepth =>
    refine Synced.of_space (h.push ['>'] hregular' (hoff hdepth) rfl
      (by decide) rfl (by decide) ?_)
    intro level z ls hrun k
    exact (Reads.arrow (b := { b with space := true }) hdepth).run_eq
  | joinedEquals hdepth hnext hjoins =>
    exact synced_joinedEquals h hregular hdepth hnext hjoins harrow
  | equals hdepth hnext hjoins => exact synced_equals h hregular hdepth hnext hjoins
  | joinedBar hdepth hjoins => exact synced_joinedBar h hregular hdepth hjoins
  | bar hdepth hjoins => exact synced_bar h hregular hdepth hjoins
  | emptyBraces hdepth hblanks =>
    refine Synced.of_space (h.push ['\x7d'] hregular' (hoff hdepth) rfl
      (by decide) rfl (by decide) ?_)
    intro level z ls hrun k
    exact (@Reads.emptyBraces { b with space := true } [] _ hdepth (by simp)).run_eq
  | openBrace hdepth htext => exact synced_openBrace h hregular.first hdepth htext hflaw
  | @followedBrace blanks c rest hdepth hblanks hc =>
    have hcleared : Synced flaw b.cleared (b.closed.run (c :: rest)) :=
      synced_followedBrace (b := b.cleared) h rfl hdepth hc
    by_cases hbuilt : b.built = []
    · rw [pending_of_built hbuilt]
      exact hcleared.of_cleared hbuilt
    · have hrun := (@Reads.followedBrace b.cleared blanks c rest hdepth hblanks hc).run_eq
      rw [pending_of_built (b := b.cleared) rfl, List.nil_append] at hrun
      have hended := synced_endedByBrace (blanks ++ c :: rest) (by rw [hrun]; exact hcleared)
        hdepth (hpending hdepth hbuilt (List.cons_ne_nil _ _))
      rw [hrun] at hended
      exact hended
  | closeBrace hdepth htext =>
    have hcleared := synced_closeBrace (b := b.cleared) h rfl hdepth htext hflaw
    rw [List.append_assoc]
    by_cases hbuilt : b.built = []
    · rw [pending_of_built hbuilt]
      exact hcleared.of_cleared hbuilt
    · have hrun := (Reads.closeBrace (b := b.cleared) hdepth htext).run_eq
      rw [pending_of_built (b := b.cleared) rfl, List.nil_append] at hrun
      have hended := synced_endedByBrace text' (by rw [hrun]; exact hcleared)
        hdepth (hpending hdepth hbuilt (List.cons_ne_nil _ _))
      rw [hrun] at hended
      exact hended
  | ordinary hdepth hblank hquote hordinary hcomment hattribute =>
    exact synced_ordinary h hregular hdepth hblank hquote hordinary hcomment hattribute

/-- A second pass stays in step with a run, unless the run meets a tight arrow. -/
theorem synced_run (h : b.Regular text) : Synced (b.MeetsTightArrow text) b (b.run text) := by
  refine h.induction (motive := fun b text => Synced (b.MeetsTightArrow text) b (b.run text)) ?_ ?_
  · intro b h
    rw [run_nil]
    exact synced_pending (not_meetsTightArrow_nil b) h.first
  · intro b b' text text' lines h hreads ih
    by_cases harrow : b.TightArrow text
    · exact synced_tightArrow h harrow (.here harrow)
    · rw [hreads.run_eq, propext (hreads.meetsTightArrow_iff harrow)]
      refine hreads.synced h harrow (fun hnil hmeets => ?_) ih
      exact visible_ne_nil_of_meetsTightArrow hmeets hnil

end Body

end LogScript.Layout
