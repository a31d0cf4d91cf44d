import LogScript.Proofs.Layout.SecondPassOperators

/-!
The second pass at braces. An opening brace completes its line; a closing one gets a line of its own,
with what may follow it there.
-/

namespace LogScript.Layout

namespace Body

variable {flaw : Prop} {b b' : Body} {old : List Line} {text text' : List Char}

theorem synced_openBrace (h : Synced flaw { b.cleared with level := b.level + 1 }
      ({ b.cleared with level := b.level + 1 }.run text'))
    (hfirst : ∀ c ∈ b.line.head?, isBlank c = false) (hdepth : b.depth = 0)
    (htext : (visible text').head? ≠ some '\x7d') (hflaw : visible text' = [] → ¬flaw) :
    Synced flaw b (({ b with space := true }.push ['\x7b']).pending ++
      { b.cleared with level := b.level + 1 }.run text') := by
  have hbrace : isBlank '\x7b' = false := by decide
  have hpending := pending_push (b := { b with space := true }) [] hfirst hbrace rfl hbrace
  rw [hpending]
  refine h.completeLine rfl hdepth hflaw fun due k _ => ?_
  have hgap := @run_gap { b with space := true } due
    ('\x7b' :: Line.trail k ({ b.cleared with level := b.level + 1 }.run text'))
    (fun hpos => absurd hdepth (Nat.ne_of_gt hpos)) (fun _ => .inl rfl)
    (fun c hc => by cases hc; exact hbrace)
  have hreads := @Reads.openBrace { b with space := true }
    (Line.trail k ({ b.cleared with level := b.level + 1 }.run text')) hdepth
    (by rw [visible_trail_run rfl]; exact htext)
  rw [List.append_assoc, List.cons_append, List.nil_append, hgap, hreads.run_eq, hpending]
  rfl

/-- The line that a closing brace stands on. -/
def closed (b : Body) : Body :=
  { b.cleared with level := b.level - 1 }.push ['\x7d']

/-- What may follow a closing brace on its line is what the run writes behind the brace. -/
theorem head?_run_follower {c : Char} {rest z : List Char} {level : Nat} {ls : List Line}
    (hdepth : b.depth = 0) (hc : Follows (some c)) (hregular : b.closed.Regular (c :: rest))
    (hrun : b.closed.run (c :: rest) = .text level (b.closed.line ++ z) :: ls) :
    z.head? = some c := by
  have hordinary : c = ',' ∨ c = ')' → z.head? = some c := by
    intro hc
    have hplain : isBlank c = false ∧ c ≠ '"' ∧ isOrdinary c ∧ c ≠ '/' ∧ c ≠ '#' := by
      rcases hc with rfl | rfl <;> decide
    obtain ⟨hblank, hquote, hsign, hslash, hhash⟩ := hplain
    have hreads : b.closed.Reads (c :: rest) [] (b.closed.push [c]) rest :=
      .ordinary hdepth hblank hquote hsign (not_opensComment hslash hhash rest)
        (fun h => hhash h.1)
    exact head?_joined hreads hregular rfl hblank hrun
  rcases hc with hc | hc | hc
  · cases hc
    have hline := pending_push (b := { b.closed with space := false }) (c := ';') []
      hregular.first (by decide) rfl (by decide)
    rw [(Reads.semicolon (b := b.closed) hdepth).run_eq, hline] at hrun
    injection hrun with hfirst
    injection hfirst with _ hcontent
    rw [← List.append_cancel_left hcontent]
    rfl
  · exact hordinary (.inl (Option.some.inj hc))
  · exact hordinary (.inr (Option.some.inj hc))

theorem synced_followedBrace {c : Char} {rest : List Char}
    (h : Synced flaw b.closed (b.closed.run (c :: rest))) (hbuilt : b.built = [])
    (hdepth : b.depth = 0) (hc : Follows (some c)) :
    Synced flaw b (b.closed.run (c :: rest)) := by
  have hbrace : isBlank '\x7d' = false := by decide
  have hempty := regular_of_built hbuilt hdepth
  have hregular' : b.closed.Regular (c :: rest) :=
    (@Reads.followedBrace b [] c rest hdepth (by simp) hc).regular (hempty _)
  have hline : b.closed.line = (b.push ['\x7d']).line := by
    rw [line_push, gap_of_built hbuilt, line_eq_nil.2 hbuilt]
    rfl
  refine h.push _ hregular' (hempty []).inner hline hbrace rfl hbrace fun {_ z ls} hrun k => ?_
  obtain ⟨more, rfl⟩ := List.head?_eq_some_iff.1 (head?_run_follower hdepth hc hregular' hrun)
  have hreads := @Reads.followedBrace b [] c (more ++ Line.trail k ls) hdepth (by simp) hc
  rw [pending_of_built hbuilt] at hreads
  exact hreads.run_eq

theorem synced_closeBrace (h : Synced flaw { b.cleared with level := b.level - 1 }
      ({ b.cleared with level := b.level - 1 }.run text')) (hbuilt : b.built = [])
    (hdepth : b.depth = 0) (htext : ¬Follows (visible text').head?)
    (hflaw : visible text' = [] → ¬flaw) :
    Synced flaw b (.text (b.level - 1) ['\x7d'] ::
      { b.cleared with level := b.level - 1 }.run text') := by
  have hline : ['\x7d'] = b.line ++ ['\x7d'] := by
    rw [line_eq_nil.2 hbuilt]
    rfl
  rw [hline]
  refine h.completeLine rfl hdepth hflaw fun due k _ => ?_
  have hreads := @Reads.closeBrace b
    (Line.trail k ({ b.cleared with level := b.level - 1 }.run text')) hdepth
    (by rw [visible_trail_run rfl]; exact htext)
  rw [run_of_built hbuilt hdepth, ← hline, List.singleton_append, hreads.run_eq,
    pending_of_built hbuilt]
  rfl

/-- A closing brace ends the line in front of it. -/
theorem run_endedByBrace (hdepth : b.depth = 0) (rest : List Char) :
    b.run ('\x7d' :: rest) = b.pending ++ b.cleared.run ('\x7d' :: rest) := by
  by_cases hfollows : Follows (visible rest).head?
  · obtain ⟨blanks, behind, rfl, hblanks, -, hhead⟩ := exists_blanks_append rest
    rw [← hhead] at hfollows
    obtain ⟨c, hc⟩ : ∃ c, behind.head? = some c := by
      rcases hfollows with h | h | h <;> exact ⟨_, h⟩
    rw [hc] at hfollows
    obtain ⟨text, rfl⟩ := List.head?_eq_some_iff.1 hc
    rw [(Reads.followedBrace (b := b) hdepth hblanks hfollows).run_eq,
      (Reads.followedBrace (b := b.cleared) hdepth hblanks hfollows).run_eq,
      pending_of_built (b := b.cleared) rfl]
    rfl
  · rw [(Reads.closeBrace (b := b) hdepth hfollows).run_eq,
      (Reads.closeBrace (b := b.cleared) hdepth hfollows).run_eq,
      pending_of_built (b := b.cleared) rfl, List.append_assoc]
    rfl

/-- A line that the text behind it ends: the second pass completes it on the way to the next
line. -/
theorem Synced.ended (h : Synced flaw b.cleared old) (hdepth : b.depth = 0)
    (hpending : b.pending = [.text b.level b.line])
    (hstarts : ∀ line ∈ old, StartsVisibly line)
    (hflaw : old.dropWhile Line.isBlankLine = [] → ¬flaw)
    (hread : ∀ due k, { b with space := due }.run (Line.trail k old) =
      b.pending ++ b.cleared.run (Line.trail k old)) : Synced flaw b (b.pending ++ old) := by
  have hline : b.line = b.line ++ [] := (List.append_nil b.line).symm
  rw [hpending, hline]
  refine h.complete rfl hdepth hstarts hflaw fun due k _ => ?_
  rw [List.nil_append, hread, hpending, ← hline]
  rfl

theorem run_closingBrace (hdepth : b.depth = 0) (rest : List Char) :
    ∃ level content ls,
      b.cleared.run ('\x7d' :: rest) = .text level ('\x7d' :: content) :: ls := by
  by_cases hfollows : Follows (visible rest).head?
  · obtain ⟨blanks, behind, rfl, hblanks, -, hhead⟩ := exists_blanks_append rest
    rw [← hhead] at hfollows
    obtain ⟨c, hc⟩ : ∃ c, behind.head? = some c := by
      rcases hfollows with h | h | h <;> exact ⟨_, h⟩
    rw [hc] at hfollows
    obtain ⟨text, rfl⟩ := List.head?_eq_some_iff.1 hc
    have hreads := @Reads.followedBrace b.cleared blanks c text hdepth hblanks hfollows
    obtain ⟨content, ls, hrun, hcontent⟩ := run_extends
      (hreads.regular (regular_cleared hdepth _)) (List.cons_ne_nil _ _)
    obtain ⟨more, rfl⟩ := hcontent
    rw [hreads.run_eq, pending_of_built (b := b.cleared) rfl, List.nil_append, hrun]
    exact ⟨_, more, ls, rfl⟩
  · rw [(Reads.closeBrace (b := b.cleared) hdepth hfollows).run_eq,
      pending_of_built (b := b.cleared) rfl]
    exact ⟨_, [], _, rfl⟩

theorem synced_endedByBrace (rest : List Char)
    (h : Synced flaw b.cleared (b.cleared.run ('\x7d' :: rest))) (hdepth : b.depth = 0)
    (hpending : b.pending = [.text b.level b.line]) :
    Synced flaw b (b.pending ++ b.cleared.run ('\x7d' :: rest)) := by
  obtain ⟨level, content, ls, hrun⟩ := run_closingBrace hdepth rest
  have hdrop : (b.cleared.run ('\x7d' :: rest)).dropWhile Line.isBlankLine =
      .text level ('\x7d' :: content) :: ls := by
    rw [hrun]
    exact List.dropWhile_cons_of_neg (by simp [Line.isBlankLine])
  refine h.ended hdepth hpending (startsVisibly_run (regular_cleared hdepth _))
    (fun hnil => ?_) fun due k => ?_
  · rw [hdrop] at hnil
    cases hnil
  · obtain ⟨blanks, htrail, hne, hblanks, ⟨-, hcount⟩ | ⟨hne', -⟩⟩ :=
      Line.trail_of_dropWhile hdrop k
    · have hspaces : ∀ b' : Body, b'.depth = 0 →
          b'.run (Line.trail k (b.cleared.run ('\x7d' :: rest))) =
            { b' with space := true }.run ('\x7d' :: (content ++ Line.trail k ls)) := by
        intro b' hdepth'
        rw [htrail, List.cons_append]
        exact (Reads.spaces hdepth' hne hblanks (fun c hc => by cases hc; decide)
          (by omega)).run_eq
      rw [hspaces b.cleared hdepth, run_of_built (b := b.cleared) rfl hdepth true]
      exact (hspaces { b with space := due } hdepth).trans
        (run_endedByBrace (b := { b with space := true }) hdepth _)
    · exact absurd hrun hne'

theorem synced_endedByBreak (h : Synced flaw b.cleared (b.cleared.run text'))
    (hdepth : b.depth = 0) (hpending : b.pending = [.text b.level b.line])
    (hflaw : visible text' = [] → ¬flaw) :
    Synced flaw b (b.pending ++ .blank :: b.cleared.run text') := by
  have hempty : b.cleared.Regular text' := regular_cleared hdepth text'
  refine h.blank_cons.ended hdepth hpending ?_ (fun hdrop => hflaw ?_) fun due k => ?_
  · intro line hline
    rcases List.mem_cons.1 hline with rfl | hline
    · trivial
    · exact startsVisibly_run hempty line hline
  · have hshown := Line.shown_of_dropWhile_nil hdrop
    rw [Line.shown_blank_cons, shown_run] at hshown
    exact hshown
  · rcases Line.dropWhile_isBlankLine (.blank :: b.cleared.run text') with
      hdrop | ⟨level, content, ls, hdrop⟩
    · rw [Line.trail, Line.after_of_dropWhile_nil hdrop, List.nil_append, run_lineFeeds,
        run_lineFeeds, pending_of_built (b := b.cleared) rfl]
      rfl
    · have hcontent := first_of_dropWhile (startsVisibly_run hempty) hdrop (Line.trail k ls)
      obtain ⟨blanks, htrail, -, hblanks, ⟨hline, -⟩ | ⟨-, hcount⟩⟩ :=
        Line.trail_of_dropWhile hdrop k
      · cases hline
      · have hbreaks : ∀ b' : Body, b'.depth = 0 →
            b'.run (Line.trail k (.blank :: b.cleared.run text')) =
              b'.pending ++ [.blank] ++ b'.cleared.run (content ++ Line.trail k ls) := by
          intro b' hdepth'
          rw [htrail]
          exact (Reads.breaks hdepth' hblanks hcontent (by omega)).run_eq
        rw [hbreaks b.cleared hdepth, pending_of_built (b := b.cleared) rfl]
        refine (hbreaks { b with space := due } hdepth).trans ?_
        rw [List.append_assoc]
        rfl

end Body

end LogScript.Layout
