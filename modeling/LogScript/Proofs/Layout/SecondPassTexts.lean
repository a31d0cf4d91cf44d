import LogScript.Proofs.Layout.SecondPass

/-!
The second pass at white space, literals, comments and attributes. What the first pass wrote of them is
read as it was, and completes the line where it did.
-/

namespace LogScript.Layout

namespace Body

variable {flaw : Prop} {b b' : Body} {old : List Line} {text text' : List Char}

/-- A regular line that ends with a visible character is extended by the run from it. -/
theorem Regular.exists_run {d : Char} (h : b.Regular text) (hlast : b.line.getLast? = some d)
    (hd : isBlank d = false) : ∃ level z ls, b.run text = .text level (b.line ++ z) :: ls := by
  have hbuilt : b.built ≠ [] := by
    intro hnil
    rw [line_eq_nil.2 hnil] at hlast
    cases hlast
  have htrim : trimEnd b.line = b.line := by
    apply trimEnd_of_getLast?
    rw [hlast]
    intro e he
    cases he
    exact hd
  obtain ⟨content, ls, hrun, z, rfl⟩ := run_extends h hbuilt
  rw [htrim] at hrun
  exact ⟨_, z, ls, hrun⟩

/-- A step that pushes a text: the second pass reads what was pushed, behind its space. -/
theorem Synced.push {c d : Char} (pushed : List Char) (h : Synced flaw b' (b'.run text'))
    (hregular : b'.Regular text') (hinner : 0 < b.depth → b.built ≠ [] ∧ b.space = false)
    (hline : b'.line = (b.push (c :: pushed)).line) (hc : isBlank c = false)
    (hlast : (c :: pushed).getLast? = some d) (hd : isBlank d = false)
    (hread : ∀ {level z ls}, b'.run text' = .text level (b'.line ++ z) :: ls → ∀ k,
      b.run (c :: (pushed ++ (z ++ Line.trail k ls))) = b'.run (z ++ Line.trail k ls)) :
    Synced flaw b (b'.run text') := by
  have hlast' : b'.line.getLast? = some d := by
    rw [hline, line_push, ← List.append_assoc, List.getLast?_append, hlast]
    rfl
  rw [line_push] at hline
  refine h.grow hline (hregular.exists_run hlast' hd) fun hfirst due k hdue => ?_
  rw [List.append_assoc, run_gap hinner hdue (fun e he => by cases he; exact hc)]
  exact hread hfirst k

theorem synced_kept {blanks : List Char} (h : Synced flaw (b.add (kept blanks))
      ((b.add (kept blanks)).run text'))
    (hregular : b.Regular (blanks ++ text')) (hdepth : 0 < b.depth) (hne : blanks ≠ [])
    (hblanks : ∀ c ∈ blanks, isBlank c) (htext : ∀ c ∈ text'.head?, isBlank c = false)
    (hflaw : visible text' = [] → ¬flaw) :
    Synced flaw b ((b.add (kept blanks)).run text') := by
  obtain ⟨hkeptne, hkept, htwice⟩ := kept_spec hne hblanks
  have hreads : b.Reads (blanks ++ text') [] (b.add (kept blanks)) text' :=
    .kept hdepth hne hblanks htext
  cases text' with
  | nil =>
    rw [run_nil, pending_add_blanks b hkept]
    exact synced_pending (hflaw rfl) hregular.first
  | cons q rest =>
    have hq : isBlank q = false := htext q rfl
    have hregular' := hreads.regular hregular
    obtain ⟨hbuilt, hspace⟩ := hregular.inner hdepth
    obtain ⟨level', z', ls', hrun⟩ := run_inside hregular' hdepth hq
    have hread : ∀ {level z ls},
        (b.add (kept blanks)).run (q :: rest) =
            .text level ((b.add (kept blanks)).line ++ z) :: ls →
          ∀ due k, (due = true → b.space = true ∨ b.built = []) →
            { b with space := due }.run (kept blanks ++ (z ++ Line.trail k ls)) =
              (b.add (kept blanks)).run (z ++ Line.trail k ls) := by
      intro level z ls hfirst due k hdue
      have hz : z.head? = some q := by
        rw [eq_of_run hrun hfirst]
        rfl
      have hvisible : ∀ c ∈ (z ++ Line.trail k ls).head?, isBlank c = false := by
        intro c hc
        rw [mem_head?_append hz hc]
        exact hq
      have hbody : { b with space := due } = b := by
        cases due with
        | false => rw [← hspace]
        | true => exact absurd (hdue rfl) (by simp [hspace, hbuilt])
      have hreads' := Reads.kept hdepth hkeptne hkept hvisible
      rw [hbody, hreads'.run_eq, htwice]
      rfl
    exact h.grow (line_add b _) ⟨level', q :: z', ls', hrun⟩ hread

/-- A literal that never closes is read with the line feeds behind it, and trimmed. -/
theorem synced_openLiteral (h : b.Regular ('"' :: text)) (hopen : OpenLiteral text)
    (hflaw : ¬flaw) : Synced flaw b (b.push ('"' :: text)).pending := by
  have hquote : isBlank '"' = false := by decide
  have hpending : ∀ more, (b.push ('"' :: more)).pending =
      [.text b.level (b.line ++ (b.gap ++ '"' :: trimEnd more))] := by
    intro more
    have hbuilt : (b.push ('"' :: more)).built ≠ [] := by
      intro hnil
      have hline := line_eq_nil.2 hnil
      rw [line_push] at hline
      simp at hline
    have hne : trimEnd (b.gap ++ '"' :: more) ≠ [] :=
      trimEnd_ne_nil (List.mem_append_right _ List.mem_cons_self) hquote
    rw [pending_of_first hbuilt (first_push h.first fun c hc => by cases hc; exact hquote),
      line_push, trimEnd_append_of_ne _ hne,
      trimEnd_append_of_ne _ (trimEnd_ne_nil List.mem_cons_self hquote),
      trimEnd_cons_of_not_blank hquote]
    rfl
  rw [hpending]
  refine synced_last hflaw fun due k hdue => ⟨[], ?_, .inl rfl⟩
  have hlineFeeds : ∀ c ∈ List.replicate k '\n', c ≠ '"' := by
    intro c hc
    rw [List.eq_of_mem_replicate hc]
    decide
  have hopen' := hopen.append (prefix_trimEnd text) hlineFeeds
  rw [List.append_assoc, run_gap h.inner hdue (fun c hc => by cases hc; exact hquote),
    List.cons_append, (Reads.openLiteral hopen').run_eq, run_nil, List.nil_append, hpending,
    trimEnd_append_blanks _ blank_of_mem_lineFeeds, trimEnd_trimEnd]

theorem visible_trail_run (hbuilt : b.built = []) (k : Nat) (text : List Char) :
    visible (Line.trail k (b.run text)) = visible text := by
  rw [Line.visible_trail, shown_run, line_eq_nil.2 hbuilt]
  rfl

/-- A step that completes the line and goes on with an empty one. -/
theorem Synced.completeLine {level : Nat} {u : List Char} (h : Synced flaw b' (b'.run text'))
    (hbuilt : b'.built = []) (hdepth : b'.depth = 0) (hflaw : visible text' = [] → ¬flaw)
    (hread : ∀ due k, (due = true → b.space = true ∨ b.built = []) →
      { b with space := due }.run (u ++ Line.trail k (b'.run text')) =
        .text level (b.line ++ u) :: b'.run (Line.trail k (b'.run text'))) :
    Synced flaw b (.text level (b.line ++ u) :: b'.run text') := by
  refine h.complete hbuilt hdepth (startsVisibly_run (regular_of_built hbuilt hdepth text'))
    (fun hdrop => hflaw ?_) hread
  have hshown := Line.shown_of_dropWhile_nil hdrop
  rw [shown_run, line_eq_nil.2 hbuilt] at hshown
  exact hshown

/-- A comment is one without the blank characters that end it. -/
theorem opensComment_trimEnd {c : Char} {tail behind : List Char}
    (h : opensComment (c :: (tail ++ text)) = true) (htext : text = [] ∨ text.head? = some '\n')
    (hbehind : behind = [] ∨ behind.head? = some '\n') :
    opensComment (c :: (trimEnd tail ++ behind)) = true := by
  have hbreak : ∀ {t : List Char} {d : Char}, t = [] ∨ t.head? = some '\n' →
      t.head? = some d → d = '\n' := by
    intro t d ht hd
    rcases ht with rfl | ht
    · cases hd
    · rw [ht] at hd
      exact (Option.some.inj hd).symm
  rw [opensComment_cons] at h ⊢
  rcases h with ⟨hc, hhead⟩ | ⟨hc, hhead⟩
  · refine .inl ⟨hc, ?_⟩
    cases tail with
    | nil => exact absurd (hbreak htext hhead) (by decide)
    | cons d tail =>
      cases hhead
      rw [trimEnd_cons_of_not_blank (by decide)]
      rfl
  · refine .inr ⟨hc, fun hbracket => hhead ?_⟩
    cases hkept : trimEnd tail with
    | nil =>
      rw [hkept] at hbracket
      exact absurd (hbreak hbehind hbracket) (by decide)
    | cons d kept =>
      rw [hkept] at hbracket
      cases hbracket
      have hd : tail.head? = some '[' := head?_of_head?_trimEnd (by rw [hkept]; rfl)
      rw [List.head?_append, hd]
      rfl

theorem not_mem_trimEnd {c : Char} (h : c ∉ text) : c ∉ trimEnd text :=
  fun hmem => h ((prefix_trimEnd text).subset hmem)

theorem synced_comment {c : Char} {tail : List Char} (h : Synced flaw b (b.run text'))
    (hdepth : b.depth = 0) (hbuilt : b.built = [])
    (hcomment : opensComment (c :: (tail ++ text')) = true) (htail : '\n' ∉ tail)
    (htext : text' = [] ∨ text'.head? = some '\n') (hflaw : visible text' = [] → ¬flaw) :
    Synced flaw b (.text b.level (trimEnd (c :: tail)) :: b.run text') := by
  have hline : trimEnd (c :: tail) = b.line ++ trimEnd (c :: tail) := by
    rw [line_eq_nil.2 hbuilt]
    rfl
  have hc : isBlank c = false := by
    rcases (opensComment_cons c _).1 hcomment with ⟨rfl, -⟩ | ⟨rfl, -⟩ <;> decide
  rw [hline]
  refine h.completeLine hbuilt hdepth hflaw fun due k _ => ?_
  have hbehind := Line.trail_starts k (b.run text')
  have hreads := Reads.comment hdepth hbuilt (opensComment_trimEnd hcomment htext hbehind)
    (not_mem_trimEnd htail) hbehind
  rw [run_of_built hbuilt hdepth, ← hline, trimEnd_cons_of_not_blank hc, List.cons_append,
    hreads.run_eq, trimEnd_cons_of_not_blank hc, trimEnd_trimEnd]
  rfl

theorem pending_push {c d : Char} (pushed : List Char)
    (hfirst : ∀ c ∈ b.line.head?, isBlank c = false) (hc : isBlank c = false)
    (hlast : (c :: pushed).getLast? = some d) (hd : isBlank d = false) :
    (b.push (c :: pushed)).pending = [.text b.level (b.line ++ (b.gap ++ c :: pushed))] := by
  have hend : (b.push (c :: pushed)).line.getLast? = some d := by
    rw [line_push, ← List.append_assoc, List.getLast?_append, hlast]
    rfl
  have hbuilt : (b.push (c :: pushed)).built ≠ [] := by
    intro hnil
    rw [line_eq_nil.2 hnil] at hend
    cases hend
  rw [pending_of_first hbuilt (first_push hfirst fun e he => by cases he; exact hc),
    trimEnd_of_getLast? (fun e he => by rw [hend] at he; cases he; exact hd), line_push]
  rfl

theorem synced_commentBehind {c : Char} {tail : List Char}
    (h : Synced flaw b.cleared (b.cleared.run text'))
    (hfirst : ∀ c ∈ b.line.head?, isBlank c = false) (hdepth : b.depth = 0)
    (hbuilt : ¬allBlank b.built = true)
    (hcomment : opensComment (c :: (tail ++ text')) = true) (htail : '\n' ∉ tail)
    (htext : text' = [] ∨ text'.head? = some '\n') (hflaw : visible text' = [] → ¬flaw) :
    Synced flaw b (({ b with space := true }.push (trimEnd (c :: tail))).pending ++
      b.cleared.run text') := by
  have hc : isBlank c = false := by
    rcases (opensComment_cons c _).1 hcomment with ⟨rfl, -⟩ | ⟨rfl, -⟩ <;> decide
  obtain ⟨d, hlast⟩ : ∃ d, (c :: trimEnd tail).getLast? = some d :=
    ⟨_, List.getLast?_eq_some_getLast (List.cons_ne_nil c _)⟩
  have hd : isBlank d = false := by
    rw [← trimEnd_cons_of_not_blank hc] at hlast
    exact getLast?_trimEnd _ d hlast
  have hpending := pending_push (b := { b with space := true }) _ hfirst hc hlast hd
  rw [trimEnd_cons_of_not_blank hc, hpending]
  refine h.completeLine rfl hdepth hflaw fun due k _ => ?_
  have hbehind := Line.trail_starts k (b.cleared.run text')
  have hreads := Reads.commentBehind (b := { b with space := true }) hdepth hbuilt
    (opensComment_trimEnd hcomment htext hbehind) (not_mem_trimEnd htail) hbehind
  have hgap := @run_gap { b with space := true } due
    (c :: (trimEnd tail ++ Line.trail k (b.cleared.run text')))
    (fun hpos => absurd hdepth (Nat.ne_of_gt hpos)) (fun _ => .inl rfl)
    (fun e he => by cases he; exact hc)
  rw [List.append_assoc, List.cons_append, hgap, hreads.run_eq, trimEnd_cons_of_not_blank hc,
    trimEnd_trimEnd, hpending]
  rfl

theorem synced_closedAttribute {inner : List Char} (h : Synced flaw b (b.run text'))
    (hdepth : b.depth = 0) (hbuilt : b.built = [])
    (hclosed : behindClosing .outside 0 inner = some []) (hflaw : visible text' = [] → ¬flaw) :
    Synced flaw b (.text b.level (normalizeAttribute ('#' :: '[' :: inner)) :: b.run text') := by
  have hline : normalizeAttribute ('#' :: '[' :: inner) =
      b.line ++ normalizeAttribute ('#' :: '[' :: inner) := by
    rw [line_eq_nil.2 hbuilt]
    rfl
  rw [hline]
  refine h.completeLine hbuilt hdepth hflaw fun due k _ => ?_
  have hreads := @Reads.closedAttribute b _ (Line.trail k (b.run text')) hdepth hbuilt
    ((behindClosing_neatInner inner).2 hclosed)
  rw [run_of_built hbuilt hdepth, ← hline, normalizeAttribute_bracket, List.cons_append,
    List.cons_append, hreads.run_eq, ← normalizeAttribute_bracket,
    (neatAttribute_normalizeAttribute _).normalizeAttribute_eq]
  rfl

/-- An attribute that never closes is read with the line feeds behind it, and trimmed. -/
theorem synced_openAttribute (hdepth : b.depth = 0) (hbuilt : b.built = [])
    (hopen : behindClosing .outside 0 text = none) (hflaw : ¬flaw) :
    Synced flaw b [.text b.level (normalizeAttribute ('#' :: '[' :: text))] := by
  have hline : normalizeAttribute ('#' :: '[' :: text) =
      b.line ++ normalizeAttribute ('#' :: '[' :: text) := by
    rw [line_eq_nil.2 hbuilt]
    rfl
  rw [hline]
  refine synced_last hflaw fun due k _ => ⟨[], ?_, .inl rfl⟩
  have hneat := neatAttribute_normalizeAttribute ('[' :: text)
  have hopen' := behindClosing_append_blanks (blank_of_mem_lineFeeds (k := k))
    ((behindClosing_neatInner text).1.2 hopen)
  have hreads := Reads.openAttribute (b := b) hdepth hbuilt hopen'
  have hagain := hneat.normalizeAttribute_append (blank_of_mem_lineFeeds (k := k))
  rw [normalizeAttribute_bracket, List.cons_append, List.cons_append] at hagain
  rw [run_of_built hbuilt hdepth, ← hline, normalizeAttribute_bracket, List.cons_append,
    List.cons_append, hreads.run_eq, run_nil, pending_of_built hbuilt, List.append_nil, hagain]

end Body

end LogScript.Layout
