import LogScript.Proofs.Layout.BodyReads

/-!
Runs of the body machine. A line that is regular starts with a visible character and, outside
brackets, ends with one; every rule keeps lines regular, and every line that a run completes starts
visibly.
-/

namespace LogScript.Layout

namespace Body

variable (b : Body)

/-- A run is a step and then a run. -/
theorem Reads.run_eq {b b' : Body} {text text' : List Char} {lines : List Line}
    (h : b.Reads text lines b' text') : b.run text = lines ++ b'.run text' := by
  obtain ⟨c, rest, rfl, rfl, rfl, rfl⟩ := h.steps
  exact run_cons b c rest

theorem Reads.length_lt {b b' : Body} {text text' : List Char} {lines : List Line}
    (h : b.Reads text lines b' text') : text'.length < text.length := by
  obtain ⟨c, rest, rfl, -, -, rfl⟩ := h.steps
  rw [List.length_drop, List.length_cons]
  omega

theorem kept_spec {blanks : List Char} (hne : blanks ≠ []) (hblanks : ∀ c ∈ blanks, isBlank c) :
    kept blanks ≠ [] ∧ (∀ c ∈ kept blanks, isBlank c) ∧ kept (kept blanks) = kept blanks := by
  by_cases hbreak : blanks.contains '\n'
  · rw [kept, if_pos hbreak]
    exact ⟨List.cons_ne_nil _ _, blank_of_mem_space, rfl⟩
  · have hkept : kept blanks = blanks := if_neg hbreak
    rw [hkept]
    exact ⟨hne, hblanks, hkept⟩

theorem pending_of_built {b : Body} (h : b.built = []) : b.pending = [] := by
  simp [pending, line, h, trim, trimStart, trimEnd]

theorem pending_of_first {b : Body} (hbuilt : b.built ≠ [])
    (hfirst : ∀ c ∈ b.line.head?, isBlank c = false) :
    b.pending = [.text b.level (trimEnd b.line)] := by
  have hne : b.line ≠ [] := fun h => hbuilt (line_eq_nil.1 h)
  obtain ⟨c, rest, hline⟩ := List.exists_cons_of_ne_nil hne
  have htrim : trim b.line = c :: trimEnd rest := by
    rw [trim_of_head? hfirst, hline, trimEnd_cons_of_not_blank (hfirst c (by rw [hline]; rfl))]
  have hend : trimEnd b.line = c :: trimEnd rest := by rw [← trim_of_head? hfirst, htrim]
  rw [pending, htrim, hend]

theorem pending_add_blanks {blanks : List Char} (hblanks : ∀ c ∈ blanks, isBlank c) :
    (b.add blanks).pending = b.pending := by
  rw [pending, pending, line_add, trim_append_blanks _ hblanks]
  rfl

theorem blank_of_mem_lineFeeds {k : Nat} : ∀ c ∈ List.replicate k '\n', isBlank c := by
  intro c hc
  rw [List.eq_of_mem_replicate hc]
  decide

/-- Line feeds at the end of the text end the line, and two of them leave a blank line. -/
theorem run_lineFeeds (k : Nat) :
    b.run (List.replicate k '\n') = b.pending ++ (if b.depth = 0 ∧ 2 ≤ k then [.blank] else []) := by
  have hempty : ∀ c ∈ ([] : List Char).head?, isBlank c = false := by
    intro c hc
    cases hc
  by_cases hk : k = 0
  · subst hk
    rw [if_neg (by omega), List.append_nil]
    exact run_nil b
  have hne : List.replicate k '\n' ≠ [] := by
    simpa using hk
  rw [← List.append_nil (List.replicate k '\n')]
  by_cases hdepth : b.depth = 0
  · by_cases htwo : 2 ≤ k
    · have hcount : 2 ≤ (List.replicate k '\n').count '\n' := by simpa using htwo
      rw [(Reads.breaks hdepth blank_of_mem_lineFeeds hempty hcount).run_eq, run_nil,
        pending_of_built (b := b.cleared) rfl, List.append_nil, if_pos ⟨hdepth, htwo⟩]
    · have hcount : (List.replicate k '\n').count '\n' < 2 := by simpa using htwo
      rw [(Reads.spaces hdepth hne blank_of_mem_lineFeeds hempty hcount).run_eq, run_nil,
        if_neg (fun h => htwo h.2), List.append_nil, List.nil_append]
      rfl
  · have hpos : 0 < b.depth := Nat.pos_of_ne_zero hdepth
    rw [(Reads.kept hpos hne blank_of_mem_lineFeeds hempty).run_eq, run_nil, List.nil_append,
      pending_add_blanks b (kept_spec hne blank_of_mem_lineFeeds).2.1,
      if_neg (fun h => hdepth h.1), List.append_nil]

theorem push_of_built {b : Body} (hbuilt : b.built = []) (due : Bool) (text : List Char) :
    { b with space := due }.push text = b.push text := by
  simp [push, add, hbuilt]

/-- Two steps do the same, but for a space that is due in front of an empty line. -/
structure SameMove (m m' : Move) : Prop where
  lines : m'.lines = m.lines
  taken : m'.taken = m.taken
  body : m'.body = m.body ∨
    m.body.built = [] ∧ m.body.depth = 0 ∧ ∃ due, m'.body = { m.body with space := due }

theorem SameMove.of_eq {m m' : Move} (h : m' = m) : SameMove m m' :=
  ⟨by rw [h], by rw [h], .inl (by rw [h])⟩

theorem step_space {b : Body} (hbuilt : b.built = []) (hdepth : b.depth = 0) (due : Bool)
    (c : Char) (rest : List Char) :
    SameMove (b.step c rest) ({ b with space := due }.step c rest) := by
  have hpush := push_of_built hbuilt due
  unfold step
  split
  · apply SameMove.of_eq
    unfold blankRun
    simp only [hdepth, Nat.lt_irrefl, if_false, pending, line, cleared]
  split
  · apply SameMove.of_eq
    rw [literal, literal, hpush]
  split
  · rename_i h
    simp only [hdepth, Nat.lt_irrefl] at h
  split
  · unfold comment
    simp only [hbuilt]
    exact ⟨rfl, rfl, .inr ⟨rfl, hdepth, due, rfl⟩⟩
  unfold statement
  split
  · exact ⟨rfl, rfl, .inr ⟨rfl, hdepth, due, rfl⟩⟩
  split
  · apply SameMove.of_eq
    rw [hpush]
  split
  · exact .of_eq rfl
  split
  · apply SameMove.of_eq
    unfold equals
    rw [hpush]
    rfl
  split
  · apply SameMove.of_eq
    unfold bar
    rw [hpush]
    rfl
  split
  · exact .of_eq rfl
  split
  · exact .of_eq rfl
  · apply SameMove.of_eq
    rw [hpush]

/-- A space that is due in front of an empty line makes no difference. -/
theorem run_of_built {b : Body} (hbuilt : b.built = []) (hdepth : b.depth = 0) (due : Bool)
    (text : List Char) : { b with space := due }.run text = b.run text := by
  induction b, text using Body.run.induct generalizing due with
  | case1 b => rw [run_nil, run_nil]; rfl
  | case2 b c rest move ih =>
    have hsame := step_space hbuilt hdepth due c rest
    rw [run_cons, run_cons, hsame.lines, hsame.taken]
    rcases hsame.body with hbody | ⟨hempty, hnone, due', hbody⟩
    · rw [hbody]
    · rw [hbody]
      exact congrArg _ (ih hempty hnone due')

/-- The space in front of a pushed text, and then the text, are read as the text alone was. -/
theorem run_gap {b : Body} {due : Bool} {text : List Char}
    (hinner : 0 < b.depth → b.built ≠ [] ∧ b.space = false)
    (hdue : due = true → b.space = true ∨ b.built = [])
    (htext : ∀ c ∈ text.head?, isBlank c = false) :
    { b with space := due }.run (b.gap ++ text) = b.run text := by
  rcases b.gap_eq_or with ⟨hgap, hspace, hbuilt⟩ | ⟨hgap, hspace⟩
  · have hdepth : b.depth = 0 := by
      rcases Nat.eq_zero_or_pos b.depth with h | h
      · exact h
      · rw [(hinner h).2] at hspace
        cases hspace
    have hreads : { b with space := due }.Reads ([' '] ++ text) [] { b with space := true } text :=
      .spaces hdepth (List.cons_ne_nil ' ' []) blank_of_mem_space htext (by decide)
    rw [hgap, hreads.run_eq, List.nil_append, ← hspace]
  · rw [hgap, List.nil_append]
    by_cases hbuilt : b.built = []
    · have hdepth : b.depth = 0 := by
        rcases Nat.eq_zero_or_pos b.depth with h | h
        · exact h
        · exact absurd hbuilt (hinner h).1
      exact run_of_built hbuilt hdepth due text
    · have hfalse : b.space = false := hspace.resolve_right hbuilt
      have hdue' : due = b.space := by
        cases due with
        | false => exact hfalse.symm
        | true => exact ((hdue rfl).resolve_right hbuilt).symm
      rw [hdue']

/-- A line in front of a text that a run can come to. -/
structure Regular (b : Body) (text : List Char) : Prop where
  first : ∀ c ∈ b.line.head?, isBlank c = false
  last : text ≠ [] → (∀ c ∈ b.line.getLast?, isBlank c = false) ∨
    0 < b.depth ∧ ∀ c ∈ text.head?, isBlank c = false
  inner : 0 < b.depth → b.built ≠ [] ∧ b.space = false

theorem regular_of_built {b : Body} (hbuilt : b.built = []) (hdepth : b.depth = 0)
    (text : List Char) : b.Regular text := by
  have hline : b.line = [] := line_eq_nil.2 hbuilt
  refine ⟨?_, fun _ => .inl ?_, fun h => absurd hdepth (by omega)⟩
  · rw [hline]
    exact fun c hc => absurd hc (by simp)
  · rw [hline]
    exact fun c hc => absurd hc (by simp)

theorem regular_cleared {b : Body} (hdepth : b.depth = 0) (text : List Char) :
    b.cleared.Regular text :=
  regular_of_built (b := b.cleared) rfl hdepth text

theorem built_of_allBlank {b : Body} (hfirst : ∀ c ∈ b.line.head?, isBlank c = false)
    (h : allBlank b.built = true) : b.built = [] := by
  refine Decidable.byContradiction fun hbuilt => ?_
  have hne : b.line ≠ [] := fun hnil => hbuilt (line_eq_nil.1 hnil)
  obtain ⟨c, rest, hline⟩ := List.exists_cons_of_ne_nil hne
  have hmem : c ∈ b.built := by
    rw [← List.mem_reverse, ← line, hline]
    exact List.mem_cons_self
  have hc : isBlank c = false := hfirst c (by rw [hline]; rfl)
  rw [List.all_eq_true.1 h c hmem] at hc
  cases hc

theorem first_append {line text : List Char} (hline : ∀ c ∈ line.head?, isBlank c = false)
    (htext : line = [] → ∀ c ∈ text.head?, isBlank c = false) :
    ∀ c ∈ (line ++ text).head?, isBlank c = false := by
  cases line with
  | nil => exact htext rfl
  | cons d line => exact hline

theorem first_push {b : Body} {text : List Char}
    (hfirst : ∀ c ∈ b.line.head?, isBlank c = false)
    (htext : ∀ c ∈ text.head?, isBlank c = false) :
    ∀ c ∈ (b.push text).line.head?, isBlank c = false := by
  rw [line_push]
  refine first_append hfirst fun hline => ?_
  rw [gap_of_built (line_eq_nil.1 hline)]
  exact htext

/-- A line that was pushed a text between visible characters is regular. -/
theorem regular_of_push {b b' : Body} {pushed text : List Char} {c d : Char}
    (hline : b'.line = (b.push pushed).line) (hspace : 0 < b'.depth → b'.space = false)
    (hfirst : ∀ c ∈ b.line.head?, isBlank c = false)
    (hhead : pushed.head? = some c) (hc : isBlank c = false)
    (hlast : pushed.getLast? = some d) (hd : isBlank d = false) : b'.Regular text := by
  have hend : b'.line.getLast? = some d := by
    rw [hline, line_push, ← List.append_assoc, List.getLast?_append, hlast]
    rfl
  refine ⟨?_, fun _ => .inl ?_, fun hdepth => ⟨?_, hspace hdepth⟩⟩
  · rw [hline]
    apply first_push hfirst
    rw [hhead]
    intro e he
    cases he
    exact hc
  · rw [hend]
    intro e he
    cases he
    exact hd
  · intro hbuilt
    rw [line_eq_nil.2 hbuilt] at hend
    cases hend

/-- Every rule keeps lines regular. -/
theorem Reads.regular {b b' : Body} {text text' : List Char} {lines : List Line}
    (hreads : b.Reads text lines b' text') (h : b.Regular text) : b'.Regular text' := by
  have hequals : isBlank '=' = false := by decide
  have hbar : isBlank '|' = false := by decide
  have hclosing : isBlank '\x7d' = false := by decide
  cases hreads with
  | kept hdepth hne hblanks htext =>
    obtain ⟨hbuilt, hspace⟩ := h.inner hdepth
    refine ⟨?_, fun _ => .inr ⟨hdepth, htext⟩, fun _ => ⟨?_, hspace⟩⟩
    · rw [line_add]
      exact first_append h.first fun hline => absurd (line_eq_nil.1 hline) hbuilt
    · exact fun hnil => hbuilt (List.append_eq_nil_iff.1 hnil).2
  | spaces hdepth hne hblanks htext hcount =>
    refine ⟨h.first, fun _ => .inl ?_, fun hpos => absurd hdepth (by exact Nat.ne_of_gt hpos)⟩
    obtain ⟨c, more, rfl⟩ := List.exists_cons_of_ne_nil hne
    exact (h.last (List.cons_ne_nil _ _)).resolve_right fun hpos => by omega
  | breaks hdepth hblanks htext hcount => exact regular_cleared hdepth _
  | literal hbody =>
    exact regular_of_push rfl (fun _ => rfl) h.first rfl (by decide)
      (by rw [← List.cons_append]; exact List.getLast?_concat) (by decide)
  | openLiteral hopen =>
    refine ⟨first_push h.first fun c hc => by cases hc; decide, fun hne => absurd rfl hne,
      fun _ => ⟨?_, rfl⟩⟩
    intro hnil
    have hline := line_eq_nil.2 hnil
    rw [line_push] at hline
    simp at hline
  | @enclosed c _ hdepth hblank hquote =>
    obtain ⟨hbuilt, hspace⟩ := h.inner hdepth
    have hline : (b.enclosed c).body.line = (b.push [c]).line := by
      rw [line_push, gap_of_space hspace]
      exact line_add b _
    exact regular_of_push hline (fun _ => hspace) h.first rfl hblank rfl hblank
  | comment hdepth hbuilt hcomment htail htext => exact regular_of_built hbuilt hdepth _
  | commentBehind hdepth hbuilt hcomment htail htext =>
    exact regular_cleared hdepth _
  | closedAttribute hdepth hbuilt hclosed => exact regular_of_built hbuilt hdepth _
  | openAttribute hdepth hbuilt hopen => exact regular_of_built hbuilt hdepth _
  | @bracket c _ hdepth hc =>
    have hblank : isBlank c = false := by
      rcases hc with rfl | rfl <;> decide
    exact regular_of_push (b := b) rfl (fun _ => rfl) h.first rfl hblank rfl hblank
  | semicolon hdepth => exact regular_cleared hdepth _
  | arrow hdepth =>
    exact regular_of_push (b := { b with space := true }) rfl
      (fun hpos => absurd hdepth (Nat.ne_of_gt hpos)) h.first rfl hequals rfl (by decide)
  | joinedEquals hdepth hnext hjoins =>
    exact regular_of_push rfl (fun _ => rfl) h.first rfl hequals rfl hequals
  | equals hdepth hnext hjoins =>
    exact regular_of_push (b := { b with space := true }) rfl
      (fun hpos => absurd hdepth (Nat.ne_of_gt hpos)) h.first rfl hequals rfl hequals
  | joinedBar hdepth hjoins =>
    exact regular_of_push rfl (fun _ => rfl) h.first rfl hbar rfl hbar
  | bar hdepth hjoins =>
    exact regular_of_push (b := { b with space := true }) rfl
      (fun hpos => absurd hdepth (Nat.ne_of_gt hpos)) h.first rfl hbar rfl hbar
  | emptyBraces hdepth hblanks =>
    exact regular_of_push (b := { b with space := true }) rfl (fun _ => rfl) h.first rfl
      (by decide) rfl hclosing
  | openBrace hdepth htext =>
    exact regular_of_built (b := { b.cleared with level := b.level + 1 }) rfl hdepth _
  | followedBrace hdepth hblanks hc =>
    exact regular_of_push (b := { b.cleared with level := b.level - 1 }) rfl (fun _ => rfl)
      (fun c hc => absurd hc (by simp [line, cleared])) rfl hclosing rfl hclosing
  | closeBrace hdepth htext =>
    exact regular_of_built (b := { b.cleared with level := b.level - 1 }) rfl hdepth _
  | ordinary hdepth hblank hquote hordinary hcomment hattribute =>
    exact regular_of_push rfl (fun _ => rfl) h.first rfl hblank rfl hblank

/-- What a line of text starts with is visible. -/
def StartsVisibly : Line → Prop
  | .blank => True
  | .text _ content => ∃ c, content.head? = some c ∧ isBlank c = false

theorem startsVisibly_pending : ∀ line ∈ b.pending, StartsVisibly line := by
  intro shown hshown
  rw [pending] at hshown
  split at hshown
  · cases hshown
  · rename_i content hcontent
    obtain ⟨c, rest, hne⟩ : ∃ c rest, trim b.line = c :: rest := by
      cases htrim : trim b.line with
      | nil => exact absurd htrim (hcontent ·)
      | cons c rest => exact ⟨c, rest, rfl⟩
    rw [List.mem_singleton] at hshown
    rw [hshown]
    have hhead : (trim b.line).head? = some c := by rw [hne]; rfl
    exact ⟨c, hhead, head?_trim b.line c hhead⟩

theorem startsVisibly_cons {c : Char} (hc : isBlank c = false) (level : Nat) (rest : List Char) :
    StartsVisibly (.text level (c :: rest)) :=
  ⟨c, rfl, hc⟩

theorem Reads.startsVisibly {b b' : Body} {text text' : List Char} {lines : List Line}
    (hreads : b.Reads text lines b' text') : ∀ line ∈ lines, StartsVisibly line := by
  have hnone : ∀ line ∈ ([] : List Line), StartsVisibly line := by
    intro line hline
    cases hline
  have hone : ∀ {first : Line}, StartsVisibly first → ∀ line ∈ [first], StartsVisibly line := by
    intro first hfirst line hline
    rw [List.mem_singleton.1 hline]
    exact hfirst
  have happend : ∀ {front lines : List Line}, (∀ line ∈ front, StartsVisibly line) →
      (∀ line ∈ lines, StartsVisibly line) → ∀ line ∈ front ++ lines, StartsVisibly line := by
    intro front lines hfront hlines line hline
    exact (List.mem_append.1 hline).elim (hfront line) (hlines line)
  cases hreads with
  | breaks => exact happend (startsVisibly_pending b) (hone trivial)
  | @comment c _ _ hdepth hbuilt hcomment htail htext =>
    apply hone
    have hc : isBlank c = false := by
      rcases (opensComment_cons c _).1 hcomment with ⟨rfl, -⟩ | ⟨rfl, -⟩ <;> decide
    rw [trimEnd_cons_of_not_blank hc]
    exact startsVisibly_cons hc _ _
  | commentBehind => exact startsVisibly_pending _
  | closedAttribute =>
    apply hone
    rw [normalizeAttribute_bracket]
    exact startsVisibly_cons (by decide) _ _
  | openAttribute =>
    apply hone
    rw [normalizeAttribute_bracket]
    exact startsVisibly_cons (by decide) _ _
  | semicolon => exact startsVisibly_pending _
  | openBrace => exact startsVisibly_pending _
  | followedBrace => exact startsVisibly_pending b
  | closeBrace => exact happend (startsVisibly_pending b) (hone (startsVisibly_cons (by decide) _ _))
  | _ => exact hnone

/-- By the rules, what holds at the end of a text and is handed back over every step holds. -/
theorem Regular.induction {motive : Body → List Char → Prop} {b : Body} {text : List Char}
    (h : b.Regular text) (nil : ∀ b, Regular b [] → motive b [])
    (step : ∀ b b' text text' lines, Regular b text → b.Reads text lines b' text' →
      motive b' text' → motive b text) : motive b text := by
  induction hlength : text.length using Nat.strongRecOn generalizing b text with
  | ind n ih =>
    by_cases htext : text = []
    · rw [htext] at h ⊢
      exact nil b h
    · obtain ⟨lines, b', text', hreads⟩ := exists_reads htext (built_of_allBlank h.first)
      have hlt := hreads.length_lt
      exact step b b' text text' lines h hreads (ih _ (hlength ▸ hlt) (hreads.regular h) rfl)

theorem startsVisibly_run {b : Body} {text : List Char} (h : b.Regular text) :
    ∀ line ∈ b.run text, StartsVisibly line := by
  refine h.induction (motive := fun b text => ∀ line ∈ b.run text, StartsVisibly line) ?_ ?_
  · intro b _
    rw [run_nil]
    exact startsVisibly_pending b
  · intro b b' text text' lines _ hreads ih
    rw [hreads.run_eq]
    intro line hline
    exact (List.mem_append.1 hline).elim (hreads.startsVisibly line) (ih line)

end Body

end LogScript.Layout
