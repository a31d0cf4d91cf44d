import LogScript.Proofs.Layout.LinesWritten
import LogScript.Proofs.Layout.Settled

/-!
The characters of an OML layout are those of its text, spaces and line feeds. Tabs and carriage
returns are gone before anything is laid out, so a layout is not changed when it is prepared for a
second pass.
-/

namespace LogScript.Layout

theorem mem_of_mem_collapseBlanks {c : Char} {q : Quoting} {afterSpace : Bool} {text : List Char}
    (h : c ∈ collapseBlanks q afterSpace text) : c = ' ' ∨ c ∈ text := by
  induction text generalizing q afterSpace with
  | nil => cases h
  | cons d rest ih =>
    rw [collapseBlanks] at h
    split at h
    · split at h
      · exact (ih h).imp_right (List.mem_cons_of_mem d)
      · rcases List.mem_cons.1 h with hc | h
        · exact .inl hc
        · exact (ih h).imp_right (List.mem_cons_of_mem d)
    · rcases List.mem_cons.1 h with hc | h
      · exact .inr (hc ▸ List.mem_cons_self)
      · exact (ih h).imp_right (List.mem_cons_of_mem d)

theorem mem_of_mem_tightenSpaces {c : Char} {q : Quoting} {last : Option Char} {text : List Char}
    (h : c ∈ tightenSpaces q last text) : c ∈ text := by
  induction text generalizing q last with
  | nil => cases h
  | cons d rest ih =>
    rw [tightenSpaces_cons] at h
    split at h
    · exact List.mem_cons_of_mem d (ih h)
    · rcases List.mem_cons.1 h with rfl | h
      · exact List.mem_cons_self
      · exact List.mem_cons_of_mem d (ih h)

theorem mem_of_mem_normalizeAttribute {c : Char} {text : List Char}
    (h : c ∈ normalizeAttribute text) : c = ' ' ∨ c ∈ text :=
  mem_of_mem_collapseBlanks (mem_of_mem_trim (mem_of_mem_tightenSpaces h))

/-- The characters of the lines that an attribute is joined from, and spaces. -/
theorem mem_of_mem_gatherAttribute {c : Char} {text : List Char} {ls : List (List Char)}
    (h : c ∈ (gatherAttribute text ls).1 ∨ ∃ line ∈ (gatherAttribute text ls).2, c ∈ line) :
    c = ' ' ∨ c ∈ text ∨ ∃ line ∈ ls, c ∈ line := by
  induction ls generalizing text with
  | nil =>
    rcases h with h | ⟨line, hline, -⟩
    · exact .inr (.inl h)
    · cases hline
  | cons line ls ih =>
    rw [gatherAttribute] at h
    split at h
    · exact .inr h
    · rcases ih h with hc | hc | ⟨l, hl, hc⟩
      · exact .inl hc
      · rcases List.mem_append.1 hc with hc | hc
        · exact .inr (.inl hc)
        · rcases List.mem_cons.1 hc with hc | hc
          · exact .inl hc
          · exact .inr (.inr ⟨line, List.mem_cons_self, mem_of_mem_trim hc⟩)
      · exact .inr (.inr ⟨l, List.mem_cons_of_mem line hl, hc⟩)

/-- A section keeps to the characters of its lines, and spaces. -/
theorem mem_of_mem_sectionLines {underKey : Bool} {ls : List (List Char)} {c : Char}
    (h : ∃ line ∈ sectionLines underKey ls, c ∈ line.content) : c = ' ' ∨ ∃ l ∈ ls, c ∈ l := by
  have hself : ∀ {line : List Char} {rest : List (List Char)}, c ∈ trim line →
      c = ' ' ∨ ∃ l ∈ line :: rest, c ∈ l := fun hc =>
    .inr ⟨_, List.mem_cons_self, mem_of_mem_trim hc⟩
  have hrest : ∀ {line : List Char} {rest : List (List Char)}, (c = ' ' ∨ ∃ l ∈ rest, c ∈ l) →
      c = ' ' ∨ ∃ l ∈ line :: rest, c ∈ l := fun hc =>
    hc.imp_right fun ⟨l, hl, hcl⟩ => ⟨l, List.mem_cons_of_mem _ hl, hcl⟩
  obtain ⟨shown, hshown, hc⟩ := h
  induction underKey, ls using sectionLines.induct with
  | case1 underKey =>
    rw [sectionLines] at hshown
    cases hshown
  | case2 underKey line rest content hempty ih =>
    rw [sectionLines, if_pos hempty] at hshown
    rcases List.mem_cons.1 hshown with rfl | hshown
    · cases hc
    · exact hrest (ih hshown)
  | case3 underKey line rest content hempty hcomment ih =>
    rw [sectionLines, if_neg hempty, if_pos hcomment] at hshown
    rcases List.mem_cons.1 hshown with rfl | hshown
    · exact hself hc
    · exact hrest (ih hshown)
  | case4 underKey line rest content hempty hcomment hattribute ih =>
    rw [sectionLines, if_neg hempty, if_neg hcomment, if_pos hattribute] at hshown
    have hgathered : (c ∈ (gatherAttribute content rest).1 ∨
        ∃ l ∈ (gatherAttribute content rest).2, c ∈ l) →
          c = ' ' ∨ ∃ l ∈ line :: rest, c ∈ l := fun h => by
      rcases mem_of_mem_gatherAttribute h with hc | hc | hc
      · exact .inl hc
      · exact hself hc
      · exact hrest (.inr hc)
    rcases List.mem_cons.1 hshown with rfl | hshown
    · rcases mem_of_mem_normalizeAttribute hc with hc | hc
      · exact .inl hc
      · exact hgathered (.inl hc)
    · rcases ih hshown with hc | hc
      · exact .inl hc
      · exact hgathered (.inr hc)
  | case5 underKey line rest content hempty hcomment hattribute hkey ih =>
    rw [sectionLines, if_neg hempty, if_neg hcomment, if_neg hattribute, if_pos hkey] at hshown
    rcases List.mem_cons.1 hshown with rfl | hshown
    · rcases List.mem_append.1 hc with hc | hc
      · obtain ⟨blanks, hcontent, -⟩ := exists_trimEnd_append content.dropLast
        have hmem : c ∈ content.dropLast := by
          rw [hcontent]
          exact List.mem_append_left _ hc
        exact hself (List.dropLast_subset _ hmem)
      · have hcolon : c = ' ' ∨ c = ':' ∨ c = ' ' := by
          simpa using hc
        rcases hcolon with hc | rfl | hc
        · exact .inl hc
        · exact hself (List.mem_of_getLast? hkey)
        · exact .inl hc
    · exact hrest (ih hshown)
  | case6 underKey line rest content hempty hcomment hattribute hkey hvalue ih =>
    rw [sectionLines, if_neg hempty, if_neg hcomment, if_neg hattribute, if_neg hkey,
      if_pos hvalue] at hshown
    rcases List.mem_cons.1 hshown with rfl | hshown
    · exact hself hc
    · exact hrest (ih hshown)
  | case7 underKey line rest content hempty hcomment hattribute hkey hvalue ih =>
    rw [sectionLines, if_neg hempty, if_neg hcomment, if_neg hattribute, if_neg hkey,
      if_neg hvalue] at hshown
    rcases List.mem_cons.1 hshown with rfl | hshown
    · exact hself hc
    · exact hrest (ih hshown)

namespace Body

/-- Characters that a run from a line in front of a text may write. -/
def Among (b : Body) (text : List Char) (c : Char) : Prop :=
  c = ' ' ∨ c ∈ b.line ∨ c ∈ text

theorem mem_of_mem_pending {b : Body} {c : Char} (h : ∃ line ∈ b.pending, c ∈ line.content) :
    c ∈ b.line := by
  obtain ⟨shown, hshown, hc⟩ := h
  rw [pending] at hshown
  split at hshown
  · cases hshown
  · rw [List.mem_singleton.1 hshown] at hc
    exact mem_of_mem_trim hc

theorem mem_of_mem_push {b : Body} {c : Char} {pushed : List Char}
    (h : c ∈ (b.push pushed).line) : c = ' ' ∨ c ∈ b.line ∨ c ∈ pushed := by
  rw [line_push, List.mem_append, List.mem_append] at h
  rcases h with h | h | h
  · exact .inr (.inl h)
  · rcases b.gap_eq_or with ⟨hgap, -⟩ | ⟨hgap, -⟩
    · rw [hgap, List.mem_singleton] at h
      exact .inl h
    · rw [hgap] at h
      cases h
  · exact .inr (.inr h)

variable {b b' : Body} {text text' : List Char} {lines : List Line}

theorem Reads.subset (hreads : b.Reads text lines b' text') : ∀ c ∈ text', c ∈ text := by
  obtain ⟨c, rest, rfl, -, -, rfl⟩ := hreads.steps
  exact fun d hd => List.mem_cons_of_mem c (List.mem_of_mem_drop hd)

theorem Among.of_push {due : Bool} {pushed : List Char} {c : Char}
    (hpushed : ∀ d ∈ pushed, d ∈ text) (h : c ∈ ({ b with space := due }.push pushed).line) :
    b.Among text c := by
  rcases mem_of_mem_push h with hc | hc | hc
  · exact .inl hc
  · exact .inr (.inl hc)
  · exact .inr (.inr (hpushed c hc))

theorem Among.of_pending {c : Char} (h : ∃ line ∈ b.pending, c ∈ line.content) :
    b.Among text c :=
  .inr (.inl (mem_of_mem_pending h))

/-- A step writes no other characters. -/
theorem Reads.among (hreads : b.Reads text lines b' text') {c : Char}
    (h : (∃ line ∈ lines, c ∈ line.content) ∨ c ∈ b'.line) : b.Among text c := by
  have hline : ∀ {shown : Line}, (∃ line ∈ [shown], c ∈ line.content) → c ∈ shown.content :=
    fun ⟨line, hline, hc⟩ => List.mem_singleton.1 hline ▸ hc
  have hgrow : ∀ (due : Bool) {pushed : List Char} {body : Body}, (∀ d ∈ pushed, d ∈ text) →
      body.line = ({ b with space := due }.push pushed).line →
        (∃ line ∈ ([] : List Line), c ∈ line.content) ∨ c ∈ body.line → b.Among text c := by
    intro due pushed body hpushed hbody hc
    rcases hc with ⟨line, hline, -⟩ | hc
    · cases hline
    · exact Among.of_push hpushed (hbody ▸ hc)
  have hended : ∀ (due : Bool) {pushed : List Char}, (∀ d ∈ pushed, d ∈ text) →
      (∃ line ∈ ({ b with space := due }.push pushed).pending, c ∈ line.content) ∨
        c ∈ ([] : List Char) → b.Among text c := by
    intro due pushed hpushed hc
    rcases hc with hc | hc
    · exact Among.of_push hpushed (mem_of_mem_pending hc)
    · cases hc
  cases hreads with
  | @kept blanks _ hdepth hne hblanks htext =>
    rcases h with ⟨line, hline, -⟩ | h
    · cases hline
    · rw [line_add, List.mem_append] at h
      rcases h with h | h
      · exact .inr (.inl h)
      · rw [Body.kept] at h
        split at h
        · exact .inl (List.mem_singleton.1 h)
        · exact .inr (.inr (List.mem_append_left _ h))
  | spaces =>
    rcases h with ⟨line, hline, -⟩ | h
    · cases hline
    · exact .inr (.inl h)
  | breaks =>
    rcases h with ⟨line, hline, hc⟩ | h
    · rcases List.mem_append.1 hline with hline | hline
      · exact Among.of_pending ⟨line, hline, hc⟩
      · rw [List.mem_singleton.1 hline] at hc
        cases hc
    · cases h
  | @literal body =>
    refine hgrow b.space (fun d hd => ?_) rfl h
    rw [List.append_cons body '"' text', ← List.cons_append]
    exact List.mem_append_left text' hd
  | openLiteral => exact hgrow b.space (fun d hd => hd) rfl h
  | @enclosed d _ hdepth =>
    rcases h with ⟨line, hline, -⟩ | h
    · cases hline
    · have hbody : (b.enclosed d).body.line = b.line ++ [d] := line_add b [d]
      rw [hbody, List.mem_append, List.mem_singleton] at h
      rcases h with h | rfl
      · exact .inr (.inl h)
      · exact .inr (.inr List.mem_cons_self)
  | @comment d tail =>
    rcases h with h | h
    · have hc := (prefix_trimEnd (d :: tail)).subset (hline h)
      exact .inr (.inr (List.mem_append_left text' hc))
    · exact .inr (.inl h)
  | @commentBehind d tail =>
    exact hended true
      (fun e he => List.mem_append_left text' ((prefix_trimEnd (d :: tail)).subset he)) h
  | closedAttribute =>
    rcases h with h | h
    · rcases mem_of_mem_normalizeAttribute (hline h) with hc | hc
      · exact .inl hc
      · exact .inr (.inr (List.mem_append_left text' hc))
    · exact .inr (.inl h)
  | openAttribute =>
    rcases h with h | h
    · rcases mem_of_mem_normalizeAttribute (hline h) with hc | hc
      · exact .inl hc
      · exact .inr (.inr hc)
    · exact .inr (.inl h)
  | bracket => exact hgrow b.space (by simp) rfl h
  | semicolon => exact hended false (by simp) h
  | arrow => exact hgrow true (by simp) rfl h
  | joinedEquals => exact hgrow b.space (by simp) rfl h
  | equals => exact hgrow true (by simp) rfl h
  | joinedBar => exact hgrow b.space (by simp) rfl h
  | bar => exact hgrow true (by simp) rfl h
  | emptyBraces => exact hgrow true (by simp) rfl h
  | openBrace => exact hended true (by simp) h
  | followedBrace =>
    rcases h with h | h
    · exact Among.of_pending h
    · exact .inr (.inr (List.mem_singleton.1 h ▸ List.mem_cons_self))
  | closeBrace =>
    rcases h with ⟨line, hmem, hc⟩ | h
    · rcases List.mem_append.1 hmem with hmem | hmem
      · exact Among.of_pending ⟨line, hmem, hc⟩
      · rw [List.mem_singleton.1 hmem] at hc
        exact .inr (.inr (List.mem_singleton.1 hc ▸ List.mem_cons_self))
    · cases h
  | ordinary => exact hgrow b.space (by simp) rfl h

/-- A run writes no other characters. -/
theorem mem_of_mem_run (hregular : b.Regular text) {c : Char}
    (h : ∃ line ∈ b.run text, c ∈ line.content) : b.Among text c := by
  refine hregular.induction
    (motive := fun b text => (∃ line ∈ b.run text, c ∈ line.content) → b.Among text c) ?_ ?_ h
  · intro b _ h
    rw [run_nil] at h
    exact Among.of_pending h
  · intro b b' text text' lines _ hreads ih h
    rw [hreads.run_eq] at h
    obtain ⟨line, hline, hc⟩ := h
    rcases List.mem_append.1 hline with hline | hline
    · exact hreads.among (.inl ⟨line, hline, hc⟩)
    · rcases ih ⟨line, hline, hc⟩ with hc | hc | hc
      · exact .inl hc
      · exact hreads.among (.inr hc)
      · exact .inr (.inr (hreads.subset c hc))

end Body

theorem mem_of_mem_bodyLines {text : List Char} {c : Char}
    (h : ∃ line ∈ bodyLines text, c ∈ line.content) : c = ' ' ∨ c ∈ text := by
  rcases Body.mem_of_mem_run (Body.regular_of_built rfl rfl text) h with hc | hc | hc
  · exact .inl hc
  · cases hc
  · exact .inr hc

theorem mem_of_splitSeparator? {ls before after : List (List Char)} {c : Char}
    (h : splitSeparator? ls = some (before, after))
    (hc : c ∈ before.flatten ∨ c ∈ separator ∨ c ∈ after.flatten) : c ∈ ls.flatten := by
  obtain ⟨line, rfl, hline, -⟩ := splitSeparator?_eq_some.1 h
  rw [List.flatten_append, List.flatten_cons, List.mem_append, List.mem_append]
  rcases hc with hc | hc | hc
  · exact .inl hc
  · rw [← hline] at hc
    exact .inr (.inl (mem_of_mem_trim hc))
  · exact .inr (.inr hc)

/-- Lines show characters of a text, spaces and line feeds only. -/
def Line.Within (shown : List Line) (text : List Char) : Prop :=
  ∀ line ∈ shown, ∀ c ∈ line.content, c = ' ' ∨ c = '\n' ∨ c ∈ text

theorem Line.Within.append {shown shown' : List Line} {text : List Char}
    (h : Within shown text) (h' : Within shown' text) : Within (shown ++ shown') text :=
  fun line hline => (List.mem_append.1 hline).elim (h line) (h' line)

theorem Line.Within.mono {shown : List Line} {text text' : List Char} (h : Within shown text)
    (htext : ∀ c ∈ text, c ∈ text') : Within shown text' :=
  fun line hline c hc => (h line hline c hc).imp_right (Or.imp_right (htext c))

theorem within_sectionLines (underKey : Bool) (ls : List (List Char)) :
    Line.Within (sectionLines underKey ls) ls.flatten := by
  intro line hline c hc
  rcases mem_of_mem_sectionLines ⟨line, hline, hc⟩ with hc | hc
  · exact .inl hc
  · exact .inr (.inr (List.mem_flatten.2 hc))

theorem within_separatorLines : Line.Within separatorLines separator := by
  intro line hline c hc
  rcases List.mem_cons.1 hline with rfl | hline
  · exact .inr (.inr hc)
  · rw [List.mem_singleton.1 hline] at hc
    cases hc

theorem within_joinedBody (ls : List (List Char)) :
    Line.Within (bodyLines (joinLines ls)) ls.flatten := by
  intro line hline c hc
  rcases mem_of_mem_bodyLines ⟨line, hline, hc⟩ with hc | hc
  · exact .inl hc
  · exact .inr (mem_of_mem_joinLines hc)

theorem within_mainLines (ls : List (List Char)) : Line.Within (mainLines ls) ls.flatten := by
  rw [mainLines]
  split
  · exact within_joinedBody ls
  · rename_i hsplit
    have hmem := fun c => mem_of_splitSeparator? (c := c) hsplit
    exact (((within_joinedBody _).mono fun c hc => hmem c (.inl hc)).append
      (within_separatorLines.mono fun c hc => hmem c (.inr (.inl hc)))).append
        ((within_sectionLines _ _).mono fun c hc => hmem c (.inr (.inr hc)))

theorem within_documentLines (text : List Char) : Line.Within (documentLines text) text := by
  rw [documentLines]
  split
  · intro line hline c hc
    exact (mem_of_mem_bodyLines ⟨line, hline, hc⟩).imp_right .inr
  · rename_i hsplit
    have hmem := fun c hc => mem_of_mem_lines (mem_of_splitSeparator? (c := c) hsplit hc)
    exact (((within_sectionLines _ _).mono fun c hc => hmem c (.inl hc)).append
      (within_separatorLines.mono fun c hc => hmem c (.inr (.inl hc)))).append
        ((within_mainLines _).mono fun c hc => hmem c (.inr (.inr hc)))

theorem Line.mem_of_mem_settle {gap : Bool} {ls : List Line} {settled : List Char} {c : Char}
    (h : settled ∈ settle gap ls) (hc : c ∈ settled) :
    c = ' ' ∨ ∃ line ∈ ls, c ∈ line.content := by
  rcases mem_settle h with rfl | ⟨level, content, hmem, rfl⟩
  · cases hc
  · rcases List.mem_append.1 hc with hc | hc
    · exact .inl (List.eq_of_mem_replicate hc)
    · exact .inr ⟨_, hmem, hc⟩

theorem Line.mem_of_mem_render {ls : List Line} {c : Char} (h : c ∈ render ls) :
    c = ' ' ∨ c = '\n' ∨ ∃ line ∈ ls, c ∈ line.content := by
  rw [render] at h
  split at h
  · cases h
  rw [List.mem_append, List.mem_flatMap, List.mem_singleton] at h
  rcases h with ⟨settled, hsettled, hc⟩ | hc
  · rcases List.mem_append.1 hc with hc | hc
    · rcases mem_of_mem_settle hsettled hc with hc | ⟨line, hline, hc⟩
      · exact .inl hc
      · exact .inr (.inr ⟨line, (List.dropWhile_sublist _).mem hline, hc⟩)
    · exact .inr (.inl (List.mem_singleton.1 hc))
  · exact .inr (.inl hc)

/-- The text that is laid out: its line breaks are line feeds, and tabs are spaces. -/
def prepared (text : List Char) : List Char :=
  expandTabs (normalizeNewlines text)

theorem formatOml_eq (text : List Char) :
    formatOml text = Line.render (documentLines (prepared text)) := rfl

theorem mem_expandTabs {c : Char} {text : List Char} :
    c ∈ expandTabs text → c ≠ '\t' ∧ (c = ' ' ∨ c ∈ text) := by
  rw [expandTabs, List.mem_flatMap]
  rintro ⟨d, hd, hc⟩
  split at hc
  · rw [List.eq_of_mem_replicate hc]
    exact ⟨by decide, .inl rfl⟩
  · rename_i htab
    rw [List.mem_singleton.1 hc]
    exact ⟨by simpa using htab, .inr hd⟩

theorem expandTabs_of_not_mem {text : List Char} (h : '\t' ∉ text) : expandTabs text = text := by
  induction text with
  | nil => rfl
  | cons c rest ih =>
    rw [List.mem_cons, not_or] at h
    have hc : (c == '\t') = false := beq_false_of_ne fun heq => h.1 heq.symm
    rw [expandTabs, List.flatMap_cons, hc, ← expandTabs, ih h.2]
    rfl

theorem mem_of_mem_formatOml {c : Char} {text : List Char} (h : c ∈ formatOml text) :
    c = ' ' ∨ c = '\n' ∨ c ∈ prepared text := by
  rcases Line.mem_of_mem_render h with hc | hc | ⟨line, hline, hc⟩
  · exact .inl hc
  · exact .inr (.inl hc)
  · exact within_documentLines _ line hline c hc

theorem tab_not_mem_formatOml (text : List Char) : '\t' ∉ formatOml text := by
  intro h
  rcases mem_of_mem_formatOml h with hc | hc | hc
  · exact absurd hc (by decide)
  · exact absurd hc (by decide)
  · exact (mem_expandTabs hc).1 rfl

/-- A layout goes into a second pass as it is. -/
theorem prepared_formatOml (text : List Char) : prepared (formatOml text) = formatOml text := by
  have hreturn : '\r' ∉ formatOml text := by
    intro h
    rcases mem_of_mem_formatOml h with hc | hc | hc
    · exact absurd hc (by decide)
    · exact absurd hc (by decide)
    · rcases (mem_expandTabs hc).2 with hc | hc
      · exact absurd hc (by decide)
      · exact not_mem_normalizeNewlines text hc
  rw [prepared, normalizeNewlines_of_not_mem hreturn,
    expandTabs_of_not_mem (tab_not_mem_formatOml text)]

end LogScript.Layout
