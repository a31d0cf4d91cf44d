import LogScript.Proofs.Layout.LinesWritten
import LogScript.Proofs.Layout.Settled

/-!
The layout of OML statements read by the body machine again. A second pass over the layout follows
the first pass line by line: whatever the first pass still writes behind the line that it builds is
read by the second pass from the same line. One construct breaks this. In `a==>` the first sign is
written without a space in front of it, because an equals sign follows, and the arrow behind it
with one; in `a= =>` the second pass takes the first sign for an assignment.
-/

namespace LogScript.Layout

namespace Body

/-- A text `==>` right behind a statement that does not end with an operator. -/
structure TightArrow (b : Body) (text : List Char) : Prop where
  depth : b.depth = 0
  space : b.space = false
  built : b.built ≠ []
  last : ¬b.lastChar?.any (['=', '!', '<', '>'].contains ·) = true
  text : ['=', '=', '>'] <+: text

/-- A run comes to a tight arrow. -/
inductive MeetsTightArrow : Body → List Char → Prop
  | here {b : Body} {text : List Char} (h : b.TightArrow text) : MeetsTightArrow b text
  | later {b : Body} {c : Char} {rest : List Char}
      (h : MeetsTightArrow (b.step c rest).body (rest.drop (b.step c rest).taken)) :
      MeetsTightArrow b (c :: rest)

theorem not_meetsTightArrow_nil (b : Body) : ¬b.MeetsTightArrow [] := by
  intro h
  cases h with
  | here h => exact absurd (List.prefix_nil.1 h.text) (by decide)

instance (b : Body) (text : List Char) : Decidable (b.TightArrow text) :=
  decidable_of_iff
    (b.depth = 0 ∧ b.space = false ∧ b.built ≠ [] ∧
      ¬b.lastChar?.any (['=', '!', '<', '>'].contains ·) = true ∧ ['=', '=', '>'] <+: text)
    ⟨fun ⟨hdepth, hspace, hbuilt, hlast, htext⟩ => ⟨hdepth, hspace, hbuilt, hlast, htext⟩,
      fun h => ⟨h.depth, h.space, h.built, h.last, h.text⟩⟩

def meetsTightArrow (b : Body) (text : List Char) : Bool :=
  match text with
  | [] => false
  | c :: rest =>
    let move := b.step c rest
    decide (b.TightArrow (c :: rest)) || move.body.meetsTightArrow (rest.drop move.taken)
termination_by text.length
decreasing_by
  simp only [List.length_drop, List.length_cons]
  omega

theorem meetsTightArrow_eq_true {b : Body} {text : List Char} :
    b.meetsTightArrow text = true ↔ b.MeetsTightArrow text := by
  induction b, text using meetsTightArrow.induct with
  | case1 b =>
    rw [meetsTightArrow]
    exact iff_of_false Bool.false_ne_true (not_meetsTightArrow_nil b)
  | case2 b c rest move ih =>
    rw [meetsTightArrow, Bool.or_eq_true, decide_eq_true_iff, ih]
    constructor
    · rintro (h | h)
      · exact .here h
      · exact .later h
    · intro h
      cases h with
      | here h => exact .inl h
      | later h => exact .inr h

instance (b : Body) (text : List Char) : Decidable (b.MeetsTightArrow text) :=
  decidable_of_iff _ meetsTightArrow_eq_true

theorem Reads.meetsTightArrow_iff {b b' : Body} {text text' : List Char} {lines : List Line}
    (hreads : b.Reads text lines b' text') (harrow : ¬b.TightArrow text) :
    b.MeetsTightArrow text ↔ b'.MeetsTightArrow text' := by
  obtain ⟨c, rest, rfl, -, rfl, rfl⟩ := hreads.steps
  constructor
  · intro h
    cases h with
    | here h => exact absurd h harrow
    | later h => exact h
  · exact .later

theorem visible_ne_nil_of_meetsTightArrow {b : Body} {text : List Char}
    (h : b.MeetsTightArrow text) : visible text ≠ [] := by
  have hmem : '=' ∈ text := by
    induction h with
    | here h => exact h.text.subset List.mem_cons_self
    | later _ ih => exact List.mem_cons_of_mem _ (List.mem_of_mem_drop ih)
  intro hnil
  have hvisible : '=' ∈ visible text := List.mem_filter.2 ⟨hmem, by decide⟩
  rw [hnil] at hvisible
  cases hvisible

/-- A second pass is in step with the first at the line `b`, when it reads what the first pass
still writes behind the line, and then the other lines, from the same line. A space may be due in
the second pass only if one is due in the first, or the line is empty. -/
def Synced (flaw : Prop) (b : Body) (old : List Line) : Prop :=
  ∀ (level : Nat) (z : List Char) (ls : List Line),
    old.dropWhile Line.isBlankLine = .text level (b.line ++ z) :: ls →
      ∀ (due : Bool) (k : Nat), (due = true → b.space = true ∨ b.built = []) →
        Line.Relaid flaw k (.text level (b.line ++ z) :: ls)
          ({ b with space := due }.run (z ++ Line.trail k ls))

variable {flaw : Prop} {b b' : Body} {old : List Line}

theorem Synced.of_space (h : Synced flaw { b with space := true } old) : Synced flaw b old :=
  fun level z ls hold due k _ => h level z ls hold due k (fun _ => .inl rfl)

theorem Synced.of_cleared (hbuilt : b.built = []) (h : Synced flaw b.cleared old) :
    Synced flaw b old := by
  intro level z ls hold due k _
  have hline : b.line = b.cleared.line := line_eq_nil.2 hbuilt
  have hbody : { b with space := due } = { b.cleared with space := due } := by
    rw [cleared, ← hbuilt]
  rw [hline] at hold ⊢
  rw [hbody]
  exact h level z ls hold due k (fun _ => .inr rfl)

theorem Synced.blank_cons (h : Synced flaw b old) : Synced flaw b (.blank :: old) :=
  h

/-- A step that goes on with the line: the second pass reads `w`, which it writes, and is in step
again. -/
theorem Synced.grow {w : List Char} (h : Synced flaw b' old) (hline : b'.line = b.line ++ w)
    (hold : ∃ level z ls, old = .text level (b'.line ++ z) :: ls)
    (hread : ∀ {level z ls}, old = .text level (b'.line ++ z) :: ls →
      ∀ due k, (due = true → b.space = true ∨ b.built = []) →
        { b with space := due }.run (w ++ (z ++ Line.trail k ls)) =
          b'.run (z ++ Line.trail k ls)) : Synced flaw b old := by
  obtain ⟨level', z', ls', rfl⟩ := hold
  intro level z ls hdrop due k hdue
  rw [List.dropWhile_cons_of_neg (by simp [Line.isBlankLine])] at hdrop
  injection hdrop with hfirst hls
  injection hfirst with hlevel hcontent
  have hz : w ++ z' = z := by
    rw [hline, List.append_assoc, List.append_cancel_left_eq] at hcontent
    exact hcontent
  rw [← hls, ← hz, List.append_assoc, hread rfl due k hdue, ← hlevel, ← List.append_assoc,
    ← hline]
  exact h level' z' ls' (List.dropWhile_cons_of_neg (by simp [Line.isBlankLine])) b'.space k
    (fun hspace => .inl hspace)

theorem mem_head?_append {front behind : List Char} {c d : Char} (h : front.head? = some c) :
    d ∈ (front ++ behind).head? → d = c := by
  rw [List.head?_append, h]
  intro hd
  cases hd
  rfl

theorem first_of_dropWhile {level : Nat} {content : List Char} {rest : List Line}
    (hstarts : ∀ line ∈ old, StartsVisibly line)
    (hdrop : old.dropWhile Line.isBlankLine = .text level content :: rest) (behind : List Char) :
    ∀ c ∈ (content ++ behind).head?, isBlank c = false := by
  have hmem : .text level content ∈ old.dropWhile Line.isBlankLine := by
    rw [hdrop]
    exact List.mem_cons_self
  obtain ⟨c, hhead, hc⟩ := hstarts _ ((List.dropWhile_sublist _).mem hmem)
  intro d hd
  rw [mem_head?_append hhead hd]
  exact hc

/-- Behind a completed line, the second pass comes to the next lines as the first pass did. -/
theorem Synced.relaid (h : Synced flaw b old) (hbuilt : b.built = []) (hdepth : b.depth = 0)
    (hstarts : ∀ line ∈ old, StartsVisibly line)
    (hflaw : old.dropWhile Line.isBlankLine = [] → ¬flaw) (k : Nat) :
    Line.Relaid flaw k old (b.run (Line.trail k old)) := by
  rcases Line.dropWhile_isBlankLine old with hdrop | ⟨level, content, rest, hdrop⟩
  · rw [Line.trail, Line.after_of_dropWhile_nil hdrop, List.nil_append, run_lineFeeds,
      pending_of_built hbuilt, List.nil_append]
    apply Line.relaid_of_blank (hflaw hdrop) hdrop
    split
    · rename_i hk
      exact .inr ⟨rfl, by omega⟩
    · exact .inl rfl
  have hcontent := first_of_dropWhile hstarts hdrop (Line.trail k rest)
  have hline : content = b.line ++ content := by
    rw [line_eq_nil.2 hbuilt, List.nil_append]
  have hnext : ∀ due, Line.Relaid flaw k (.text level content :: rest)
      ({ b with space := due }.run (content ++ Line.trail k rest)) := by
    intro due
    have hsynced := h level content rest (by rw [← hline]; exact hdrop) due k (fun _ => .inr hbuilt)
    rwa [← hline] at hsynced
  obtain ⟨blanks, htrail, hne, hblanks, ⟨hold, hcount⟩ | ⟨hold, hcount⟩⟩ :=
    Line.trail_of_dropWhile hdrop k
  · have hreads := Reads.spaces hdepth hne hblanks hcontent (by omega)
    rw [htrail, hreads.run_eq, hold, List.nil_append]
    exact hnext true
  · have hreads := Reads.breaks hdepth hblanks hcontent (by omega)
    have hcleared : b.cleared = { b with space := false } := by
      rw [cleared, ← hbuilt]
    rw [htrail, hreads.run_eq, pending_of_built hbuilt, hcleared]
    exact (hnext false).of_blanks hdrop hold

/-- A step that completes the line: the second pass reads `u`, completes the line too, and goes on
behind it. -/
theorem Synced.complete {b₀ : Body} {level : Nat} {u : List Char} (h : Synced flaw b₀ old)
    (hbuilt : b₀.built = []) (hdepth : b₀.depth = 0)
    (hstarts : ∀ line ∈ old, StartsVisibly line)
    (hflaw : old.dropWhile Line.isBlankLine = [] → ¬flaw)
    (hread : ∀ due k, (due = true → b.space = true ∨ b.built = []) →
      { b with space := due }.run (u ++ Line.trail k old) =
        .text level (b.line ++ u) :: b₀.run (Line.trail k old)) :
    Synced flaw b (.text level (b.line ++ u) :: old) := by
  intro level' z ls hdrop due k hdue
  rw [List.dropWhile_cons_of_neg (by simp [Line.isBlankLine])] at hdrop
  injection hdrop with hfirst hls
  injection hfirst with hlevel hcontent
  rw [List.append_cancel_left_eq] at hcontent
  subst hls hlevel hcontent
  rw [hread due k hdue]
  exact (h.relaid hbuilt hdepth hstarts hflaw k).text_cons _ _

/-- The last line of a text: the second pass reads `u` and the line feeds behind it. -/
theorem synced_last {level : Nat} {u : List Char} (hflaw : ¬flaw)
    (hread : ∀ due k, (due = true → b.space = true ∨ b.built = []) → ∃ rest,
      { b with space := due }.run (u ++ List.replicate k '\n') =
        .text level (b.line ++ u) :: rest ∧ (rest = [] ∨ rest = [.blank] ∧ 2 ≤ k)) :
    Synced flaw b [.text level (b.line ++ u)] := by
  intro level' z ls hdrop due k hdue
  rw [List.dropWhile_cons_of_neg (by simp [Line.isBlankLine])] at hdrop
  injection hdrop with hfirst hls
  injection hfirst with hlevel hcontent
  rw [List.append_cancel_left_eq] at hcontent
  subst hls hlevel hcontent
  obtain ⟨rest, hrun, hrest⟩ := hread due k hdue
  rw [Line.trail, Line.after_nil, List.nil_append, hrun]
  exact (Line.relaid_of_blank hflaw rfl hrest).text_cons _ _

theorem synced_pending (hflaw : ¬flaw) (hfirst : ∀ c ∈ b.line.head?, isBlank c = false) :
    Synced flaw b b.pending := by
  intro level z ls hdrop due k _
  by_cases hbuilt : b.built = []
  · rw [pending_of_built hbuilt] at hdrop
    cases hdrop
  · have hpending := pending_of_first hbuilt hfirst
    rw [hpending, List.dropWhile_cons_of_neg (by simp [Line.isBlankLine])] at hdrop
    injection hdrop with hline hls
    injection hline with hlevel hcontent
    have hz : z = [] := by
      have hlength := (prefix_trimEnd b.line).length_le
      rw [hcontent, List.length_append] at hlength
      exact List.eq_nil_of_length_eq_zero (by omega)
    have hrun : { b with space := due }.run (List.replicate k '\n') =
        b.pending ++ (if b.depth = 0 ∧ 2 ≤ k then [.blank] else []) := run_lineFeeds _ k
    rw [← hls, hz, Line.trail, Line.after_nil, List.nil_append, List.nil_append, hrun, hpending,
      ← hlevel, ← hz, ← hcontent]
    refine (Line.relaid_of_blank hflaw rfl ?_).text_cons _ _
    split
    · rename_i hk
      exact .inr ⟨rfl, by omega⟩
    · exact .inl rfl

end Body

end LogScript.Layout
