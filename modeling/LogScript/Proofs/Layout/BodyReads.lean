import LogScript.Proofs.Layout.NeatAttribute
import LogScript.Proofs.Layout.OmlVisible
import LogScript.Proofs.Layout.Trimmed

/-!
The rules by which the body machine reads blank runs, literals, comments, attributes, brackets,
braces and operators, whatever text stands behind them. Every step follows one of the rules. The
first pass reads the constructs in the source and a second pass reads them in the layout, and both
go by these rules.
-/

namespace LogScript.Layout

/-- A literal closes at a quote, whatever follows, or it never does and takes any more text that
has no quote. -/
theorem literalRest_ends {q : Quoting} (hq : q ≠ .outside) (text : List Char) :
    (∃ body behind, text = body ++ '"' :: behind ∧
      ∀ more, literalRest q (body ++ '"' :: more) = body ++ ['"']) ∨
    ∀ front more, front <+: text → (∀ c ∈ more, c ≠ '"') →
      literalRest q (front ++ more) = front ++ more := by
  have hopen : ∀ {q : Quoting} {c : Char}, q ≠ .outside → c ≠ '"' → q.next c ≠ .outside := by
    intro q c hq hc
    cases q with
    | outside => exact absurd rfl hq
    | inside =>
      have hquote : (c == '"') = false := beq_false_of_ne hc
      rw [Quoting.next, hquote]
      split <;> decide
    | escaped => exact fun h => Quoting.noConfusion h
  have hmore : ∀ {more : List Char} {q : Quoting}, q ≠ .outside → (∀ c ∈ more, c ≠ '"') →
      literalRest q more = more := by
    intro more
    induction more with
    | nil => exact fun _ _ => rfl
    | cons c more ih =>
      intro q hq hquote
      have hnext := hopen hq (hquote c List.mem_cons_self)
      rw [literalRest, if_neg hnext, ih hnext (fun d hd => hquote d (List.mem_cons_of_mem c hd))]
  induction text generalizing q with
  | nil =>
    refine .inr fun front more hfront hquote => ?_
    rw [List.prefix_nil.1 hfront]
    exact hmore hq hquote
  | cons c rest ih =>
    by_cases hnext : q.next c = .outside
    · have hc : c = '"' := Decidable.byContradiction fun hc => hopen hq hc hnext
      subst hc
      exact .inl ⟨[], rest, rfl, fun more => by rw [List.nil_append, literalRest, if_pos hnext]; rfl⟩
    · rcases ih hnext with ⟨body, behind, hrest, hclose⟩ | hopened
      · refine .inl ⟨c :: body, behind, by rw [hrest]; rfl, fun more => ?_⟩
        rw [List.cons_append, literalRest, if_neg hnext, hclose]
        rfl
      · refine .inr fun front more hfront hquote => ?_
        cases front with
        | nil => exact hmore hq hquote
        | cons d front =>
          obtain ⟨rfl, hrest⟩ := List.cons_prefix_cons.1 hfront
          rw [List.cons_append, literalRest, if_neg hnext, hopened front more hrest hquote]

/-- The first character behind blank characters is the first visible one. -/
theorem head?_drop_blanks (text : List Char) :
    (text.drop (text.takeWhile isBlank).length).head? = (visible text).head? := by
  induction text with
  | nil => rfl
  | cons c rest ih =>
    cases hc : isBlank c with
    | true =>
      rw [List.takeWhile_cons_of_pos hc, visible_cons_of_blank hc]
      exact ih
    | false =>
      rw [List.takeWhile_cons_of_neg (by simp [hc]), visible, List.filter_cons_of_pos (by simp [hc])]
      rfl

theorem firstLine_append {line text : List Char} (hline : '\n' ∉ line)
    (htext : text = [] ∨ text.head? = some '\n') : firstLine (line ++ text) = line := by
  induction line with
  | nil =>
    cases text with
    | nil => rfl
    | cons c text =>
      have hc : c = '\n' := by simpa using htext
      rw [hc]
      rfl
  | cons c line ih =>
    have hc : c ≠ '\n' := fun heq => hline (heq ▸ List.mem_cons_self)
    rw [List.cons_append, firstLine_cons hc, ih (fun h => hline (List.mem_cons_of_mem c h))]

/-- A text inside a literal that does not close, also when it goes on without quotes. -/
def OpenLiteral (text : List Char) : Prop :=
  ∀ front more, front <+: text → (∀ c ∈ more, c ≠ '"') →
    literalRest .inside (front ++ more) = front ++ more

theorem OpenLiteral.append {text front more : List Char} (h : OpenLiteral text)
    (hfront : front <+: text) (hmore : ∀ c ∈ more, c ≠ '"') : OpenLiteral (front ++ more) := by
  intro front' more' hfront' hmore'
  rcases List.prefix_or_prefix_of_prefix hfront' (List.prefix_append front more) with hle | hle
  · exact h front' more' (hle.trans hfront) hmore'
  · obtain ⟨behind, rfl⟩ := hle
    have hbehind : behind <+: more := (List.prefix_append_right_inj front).1 hfront'
    rw [List.append_assoc]
    refine h front (behind ++ more') hfront fun c hc => ?_
    exact (List.mem_append.1 hc).elim (fun hc => hmore c (hbehind.subset hc)) (hmore' c)

namespace Body

variable (b : Body)

/-- The space that a pushed text gets in front of it. -/
def gap : List Char :=
  if b.space && !b.built.isEmpty then [' '] else []

theorem line_push (text : List Char) : (b.push text).line = b.line ++ (b.gap ++ text) :=
  b.line_add _

theorem line_eq_nil {b : Body} : b.line = [] ↔ b.built = [] := by
  rw [line, List.reverse_eq_nil_iff]

theorem gap_of_built {b : Body} (h : b.built = []) : b.gap = [] := by
  simp [gap, h]

theorem gap_of_space {b : Body} (h : b.space = false) : b.gap = [] := by
  simp [gap, h]

theorem gap_due {b : Body} (h : b.built ≠ []) : gap { b with space := true } = [' '] := by
  simp [gap, h]

theorem gap_eq_or (b : Body) : b.gap = [' '] ∧ b.space = true ∧ b.built ≠ [] ∨
    b.gap = [] ∧ (b.space = false ∨ b.built = []) := by
  by_cases hspace : b.space = true
  · by_cases hbuilt : b.built = []
    · exact .inr ⟨gap_of_built hbuilt, .inr hbuilt⟩
    · exact .inl ⟨by simp [gap, hspace, hbuilt], hspace, hbuilt⟩
  · have hspace : b.space = false := by simpa using hspace
    exact .inr ⟨gap_of_space hspace, .inl hspace⟩

theorem step_blank {c : Char} (hc : isBlank c) (rest : List Char) :
    b.step c rest = b.blankRun (c :: rest.takeWhile isBlank) :=
  if_pos hc

theorem step_quote (rest : List Char) : b.step '"' rest = b.literal '"' rest := by
  rw [step, if_neg (by decide), if_pos (by decide)]

theorem step_enclosed {c : Char} (hblank : isBlank c = false) (hquote : c ≠ '"')
    (hdepth : 0 < b.depth) (rest : List Char) : b.step c rest = b.enclosed c := by
  rw [step, if_neg (by simp [hblank]), if_neg (by simpa using hquote), if_pos hdepth]

theorem step_comment {c : Char} {rest : List Char} (hdepth : b.depth = 0)
    (hcomment : opensComment (c :: rest) = true) : b.step c rest = b.comment c rest := by
  have hc : isBlank c = false ∧ c ≠ '"' := by
    rcases (opensComment_cons c rest).1 hcomment with ⟨rfl, -⟩ | ⟨rfl, -⟩ <;> decide
  rw [step, if_neg (by simp [hc.1]), if_neg (by simpa using hc.2), if_neg (by omega),
    if_pos hcomment]

theorem step_statement {c : Char} {rest : List Char} (hblank : isBlank c = false)
    (hquote : c ≠ '"') (hdepth : b.depth = 0) (hcomment : ¬opensComment (c :: rest) = true) :
    b.step c rest = b.statement c rest := by
  rw [step, if_neg (by simp [hblank]), if_neg (by simpa using hquote), if_neg (by omega),
    if_neg hcomment]

/-- A character without a meaning of its own in a statement. -/
def isOrdinary (c : Char) : Bool :=
  !(['(', '[', ';', '=', '|', '\x7b', '\x7d'].contains c)

theorem statement_attribute {rest : List Char} (hrest : rest.head? = some '[')
    (hbuilt : b.built = []) : b.statement '#' rest = b.attributeLine rest := by
  rw [statement, if_pos]
  rw [hrest, hbuilt]
  rfl

theorem statement_bracket {c : Char} (hc : c = '(' ∨ c = '[') (rest : List Char) :
    b.statement c rest = ⟨{ b.push [c] with depth := b.depth + 1 }, [], 0⟩ := by
  rcases hc with rfl | rfl <;> rfl

theorem statement_equals (rest : List Char) : b.statement '=' rest = b.equals rest.head? := rfl

theorem statement_bar (rest : List Char) : b.statement '|' rest = b.bar rest.head? := rfl

theorem statement_openBrace (rest : List Char) :
    b.statement '\x7b' rest = b.openBrace rest := rfl

theorem statement_closeBrace (rest : List Char) :
    b.statement '\x7d' rest = b.closeBrace rest := rfl

theorem statement_ordinary {c : Char} (hc : isOrdinary c) {rest : List Char}
    (hattribute : ¬(c = '#' ∧ rest.head? = some '[' ∧ allBlank b.built)) :
    b.statement c rest = ⟨b.push [c], [], 0⟩ := by
  have hfirst : (c == '#' && rest.head? == some '[' && allBlank b.built) = false := by
    rw [Bool.eq_false_iff, ne_eq, Bool.and_eq_true, Bool.and_eq_true, beq_iff_eq, beq_iff_eq,
      and_assoc]
    exact hattribute
  simp only [isOrdinary, List.contains_cons, List.contains_nil, Bool.or_false, Bool.not_eq_true',
    Bool.or_eq_false_iff] at hc
  obtain ⟨hparen, hsquare, hsemicolon, hequals, hbar, hopen, hclose⟩ := hc
  rw [statement, hfirst, hparen, hsquare, hsemicolon, hequals, hbar, hopen, hclose]
  rfl

/-- An equals sign belongs to an operator in front of it or behind it. -/
def JoinsEquals (next : Option Char) : Prop :=
  next = some '=' ∨ b.lastChar?.any (['=', '!', '<', '>'].contains ·)

/-- A bar belongs to a bar in front of it or behind it. -/
def JoinsBar (next : Option Char) : Prop :=
  next = some '|' ∨ b.lastChar? = some '|'

/-- The characters that may follow a closing brace on its line. -/
def Follows (follower : Option Char) : Prop :=
  follower = some ';' ∨ follower = some ',' ∨ follower = some ')'

/-- Blank characters in brackets stay, but line feeds turn them into one space. -/
def kept (blanks : List Char) : List Char :=
  if blanks.contains '\n' then [' '] else blanks

/-- From the line `b` in front of a text, a step completes some lines and goes on with another
line in front of the rest of the text. -/
inductive Reads (b : Body) : List Char → List Line → Body → List Char → Prop
  | kept {blanks text : List Char} (hdepth : 0 < b.depth) (hne : blanks ≠ [])
      (hblanks : ∀ c ∈ blanks, isBlank c) (htext : ∀ c ∈ text.head?, isBlank c = false) :
      Reads b (blanks ++ text) [] (b.add (kept blanks)) text
  | spaces {blanks text : List Char} (hdepth : b.depth = 0) (hne : blanks ≠ [])
      (hblanks : ∀ c ∈ blanks, isBlank c) (htext : ∀ c ∈ text.head?, isBlank c = false)
      (hcount : blanks.count '\n' < 2) :
      Reads b (blanks ++ text) [] { b with space := true } text
  | breaks {blanks text : List Char} (hdepth : b.depth = 0)
      (hblanks : ∀ c ∈ blanks, isBlank c) (htext : ∀ c ∈ text.head?, isBlank c = false)
      (hcount : 2 ≤ blanks.count '\n') :
      Reads b (blanks ++ text) (b.pending ++ [.blank]) b.cleared text
  | literal {body text : List Char}
      (hbody : ∀ more, literalRest .inside (body ++ '"' :: more) = body ++ ['"']) :
      Reads b ('"' :: (body ++ '"' :: text)) [] (b.push ('"' :: (body ++ ['"']))) text
  | openLiteral {text : List Char} (hopen : OpenLiteral text) :
      Reads b ('"' :: text) [] (b.push ('"' :: text)) []
  | enclosed {c : Char} {text : List Char} (hdepth : 0 < b.depth) (hblank : isBlank c = false)
      (hquote : c ≠ '"') : Reads b (c :: text) [] (b.enclosed c).body text
  | comment {c : Char} {tail text : List Char} (hdepth : b.depth = 0) (hbuilt : b.built = [])
      (hcomment : opensComment (c :: (tail ++ text)) = true) (htail : '\n' ∉ tail)
      (htext : text = [] ∨ text.head? = some '\n') :
      Reads b (c :: (tail ++ text)) [.text b.level (trimEnd (c :: tail))] b text
  | commentBehind {c : Char} {tail text : List Char} (hdepth : b.depth = 0)
      (hbuilt : ¬allBlank b.built = true)
      (hcomment : opensComment (c :: (tail ++ text)) = true) (htail : '\n' ∉ tail)
      (htext : text = [] ∨ text.head? = some '\n') :
      Reads b (c :: (tail ++ text)) ({ b with space := true }.push (trimEnd (c :: tail))).pending
        b.cleared text
  | closedAttribute {inner text : List Char} (hdepth : b.depth = 0) (hbuilt : b.built = [])
      (hclosed : behindClosing .outside 0 inner = some []) :
      Reads b ('#' :: '[' :: (inner ++ text))
        [.text b.level (normalizeAttribute ('#' :: '[' :: inner))] b text
  | openAttribute {text : List Char} (hdepth : b.depth = 0) (hbuilt : b.built = [])
      (hopen : behindClosing .outside 0 text = none) :
      Reads b ('#' :: '[' :: text) [.text b.level (normalizeAttribute ('#' :: '[' :: text))] b []
  | bracket {c : Char} {text : List Char} (hdepth : b.depth = 0) (hc : c = '(' ∨ c = '[') :
      Reads b (c :: text) [] { b.push [c] with depth := b.depth + 1 } text
  | semicolon {text : List Char} (hdepth : b.depth = 0) :
      Reads b (';' :: text) ({ b with space := false }.push [';']).pending b.cleared text
  | arrow {text : List Char} (hdepth : b.depth = 0) :
      Reads b ('=' :: '>' :: text) [] (b.spaced ['=', '>']) text
  | joinedEquals {text : List Char} (hdepth : b.depth = 0) (hnext : text.head? ≠ some '>')
      (hjoins : b.JoinsEquals text.head?) : Reads b ('=' :: text) [] (b.push ['=']) text
  | equals {text : List Char} (hdepth : b.depth = 0) (hnext : text.head? ≠ some '>')
      (hjoins : ¬b.JoinsEquals text.head?) : Reads b ('=' :: text) [] (b.spaced ['=']) text
  | joinedBar {text : List Char} (hdepth : b.depth = 0) (hjoins : b.JoinsBar text.head?) :
      Reads b ('|' :: text) [] (b.push ['|']) text
  | bar {text : List Char} (hdepth : b.depth = 0) (hjoins : ¬b.JoinsBar text.head?) :
      Reads b ('|' :: text) [] (b.spaced ['|']) text
  | emptyBraces {blanks text : List Char} (hdepth : b.depth = 0)
      (hblanks : ∀ c ∈ blanks, isBlank c) :
      Reads b ('\x7b' :: (blanks ++ '\x7d' :: text)) []
        ({ b with space := true }.push ['\x7b', '\x7d']) text
  | openBrace {text : List Char} (hdepth : b.depth = 0)
      (htext : (visible text).head? ≠ some '\x7d') :
      Reads b ('\x7b' :: text) ({ b with space := true }.push ['\x7b']).pending
        { b.cleared with level := b.level + 1 } text
  | followedBrace {blanks : List Char} {c : Char} {text : List Char} (hdepth : b.depth = 0)
      (hblanks : ∀ c ∈ blanks, isBlank c) (hc : Follows (some c)) :
      Reads b ('\x7d' :: (blanks ++ c :: text)) b.pending
        ({ b.cleared with level := b.level - 1 }.push ['\x7d']) (c :: text)
  | closeBrace {text : List Char} (hdepth : b.depth = 0)
      (htext : ¬Follows (visible text).head?) :
      Reads b ('\x7d' :: text) (b.pending ++ [.text (b.level - 1) ['\x7d']])
        { b.cleared with level := b.level - 1 } text
  | ordinary {c : Char} {text : List Char} (hdepth : b.depth = 0) (hblank : isBlank c = false)
      (hquote : c ≠ '"') (hordinary : isOrdinary c)
      (hcomment : ¬opensComment (c :: text) = true)
      (hattribute : ¬(c = '#' ∧ text.head? = some '[' ∧ allBlank b.built)) :
      Reads b (c :: text) [] (b.push [c]) text

/-- One step at the front of a text. -/
def Steps (b : Body) (text : List Char) (lines : List Line) (b' : Body) (text' : List Char) :
    Prop :=
  ∃ c rest, text = c :: rest ∧ (b.step c rest).lines = lines ∧ (b.step c rest).body = b' ∧
    rest.drop (b.step c rest).taken = text'

theorem steps_of_eq {b b' : Body} {c : Char} {rest text' : List Char} {lines : List Line}
    (taken : Nat) (h : b.step c rest = ⟨b', lines, taken⟩) (hdrop : rest.drop taken = text') :
    b.Steps (c :: rest) lines b' text' :=
  ⟨c, rest, rfl, by rw [h], by rw [h], by rw [h]; exact hdrop⟩

theorem steps_blankRun {blanks text : List Char} (hne : blanks ≠ [])
    (hblanks : ∀ c ∈ blanks, isBlank c) (htext : ∀ c ∈ text.head?, isBlank c = false) {b' : Body}
    {lines : List Line} (h : b.blankRun blanks = ⟨b', lines, blanks.length - 1⟩) :
    b.Steps (blanks ++ text) lines b' text := by
  obtain ⟨c, more, rfl⟩ := List.exists_cons_of_ne_nil hne
  have hmore : (more ++ text).takeWhile isBlank = more :=
    takeWhile_append_of_head? (fun d hd => hblanks d (List.mem_cons_of_mem c hd)) htext
  rw [List.cons_append]
  refine steps_of_eq more.length ?_ List.drop_left
  rw [step_blank b (hblanks c List.mem_cons_self), hmore, h]
  rfl

theorem not_opensComment {c : Char} (hslash : c ≠ '/') (hhash : c ≠ '#') (rest : List Char) :
    ¬opensComment (c :: rest) = true := by
  rw [opensComment_cons]
  rintro (⟨rfl, -⟩ | ⟨rfl, -⟩)
  · exact hslash rfl
  · exact hhash rfl

/-- The signs that have a meaning of their own in a statement. -/
theorem step_sign {c : Char} (hc : isBlank c = false ∧ c ≠ '"' ∧ c ≠ '/' ∧ c ≠ '#')
    (hdepth : b.depth = 0) (rest : List Char) : b.step c rest = b.statement c rest :=
  step_statement b hc.1 hc.2.1 hdepth (not_opensComment hc.2.2.1 hc.2.2.2 rest)

theorem step_attribute (hdepth : b.depth = 0) (hbuilt : b.built = []) (rest : List Char) :
    b.step '#' ('[' :: rest) = b.attributeLine ('[' :: rest) := by
  have hcomment : ¬opensComment ('#' :: '[' :: rest) = true := Bool.false_ne_true
  rw [step_statement b (by decide) (by decide) hdepth hcomment, statement_attribute b rfl hbuilt]

/-- The rules describe steps. -/
theorem Reads.steps {b b' : Body} {text text' : List Char} {lines : List Line}
    (h : b.Reads text lines b' text') : b.Steps text lines b' text' := by
  cases h with
  | kept hdepth hne hblanks htext =>
    apply steps_blankRun b hne hblanks htext
    simp only [blankRun, Body.kept, hdepth, if_true]
    split <;> rfl
  | spaces hdepth hne hblanks htext hcount =>
    apply steps_blankRun b hne hblanks htext
    simp only [blankRun, hdepth, Nat.lt_irrefl, if_false, Nat.not_le_of_lt hcount]
  | breaks hdepth hblanks htext hcount =>
    refine steps_blankRun b ?_ hblanks htext ?_
    · rintro rfl
      simp at hcount
    · simp only [blankRun, hdepth, Nat.lt_irrefl, if_false, hcount, if_true]
  | @literal body behind hbody =>
    apply steps_of_eq ((body ++ ['"']).length)
    · rw [step_quote, Body.literal, hbody]
    · rw [List.append_cons body '"' text', List.drop_left]
  | @openLiteral rest hopen =>
    have hrest : literalRest .inside rest = rest := by
      have hall := hopen rest [] List.prefix_rfl (fun c hc => absurd hc List.not_mem_nil)
      rwa [List.append_nil] at hall
    refine steps_of_eq rest.length ?_ List.drop_length
    rw [step_quote, Body.literal, hrest]
  | enclosed hdepth hblank hquote =>
    exact steps_of_eq 0 (step_enclosed b hblank hquote hdepth _) rfl
  | @comment c tail _ hdepth hbuilt hcomment htail htext =>
    refine steps_of_eq tail.length ?_ List.drop_left
    have hbody : { b with built := [] } = b := by rw [← hbuilt]
    rw [step_comment b hdepth hcomment, Body.comment, firstLine_append htail htext, hbuilt]
    simp only [allBlank, List.all_nil, if_true, hbody]
  | @commentBehind c tail _ hdepth hbuilt hcomment htail htext =>
    refine steps_of_eq tail.length ?_ List.drop_left
    rw [step_comment b hdepth hcomment, Body.comment, firstLine_append htail htext, if_neg hbuilt]
    rfl
  | @closedAttribute inner _ hdepth hbuilt hclosed =>
    refine steps_of_eq (('[' :: inner).length) ?_ (by simp)
    obtain ⟨front, hsplit, htext⟩ :=
      splitClosing_of_behindClosing (behindClosing_append hclosed text')
    have hinner : front ++ [']'] = inner := by
      rw [List.nil_append, List.append_cons front, List.append_cancel_right_eq] at htext
      exact htext.symm
    have hbody : { b with built := [] } = b := by rw [← hbuilt]
    have hline : '[' :: front ++ [']'] = '[' :: inner := by rw [List.cons_append, hinner]
    rw [step_attribute b hdepth hbuilt, attributeLine, List.drop_one, List.tail_cons, hsplit]
    simp only [hline, hbody]
  | @openAttribute rest hdepth hbuilt hopen =>
    refine steps_of_eq (('[' :: rest).length) ?_ List.drop_length
    rw [behindClosing, Option.map_eq_none_iff] at hopen
    have hbody : { b with built := [] } = b := by rw [← hbuilt]
    rw [step_attribute b hdepth hbuilt, attributeLine, List.drop_one, List.tail_cons, hopen, hbody]
  | @bracket c _ hdepth hc =>
    have hsign : isBlank c = false ∧ c ≠ '"' ∧ c ≠ '/' ∧ c ≠ '#' := by
      rcases hc with rfl | rfl <;> decide
    exact steps_of_eq 0 ((step_sign b hsign hdepth _).trans (statement_bracket b hc _)) rfl
  | semicolon hdepth =>
    exact steps_of_eq 0 (step_sign b (by decide) hdepth _) rfl
  | arrow hdepth =>
    refine steps_of_eq 1 ?_ rfl
    rw [step_sign b (by decide) hdepth, statement_equals]
    exact if_pos rfl
  | joinedEquals hdepth hnext hjoins =>
    refine steps_of_eq 0 ?_ rfl
    rw [step_sign b (by decide) hdepth, statement_equals, Body.equals, if_neg hnext]
    exact if_pos hjoins
  | equals hdepth hnext hjoins =>
    refine steps_of_eq 0 ?_ rfl
    rw [step_sign b (by decide) hdepth, statement_equals, Body.equals, if_neg hnext]
    exact if_neg hjoins
  | joinedBar hdepth hjoins =>
    refine steps_of_eq 0 ?_ rfl
    rw [step_sign b (by decide) hdepth, statement_bar]
    exact if_pos hjoins
  | bar hdepth hjoins =>
    refine steps_of_eq 0 ?_ rfl
    rw [step_sign b (by decide) hdepth, statement_bar]
    exact if_neg hjoins
  | @emptyBraces blanks _ hdepth hblanks =>
    apply steps_of_eq (blanks.length + 1)
    · have htake : (blanks ++ '\x7d' :: text').takeWhile isBlank = blanks :=
        takeWhile_append_of_head? hblanks (fun c hc => by cases hc; decide)
      rw [step_sign b (by decide) hdepth, statement_openBrace, Body.openBrace, htake]
      simp only [List.drop_left, List.head?_cons, if_true]
    · rw [← List.drop_drop, List.drop_left]
      rfl
  | openBrace hdepth htext =>
    refine steps_of_eq 0 ?_ rfl
    rw [step_sign b (by decide) hdepth, statement_openBrace, Body.openBrace]
    simp only [head?_drop_blanks, htext, if_false]
    rfl
  | @followedBrace blanks c rest hdepth hblanks hc =>
    refine steps_of_eq blanks.length ?_ List.drop_left
    have hfirst : ∀ d ∈ (c :: rest).head?, isBlank d = false := by
      intro d hd
      cases hd
      rcases hc with hc | hc | hc
      all_goals
        rw [Option.some.inj hc]
        decide
    rw [step_sign b (by decide) hdepth, statement_closeBrace, Body.closeBrace,
      takeWhile_append_of_head? hblanks hfirst]
    simp only [List.drop_left, List.head?_cons]
    exact if_pos hc
  | closeBrace hdepth htext =>
    refine steps_of_eq 0 ?_ rfl
    rw [step_sign b (by decide) hdepth, statement_closeBrace, Body.closeBrace]
    simp only [head?_drop_blanks]
    exact if_neg htext
  | ordinary hdepth hblank hquote hordinary hcomment hattribute =>
    refine steps_of_eq 0 ?_ rfl
    rw [step_statement b hblank hquote hdepth hcomment, statement_ordinary b hordinary hattribute]

theorem exists_blanks_append (text : List Char) :
    ∃ blanks behind, text = blanks ++ behind ∧ (∀ c ∈ blanks, isBlank c) ∧
      (∀ c ∈ behind.head?, isBlank c = false) ∧ behind.head? = (visible text).head? := by
  have hhead := head?_drop_blanks text
  refine ⟨text.takeWhile isBlank, text.drop (text.takeWhile isBlank).length,
    (takeWhile_append_drop isBlank text).symm, List.all_eq_true.1 List.all_takeWhile, ?_, hhead⟩
  intro c hc
  rw [hhead] at hc
  have hmem : c ∈ visible text := List.mem_of_mem_head? hc
  simpa using (List.mem_filter.1 hmem).2

theorem exists_reads_blank {b : Body} {c : Char} (hc : isBlank c) (rest : List Char) :
    ∃ lines b' text', b.Reads (c :: rest) lines b' text' := by
  obtain ⟨blanks, text, hrest, hblanks, htext, -⟩ := exists_blanks_append rest
  have hall : ∀ d ∈ c :: blanks, isBlank d := by
    intro d hd
    rcases List.mem_cons.1 hd with rfl | hd
    · exact hc
    · exact hblanks d hd
  have hne : c :: blanks ≠ [] := List.cons_ne_nil c blanks
  rw [hrest, ← List.cons_append]
  rcases Nat.eq_zero_or_pos b.depth with hdepth | hdepth
  · by_cases hcount : (c :: blanks).count '\n' < 2
    · exact ⟨_, _, _, .spaces hdepth hne hall htext hcount⟩
    · exact ⟨_, _, _, .breaks hdepth hall htext (Nat.le_of_not_lt hcount)⟩
  · exact ⟨_, _, _, .kept hdepth hne hall htext⟩

theorem exists_reads_comment {b : Body} {c : Char} {rest : List Char} (hdepth : b.depth = 0)
    (hbuilt : allBlank b.built = true → b.built = [])
    (hcomment : opensComment (c :: rest) = true) :
    ∃ lines b' text', b.Reads (c :: rest) lines b' text' := by
  have hrest : rest = firstLine rest ++ rest.drop (firstLine rest).length :=
    (takeWhile_append_drop (· != '\n') rest).symm
  have hline : '\n' ∉ firstLine rest := by
    intro hmem
    have hne := List.all_eq_true.1 (List.all_takeWhile (p := (· != '\n')) (l := rest)) '\n' hmem
    simp at hne
  have htext : rest.drop (firstLine rest).length = [] ∨
      (rest.drop (firstLine rest).length).head? = some '\n' := by
    clear hrest hline hcomment
    induction rest with
    | nil => exact .inl rfl
    | cons d rest ih =>
      by_cases hd : d = '\n'
      · rw [hd]
        exact .inr rfl
      · rw [firstLine_cons hd]
        exact ih
  rw [hrest] at hcomment ⊢
  by_cases hblank : allBlank b.built = true
  · exact ⟨_, _, _, .comment hdepth (hbuilt hblank) hcomment hline htext⟩
  · exact ⟨_, _, _, .commentBehind hdepth hblank hcomment hline htext⟩

/-- Every sign that is neither blank nor starts a literal or a comment has a rule in a
statement. -/
theorem exists_reads_statement {b : Body} {c : Char} {rest : List Char} (hdepth : b.depth = 0)
    (hbuilt : allBlank b.built = true → b.built = []) (hblank : isBlank c = false)
    (hquote : c ≠ '"') (hcomment : ¬opensComment (c :: rest) = true) :
    ∃ lines b' text', b.Reads (c :: rest) lines b' text' := by
  by_cases hordinary : isOrdinary c
  · by_cases hattribute : c = '#' ∧ rest.head? = some '[' ∧ allBlank b.built = true
    · obtain ⟨rfl, hhead, hnone⟩ := hattribute
      obtain ⟨inner, rfl⟩ := List.head?_eq_some_iff.1 hhead
      cases hclosed : behindClosing .outside 0 inner with
      | none => exact ⟨_, _, _, .openAttribute hdepth (hbuilt hnone) hclosed⟩
      | some behind =>
        obtain ⟨front, rfl, hfront⟩ := exists_behindClosing_eq_nil hclosed
        exact ⟨_, _, _, .closedAttribute hdepth (hbuilt hnone) hfront⟩
    · exact ⟨_, _, _, .ordinary hdepth hblank hquote hordinary hcomment hattribute⟩
  · rw [isOrdinary, Bool.not_eq_true', Bool.not_eq_false] at hordinary
    have hsign := List.contains_iff_mem.1 hordinary
    simp only [List.mem_cons, List.not_mem_nil, or_false] at hsign
    rcases hsign with rfl | rfl | rfl | rfl | rfl | rfl | rfl
    · exact ⟨_, _, _, .bracket hdepth (.inl rfl)⟩
    · exact ⟨_, _, _, .bracket hdepth (.inr rfl)⟩
    · exact ⟨_, _, _, .semicolon hdepth⟩
    · by_cases hnext : rest.head? = some '>'
      · obtain ⟨behind, rfl⟩ := List.head?_eq_some_iff.1 hnext
        exact ⟨_, _, _, .arrow hdepth⟩
      · by_cases hjoins : b.JoinsEquals rest.head?
        · exact ⟨_, _, _, .joinedEquals hdepth hnext hjoins⟩
        · exact ⟨_, _, _, .equals hdepth hnext hjoins⟩
    · by_cases hjoins : b.JoinsBar rest.head?
      · exact ⟨_, _, _, .joinedBar hdepth hjoins⟩
      · exact ⟨_, _, _, .bar hdepth hjoins⟩
    · by_cases hclose : (visible rest).head? = some '\x7d'
      · obtain ⟨blanks, behind, rfl, hblanks, -, hhead⟩ := exists_blanks_append rest
        rw [hclose] at hhead
        obtain ⟨text, rfl⟩ := List.head?_eq_some_iff.1 hhead
        exact ⟨_, _, _, .emptyBraces hdepth hblanks⟩
      · exact ⟨_, _, _, .openBrace hdepth hclose⟩
    · by_cases hfollows : Follows (visible rest).head?
      · obtain ⟨blanks, behind, rfl, hblanks, -, hhead⟩ := exists_blanks_append rest
        rw [← hhead] at hfollows
        obtain ⟨follower, hfollower⟩ : ∃ d, behind.head? = some d := by
          rcases hfollows with h | h | h <;> exact ⟨_, h⟩
        obtain ⟨text, rfl⟩ := List.head?_eq_some_iff.1 hfollower
        exact ⟨_, _, _, .followedBrace hdepth hblanks hfollows⟩
      · exact ⟨_, _, _, .closeBrace hdepth hfollows⟩

/-- Some rule applies in front of every text, unless the line is empty to the eye only. -/
theorem exists_reads {b : Body} {text : List Char} (hne : text ≠ [])
    (hbuilt : allBlank b.built = true → b.built = []) :
    ∃ lines b' text', b.Reads text lines b' text' := by
  obtain ⟨c, rest, rfl⟩ := List.exists_cons_of_ne_nil hne
  by_cases hblank : isBlank c = true
  · exact exists_reads_blank hblank rest
  have hblank : isBlank c = false := by simpa using hblank
  by_cases hquote : c = '"'
  · subst hquote
    rcases literalRest_ends (q := .inside) (by decide) rest with ⟨body, behind, rfl, hbody⟩ | hopen
    · exact ⟨_, _, _, .literal hbody⟩
    · exact ⟨_, _, _, .openLiteral hopen⟩
  rcases Nat.eq_zero_or_pos b.depth with hdepth | hdepth
  · by_cases hcomment : opensComment (c :: rest) = true
    · exact exists_reads_comment hdepth hbuilt hcomment
    · exact exists_reads_statement hdepth hbuilt hblank hquote hcomment
  · exact ⟨_, _, _, .enclosed hdepth hblank hquote⟩

end Body

end LogScript.Layout
