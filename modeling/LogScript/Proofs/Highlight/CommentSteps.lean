import LogScript.Proofs.Highlight.Cover
import LogScript.Proofs.Highlight.Signs

/-!
Steps that agree with the reading of a text: a step takes a lexeme off the front, and what it calls a
comment is what the text is read as one. White space, comments, literals, numbers, words and single
characters are taken so.
-/

namespace LogScript.Highlight

/-- The characters that are marked as no comment. -/
def code (ms : List (Char × Mark)) : List Char :=
  (ms.filter (·.2 != .comment)).map (·.1)

theorem code_append (a b : List (Char × Mark)) : code (a ++ b) = code a ++ code b := by
  simp [code]

theorem code_map_code (text : List Char) : code (text.map (·, .code)) = text := by
  induction text with
  | nil => rfl
  | cons c rest ih =>
    have hrest : code ((c :: rest).map (·, Mark.code)) = c :: code (rest.map (·, Mark.code)) := rfl
    rw [hrest, ih]

namespace Reading

variable {l : Language} {ahead : Option Char} {r : Reading}

/-- Characters that do not change how the text is read. -/
theorem marks_steady (hr : r.isOpen) {front : List Char}
    (h : ∀ c ∈ front, ∀ ahead, r.next l c ahead = r) (behind : List Char) :
    marks l ahead r (front ++ behind) =
      (visible front).map (·, .code) ++ marks l ahead r behind := by
  have hmark : r.mark r = .code := by cases r <;> first | rfl | cases hr
  induction front with
  | nil => rfl
  | cons c front ih =>
    have hrest := ih fun d hd => h d (List.mem_cons_of_mem c hd)
    rw [List.cons_append, visible_cons]
    cases hc : isBlank c with
    | true =>
      rw [marks_cons_of_blank hc, h c List.mem_cons_self, hrest]
      simp [visible, hc]
    | false =>
      rw [marks_cons_of_not_blank hc, h c List.mem_cons_self, hrest, hmark]
      simp [visible, hc]

/-- A run has ended when a character follows that does not belong to it. -/
theorem marks_run {text : List Char} (h : Parted l text.head?) :
    marks l ahead .run text = marks l ahead .plain text := by
  cases text with
  | nil => rfl
  | cons c rest =>
    have hnext : ∀ ahead, next l .run c ahead = next l .plain c ahead :=
      fun _ => next_run_of_not (h c rfl)
    have hmark : ∀ r', mark .run r' = mark .plain r' := fun r' => by cases r' <;> rfl
    rw [marks, marks, hnext, hmark]

/-- A word or path in front of a text. -/
theorem marks_runChars {c : Char} {more behind : List Char}
    (hopens : next l .plain c ((more ++ behind).head?.or ahead) = .run)
    (hc : isBlank c = false) (hmore : ∀ d ∈ more, isRunChar l d)
    (hbehind : Parted l behind.head?) :
    marks l ahead .plain (c :: more ++ behind) =
      (c :: visible more).map (·, .code) ++ marks l ahead .plain behind := by
  have hsteady : ∀ d ∈ more, ∀ ahead, next l .run d ahead = .run := fun d hd _ => by
    rw [next, if_pos (hmore d hd)]
  rw [List.cons_append, marks_cons_of_not_blank hc, hopens, marks_steady rfl hsteady,
    marks_run hbehind]
  rfl

/-- A comment takes the rest of its line. -/
theorem code_comment (text : List Char) :
    code (marks l ahead .comment text) =
      code (marks l ahead .plain (text.drop (firstLine text).length)) := by
  induction text with
  | nil => rfl
  | cons c rest ih =>
    by_cases hc : c = '\n'
    · subst hc
      rw [firstLine_lineFeed, List.length_nil, List.drop_zero, marks_lineFeed, marks_lineFeed]
    · have hnext : ∀ ahead, next l .comment c ahead = .comment := fun _ => by
        rw [next, if_neg (by simpa using hc)]
      rw [firstLine_cons hc, List.length_cons, List.drop_succ_cons, ← ih, marks, hnext]
      cases isBlank c <;> rfl

theorem next_of_startsComment {c : Char} {rest : List Char} (h : startsComment (c :: rest)) :
    next l .plain c (rest.head?.or ahead) = .comment := by
  rw [startsComment, Bool.or_eq_true, beq_iff_eq, List.head?_cons, Option.some.injEq] at h
  rcases h with rfl | h
  · rfl
  · obtain ⟨behind, hbehind⟩ := List.isPrefixOf_iff_prefix.1 h
    cases hbehind
    rfl

theorem quote_char_ne (q : Quote) : q.char ≠ '\\' ∧ q.char ≠ '\n' := by
  cases q <;> decide

/-- A character in a literal, or its closing quote. -/
theorem code_cons_literal {q : Quote} {r' : Reading} {c : Char} {rest : List Char}
    (hr : r = .literal q ∨ r = .escaped q) (hnext : ∀ ahead, r.next l c ahead = r') :
    code (marks l ahead r (c :: rest)) = visible [c] ++ code (marks l ahead r' rest) := by
  have hmark : r.mark r' ≠ .comment := by
    rcases hr with rfl | rfl <;> cases r' <;> exact fun h => by cases h
  rw [marks, hnext, code_append]
  congr 1
  cases hc : isBlank c with
  | true => simp [visible, hc, code]
  | false => simp [visible, hc, code, hmark]

/-- A literal ends with its line, whatever is left of it. -/
theorem marks_behind_line {behind : List Char}
    (h : behind = [] ∨ behind.head? = some '\n') :
    marks l ahead r behind = marks l ahead .plain behind := by
  rcases h with rfl | h
  · rfl
  · obtain ⟨rest, rfl⟩ := List.head?_eq_some_iff.1 h
    rw [marks_lineFeed, marks_lineFeed]

/-- A literal goes on to its closing quote, or to the end of its line. -/
theorem code_literal (q : Quote) {behind : List Char}
    (hbehind : behind = [] ∨ behind.head? = some '\n') :
    ∀ line : List Char, '\n' ∉ line → code (marks l ahead (.literal q) (line ++ behind)) =
      visible (Run.literalTail q.char line) ++
        code (marks l ahead .plain
          ((line ++ behind).drop (Run.literalTail q.char line).length))
  | [], _ => congrArg code (marks_behind_line hbehind)
  | c :: rest, hline => by
    rw [List.mem_cons, not_or] at hline
    have hne : (c == '\n') = false := beq_false_of_ne fun heq => hline.1 heq.symm
    have hnext : ∀ ahead, next l (.literal q) c ahead =
        if c == '\\' then .escaped q else if c == q.char then .plain else .literal q :=
      fun _ => by rw [next, hne, if_neg Bool.false_ne_true]
    rw [List.cons_append, code_cons_literal (.inl rfl) hnext, Run.literalTail.eq_def]
    cases hslash : c == '\\' with
    | true =>
      cases rest with
      | nil =>
        simp only [hslash, if_true, List.nil_append, List.length_singleton, List.drop_succ_cons,
          List.drop_zero, marks_behind_line hbehind]
      | cons d rest =>
        rw [List.mem_cons, not_or] at hline
        have hescaped : ∀ ahead, next l (.escaped q) d ahead = .literal q := fun _ => by
          rw [next, if_neg (by simpa using fun heq => hline.2.1 heq.symm)]
        have ih := code_literal q hbehind rest hline.2.2
        simp only [hslash, if_true, List.cons_append, code_cons_literal (.inr rfl) hescaped, ih,
          List.length_cons, List.drop_succ_cons, ← List.append_assoc, ← visible_append]
        rfl
    | false =>
      cases hquote : c == q.char with
      | true =>
        simp only [hslash, hquote, Bool.false_eq_true, if_false, if_true]
        rfl
      | false =>
        have ih := code_literal q hbehind rest hline.2
        simp only [hslash, hquote, Bool.false_eq_true, if_false, ih, List.length_cons, List.drop_succ_cons,
          ← List.append_assoc, ← visible_append]
        rfl
termination_by line => line.length

end Reading

section Step

variable {σ : Type} {l : Language} {text lexeme : List Char} {category : Category} {state : σ}

/-- A step takes a lexeme off the front, and finds a comment exactly where the text is read as
one. -/
def AgreesWith (l : Language) (step : Step σ) (text : List Char) : Prop :=
  ∃ lexeme behind, lexeme ≠ [] ∧ text = lexeme ++ behind ∧ step.length = byteLength lexeme ∧
    code (marks l text) =
      (if step.category = .comment then [] else visible lexeme) ++ code (marks l behind)

/-- A lexeme that is no comment. -/
theorem agrees_take {behind : List Char} (hne : lexeme ≠ []) (htext : text = lexeme ++ behind)
    (hcategory : category ≠ .comment)
    (hcode : code (marks l text) = visible lexeme ++ code (marks l behind)) :
    AgreesWith l (Step.take lexeme category state) text :=
  ⟨lexeme, behind, hne, htext, rfl, by
    have hif : (if (Step.take lexeme category state).category = .comment then []
        else visible lexeme) = visible lexeme := if_neg hcategory
    rw [hif, hcode]⟩

/-- A lexeme all of whose characters leave the text plain. -/
theorem agrees_plain (hne : lexeme ≠ []) (hstarts : lexeme <+: text)
    (hcategory : category ≠ .comment)
    (h : ∀ c ∈ lexeme, ∀ ahead, Reading.next l .plain c ahead = .plain) :
    AgreesWith l (Step.take lexeme category state) text := by
  obtain ⟨behind, rfl⟩ := hstarts
  refine agrees_take hne rfl hcategory ?_
  rw [marks, Reading.marks_steady rfl h, code_append, code_map_code]
  rfl

theorem agrees_blanks {c : Char} (h : isBlank c) (rest : List Char) :
    AgreesWith l (Step.take (Run.blanks (c :: rest)) .unstyled state) (c :: rest) := by
  refine agrees_plain (by simp [Run.blanks, h]) (List.takeWhile_prefix isBlank) (by decide) ?_
  intro d hd _
  exact Reading.next_of_blank rfl (List.all_eq_true.1 List.all_takeWhile d hd)

theorem agrees_comment {c : Char} {rest : List Char} (h : startsComment (c :: rest)) :
    AgreesWith l (Step.take (firstLine (c :: rest)) .comment state) (c :: rest) := by
  refine ⟨_, (c :: rest).drop (firstLine (c :: rest)).length, firstLine_ne_nil h,
    (takeWhile_append_drop (· != '\n') (c :: rest)).symm, rfl, ?_⟩
  have hc : c ≠ '\n' := by
    rintro rfl
    exact firstLine_ne_nil h rfl
  have hif : (if (Step.take (firstLine (c :: rest)) .comment state).category = .comment then []
      else visible (firstLine (c :: rest))) = [] := if_pos rfl
  rw [hif, firstLine_cons hc, List.length_cons, List.drop_succ_cons, marks, Reading.marks,
    Reading.next_of_startsComment h, code_append, Reading.code_comment]
  cases isBlank c <;> rfl

theorem agrees_quoted {q : Quote} (rest : List Char) (hquote : quote? l q.char = some q) :
    AgreesWith l (Step.take (Run.quoted q.char (q.char :: rest)) .string state)
      (q.char :: rest) := by
  have hquoted : Run.quoted q.char (q.char :: rest) =
      q.char :: Run.literalTail q.char (firstLine rest) := by
    rw [Run.quoted, firstLine_cons (Reading.quote_char_ne q).2]
  have hnext : ∀ ahead, Reading.next l .plain q.char ahead = .literal q := fun _ => by
    have hcomment : (q.char == '#') = false ∧ (q.char == '/') = false := by cases q <;> decide
    rw [Reading.next, Reading.opening, hquote, hcomment.1, hcomment.2]
    rfl
  have hopen : ∀ ms, code ((q.char, Reading.mark .plain (.literal q)) :: ms) =
      visible [q.char] ++ code ms := fun ms => by cases q <;> rfl
  obtain ⟨behind, hrest, hline, hbehind⟩ := exists_firstLine_append rest
  have hcode : code (Reading.marks l none (.literal q) (firstLine rest ++ behind)) = _ :=
    Reading.code_literal q hbehind _ hline
  have hstarts : Run.literalTail q.char (firstLine rest) <+: rest :=
    (prefix_of_literalTail q.char (firstLine rest)).trans (List.takeWhile_prefix (· != '\n'))
  rw [← hrest] at hcode
  rw [hquoted]
  refine agrees_take (List.cons_ne_nil _ _)
    (congrArg (q.char :: ·) (List.prefix_iff_eq_append.1 hstarts).symm) (by decide) ?_
  rw [marks, Reading.marks_cons_of_not_blank (Reading.not_blank_quote q), hnext, visible_cons,
    hopen, hcode, List.append_assoc]
  rfl

theorem mem_pointGroups (limit : Nat) (text : List Char) :
    ∀ c ∈ Run.pointGroups limit text, c.isDigit ∨ c = '.' := by
  induction limit generalizing text with
  | zero => intro c hc; cases hc
  | succ limit ih =>
    intro c hc
    unfold Run.pointGroups at hc
    split at hc
    · split at hc
      · cases hc
      · rcases List.mem_append.1 hc with hc | hc
        · rcases List.mem_cons.1 hc with rfl | hc
          · exact .inr rfl
          · exact .inl (List.all_eq_true.1 List.all_takeWhile c hc)
        · exact ih _ c hc
    · cases hc

theorem mem_number {limit : Nat} {n : List Char} (h : Run.number limit text = some n) :
    ∀ c ∈ n, c.isDigit ∨ c = '-' ∨ c = '.' := by
  intro c hc
  rw [Run.number] at h
  split at h
  · cases h
  cases h
  rcases List.mem_append.1 hc with hc | hc
  · rcases List.mem_append.1 hc with hc | hc
    · split at hc
      · exact .inr (.inl (List.mem_singleton.1 hc))
      · cases hc
    · exact .inl (List.all_eq_true.1 List.all_takeWhile c hc)
  · exact (mem_pointGroups _ _ c hc).imp_right .inr

/-- One character that leaves the text plain in front of the next. -/
theorem agrees_single {c : Char} {rest : List Char} (hcategory : category ≠ .comment)
    (h : Reading.next l .plain c rest.head? = .plain) :
    AgreesWith l (Step.take [c] category state) (c :: rest) := by
  refine agrees_take (List.cons_ne_nil c []) rfl hcategory ?_
  rw [marks, Reading.marks, Option.or_none, h, code_append]
  congr 1
  cases hc : isBlank c <;> simp [visible, hc, code, Reading.mark]

end Step

theorem steady_of_mem_number (l : Language) {limit : Nat} {text n : List Char}
    (h : Run.number limit text = some n) : ∀ c ∈ n, Reading.Steady l c := by
  intro c hc
  rcases mem_number h c hc with hdigit | rfl | rfl
  · exact Reading.steady_of_digit l hdigit
  · exact Reading.steady_of_mem (by decide)
  · exact Reading.steady_of_mem (by decide)

theorem steady_oml_of_isWordChar {c : Char} (h : Run.isWordChar c) : Reading.Steady .oml c where
  hash := ne_of_accepts h (by decide)
  slash := ne_of_accepts h (by decide)
  quote := Reading.quote?_eq_none fun q => ne_of_accepts h (by cases q <;> decide)
  word := fun hl => by cases hl

theorem steady_oml_of_isOmlWordChar {c : Char} (h : isOmlWordChar c) : Reading.Steady .oml c := by
  rw [isOmlWordChar, Bool.or_eq_true, beq_iff_eq] at h
  rcases h with h | rfl
  · exact steady_oml_of_isWordChar h
  · exact Reading.steady_of_mem (by decide)

theorem ne_of_not_startsComment {c : Char} {rest : List Char}
    (h : ¬startsComment (c :: rest) = true) : c ≠ '#' ∧ (c = '/' → rest.head? ≠ some '/') := by
  refine ⟨?_, ?_⟩
  · rintro rfl
    exact h rfl
  · rintro rfl hhead
    obtain ⟨behind, rfl⟩ := List.head?_eq_some_iff.1 hhead
    exact h rfl

/-- A word or path in front of what is no part of it. -/
theorem agrees_run {σ : Type} {l : Language} {c : Char} {more rest : List Char}
    {category : Category} {state : σ} (hcategory : category ≠ .comment)
    (hopens : Reading.next l .plain c rest.head? = .run) (hc : isRunChar l c)
    (hmore : rest.takeWhile (isRunChar l) = more) :
    AgreesWith l (Step.take (c :: more) category state) (c :: rest) := by
  have hrest := takeWhile_append_drop (isRunChar l) rest
  rw [hmore] at hrest
  have hblank := Reading.not_blank_of_isRunChar hc
  have htext : c :: rest = (c :: more) ++ rest.drop more.length := congrArg (c :: ·) hrest.symm
  refine agrees_take (List.cons_ne_nil c more) htext hcategory ?_
  have hmarks : Reading.marks l none .plain (c :: more ++ rest.drop more.length) = _ :=
    Reading.marks_runChars (by rw [hrest, Option.or_none, hopens]) hblank
      (fun d hd => by rw [← hmore] at hd; exact List.all_eq_true.1 List.all_takeWhile d hd)
      (by rw [← hmore]; exact head?_drop_takeWhile _ rest)
  rw [List.cons_append, hrest] at hmarks
  rw [marks, hmarks, code_append, code_map_code, visible_cons]
  congr 2
  simp [visible, hblank]

end LogScript.Highlight
