import LogScript.Proofs.Layout.CallLines
import LogScript.Proofs.Layout.SqueezedLiterals

/-!
Literals that the layout of WPL takes for nothing else. The passes look for calls, for lines that
open an attribute or a tuple and for blank characters at the end of a line, and they look inside
literals as well. In a text whose literals hold none of these, the passes find only what stands
outside of them.
-/

namespace LogScript.Layout

/-- How a line starts that opens a block of its own: an attribute or a tuple. -/
def blockSigns : List (List Char) :=
  ["#[".toList, "(".toList]

/-- A literal without a call, whose lines do not open a block, but for the first, and do not end in
blank characters, but for the last. -/
def undisturbed (literal : List Char) : Bool :=
  (findCall? true literal).isNone &&
    (lines literal).tail.all (fun line => blockSigns.all fun sign => !sign.isPrefixOf (trimStart line)) &&
    (lines literal).dropLast.all (fun line => trimEnd line == line)

theorem undisturbed_iff {literal : List Char} : undisturbed literal = true ↔
    findCall? true literal = none ∧
      (∀ line ∈ (lines literal).tail, ∀ sign ∈ blockSigns, ¬sign <+: trimStart line) ∧
      ∀ line ∈ (lines literal).dropLast, trimEnd line = line := by
  simp only [undisturbed, Bool.and_eq_true, Option.isNone_iff_eq_none, List.all_eq_true,
    Bool.not_eq_true', beq_iff_eq, ← List.isPrefixOf_iff_prefix, Bool.not_eq_true, and_assoc]

/-- Every literal of the text is closed and undisturbed. -/
structure Calm (text : List Char) : Prop where
  closed : literalScan.past .outside text = .outside
  each : ∀ literal ∈ literals text, undisturbed literal = true

theorem Scan.Same.calm {a b : List Char} (h : literalScan.Same .outside a b) (ha : Calm a) :
    Calm b where
  closed := h.past.symm.trans ha.closed
  each := by
    rw [← h.literals]
    exact ha.each

section Calls

variable {front call rest text before inner : List Char} {bounded : Bool}

theorem not_mem_call (hcall : call ∈ splitCallNames) : '"' ∉ call := by
  have hcalls : ∀ call ∈ splitCallNames, '"' ∉ call := by decide
  exact hcalls call hcall

theorem findCall?_ne_none (hcall : call ∈ splitCallNames)
    (hname : ∀ c ∈ front.getLast?, isNameChar c = false) (hbounded : front = [] → bounded = true)
    (rest : List Char) : findCall? bounded (front ++ (call ++ rest)) ≠ none := by
  induction front generalizing bounded with
  | nil =>
    obtain rfl := hbounded rfl
    rw [List.nil_append, findCall?_call hcall]
    exact Option.some_ne_none _
  | cons c front ih =>
    intro hnone
    have hrest := (findCall?_cons_eq_none hnone).2
    refine ih (fun d hd => hname d ?_) (fun hnil => ?_) hrest
    · rw [List.getLast?_cons, Option.mem_def.1 hd]
      rfl
    · rw [hname c (by rw [hnil]; rfl)]
      rfl

theorem bounded_of_findCall? (h : findCall? bounded text = some ([], call, inner)) :
    bounded = true := by
  cases text with
  | nil => cases h
  | cons c text =>
    rcases findCall?_cons_cases h with ⟨hbounded, -, -⟩ | ⟨front, hfront, -, -⟩
    · exact hbounded
    · cases hfront

/-- No name runs up to a call. -/
theorem not_isNameChar_of_findCall? (h : findCall? bounded text = some (before, call, inner)) :
    ∀ c ∈ before.getLast?, isNameChar c = false := by
  induction text generalizing bounded before with
  | nil => cases h
  | cons d text ih =>
    rcases findCall?_cons_cases h with ⟨-, -, rfl⟩ | ⟨front, rfl, -, hrest⟩
    · exact fun c hc => by cases hc
    · cases front with
      | nil =>
        intro c hc
        cases hc
        simpa using bounded_of_findCall? hrest
      | cons e front =>
        rw [List.getLast?_cons_cons]
        exact ih hrest

/-- A call stands outside literals. -/
theorem Calm.past_call (h : Calm (front ++ (call ++ rest))) (hcall : call ∈ splitCallNames)
    (hname : ∀ c ∈ front.getLast?, isNameChar c = false) :
    literalScan.past .outside front = .outside := by
  refine Decidable.byContradiction fun hopen => ?_
  obtain ⟨outer, inner, rfl, hliteral⟩ := exists_literal_of_past hopen
  obtain ⟨hnone, -, -⟩ := undisturbed_iff.1 (h.each _ (hliteral (call ++ rest)))
  rw [(literalRest_append hopen (not_mem_call hcall) rest).1] at hnone
  refine findCall?_ne_none hcall (fun c hc => hname c ?_) (fun hnil => ?_) _ hnone
  · rw [List.getLast?_append, Option.mem_def.1 hc]
    rfl
  · cases hnil

end Calls

section Lines

variable {front indent sign rest : List Char} {c : Char}

theorem sign_cases (hsign : sign ∈ blockSigns) : '"' ∉ sign ∧ '\n' ∉ sign ∧
    ∃ c more, sign = c :: more ∧ isBlank c = false := by
  simp only [blockSigns, List.mem_cons, List.not_mem_nil, or_false] at hsign
  rcases hsign with rfl | rfl
  · exact ⟨by decide, by decide, '#', ['['], rfl, by decide⟩
  · exact ⟨by decide, by decide, '(', [], rfl, by decide⟩

/-- The end of a text is the end of the literal that is open there. -/
theorem getLast?_literal (outer inner : List Char) :
    (outer ++ '"' :: inner).getLast? = ('"' :: inner).getLast? := by
  rw [List.getLast?_append, List.getLast?_cons]
  rfl

/-- A line that opens a block, with its indentation. -/
theorem sign_prefix_firstLine (hsign : sign ∈ blockSigns) (hblank : ∀ c ∈ indent, isBlank c)
    (hindent : '\n' ∉ indent) (rest : List Char) :
    sign <+: trimStart (firstLine (indent ++ (sign ++ rest))) := by
  obtain ⟨-, hline, c, tail, hshape, hvisible⟩ := sign_cases hsign
  have hkept : ∀ {part : List Char}, '\n' ∉ part → ∀ c ∈ part, (c != '\n') = true :=
    fun hpart c hc => bne_iff_ne.2 fun heq => hpart (heq ▸ hc)
  have hfirst : firstLine (indent ++ (sign ++ rest)) = indent ++ (sign ++ firstLine rest) := by
    rw [firstLine, List.takeWhile_append_of_pos (hkept hindent),
      List.takeWhile_append_of_pos (hkept hline), firstLine]
  have hstart : trimStart (sign ++ firstLine rest) = sign ++ firstLine rest := by
    refine trimStart_of_head? fun d hd => ?_
    rw [hshape] at hd
    cases hd
    exact hvisible
  rw [hfirst, trimStart_append_of_blanks hblank, hstart]
  exact List.prefix_append sign _

/-- A line that a literal goes on to is a further line of it. -/
theorem firstLine_mem_tail_lines {more text : List Char} (h : text ≠ []) :
    firstLine text ∈ (lines ('"' :: (more ++ ['\n']) ++ text)).tail := by
  have hlines : lines ('"' :: (more ++ ['\n']) ++ text) =
      lines ('"' :: more ++ ['\n']) ++ lines text := by
    rw [← lines_append_lineFeed]
    simp
  rw [hlines, List.tail_append_of_ne_nil (lines_ne_nil (by simp))]
  exact List.mem_append_right _ (firstLine_mem_lines h)

/-- A line that opens a block starts outside literals. -/
theorem Calm.past_sign (h : Calm (front ++ (indent ++ (sign ++ rest)))) (hsign : sign ∈ blockSigns)
    (hblank : ∀ c ∈ indent, isBlank c) (hindent : '\n' ∉ indent)
    (hfront : ∀ c ∈ front.getLast?, c = '\n') : literalScan.past .outside front = .outside := by
  refine Decidable.byContradiction fun hopen => ?_
  obtain ⟨outer, inner, rfl, hliteral⟩ := exists_literal_of_past hopen
  obtain ⟨hquote, -, c, tail, hshape, -⟩ := sign_cases hsign
  obtain ⟨-, hopens, -⟩ := undisturbed_iff.1 (h.each _ (hliteral (indent ++ (sign ++ rest))))
  have hquotes : '"' ∉ indent ++ sign := by
    rw [List.mem_append, not_or]
    exact ⟨fun hmem => absurd (hblank _ hmem) (by decide), hquote⟩
  rw [← List.append_assoc, (literalRest_append hopen hquotes rest).1, List.append_assoc] at hopens
  -- The literal has a line in front of this one, on which it starts.
  rw [getLast?_literal] at hfront
  obtain ⟨more, rfl⟩ : ∃ more, inner = more ++ ['\n'] := by
    rcases List.eq_nil_or_concat inner with rfl | ⟨more, c, rfl⟩
    · exact absurd (hfront '"' rfl) (by decide)
    · rw [List.concat_eq_append] at hfront ⊢
      exact ⟨more, by rw [hfront c (by simp [List.getLast?_cons])]⟩
  generalize literalRest _ rest = behind at hopens
  exact hopens _ (firstLine_mem_tail_lines (by rw [hshape]; simp)) sign hsign
    (sign_prefix_firstLine hsign hblank hindent behind)

/-- The end of a text is that of its last line, unless it is a line feed. -/
theorem exists_lastLine {text : List Char} (hc : c ∈ text.getLast?) (hline : c ≠ '\n') :
    ∃ last ∈ lines (text ++ ['\n']), c ∈ last.getLast? := by
  rcases lastLine_cases text with hone | ⟨more, last, hlast, rfl⟩
  · exact ⟨text, by rw [lines_of_not_mem hone]; exact List.mem_cons_self, hc⟩
  · refine ⟨last, ?_, ?_⟩
    · rw [List.append_assoc, List.cons_append, lines_append_lineFeed, lines_of_not_mem hlast]
      exact List.mem_append_right _ List.mem_cons_self
    · rw [List.getLast?_append, List.getLast?_cons] at hc
      cases hend : last.getLast? with
      | none =>
        rw [hend] at hc
        exact absurd (Option.mem_some_iff.1 hc).symm hline
      | some d =>
        rw [hend] at hc
        exact hc

/-- No line of a literal that goes on ends in a blank character. -/
theorem Calm.not_blank (h : Calm (front ++ '\n' :: rest))
    (hopen : literalScan.past .outside front ≠ .outside) (hc : c ∈ front.getLast?) (hline : c ≠ '\n') :
    isBlank c = false := by
  obtain ⟨outer, inner, rfl, hliteral⟩ := exists_literal_of_past hopen
  obtain ⟨-, -, hends⟩ := undisturbed_iff.1 (h.each _ (hliteral ('\n' :: rest)))
  obtain ⟨hrest, hpast⟩ := literalRest_append hopen (show '"' ∉ ['\n'] by decide) rest
  have hbehind : rest ≠ [] := by
    rintro rfl
    refine hpast ?_
    rw [← Scan.past_append]
    exact h.closed
  rw [List.singleton_append, List.singleton_append] at hrest
  rw [hrest, lines_append_lineFeed, List.dropLast_append_of_ne_nil (lines_ne_nil ?_)] at hends
  · rw [getLast?_literal] at hc
    obtain ⟨last, hmem, hlast⟩ := exists_lastLine hc hline
    have htrim := hends last (List.mem_append_left _ hmem)
    exact getLast?_trimEnd last c (by rw [htrim]; exact hlast)
  · obtain ⟨d, rest, rfl⟩ := List.exists_cons_of_ne_nil hbehind
    rw [literalRest]
    split <;> exact List.cons_ne_nil _ _

end Lines

end LogScript.Layout
