import LogScript.Proofs.Layout.SplitLiterals

/-!
Literals in the layout of WPL. If every literal of a document is closed and none holds what the passes
look for, those outside attributes come out as they are, and those in an attribute that opens a line
come out squeezed, as the attribute is folded word by word. So the layout keeps all literals exactly if
those in such attributes have single spaces only.
-/

namespace LogScript.Layout

/-- An attribute at the front of a text: what is in its brackets, and what stands behind it. -/
def attribute? : List Char → Option (List Char × List Char)
  | '#' :: '[' :: body => splitClosing '[' ']' .outside 0 body
  | _ => none

section Attributes

variable {text inner after : List Char}

theorem eq_of_attribute? (h : attribute? text = some (inner, after)) :
    text = "#[".toList ++ (inner ++ ']' :: after) := by
  unfold attribute? at h
  split at h
  · rw [eq_of_splitClosing h]
    rfl
  · cases h

/-- A line that opens with an attribute, from its indentation on. -/
theorem eq_indent_append_of_attribute?
    (h : attribute? (text.drop (indentOf (firstLine text)).length) = some (inner, after)) :
    indentOf (firstLine text) ++ ("#[".toList ++ (inner ++ ']' :: after)) = text ∧
      '\n' ∉ indentOf (firstLine text) := by
  obtain ⟨_, -, hline, -⟩ := exists_firstLine_append text
  refine ⟨?_, fun hmem => hline ((List.takeWhile_prefix _).subset hmem)⟩
  rw [← eq_of_attribute? h]
  exact List.prefix_iff_eq_append.1 ((List.takeWhile_prefix _).trans (List.takeWhile_prefix _))

theorem past_of_attribute? (h : attribute? text = some (inner, after)) :
    literalScan.past .outside inner = .outside := by
  unfold attribute? at h
  split at h
  · exact past_of_splitClosing h
  · cases h

theorem foldAttribute?_eq (text : List Char) :
    foldAttribute? text = (attribute? text).map fun (inner, after) =>
      let tail := trim (firstLine after)
      let gap := if tail.isEmpty then [] else [' ']
      ("#[".toList ++ squeeze inner ++ [']'] ++ gap ++ tail, afterFirstLine after) := by
  unfold foldAttribute?
  split
  · rfl
  · rename_i hother
    have hnone : attribute? text = none := by
      unfold attribute?
      split
      · exact absurd rfl (hother _)
      · rfl
    rw [hnone]
    rfl

theorem length_lt_of_attribute? (h : attribute? text = some (inner, after)) :
    (afterFirstLine after).length < text.length := by
  rw [eq_of_attribute? h]
  simp only [afterFirstLine, List.length_drop, List.length_append, List.length_cons]
  omega

/-- What is in the brackets of the attributes that open a line. -/
def attributes (text : List Char) : List (List Char) :=
  match text with
  | [] => []
  | c :: more =>
    match _ : attribute? ((c :: more).drop (indentOf (firstLine (c :: more))).length) with
    | some (inner, after) => inner :: attributes (afterFirstLine after)
    | none => attributes (afterFirstLine (c :: more))
termination_by text.length
decreasing_by
  · have := length_lt_of_attribute? ‹_›
    simp only [List.length_drop] at this
    omega
  · simp only [afterFirstLine, List.length_drop, List.length_cons]
    omega

theorem attributes_of_some {c : Char} {more : List Char}
    (h : attribute? ((c :: more).drop (indentOf (firstLine (c :: more))).length) =
      some (inner, after)) :
    attributes (c :: more) = inner :: attributes (afterFirstLine after) := by
  rw [attributes.eq_def]
  dsimp only
  split
  · rename_i hsome
    cases h.symm.trans hsome
    rfl
  · rename_i hnone
    cases h.symm.trans hnone

theorem attributes_of_none {c : Char} {more : List Char}
    (h : attribute? ((c :: more).drop (indentOf (firstLine (c :: more))).length) = none) :
    attributes (c :: more) = attributes (afterFirstLine (c :: more)) := by
  rw [attributes.eq_def]
  dsimp only
  split
  · rename_i hsome
    cases h.symm.trans hsome
  · rfl

end Attributes

/-- A literal as folding leaves it; the flag tells that it is in an attribute. -/
def foldedLiteral (literal : Bool × List Char) : List Char :=
  if literal.1 then squeeze literal.2 else literal.2

/-- Two texts that start alike have the same literals, but for those in attributes, which are squeezed
in the second text. -/
structure Folds (q : Quoting) (a b : List Char) (fs : List (Bool × List Char)) : Prop where
  before : literalScan.partsFrom q a = fs.map Prod.snd
  behind : literalScan.partsFrom q b = fs.map foldedLiteral
  /-- No attribute starts inside a literal. -/
  first : q ≠ .outside → ∀ f ∈ fs.head?, f.1 = false
  past : literalScan.past q a = literalScan.past q b

/-- The literals in attributes. -/
def inAttributes (fs : List (Bool × List Char)) : List (List Char) :=
  (fs.filter Prod.fst).map Prod.snd

section Folds

variable {q : Quoting} {a a' b b' inner : List Char} {fs : List (Bool × List Char)}

theorem Folds.same (h : Folds q a b fs) (ha : literalScan.Same q a a') (hb : literalScan.Same q b b') :
    Folds q a' b' fs where
  before := ha.partsFrom.symm.trans h.before
  behind := hb.partsFrom.symm.trans h.behind
  first := h.first
  past := ha.past.symm.trans (h.past.trans hb.past)

theorem Folds.cons {c : Char} (h : Folds (literalScan.next q c) a b fs) :
    ∃ fs', Folds q (c :: a) (c :: b) fs' ∧ inAttributes fs' = inAttributes fs := by
  have hpast : literalScan.past q (c :: a) = literalScan.past q (c :: b) := h.past
  by_cases hnext : literalScan.next q c = .outside
  · rw [hnext] at h
    by_cases hq : q = .outside
    · subst hq
      have hliteral := fun text => literals_of_idle hnext text
      exact ⟨fs, ⟨(hliteral a).trans h.before, (hliteral b).trans h.behind,
        fun hne => absurd rfl hne, hpast⟩, rfl⟩
    · refine ⟨(false, [c]) :: fs, ⟨?_, ?_, fun _ f hf => by cases hf; rfl, hpast⟩, rfl⟩
      · rw [Scan.partsFrom_of_closes hq hnext]
        exact congrArg ([c] :: ·) h.before
      · rw [Scan.partsFrom_of_closes hq hnext]
        exact congrArg ([c] :: ·) h.behind
  · cases fs with
    | nil =>
      refine ⟨[(false, [c])], ⟨?_, ?_, fun _ f hf => by cases hf; rfl, hpast⟩, rfl⟩
      · rw [Scan.partsFrom_of_opens hnext, h.before]
        rfl
      · rw [Scan.partsFrom_of_opens hnext, h.behind]
        rfl
    | cons f fs =>
      obtain ⟨flag, part⟩ := f
      obtain rfl : flag = false := h.first hnext _ rfl
      refine ⟨(false, c :: part) :: fs, ⟨?_, ?_, fun _ f hf => by cases hf; rfl, hpast⟩, rfl⟩
      · rw [Scan.partsFrom_of_opens hnext, h.before]
        rfl
      · rw [Scan.partsFrom_of_opens hnext, h.behind]
        rfl

/-- What stands in front of both texts alike. -/
theorem Folds.append_left (front : List Char) (h : Folds (literalScan.past q front) a b fs) :
    ∃ fs', Folds q (front ++ a) (front ++ b) fs' ∧ inAttributes fs' = inAttributes fs := by
  induction front generalizing q with
  | nil => exact ⟨fs, h, rfl⟩
  | cons c front ih =>
    obtain ⟨fs₁, hfront, hsame⟩ := ih h
    obtain ⟨fs₂, hcons, hsame'⟩ := hfront.cons
    exact ⟨fs₂, hcons, hsame'.trans hsame⟩

theorem folds_nil : Folds .outside [] [] [] :=
  ⟨rfl, rfl, fun h => absurd rfl h, rfl⟩

/-- What is in the brackets of an attribute. -/
theorem Folds.attribute (h : Folds .outside a b fs)
    (hinner : literalScan.past .outside inner = .outside) :
    Folds .outside (inner ++ a) (squeeze inner ++ b) ((literals inner).map (true, ·) ++ fs) where
  before := by
    rw [Scan.partsFrom_append hinner, List.map_append, List.map_map, ← h.before]
    exact congrArg (· ++ _) (List.map_id' _).symm
  behind := by
    obtain ⟨hliterals, hpast⟩ := literals_squeeze hinner
    rw [Scan.partsFrom_append hpast, List.map_append, List.map_map, ← h.behind]
    exact congrArg (· ++ _) hliterals
  first := fun hq => absurd rfl hq
  past := by rw [Scan.past_append, Scan.past_append, hinner, (literals_squeeze hinner).2, h.past]

theorem inAttributes_append (inner : List (List Char)) (fs : List (Bool × List Char)) :
    inAttributes (inner.map (true, ·) ++ fs) = inner ++ inAttributes fs := by
  have hall : (inner.map (true, ·)).filter Prod.fst = inner.map (true, ·) :=
    List.filter_eq_self.2 fun f hf => by
      obtain ⟨literal, -, rfl⟩ := List.mem_map.1 hf
      rfl
  rw [inAttributes, List.filter_append, hall, List.map_append, List.map_map]
  exact congrArg (· ++ _) (List.map_id' _)

/-- Exactly if each literal in an attribute is squeezed already, nothing happens to the literals. -/
theorem Folds.literals_eq_iff (h : Folds .outside a b fs) :
    literals b = literals a ↔ ∀ literal ∈ inAttributes fs, squeeze literal = literal := by
  have hbefore : literals a = fs.map Prod.snd := h.before
  have hbehind : literals b = fs.map foldedLiteral := h.behind
  rw [hbefore, hbehind, List.map_inj_left]
  simp only [inAttributes, List.mem_map, List.mem_filter, foldedLiteral]
  constructor
  · rintro hsame literal ⟨f, ⟨hmem, hflag⟩, rfl⟩
    have hf := hsame f hmem
    rwa [if_pos hflag] at hf
  · intro hsqueezed f hmem
    split
    · rename_i hflag
      exact hsqueezed f.2 ⟨f, ⟨hmem, hflag⟩, rfl⟩
    · rfl

theorem undisturbed_squeeze {literal : List Char} (h : undisturbed literal = true) :
    undisturbed (squeeze literal) = true := by
  obtain ⟨hcall, -, -⟩ := undisturbed_iff.1 h
  have hlines : (lines (squeeze literal)).tail = [] ∧ (lines (squeeze literal)).dropLast = [] := by
    by_cases hnil : squeeze literal = []
    · rw [hnil]
      exact ⟨rfl, rfl⟩
    · rw [lines_of_one hnil (lineFeed_not_mem_squeeze literal).1]
      exact ⟨rfl, rfl⟩
  rw [undisturbed_iff, hlines.1, hlines.2]
  exact ⟨(findCall?_squeeze literal).2 hcall, fun _ hl => absurd hl List.not_mem_nil,
    fun _ hl => absurd hl List.not_mem_nil⟩

theorem Folds.calm (h : Folds .outside a b fs) (ha : Calm a) : Calm b where
  closed := h.past.symm.trans ha.closed
  each := by
    have hbefore : literals a = fs.map Prod.snd := h.before
    have hbehind : literals b = fs.map foldedLiteral := h.behind
    rw [hbehind, List.forall_mem_map]
    intro f hf
    have hundisturbed : undisturbed f.2 = true := by
      refine ha.each f.2 ?_
      rw [hbefore]
      exact List.mem_map_of_mem hf
    rw [foldedLiteral]
    split
    · exact undisturbed_squeeze hundisturbed
    · exact hundisturbed

end Folds

section Documents

variable {q : Quoting} {front text indent inner after line a b : List Char}
  {fs : List (Bool × List Char)}

/-- An attribute that opens a line, and what stands behind it on the line. -/
theorem Folds.attributeLine (h : Folds (literalScan.past .outside (line ++ ['\n'])) a b fs)
    (hblank : ∀ c ∈ indent, isBlank c) (hinner : literalScan.past .outside inner = .outside)
    (hline : literalScan.past .outside line = .outside ∨ ∀ c ∈ line.getLast?, isBlank c = false) :
    ∃ fs', Folds .outside (indent ++ ("#[".toList ++ (inner ++ ([']'] ++ (line ++ ['\n'] ++ a)))))
        (indent ++ ("#[".toList ++ (squeeze inner ++ ([']'] ++
          ((if (trim line).isEmpty then [] else [' ']) ++ trim line ++ ['\n'] ++ b))))) fs' ∧
      inAttributes fs' = literals inner ++ inAttributes fs := by
  have htrim : literalScan.Same .outside line
      ((if (trim line).isEmpty then [] else [' ']) ++ trim line) := by
    refine (Scan.same_trim hline).trans (Scan.same_blanks_append (fun c hc => ?_) _).symm
    split at hc
    · cases hc
    · exact blank_of_mem_space c hc
  obtain ⟨fs₁, hbehind, hfs₁⟩ := Folds.append_left (q := .outside) (line ++ ['\n']) h
  have htrimmed := hbehind.same (.refl _ _) ((htrim.append_right ['\n']).append_right b)
  obtain ⟨fs₂, hclosing, hfs₂⟩ := Folds.append_left (q := .outside) [']'] htrimmed
  obtain ⟨fs₃, hopening, hfs₃⟩ :=
    Folds.append_left (q := .outside) "#[".toList (hclosing.attribute hinner)
  have hindent : literalScan.past .outside indent = .outside := Scan.past_blanks hblank
  obtain ⟨fs₄, hwhole, hfs₄⟩ := Folds.append_left (q := .outside) indent (hindent.symm ▸ hopening)
  exact ⟨fs₄, hwhole, by rw [hfs₄, hfs₃, inAttributes_append, hfs₂, hfs₁]⟩

/-- An attribute that opens a line stands outside literals, and what stands behind it as well. -/
theorem Calm.past_attribute
    (h : Calm (front ++ (indent ++ ("#[".toList ++ (inner ++ ']' :: after)))))
    (hblank : ∀ c ∈ indent, isBlank c) (hindent : '\n' ∉ indent)
    (hfront : ∀ c ∈ front.getLast?, c = '\n') (hinner : literalScan.past .outside inner = .outside) :
    literalScan.past .outside front = .outside ∧
      literalScan.past .outside (front ++ indent ++ "#[".toList ++ inner ++ [']']) = .outside := by
  have hopen := h.past_sign List.mem_cons_self hblank hindent hfront
  have hsign : literalScan.past .outside "#[".toList = .outside := rfl
  refine ⟨hopen, ?_⟩
  rw [Scan.past_append, Scan.past_append, Scan.past_append, Scan.past_append, hopen,
    Scan.past_blanks hblank, hsign, hinner]
  rfl

/-- An attribute that opens the last line. -/
theorem Calm.folds_lastLine
    (h : Calm (front ++ (indent ++ ("#[".toList ++ (inner ++ ']' :: after)))))
    (hblank : ∀ c ∈ indent, isBlank c) (hindent : '\n' ∉ indent)
    (hfront : ∀ c ∈ front.getLast?, c = '\n') (hinner : literalScan.past .outside inner = .outside) :
    ∃ fs, Folds .outside (indent ++ ("#[".toList ++ (inner ++ ']' :: after)))
        (indent ++ ("#[".toList ++ (squeeze inner ++ ([']'] ++
          ((if (trim after).isEmpty then [] else [' ']) ++ trim after ++ ['\n'] ++ []))))) fs ∧
      inAttributes fs = literals inner := by
  obtain ⟨hopen, hbrackets⟩ := h.past_attribute hblank hindent hfront hinner
  have hclosed := h.closed
  have hfeed := same_append_lineFeed ((literalScan.past_append _ _ _).symm.trans hclosed)
  rw [← List.append_assoc, ← List.append_assoc, ← List.append_assoc, List.append_cons,
    Scan.past_append, hbrackets] at hclosed
  have hnone : Folds (literalScan.past .outside (after ++ ['\n'])) [] [] [] := by
    rw [Scan.past_append, hclosed]
    exact folds_nil
  obtain ⟨fs, hwhole, hfs⟩ := hnone.attributeLine hblank hinner (.inl hclosed)
  have hshape : indent ++ ("#[".toList ++ (inner ++ ([']'] ++ (after ++ ['\n'] ++ [])))) =
      indent ++ ("#[".toList ++ (inner ++ ']' :: after)) ++ ['\n'] := by
    simp
  rw [hopen] at hfeed
  rw [hshape] at hwhole
  exact ⟨fs, hwhole.same hfeed.symm (.refl _ _), hfs.trans (List.append_nil _)⟩

/-- Folding attributes squeezes the literals in them. The text stands behind a line feed, or nothing. -/
theorem Calm.folds (h : Calm (front ++ text)) (hfront : ∀ c ∈ front.getLast?, c = '\n') :
    ∃ fs, Folds (literalScan.past .outside front) text (foldAttributes text) fs ∧
      inAttributes fs = (attributes text).flatMap literals := by
  revert front
  induction text using foldAttributes.induct with
  | case1 =>
    intro front h _
    have hclosed := h.closed
    rw [List.append_nil] at hclosed
    rw [hclosed, foldAttributes, attributes]
    exact ⟨[], folds_nil, rfl⟩
  | case2 c more line indent folded rest hfold =>
    rename_i ih
    intro front h hfront
    obtain ⟨⟨inner, after⟩, hattribute, hpair⟩ := Option.map_eq_some_iff.1
      ((foldAttribute?_eq _).symm.trans hfold)
    cases hpair
    have hinner := past_of_attribute? hattribute
    have hblank := blank_of_mem_indentOf line
    obtain ⟨htext, hline⟩ := eq_indent_append_of_attribute? hattribute
    change indent ++ _ = _ at htext
    rw [← htext] at h
    obtain ⟨hopen, hbrackets⟩ := h.past_attribute hblank hline hfront hinner
    rw [foldAttributes_of_fold hfold, attributes_of_some hattribute, hopen, List.flatMap_cons]
    change ∃ fs, Folds .outside (c :: more) (indent ++ _ ++ _) fs ∧ _
    rw [← htext]
    rcases line_cases after with hlast | ⟨behind, more, hbehind, rfl⟩
    · obtain ⟨hfirst, hafter⟩ := firstLine_of_not_mem hlast
      obtain ⟨fs, hwhole, hfs⟩ := h.folds_lastLine hblank hline hfront hinner
      rw [hfirst, hafter, foldAttributes, attributes]
      exact ⟨fs, by simpa using hwhole, hfs.trans (List.append_nil _).symm⟩
    · obtain ⟨hfirst, hafter⟩ := firstLine_append_lineFeed hbehind more
      rw [hafter] at ih
      rw [hfirst, hafter]
      have hcalm :
          Calm (front ++ indent ++ "#[".toList ++ inner ++ [']'] ++ behind ++ '\n' :: more) := by
        simpa using h
      have hends := hcalm.line_ends hbrackets fun _ c hc heq => hbehind (heq ▸ List.mem_of_getLast? hc)
      rw [List.append_cons] at hcalm
      obtain ⟨fs, hrest, hfs⟩ := ih hcalm fun _ => eq_lineFeed_of_getLast?
      rw [List.append_assoc, Scan.past_append, hbrackets] at hrest
      obtain ⟨fs', hwhole, hfs'⟩ := hrest.attributeLine hblank hinner hends
      exact ⟨fs', by simpa using hwhole, by rw [hfs', hfs]⟩
  | case3 c more line indent hfold =>
    rename_i ih
    intro front h hfront
    have hattribute : attribute? ((c :: more).drop indent.length) = none := by
      rw [foldAttribute?_eq] at hfold
      exact Option.map_eq_none_iff.1 hfold
    rw [foldAttributes_of_none hfold, attributes_of_none hattribute]
    rcases line_cases (c :: more) with hline | ⟨line, rest, hline, htext⟩
    · obtain ⟨hfirst, hafter⟩ := firstLine_of_not_mem hline
      have hclosed := h.closed
      rw [Scan.past_append] at hclosed
      have hnone :
          Folds (literalScan.past (literalScan.past .outside front) (c :: more)) [] [] [] := by
        rw [hclosed]
        exact folds_nil
      obtain ⟨fs, hfolds, hfs⟩ := hnone.append_left
      rw [hfirst, hafter, foldAttributes, attributes]
      rw [List.append_nil] at hfolds
      exact ⟨fs, hfolds.same (.refl _ _) (same_append_lineFeed hclosed), hfs⟩
    · obtain ⟨hfirst, hafter⟩ := firstLine_append_lineFeed hline rest
      rw [htext, hafter] at ih
      rw [htext] at h
      rw [htext, hfirst, hafter]
      rw [← List.append_assoc, List.append_cons] at h
      obtain ⟨fs₁, hrest, hfs₁⟩ := ih h fun _ => eq_lineFeed_of_getLast?
      rw [List.append_assoc, Scan.past_append] at hrest
      obtain ⟨fs₂, hwhole, hfs₂⟩ := hrest.append_left
      exact ⟨fs₂, by simpa using hwhole, hfs₂.trans hfs₁⟩

/-- A document whose literals are all closed and undisturbed has as many of them when it is laid out,
and the same ones exactly if those in the attributes that open a line are squeezed already. -/
theorem literals_formatWpl_iff {text : List Char} (hreturn : '\r' ∉ text)
    (hclosed : literalScan.past .outside text = .outside)
    (hundisturbed : ∀ literal ∈ literals text, undisturbed literal = true) :
    literalScan.past .outside (formatWpl text) = .outside ∧
      (literals (formatWpl text) = literals text ↔
        ∀ inner ∈ attributes text, ∀ literal ∈ literals inner, squeeze literal = literal) := by
  have h : Calm ([] ++ text) := ⟨hclosed, hundisturbed⟩
  obtain ⟨fs, hfolds, hheld⟩ := h.folds fun c hc => by cases hc
  have hfolded : Calm ([] ++ foldAttributes text) := hfolds.calm h
  have hcalls := hfolded.same_splitCalls fun c hc => by cases hc
  have hlines : literalScan.Same .outside (splitCalls (foldAttributes text))
      ((lines (splitCalls (foldAttributes text))).flatMap (· ++ ['\n'])) := by
    rcases flatMap_lines_cases (splitCalls (foldAttributes text)) with hsame | hsame
    · rw [hsame]
      exact .refl _ _
    · rw [hsame]
      exact same_append_lineFeed (hcalls.past.symm.trans hfolded.closed)
  have hcalm := (hcalls.trans hlines).calm hfolded
  have hcalm' : Calm ([] ++ (lines (splitCalls (foldAttributes text))).flatMap (· ++ ['\n'])) := hcalm
  have htuples := hcalm'.same_splitTuples (fun c hc => by cases hc)
    fun line hline => not_mem_of_mem_lines hline
  have hsame := (hcalls.trans hlines).trans htuples
  rw [formatWpl, normalizeNewlines_of_not_mem hreturn]
  refine ⟨hsame.past.symm.trans hfolded.closed, ?_⟩
  have hiff := hfolds.literals_eq_iff
  rw [hheld] at hiff
  rw [← hsame.literals, hiff]
  simp only [List.mem_flatMap, forall_exists_index, and_imp]
  exact ⟨fun hall inner hinner literal hliteral => hall literal inner hinner hliteral,
    fun hall literal inner hinner hliteral => hall inner hinner literal hliteral⟩

/-- A document with literals in an attribute, in a call and in a tuple. -/
def quotedFields : List Char :=
  "#[tag(a:\n  \"x, y\")] \"z\"\nrule r \x7b\n (kv(\"b  (\",c), \"d\\\"\")\n\x7d".toList

theorem literals_formatWpl_quotedFields :
    ('\r' ∉ quotedFields ∧ literalScan.past .outside quotedFields = .outside ∧
      ∀ literal ∈ literals quotedFields, undisturbed literal = true) ∧
    literals (formatWpl quotedFields) = literals quotedFields := by
  have hreturn : '\r' ∉ quotedFields := by decide +kernel
  have hclosed : literalScan.past .outside quotedFields = .outside := by decide +kernel
  have hundisturbed : ∀ literal ∈ literals quotedFields, undisturbed literal = true := by
    decide +kernel
  have hsqueezed : ∀ inner ∈ attributes quotedFields, ∀ literal ∈ literals inner,
      squeeze literal = literal := by
    decide +kernel
  exact ⟨⟨hreturn, hclosed, hundisturbed⟩,
    (literals_formatWpl_iff hreturn hclosed hundisturbed).2.2 hsqueezed⟩

/-- The words of a literal in an attribute are drawn together, and a call in a literal is split. -/
example : literals (formatWpl "#[tag(a: \"x  y\")]".toList) = ["\"x y\"".toList] ∧
    literals (formatWpl "\"kv(a, b)\"".toList) ≠ ["\"kv(a, b)\"".toList] := by
  decide +kernel

end Documents

end LogScript.Layout
