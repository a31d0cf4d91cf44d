import LogScript.Proofs.Layout.CallLines
import LogScript.Proofs.Layout.ListMarks
import LogScript.Vocabulary.Reader

/-!
Code and comments in the layout of WPL. Where every call that is split is code, and where comments
and literals inside parentheses are as the layout takes them, every visible character of a document
keeps its mark.
-/

namespace LogScript.Layout

open Highlight (Mark Quote Reading isRunChar marks)
open Highlight.Reading hiding marks next

section Calls

variable {r : Reading} {before call inner body behind text : List Char} {depth : Nat}

/-- A character that is no slash makes no difference to the text in front of it. -/
theorem marks_append_of_ne {b : List Char} (h : b.head? ≠ some '/') (a : List Char) :
    Highlight.Reading.marks .wpl none r (a ++ b) = Highlight.Reading.marks .wpl none r a ++
      Highlight.Reading.marks .wpl none (after .wpl none r a) b := by
  have hnext : ∀ (r : Reading) c, r.next .wpl c (b.head?.or none) = r.next .wpl c none :=
    next_wpl_of_ne (by rwa [Option.or_none])
  rw [marks_append, marks_of_next hnext, after_of_next hnext]

theorem marks_name_paren (name : List Char)
    (hplain : (after .wpl none .plain name).isOpen ∧
      Highlight.Reading.marks .wpl none .plain name = name.map (·, .code))
    (hrun : (after .wpl none .run name).isOpen ∧
      Highlight.Reading.marks .wpl none .run name = name.map (·, .code))
    (hr : r.isOpen) (rest : List Char) :
    Highlight.Reading.marks .wpl none r (name ++ '(' :: rest) =
      (name ++ ['(']).map (·, .code) ++ marks .wpl rest := by
  have hname : (after .wpl none r name).isOpen ∧
      Highlight.Reading.marks .wpl none r name = name.map (·, .code) := by
    cases r with
    | plain => exact hplain
    | run => exact hrun
    | literal q => cases hr
    | escaped q => cases hr
    | comment => cases hr
  rw [marks_sign (sign_wpl_of_mem (by decide)) hname.1, hname.2, List.map_append, List.append_assoc]
  rfl

/-- The name of a call and its parenthesis are code outside literals and comments. -/
theorem marks_call (hcall : call ∈ splitCallNames) (hr : r.isOpen) (rest : List Char) :
    Highlight.Reading.marks .wpl none r (call ++ rest) =
      call.map (·, .code) ++ marks .wpl rest := by
  simp only [splitCallNames, List.mem_cons, List.not_mem_nil, or_false] at hcall
  rcases hcall with rfl | rfl | rfl
  · exact marks_name_paren "json".toList (by decide) (by decide) hr rest
  · exact marks_name_paren "csv".toList (by decide) (by decide) hr rest
  · exact marks_name_paren "kv".toList (by decide) (by decide) hr rest

theorem pastParen_call (hcall : call ∈ splitCallNames) (depth : Nat) :
    (call.map (·, Mark.code)).foldl pastParen depth = depth + 1 := by
  simp only [splitCallNames, List.mem_cons, List.not_mem_nil, or_false] at hcall
  rcases hcall with rfl | rfl | rfl <;> simp [pastParen]

theorem head?_call_append (hcall : call ∈ splitCallNames) (rest : List Char) :
    (call ++ rest).head? ≠ some '/' := by
  simp only [splitCallNames, List.mem_cons, List.not_mem_nil, or_false] at hcall
  rcases hcall with rfl | rfl | rfl <;> simp

/-- Every name of a call that is not the end of a longer name stands outside literals and
comments; `bounded` tells that no name runs up to the front of the text. -/
def callsInCode (r : Reading) (bounded : Bool) : List Char → Bool
  | [] => true
  | c :: rest =>
    (!(bounded && (callAt? (c :: rest)).isSome) || r.isOpen) &&
      callsInCode (r.next .wpl c rest.head?) (!isNameChar c) rest

theorem isOpen_of_findCall? {bounded : Bool}
    (hfind : findCall? bounded text = some (before, call, inner)) (h : callsInCode r bounded text) :
    (after .wpl (call ++ inner).head? r before).isOpen := by
  induction text generalizing r bounded before with
  | nil => cases hfind
  | cons c rest ih =>
    rw [callsInCode, Bool.and_eq_true] at h
    rcases findCall?_cons_cases hfind with ⟨rfl, hat, rfl⟩ | ⟨front, rfl, -, hrest⟩
    · rw [hat] at h
      exact h.1
    · rw [after_cons, ← List.head?_append, ← List.append_assoc, ← eq_of_findCall? hrest]
      exact ih hrest h.2

/-- Calls are looked for line by line. -/
theorem callsInCode_of_lineFeed {bounded : Bool} {a b : List Char}
    (h : callsInCode r bounded (a ++ '\n' :: b)) : callsInCode .plain true b := by
  induction a generalizing r bounded with
  | nil =>
    rw [List.nil_append, callsInCode, next_lineFeed, Bool.and_eq_true] at h
    exact h.2
  | cons c a ih =>
    rw [List.cons_append, callsInCode, Bool.and_eq_true] at h
    exact ih h.2

theorem callsInCode_afterFirstLine {bounded : Bool} {a : List Char}
    (h : callsInCode r bounded (a ++ text)) : callsInCode .plain true (afterFirstLine text) := by
  rcases line_cases text with hline | ⟨line, rest, hline, rfl⟩
  · rw [(firstLine_of_not_mem hline).2]
    rfl
  · rw [← List.append_assoc] at h
    rw [(firstLine_append_lineFeed hline rest).2]
    exact callsInCode_of_lineFeed h

/-- What follows the lines in front of the last one is read by itself. -/
theorem marks_splitLastLine (text more : List Char) :
    marks .wpl ((splitLastLine text).1 ++ more) =
      marks .wpl (splitLastLine text).1 ++ marks .wpl more := by
  rcases lastLine_cases text with hline | ⟨front, line, hline, rfl⟩
  · rw [splitLastLine_of_not_mem hline]
    rfl
  · rw [splitLastLine_append_lineFeed hline, List.append_assoc, List.singleton_append,
      Highlight.marks_append_lineFeed, Highlight.marks_append_lineFeed]
    simp [marks, Highlight.Reading.marks]

theorem marks_afterFirstLine (text : List Char) :
    marks .wpl (firstLine text) ++ marks .wpl (afterFirstLine text) = marks .wpl text := by
  rcases line_cases text with hline | ⟨line, rest, hline, rfl⟩
  · rw [(firstLine_of_not_mem hline).1, (firstLine_of_not_mem hline).2]
    exact List.append_nil _
  · rw [(firstLine_append_lineFeed hline rest).1, (firstLine_append_lineFeed hline rest).2,
      Highlight.marks_append_lineFeed]

/-- What a closing parenthesis on a line of its own is followed by. -/
theorem marks_closing (rest : List Char) :
    marks .wpl (')' :: rest) = (')', .code) :: marks .wpl rest :=
  have hopen : (after .wpl none .plain []).isOpen := rfl
  marks_sign (sign_wpl_of_mem (by decide)) hopen rest

/-- A call on lines of its own keeps the marks of what it is made of. -/
theorem marks_layoutCall (lead suffix behind : List Char) (hcall : call ∈ splitCallNames)
    (hitems : (Arguments.ofText body).items ≠ [])
    (htidy : tidy none (Highlight.Reading.marks .wpl (some ')') .plain body ++ [(')', .code)])) :
    marks .wpl (layoutCall lead call (Arguments.ofText body) suffix ++ behind) =
      marks .wpl lead ++ (call.map (·, .code) ++ (marks .wpl body ++ ((')', .code) ::
        (marks .wpl suffix ++ marks .wpl behind)))) := by
  obtain ⟨inner, hinner, hblank⟩ : ∃ inner, inner =
      (if allBlank lead then indentOf lead else indentOf lead ++ indentStep) ∧
        ∀ c ∈ inner, isBlank c := by
    refine ⟨_, rfl, ?_⟩
    split
    · exact blank_of_mem_indentOf lead
    · exact blank_of_mem_indent (blank_of_mem_indentOf lead)
  obtain ⟨tail, htail⟩ : ∃ tail, tail =
    if (trim suffix).isEmpty then [] else '\n' :: indentOf lead ++ trim suffix := ⟨_, rfl⟩
  have hshape : layoutCall lead call (Arguments.ofText body) suffix ++ behind =
      (if allBlank lead then [] else lead ++ ['\n']) ++ (inner ++ (call ++ ('\n' ::
        (argumentLines (inner ++ indentStep) (Arguments.ofText body).trailingComma
          (Arguments.ofText body).items ++ (inner ++ (')' :: (tail ++ ('\n' :: behind)))))))) := by
    rw [hinner, htail, layoutCall]
    simp
  have hfront : ∀ more, marks .wpl ((if allBlank lead then [] else lead ++ ['\n']) ++ more) =
      marks .wpl lead ++ marks .wpl more := by
    intro more
    split
    · rename_i hlead
      rw [marks, marks, marks, marks_of_blanks (List.all_eq_true.1 hlead)]
      rfl
    · rw [List.append_assoc, List.singleton_append, Highlight.marks_append_lineFeed]
  have hbehind : marks .wpl (tail ++ '\n' :: behind) = marks .wpl suffix ++ marks .wpl behind := by
    rw [Highlight.marks_append_lineFeed, ← Highlight.marks_trim suffix, htail]
    split
    · rename_i hempty
      rw [List.isEmpty_iff.1 hempty]
    · rw [List.cons_append, marks, marks_lineFeed, ← marks,
        Highlight.marks_blanks_append (blank_of_mem_indentOf lead)]
  have hname : ∀ more, marks .wpl (call ++ '\n' :: more) =
      call.map (·, .code) ++ marks .wpl more := by
    intro more
    rw [marks, marks_call hcall rfl, marks, marks_lineFeed]
    rfl
  have hindent := blank_of_mem_indent hblank
  rw [hshape, hfront, Highlight.marks_blanks_append hblank, hname,
    marks_argumentLines_ofText hindent hitems htidy, Highlight.marks_blanks_append hblank,
    marks_closing, hbehind]

/-- What the layout cuts out of a text behind an opening parenthesis. -/
theorem Enclosed.split (h : Enclosed (depth + 1) .plain none inner)
    (hsplit : splitClosing '(' ')' .outside 0 inner = some (body, behind)) :
    tidy none (Highlight.Reading.marks .wpl (some ')') .plain body ++ [(')', .code)]) ∧
      marks .wpl inner = marks .wpl body ++ (')', .code) :: marks .wpl behind ∧
      Layout.orderly depth (marks .wpl behind) := by
  have hdepth : depth + 1 = 0 + 1 + depth := by omega
  have hsplit' : splitClosing '(' ')' (quoting .plain) 0 inner = some (body, behind) := hsplit
  obtain ⟨hopen, htidy, horderly⟩ := Enclosed.closes (hdepth ▸ h) hsplit'
  refine ⟨htidy, ?_, horderly⟩
  rw [eq_of_splitClosing hsplit]
  exact marks_sign (sign_wpl_of_mem (by decide)) (isOpen_after_none hopen) behind

/-- The text behind the parenthesis of a call. -/
theorem enclosed_of_call (hcall : call ∈ splitCallNames) (hopen : r.isOpen)
    (h : orderly depth (Highlight.Reading.marks .wpl none r (call ++ inner))) :
    Enclosed (depth + 1) .plain none inner := by
  rw [marks_call hcall hopen] at h
  have hinner := orderly_append h
  rw [pastParen_call hcall] at hinner
  exact ⟨carried_plain none, fun _ _ => rfl, hinner⟩

theorem marks_splitCalls (horderly : orderly depth (marks .wpl text))
    (hcalls : callsInCode .plain true text) : marks .wpl (splitCalls text) = marks .wpl text := by
  induction text using splitCalls.induct generalizing depth with
  | case1 text hnone => rw [splitCalls_of_none hnone]
  | case2 text before call inner hfind hopen => rw [splitCalls_of_open hfind hopen]
  | case3 text before call inner hfind body after hclose _ _ _ ih =>
    have hcall := mem_of_findCall? hfind
    have hopen := isOpen_after_none (isOpen_of_findCall? hfind hcalls)
    have htext := eq_of_findCall? hfind
    have hparts := text_of_closed hfind hclose
    rw [List.append_assoc] at htext
    have hbefore : marks .wpl text = marks .wpl before ++ Highlight.Reading.marks .wpl none
        (Highlight.Reading.after .wpl none .plain before) (call ++ inner) := by
      rw [htext, marks, marks_append_of_ne (head?_call_append hcall inner)]
      rfl
    rw [hbefore] at horderly
    obtain ⟨htidy, hinner, hafter⟩ :=
      (enclosed_of_call hcall hopen (orderly_append horderly)).split hclose
    have hmarks : marks .wpl text = marks .wpl before ++ (call.map (·, .code) ++
        (marks .wpl body ++ ((')', .code) :: marks .wpl after))) := by
      rw [hbefore, marks_call hcall hopen, hinner]
    have hrest : marks .wpl (splitCalls (afterFirstLine after)) =
        marks .wpl (afterFirstLine after) := by
      rw [← marks_afterFirstLine after] at hafter
      rw [hparts, List.append_cons] at hcalls
      exact ih (orderly_append hafter) (callsInCode_afterFirstLine hcalls)
    rw [splitCalls_of_closed hfind hclose]
    split
    · rcases line_cases after with hline | ⟨line, more, hline, rfl⟩
      · rw [(firstLine_of_not_mem hline).1, (firstLine_of_not_mem hline).2, splitCalls_nil,
          List.append_nil, List.take_of_length_le (by omega), ← hparts]
      · rw [(firstLine_append_lineFeed hline more).2] at hrest
        have hwhole : text = (before ++ call ++ body ++ ')' :: line) ++ '\n' :: more := by
          rw [hparts]
          simp
        have hlaid : before ++ call ++ body ++ ')' :: (line ++ '\n' :: more).take (line.length + 1) ++
            splitCalls more = (before ++ call ++ body ++ ')' :: line) ++ '\n' :: splitCalls more := by
          rw [List.take_length_add_append]
          simp
        rw [(firstLine_append_lineFeed hline more).1, (firstLine_append_lineFeed hline more).2, hlaid,
          hwhole, Highlight.marks_append_lineFeed, Highlight.marks_append_lineFeed, hrest]
    · rename_i hitems
      have hlead := splitLastLine_append before
      rw [List.append_assoc, marks_splitLastLine, marks_layoutCall _ _ _ hcall (by simpa using hitems)
        htidy, hrest, marks_afterFirstLine, hmarks, ← List.append_assoc, ← marks_splitLastLine, hlead]

end Calls

section Tuples

variable {depth : Nat}

theorem marks_layoutTuple {block inner : List Char} (hblock : trimStart block = '(' :: inner)
    (horderly : orderly depth (marks .wpl block)) (behind : List Char) :
    marks .wpl (layoutTuple block ++ behind) = marks .wpl block ++ marks .wpl behind := by
  obtain ⟨htext, hdrop⟩ := block_of_trimStart hblock
  have hopening : ∀ rest, marks .wpl ('(' :: rest) = ('(', .code) :: marks .wpl rest := by
    intro rest
    have hopen : (after .wpl none .plain []).isOpen := rfl
    exact marks_sign (sign_wpl_of_mem (by decide)) hopen rest
  have hmarks : marks .wpl block = ('(', .code) :: marks .wpl inner := by
    rw [htext, Highlight.marks_blanks_append (blank_of_mem_indentOf block), hopening]
  have hwhole : marks .wpl (block ++ ['\n'] ++ behind) = marks .wpl block ++ marks .wpl behind := by
    rw [List.append_assoc, List.singleton_append, Highlight.marks_append_lineFeed]
  rw [hmarks, orderly, Bool.and_eq_true] at horderly
  have henclosed : Enclosed (depth + 1) .plain none inner :=
    ⟨carried_plain none, fun _ _ => rfl, horderly.2⟩
  rw [layoutTuple, hdrop]
  dsimp only
  split
  · exact hwhole
  · rename_i body after hclose
    obtain ⟨htidy, hinner, -⟩ := henclosed.split hclose
    split
    · exact hwhole
    · rename_i hitems
      have hshape : indentOf block ++ ['(', '\n'] ++ argumentLines (indentOf block ++ indentStep)
          (Arguments.ofText body).trailingComma (Arguments.ofText body).items ++ indentOf block ++
            [')'] ++ trim after ++ ['\n'] ++ behind =
          indentOf block ++ ('(' :: '\n' :: (argumentLines (indentOf block ++ indentStep)
            (Arguments.ofText body).trailingComma (Arguments.ofText body).items ++
              (indentOf block ++ (')' :: (trim after ++ '\n' :: behind))))) := by
        simp
      have hindent := blank_of_mem_indent (blank_of_mem_indentOf block)
      have hline : ∀ rest, marks .wpl ('\n' :: rest) = marks .wpl rest :=
        fun rest => marks_lineFeed rest
      rw [hshape, Highlight.marks_blanks_append (blank_of_mem_indentOf block), hopening, hline,
        marks_argumentLines_ofText hindent (by simpa using hitems) htidy,
        Highlight.marks_blanks_append (blank_of_mem_indentOf block), marks_closing,
        Highlight.marks_append_lineFeed, Highlight.marks_trim, hmarks, hinner]
      simp

theorem marks_splitTuples (ls : List (List Char)) (depth : Nat)
    (horderly : orderly depth (ls.flatMap (marks .wpl))) :
    marks .wpl (splitTuples ls) = ls.flatMap (marks .wpl) := by
  revert depth
  induction ls using splitTuples.induct with
  | case1 => intros; rw [splitTuples]; rfl
  | case2 line rest hopens gathered ih =>
    intro depth horderly
    obtain ⟨inner, hopen⟩ := exists_of_opensTuple_joinLines hopens gathered.1
    have hgathered : (line :: rest).flatMap (marks .wpl) =
        marks .wpl (joinLines (line :: gathered.1)) ++ gathered.2.flatMap (marks .wpl) := by
      rw [Highlight.marks_joinLines, ← List.flatMap_append, List.cons_append,
        gatherLines_append (Balance.pastText {} line) rest]
    rw [hgathered] at horderly
    rw [splitTuples, if_pos hopens, marks_layoutTuple hopen (orderly_left horderly),
      ih _ (orderly_append horderly), hgathered]
  | case3 line rest hopens ih =>
    intro depth horderly
    rw [List.flatMap_cons] at horderly
    rw [splitTuples, if_neg hopens, Highlight.marks_append_lineFeed,
      ih _ (orderly_append horderly), List.flatMap_cons]

end Tuples

theorem foldAttribute?_of_not_infix {text : List Char} (h : ¬['#', '['] <:+: text) :
    foldAttribute? text = none := by
  unfold foldAttribute?
  split
  · rename_i body
    exact absurd ⟨[], body, rfl⟩ h
  · rfl

/-- Without attributes, folding ends the last line with a line feed and does no more. -/
theorem foldAttributes_of_not_infix {text : List Char} (h : ¬['#', '['] <:+: text) :
    foldAttributes text = text ∨ foldAttributes text = text ++ ['\n'] := by
  induction text using foldAttributes.induct with
  | case1 => exact .inl (by rw [foldAttributes])
  | case2 c more line indent folded rest hfold ih =>
    have hnone : foldAttribute? ((c :: more).drop indent.length) = none :=
      foldAttribute?_of_not_infix fun hinfix => h (List.IsInfix.trans hinfix (List.drop_suffix _ _).isInfix)
    cases hfold.symm.trans hnone
  | case3 c more line indent hfold ih =>
    have hrest : ¬['#', '['] <:+: afterFirstLine (c :: more) := fun hinfix =>
      h (List.IsInfix.trans hinfix (List.drop_suffix _ _).isInfix)
    rw [foldAttributes_of_none hfold]
    rcases line_cases (c :: more) with hline | ⟨front, behind, hline, htext⟩
    · refine .inr ?_
      rw [(firstLine_of_not_mem hline).1, (firstLine_of_not_mem hline).2, foldAttributes]
    · obtain ⟨hfirst, hafter⟩ := firstLine_append_lineFeed hline behind
      rw [htext, hafter] at ih hrest
      rw [htext, hfirst, hafter]
      refine (ih hrest).imp (fun hfolded => ?_) fun hfolded => ?_
      · rw [hfolded]
      · rw [hfolded, List.append_assoc, List.cons_append]

theorem callsInCode_append_lineFeed {r : Reading} {bounded : Bool} {text : List Char}
    (h : callsInCode r bounded text) : callsInCode r bounded (text ++ ['\n']) := by
  induction text generalizing r bounded with
  | nil =>
    rw [List.nil_append, callsInCode]
    cases bounded <;> rfl
  | cons c rest ih =>
    have hnext : r.next .wpl c (rest ++ ['\n']).head? = r.next .wpl c rest.head? := by
      cases rest with
      | nil => exact next_wpl_of_ne (by decide) r c
      | cons d rest => rfl
    rw [callsInCode, Bool.and_eq_true] at h
    rw [List.cons_append, callsInCode, hnext, ← List.cons_append, callAt?_append breaks_lineFeed,
      h.1, ih h.2]
    rfl

/-- Layout keeps the code of a document and the order of its characters: what stands outside
comments does so afterwards, and nothing else. -/
theorem codeOf_formatWpl (v : Vocabulary) {text : List Char} (hreturn : '\r' ∉ text)
    (hhash : ¬['#', '['] <:+: text) (horderly : orderly 0 (marks .wpl text))
    (hcalls : callsInCode .plain true text) :
    (Highlight.wpl v).codeOf (formatWpl text) = (Highlight.wpl v).codeOf text := by
  have hfolded : marks .wpl (foldAttributes text) = marks .wpl text ∧
      callsInCode .plain true (foldAttributes text) := by
    rcases foldAttributes_of_not_infix hhash with hfolded | hfolded
    · rw [hfolded]
      exact ⟨rfl, hcalls⟩
    · rw [hfolded]
      exact ⟨Highlight.marks_append_blanks blank_of_mem_lineFeed text,
        callsInCode_append_lineFeed hcalls⟩
  have hsplit : marks .wpl (splitCalls (foldAttributes text)) = marks .wpl text := by
    rw [marks_splitCalls (by rwa [hfolded.1]) hfolded.2, hfolded.1]
  rw [Highlight.codeOf_wpl, Highlight.codeOf_wpl, formatWpl, normalizeNewlines_of_not_mem hreturn,
    marks_splitTuples _ 0, ← Highlight.marks_lines, hsplit]
  rwa [← Highlight.marks_lines, hsplit]

/-- A document with a call, a tuple, comments and a literal that holds a parenthesis. -/
def annotated : List Char :=
  "rule r \x7b # (\n a json(x, # one\n \"(,\", kv(b)) c\n (chars:d, (digit, ip)) # (\n\x7d".toList

theorem codeOf_formatWpl_annotated :
    ('\r' ∉ annotated ∧ ¬['#', '['] <:+: annotated ∧ orderly 0 (marks .wpl annotated) ∧
      callsInCode .plain true annotated) ∧
    (Highlight.wpl (.builtin .wpl)).codeOf (formatWpl annotated) =
      (Highlight.wpl (.builtin .wpl)).codeOf annotated := by
  have hreturn : '\r' ∉ annotated := by decide +kernel
  have hhash : ¬['#', '['] <:+: annotated := by decide +kernel
  have horderly : orderly 0 (marks .wpl annotated) := by decide +kernel
  have hcalls : callsInCode .plain true annotated := by decide +kernel
  exact ⟨⟨hreturn, hhash, horderly, hcalls⟩, codeOf_formatWpl _ hreturn hhash horderly hcalls⟩

/-- A comma behind a comment is put on the line of the comment. -/
example : (Highlight.wpl (.builtin .wpl)).codeOf (formatWpl "kv(a # b\n, c)".toList) =
    "kv(ac)".toList := by
  decide +kernel

end LogScript.Layout
