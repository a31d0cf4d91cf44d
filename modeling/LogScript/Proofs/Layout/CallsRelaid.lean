import LogScript.Proofs.Layout.CallLines
import LogScript.Proofs.Layout.ListRelaid

/-!
Calls after the call pass. Where no call stands behind another one on its line, the pass puts every
call on lines of its own, where a second pass finds it as it would put it.
-/

namespace LogScript.Layout

/-- No call stands behind the call on its line, so the text there gets a line that has none. -/
def lone : CallCondition := fun lead _ suffix =>
  (findCall? true (indentOf lead ++ trim suffix)).isNone

section Stand

variable {text before call inner body after line : List Char}

/-- Where the layout puts a call: the text in front of it, and its indentation. -/
theorem exists_front (hfind : findCall? true text = some (before, call, inner)) :
    ∃ front indent, (∀ c ∈ indent, isBlank c) ∧ (splitLastLine front).2 = indent ∧
      (∀ rest, findCall? true (front ++ call ++ rest) = some (front, call, rest)) ∧
      ∀ args suffix, (splitLastLine before).1 ++
        layoutCall (splitLastLine before).2 call args suffix =
          front ++ call ++ ('\n' :: (argumentLines (indent ++ indentStep) args.trailingComma
            args.items ++ indent) ++ ')' :: ((if (trim suffix).isEmpty then []
              else '\n' :: (indentOf (splitLastLine before).2 ++ trim suffix)) ++ ['\n'])) := by
  have hbefore := splitLastLine_append before
  have hline := not_mem_splitLastLine before
  cases hlead : allBlank (splitLastLine before).2 with
  | true =>
    have hblank : ∀ c ∈ (splitLastLine before).2, isBlank c := List.all_eq_true.1 hlead
    refine ⟨before, (splitLastLine before).2, hblank, rfl, findCall?_of_findCall? hfind,
      fun args suffix => ?_⟩
    rw [layoutCall, hlead, if_pos rfl, if_pos rfl, indentOf_of_blanks hblank]
    generalize splitLastLine before = parts at hbefore ⊢
    rw [← hbefore]
    simp
  | false =>
    generalize hparts : splitLastLine before = parts at *
    have hindent := blank_of_mem_indent (blank_of_mem_indentOf parts.2)
    refine ⟨before ++ '\n' :: (indentOf parts.2 ++ indentStep), indentOf parts.2 ++ indentStep,
      hindent, ?_, fun rest => ?_, fun args suffix => ?_⟩
    · have hmem : '\n' ∉ indentOf parts.2 ++ indentStep := by
        rw [List.mem_append, not_or]
        exact ⟨fun hc => hline ((List.takeWhile_sublist _).mem hc), by decide⟩
      rw [splitLastLine_append_lineFeed hmem]
    · have hcall : findCall? true (indentOf parts.2 ++ indentStep ++ (call ++ rest)) =
          some (indentOf parts.2 ++ indentStep, call, rest) := by
        rw [findCall?_blanks_append hindent, findCall?_call (mem_of_findCall? hfind)]
        simp
      have hshape : before ++ '\n' :: (indentOf parts.2 ++ indentStep) ++ call ++ rest =
          before ++ '\n' :: (indentOf parts.2 ++ indentStep ++ (call ++ rest)) := by
        simp
      rw [hshape, findCall?_append_of_none breaks_lineFeed (findCall?_before hfind), hcall]
      rfl
    · rw [layoutCall, hlead, ← hbefore]
      simp

/-- A call that is alone on its line stands once it is laid out. -/
theorem exists_callLines_standing (hfind : findCall? true text = some (before, call, inner))
    (hclose : splitClosing '(' ')' .outside 0 inner = some (body, after)) (hline : '\n' ∉ line)
    (hlone : (Arguments.ofText body).items ≠ [] → lone (splitLastLine before).2 body line) :
    ∃ laid, callLines before call body line = laid ++ ['\n'] ∧ everyCall standing laid := by
  have hbody := foldlM_parenStep_of_splitClosing hclose
  rw [callLines]
  split
  · rename_i hempty
    refine ⟨before ++ call ++ (body ++ ')' :: line), by simp, ?_⟩
    rw [everyCall_of_lastLine (findCall?_of_findCall? hfind _) (splitClosing_of_foldlM hbody line) hline,
      hempty, Bool.true_or]
  · rename_i hempty
    have hitems : (Arguments.ofText body).items ≠ [] := by simpa using hempty
    obtain ⟨front, indent, hindent, hlast, hfound, hlayout⟩ := exists_front hfind
    have hlist := spread_argumentLines (blank_of_mem_indent hindent)
      (fun _ => trim_of_mem_items) hitems (Arguments.ofText body).trailingComma
    obtain ⟨hrun, hsame⟩ := hlist.relaid_lines hitems hclose hindent
    generalize hargs : Arguments.ofText body = args at *
    generalize hlines : '\n' :: (argumentLines (indent ++ indentStep) args.trailingComma args.items ++
      indent) = list at *
    have hstands : standing (splitLastLine front).2 list [] := by
      rw [standing, hsame, hlast, allBlank, List.all_eq_true.2 hindent, ← hlines]
      simp
    have hshape : ∀ tail, front ++ call ++ ('\n' :: (argumentLines (indent ++ indentStep)
        args.trailingComma args.items ++ indent) ++ ')' :: (tail ++ ['\n'])) =
          front ++ call ++ (list ++ ')' :: tail) ++ ['\n'] := by
      intro tail
      rw [← hlines]
      simp
    rw [hlayout, hshape]
    refine ⟨_, rfl, ?_⟩
    have hfind' := hfound (list ++ ')' :: if (trim line).isEmpty then []
      else '\n' :: (indentOf (splitLastLine before).2 ++ trim line))
    have hclose' := splitClosing_of_foldlM hrun
    split
    · rename_i hsuffix
      rw [if_pos hsuffix] at hfind'
      rw [everyCall_of_lastLine hfind' (hclose' []) List.not_mem_nil, hstands, Bool.or_true]
    · rename_i hsuffix
      rw [if_neg hsuffix] at hfind'
      have hnone : findCall? true (indentOf (splitLastLine before).2 ++ trim line) = none := by
        simpa [lone] using hlone hitems
      rw [everyCall_of_line hfind' (hclose' _) List.not_mem_nil, hstands, Bool.or_true,
        everyCall_of_none hnone, Bool.true_and]

/-- Calls that are alone on their lines stand behind the call pass. -/
theorem exists_splitCalls_standing (h : everyCall lone text) :
    ∃ laid, splitCalls (text ++ ['\n']) = laid ++ ['\n'] ∧ everyCall standing laid := by
  induction text, h using everyCall_induction with
  | none text hfind =>
    exact ⟨text, by rw [splitCalls_append_of_none hfind, splitCalls_nil], everyCall_of_none hfind⟩
  | last text before call inner body line _ hfind hclose hline hlone =>
    have hfind' := findCall?_append_of_some hfind ['\n']
    obtain ⟨laid, hlaid, hstands⟩ := exists_callLines_standing hfind hclose hline hlone
    refine ⟨laid, ?_, hstands⟩
    rw [splitCalls_of_line hfind' (splitClosing_append hclose _) hline, hlaid, splitCalls_nil,
      List.append_nil]
  | line text before call inner body line more _ hfind hclose hline hlone _ ih =>
    have hfind' := findCall?_append_of_some hfind ['\n']
    obtain ⟨laid, hlaid, hstands⟩ := exists_callLines_standing hfind hclose hline hlone
    obtain ⟨behind, hbehind, hrest⟩ := ih
    refine ⟨laid ++ '\n' :: behind, ?_, ?_⟩
    · rw [splitCalls_of_line hfind' (splitClosing_line_append hclose _) hline, hlaid, hbehind]
      simp
    · rw [everyCall_append hstands, hstands, hrest]
      rfl

end Stand

end LogScript.Layout
