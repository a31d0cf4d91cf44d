import LogScript.Proofs.Layout.NeatAttribute
import LogScript.Proofs.Layout.Settled

/-!
Header and privacy lines that are laid out already. Read line by line again, they give the same
lines: comments, keys, values and other lines are recognized by their trimmed text, and an
attribute is closed on its line unless no line followed it.
-/

namespace LogScript.Layout

theorem gatherAttribute_of_closed {text : List Char} {ls : List (List Char)}
    (h : behindClosing .outside 0 (text.drop 2) ≠ none) : gatherAttribute text ls = (text, ls) := by
  cases ls with
  | nil => rfl
  | cons line ls =>
    rw [gatherAttribute, if_pos]
    rw [behindClosing, ne_eq, Option.map_eq_none_iff] at h
    exact Option.isSome_iff_ne_none.2 h

/-- Gathering ends with a closed attribute, or without lines. -/
theorem gatherAttribute_ends (text : List Char) (ls : List (List Char)) :
    behindClosing .outside 0 ((gatherAttribute text ls).1.drop 2) ≠ none ∨
      (gatherAttribute text ls).2 = [] := by
  induction ls generalizing text with
  | nil => exact .inr rfl
  | cons line ls ih =>
    rw [gatherAttribute]
    split
    · rename_i h
      refine .inl fun hnone => ?_
      rw [behindClosing, Option.map_eq_none_iff] at hnone
      rw [hnone] at h
      cases h
    · exact ih _

theorem prefix_gatherAttribute (text : List Char) (ls : List (List Char)) :
    text <+: (gatherAttribute text ls).1 := by
  induction ls generalizing text with
  | nil => exact List.prefix_rfl
  | cons line ls ih =>
    rw [gatherAttribute]
    split
    · exact List.prefix_rfl
    · exact (List.prefix_append text _).trans (ih _)

theorem suffix_gatherAttribute (text : List Char) (ls : List (List Char)) :
    (gatherAttribute text ls).2 <:+ ls := by
  induction ls generalizing text with
  | nil => exact List.suffix_rfl
  | cons line ls ih =>
    rw [gatherAttribute]
    split
    · exact List.suffix_rfl
    · exact (ih _).trans (List.suffix_cons line ls)

theorem eq_dash_of_trim {text : List Char} (h : trim text = separator) {c : Char}
    (hc : c ∈ text) (hblank : isBlank c = false) : c = '-' := by
  have hvisible : c ∈ visible text := List.mem_filter.2 ⟨hc, by rw [hblank]; rfl⟩
  rw [← visible_trim, h] at hvisible
  have hdash : c = '-' ∨ c = '-' ∨ c = '-' := by
    simpa [visible, separator] using (List.mem_filter.1 hvisible).1
  rcases hdash with hc | hc | hc <;> exact hc

/-- The layout of lines that are no separators has no separator. -/
theorem trim_ne_separator_of_mem_sectionLines {underKey : Bool} {ls : List (List Char)}
    (h : ∀ line ∈ ls, trim line ≠ separator) {shown : Line}
    (hshown : shown ∈ sectionLines underKey ls) : trim shown.content ≠ separator := by
  induction underKey, ls using sectionLines.induct with
  | case1 underKey =>
    rw [sectionLines] at hshown
    cases hshown
  | case2 underKey line rest content hempty ih =>
    rw [sectionLines, if_pos hempty] at hshown
    rcases List.mem_cons.1 hshown with rfl | hshown
    · decide
    · exact ih (fun l hl => h l (List.mem_cons_of_mem line hl)) hshown
  | case3 underKey line rest content hempty hcomment ih =>
    rw [sectionLines, if_neg hempty, if_pos hcomment] at hshown
    rcases List.mem_cons.1 hshown with rfl | hshown
    · rw [Line.content, trim_trim]
      exact h line List.mem_cons_self
    · exact ih (fun l hl => h l (List.mem_cons_of_mem line hl)) hshown
  | case4 underKey line rest content hempty hcomment hattribute ih =>
    rw [sectionLines, if_neg hempty, if_neg hcomment, if_pos hattribute] at hshown
    rcases List.mem_cons.1 hshown with rfl | hshown
    · obtain ⟨start, hstart⟩ := List.isPrefixOf_iff_prefix.1 hattribute
      obtain ⟨more, hmore⟩ := prefix_gatherAttribute content rest
      rw [← hmore, ← hstart, List.append_assoc, Line.content]
      refine fun hseparator => absurd (eq_dash_of_trim (c := '#') hseparator ?_ ?_) (by decide)
      · rw [List.cons_append, normalizeAttribute_hash]
        exact List.mem_cons_self
      · decide
    · refine ih (fun l hl => h l (List.mem_cons_of_mem line ?_)) hshown
      exact (suffix_gatherAttribute content rest).subset hl
  | case5 underKey line rest content hempty hcomment hattribute hkey ih =>
    rw [sectionLines, if_neg hempty, if_neg hcomment, if_neg hattribute, if_pos hkey] at hshown
    rcases List.mem_cons.1 hshown with rfl | hshown
    · refine fun hseparator => absurd (eq_dash_of_trim (c := ':') hseparator ?_ ?_) (by decide)
      · exact List.mem_append_right _ (by decide)
      · decide
    · exact ih (fun l hl => h l (List.mem_cons_of_mem line hl)) hshown
  | case6 underKey line rest content hempty hcomment hattribute hkey hvalue ih =>
    rw [sectionLines, if_neg hempty, if_neg hcomment, if_neg hattribute, if_neg hkey,
      if_pos hvalue] at hshown
    rcases List.mem_cons.1 hshown with rfl | hshown
    · rw [Line.content, trim_trim]
      exact h line List.mem_cons_self
    · exact ih (fun l hl => h l (List.mem_cons_of_mem line hl)) hshown
  | case7 underKey line rest content hempty hcomment hattribute hkey hvalue ih =>
    rw [sectionLines, if_neg hempty, if_neg hcomment, if_neg hattribute, if_neg hkey,
      if_neg hvalue] at hshown
    rcases List.mem_cons.1 hshown with rfl | hshown
    · rw [Line.content, trim_trim]
      exact h line List.mem_cons_self
    · exact ih (fun l hl => h l (List.mem_cons_of_mem line hl)) hshown

/-- Lines read again: they settle to the same text, where `gap` was due in front of the lines read
first, and leave a blank line due behind them as those did if `tail` is the line that tells so. -/
structure Resettles (gap : Bool) (tail : List (List Char)) (old new : List Line) : Prop where
  text : ∀ due, Line.after due new = Line.after (due || gap) old
  behind : tail.isEmpty = !Line.gapBehind gap old →
    ∀ due, Line.gapBehind due new = Line.gapBehind (due || gap) old

theorem trim_indented (level : Nat) (content : List Char) :
    trim (Line.indented level content) = trim content := by
  rw [Line.indented, trim_blanks_append]
  intro c hc
  rw [List.eq_of_mem_replicate hc]
  decide

theorem sectionLines_blank (underKey : Bool) (ls : List (List Char)) :
    sectionLines underKey ([] :: ls) = .blank :: sectionLines underKey ls := by
  rw [sectionLines]
  exact if_pos rfl

/-- A line of text that is read as itself, with what follows it. -/
theorem resettles_text {underKey gap : Bool} {level : Nat} {content : List Char}
    {tail : List (List Char)} {old new : List Line}
    (hread : sectionLines underKey
        (Line.indented level content :: (Line.settle false old ++ tail)) =
      .text level content :: new)
    (hnew : Resettles false tail old new) :
    Resettles gap tail (.text level content :: old)
      (sectionLines underKey (Line.settle gap (.text level content :: old) ++ tail)) := by
  cases gap with
  | false =>
    have hlines : Line.settle false (.text level content :: old) ++ tail =
        Line.indented level content :: (Line.settle false old ++ tail) := rfl
    rw [hlines, hread]
    constructor
    · intro due
      rw [Bool.or_false, Line.after_text, Line.after_text, hnew.text]
      rfl
    · intro htail due
      exact hnew.behind htail false
  | true =>
    have hlines : Line.settle true (.text level content :: old) ++ tail =
        [] :: Line.indented level content :: (Line.settle false old ++ tail) := rfl
    rw [hlines, sectionLines_blank, hread]
    constructor
    · intro due
      rw [Bool.or_true, Line.after_blank, Line.after_text, Line.after_text, hnew.text]
      rfl
    · intro htail due
      exact hnew.behind htail false

/-- A line is neither a comment nor an attribute by its first two characters. -/
theorem plainStart_cons (c : Char) (rest : List Char) :
    ¬opensComment (c :: rest) = true ∧ ¬['#', '['].isPrefixOf (c :: rest) = true ↔
      c ≠ '#' ∧ (c = '/' → rest.head? ≠ some '/') := by
  rw [opensComment_cons]
  cases rest with
  | nil => simp [List.isPrefixOf]
  | cons d rest =>
    by_cases hc : c = '#'
    · simp only [hc, List.isPrefixOf, List.head?_cons]
      simp [Option.some.injEq, eq_comm (a := d)]
    · simp [hc, List.isPrefixOf, Ne.symm hc]

/-- A key line is read as a key again, and its colon keeps the space on each side. -/
theorem sectionLines_key {content : List Char} (htrim : trim content = content)
    (hkey : content.getLast? = some ':') (hcomment : ¬opensComment content = true)
    (hattribute : ¬['#', '['].isPrefixOf content = true) (underKey : Bool)
    (ls : List (List Char)) :
    sectionLines underKey
        (Line.indented 0 (trimEnd content.dropLast ++ [' ', ':', ' ']) :: ls) =
      .text 0 (trimEnd content.dropLast ++ [' ', ':', ' ']) :: sectionLines true ls := by
  obtain ⟨front, rfl⟩ := List.getLast?_eq_some_iff.1 hkey
  rw [List.dropLast_concat]
  -- The trimmed line, and the key in it.
  obtain ⟨shown, hshown, hfront, hplain⟩ : ∃ shown,
      trim (trimEnd front ++ [' ', ':', ' ']) = shown ++ [':'] ∧ trimEnd shown = trimEnd front ∧
        ¬opensComment (shown ++ [':']) = true ∧ ¬['#', '['].isPrefixOf (shown ++ [':']) = true := by
    have hdrop : trim (trimEnd front ++ [' ', ':', ' ']) = trim (trimEnd front ++ [' ', ':']) := by
      rw [← trim_append_blanks (trimEnd front ++ [' ', ':']) blank_of_mem_space, List.append_assoc]
      rfl
    rw [hdrop]
    cases front with
    | nil => exact ⟨[], rfl, rfl, by decide, by decide⟩
    | cons c front =>
      have hc : isBlank c = false := by
        refine head?_trim (c :: front ++ [':']) c ?_
        rw [htrim]
        rfl
      rw [trimEnd_cons_of_not_blank hc]
      refine ⟨c :: trimEnd front ++ [' '], ?_, ?_, ?_⟩
      · rw [trim_of_ends]
        · simp
        · exact fun d hd => by cases hd; exact hc
        · intro d hd
          have hcolon : (c :: trimEnd front ++ [' ', ':']).getLast? = some ':' := by
            rw [List.getLast?_append]
            rfl
          rw [hcolon] at hd
          cases hd
          decide
      · rw [trimEnd_append_blanks _ blank_of_mem_space, trimEnd_cons_of_not_blank hc, trimEnd_trimEnd]
      · rw [List.cons_append, List.cons_append, plainStart_cons]
        obtain ⟨hhash, hslash⟩ := (plainStart_cons c (front ++ [':'])).1 ⟨hcomment, hattribute⟩
        refine ⟨hhash, fun hc hhead => hslash hc ?_⟩
        cases hfront : trimEnd front with
        | nil =>
          rw [hfront] at hhead
          cases hhead
        | cons d kept =>
          rw [hfront] at hhead
          have hd : (trimEnd front).head? = some '/' := by rw [hfront]; exact hhead
          rw [List.head?_append, head?_of_head?_trimEnd hd]
          rfl
  have hempty : ¬(shown ++ [':']).isEmpty = true := by simp
  rw [sectionLines, trim_indented, hshown, if_neg hempty, if_neg hplain.1, if_neg hplain.2,
    if_pos (List.getLast?_concat ..), List.dropLast_concat, hfront]

theorem sectionLines_attribute (underKey : Bool) (text : List Char) (ls : List (List Char)) :
    sectionLines underKey (Line.indented 0 (normalizeAttribute ('#' :: '[' :: text)) :: ls) =
      .text 0 (normalizeAttribute
          (gatherAttribute (normalizeAttribute ('#' :: '[' :: text)) ls).1) ::
        sectionLines false (gatherAttribute (normalizeAttribute ('#' :: '[' :: text)) ls).2 := by
  have hcomment : ¬opensComment (normalizeAttribute ('#' :: '[' :: text)) = true := by
    rw [normalizeAttribute_bracket]
    exact Bool.false_ne_true
  have hempty : ¬(normalizeAttribute ('#' :: '[' :: text)).isEmpty = true := by
    rw [normalizeAttribute_bracket]
    exact Bool.false_ne_true
  have hattribute : ['#', '['].isPrefixOf (normalizeAttribute ('#' :: '[' :: text)) = true := by
    rw [normalizeAttribute_bracket]
    rfl
  rw [sectionLines, trim_indented, (neatAttribute_normalizeAttribute ('[' :: text)).trimmed,
    if_neg hempty, if_neg hcomment, if_pos hattribute]

/-- A closed attribute takes no further line. -/
theorem sectionLines_closedAttribute {text : List Char}
    (h : behindClosing .outside 0 text ≠ none) (underKey : Bool) (ls : List (List Char)) :
    sectionLines underKey (Line.indented 0 (normalizeAttribute ('#' :: '[' :: text)) :: ls) =
      .text 0 (normalizeAttribute ('#' :: '[' :: text)) :: sectionLines false ls := by
  have hclosed : behindClosing .outside 0
      ((normalizeAttribute ('#' :: '[' :: text)).drop 2) ≠ none := by
    rw [normalizeAttribute_bracket]
    exact fun hnone => h ((behindClosing_neatInner text).1.1 hnone)
  rw [sectionLines_attribute, gatherAttribute_of_closed hclosed,
    (neatAttribute_normalizeAttribute _).normalizeAttribute_eq]

/-- An attribute that stays open takes a blank line that follows it. -/
theorem sectionLines_openAttribute {text : List Char}
    (h : behindClosing .outside 0 text = none) {tail : List (List Char)}
    (htail : tail = [] ∨ tail = [[]]) (underKey : Bool) :
    sectionLines underKey (Line.indented 0 (normalizeAttribute ('#' :: '[' :: text)) :: tail) =
      [.text 0 (normalizeAttribute ('#' :: '[' :: text))] := by
  have hneat := neatAttribute_normalizeAttribute ('[' :: text)
  have hnil : sectionLines false [] = [] := by rw [sectionLines]
  rw [sectionLines_attribute]
  rcases htail with rfl | rfl
  · rw [gatherAttribute, hneat.normalizeAttribute_eq, hnil]
  · have hopen : ¬(splitClosing '[' ']' .outside 0
        ((normalizeAttribute ('#' :: '[' :: text)).drop 2)).isSome = true := by
      have hnone := (behindClosing_neatInner text).1.2 h
      rw [behindClosing, Option.map_eq_none_iff] at hnone
      rw [normalizeAttribute_bracket, List.drop_succ_cons, List.drop_succ_cons, List.drop_zero,
        hnone]
      exact Bool.false_ne_true
    rw [gatherAttribute, if_neg hopen, gatherAttribute, hnil]
    exact congrArg (fun content => [Line.text 0 content])
      (hneat.normalizeAttribute_append blank_of_mem_space)

/-- The lines of a section are read again as they are, also with a blank line behind them. -/
theorem sectionLines_settle {tail : List (List Char)} (htail : tail = [] ∨ tail = [[]])
    (underKey gap : Bool) (ls : List (List Char)) :
    Resettles gap tail (sectionLines underKey ls)
      (sectionLines underKey (Line.settle gap (sectionLines underKey ls) ++ tail)) := by
  induction underKey, ls using sectionLines.induct generalizing gap with
  | case1 underKey =>
    have hnil : sectionLines underKey [] = [] := by rw [sectionLines]
    have hsettle : Line.settle gap [] ++ tail = tail := rfl
    rw [hnil, hsettle]
    rcases htail with rfl | rfl
    · rw [hnil]
      refine ⟨fun _ => rfl, fun hgap due => ?_⟩
      cases gap with
      | false => exact (Bool.or_false due).symm
      | true => cases hgap
    · rw [sectionLines_blank, hnil]
      refine ⟨fun _ => rfl, fun hgap due => ?_⟩
      cases gap with
      | false => cases hgap
      | true => exact (Bool.or_true due).symm
  | case2 underKey line rest content hempty ih =>
    rw [sectionLines, if_pos hempty]
    constructor
    · intro due
      have hafter := (ih true).text due
      rwa [Bool.or_true] at hafter
    · intro hbehind due
      have hgap := (ih true).behind hbehind due
      rwa [Bool.or_true] at hgap
  | case3 underKey line rest content hempty hcomment ih =>
    rw [sectionLines, if_neg hempty, if_pos hcomment]
    refine resettles_text ?_ (ih false)
    rw [sectionLines, trim_indented, trim_trim, if_neg hempty, if_pos hcomment]
  | case4 underKey line rest content hempty hcomment hattribute ih =>
    rw [sectionLines, if_neg hempty, if_neg hcomment, if_pos hattribute]
    obtain ⟨start, hstart⟩ := List.isPrefixOf_iff_prefix.1 hattribute
    obtain ⟨more, hmore⟩ := prefix_gatherAttribute content rest
    have hgathered : (gatherAttribute content rest).1 = '#' :: '[' :: (start ++ more) := by
      rw [← hmore, ← hstart]
      rfl
    have hends := gatherAttribute_ends content rest
    rw [hgathered] at hends ⊢
    by_cases hclosed : behindClosing .outside 0 (start ++ more) = none
    · -- Nothing was left behind an attribute that stays open.
      rw [hends.resolve_left (fun h => h hclosed)]
      have hnil : sectionLines false [] = [] := by rw [sectionLines]
      rw [hnil]
      apply resettles_text (sectionLines_openAttribute hclosed htail underKey)
      exact ⟨fun _ => rfl, fun _ due => (Bool.or_false due).symm⟩
    · exact resettles_text (sectionLines_closedAttribute hclosed _ _) (ih false)
  | case5 underKey line rest content hempty hcomment hattribute hkey ih =>
    rw [sectionLines, if_neg hempty, if_neg hcomment, if_neg hattribute, if_pos hkey]
    exact resettles_text (sectionLines_key (trim_trim line) hkey hcomment hattribute _ _) (ih false)
  | case6 underKey line rest content hempty hcomment hattribute hkey hvalue ih =>
    rw [sectionLines, if_neg hempty, if_neg hcomment, if_neg hattribute, if_neg hkey,
      if_pos hvalue]
    refine resettles_text ?_ (ih false)
    rw [sectionLines, trim_indented, trim_trim, if_neg hempty, if_neg hcomment,
      if_neg hattribute, if_neg hkey, if_pos hvalue]
  | case7 underKey line rest content hempty hcomment hattribute hkey hvalue ih =>
    rw [sectionLines, if_neg hempty, if_neg hcomment, if_neg hattribute, if_neg hkey,
      if_neg hvalue]
    refine resettles_text ?_ (ih false)
    rw [sectionLines, trim_indented, trim_trim, if_neg hempty, if_neg hcomment,
      if_neg hattribute, if_neg hkey, if_neg hvalue]

end LogScript.Layout
