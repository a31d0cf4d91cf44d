import LogScript.Proofs.Layout.SecondPassTexts

/-!
The second pass at bars, equals signs, arrows and signs without a rule of their own. An operator joins
the sign in front of it in both passes or in none, unless an arrow stands right behind a statement.
-/

namespace LogScript.Layout

namespace Body

variable {flaw : Prop} {b b' : Body} {text text' : List Char}

/-- A sign that the first pass did not find behind a line is not there in the second pass. -/
theorem head?_trail_ne {z : List Char} {c : Char} (hmay : ∀ d ∈ z.head?, b.MayFollow text d)
    (hblank : isBlank c = false) (hsemicolon : c ≠ ';')
    (htext : b.space = true ∨ text.head? ≠ some c) (k : Nat) (ls : List Line) :
    (z ++ Line.trail k ls).head? ≠ some c := by
  intro hhead
  cases z with
  | nil =>
    rw [List.nil_append] at hhead
    rcases Line.trail_starts k ls with htrail | htrail
    · rw [htrail] at hhead
      cases hhead
    · rw [htrail] at hhead
      cases hhead
      exact absurd hblank (by decide)
  | cons d z =>
    cases hhead
    rcases hmay c rfl with h | h | ⟨hspace, h⟩
    · rw [hblank] at h
      cases h
    · exact hsemicolon h
    · rcases htext with htext | htext
      · rw [hspace] at htext
        cases htext
      · exact htext h

theorem built_push_ne (c : Char) (pushed : List Char) : (b.push (c :: pushed)).built ≠ [] := by
  intro hnil
  have hline := line_eq_nil.2 hnil
  rw [line_push] at hline
  simp at hline

theorem lastChar?_push {c : Char} (hc : isBlank c = false) : (b.push [c]).lastChar? = some c := by
  have hbuilt : (b.push [c]).built = c :: (b.gap.reverse ++ b.built) := by
    simp [Body.push, add, gap]
  rw [lastChar?, hbuilt, List.find?_cons_of_pos (by rw [hc]; rfl)]

/-- Right behind a pushed sign, the run writes the sign that joins it. -/
theorem head?_joined {c d : Char} {rest z : List Char} {b'' : Body} {level : Nat}
    {ls : List Line} (hreads : (b.push [c]).Reads (d :: rest) [] b'' rest)
    (hregular : (b.push [c]).Regular (d :: rest)) (hline : b''.line = ((b.push [c]).push [d]).line)
    (hd : isBlank d = false)
    (hrun : (b.push [c]).run (d :: rest) = .text level ((b.push [c]).line ++ z) :: ls) :
    z.head? = some d := by
  have hline' : b''.line = (b.push [c]).line ++ d :: [] := by
    rw [hline, line_push, gap_of_space rfl]
    rfl
  exact hreads.head?_run hregular hline' hd hrun

theorem synced_bar (h : Synced flaw (b.spaced ['|']) ((b.spaced ['|']).run text))
    (hregular : b.Regular ('|' :: text)) (hdepth : b.depth = 0)
    (hjoins : ¬b.JoinsBar text.head?) : Synced flaw b ((b.spaced ['|']).run text) := by
  have hregular' := (Reads.bar hdepth hjoins).regular hregular
  have hinner : 0 < b.depth → b.built ≠ [] ∧ true = false :=
    fun hpos => absurd hdepth (Nat.ne_of_gt hpos)
  refine Synced.of_space (h.push _ hregular' hinner rfl (by decide) rfl (by decide) ?_)
  intro level z ls hrun k
  have hmay := mayFollow_run hregular' (built_push_ne (b := { b with space := true }) '|' [])
    hdepth hrun
  have hnext := head?_trail_ne hmay (c := '|') (by decide) (by decide) (.inl rfl) k ls
  have hjoins' : ¬JoinsBar { b with space := true } (z ++ Line.trail k ls).head? :=
    fun hjoins' => hjoins'.elim hnext fun hlast => hjoins (.inr hlast)
  exact (Reads.bar (b := { b with space := true }) hdepth hjoins').run_eq

theorem synced_joinedBar (h : Synced flaw (b.push ['|']) ((b.push ['|']).run text))
    (hregular : b.Regular ('|' :: text)) (hdepth : b.depth = 0) (hjoins : b.JoinsBar text.head?) :
    Synced flaw b ((b.push ['|']).run text) := by
  have hregular' := (Reads.joinedBar hdepth hjoins).regular hregular
  refine h.push _ hregular' hregular.inner rfl (by decide) rfl (by decide) fun {_ z ls} hrun k => ?_
  have hjoins' : b.JoinsBar (z ++ Line.trail k ls).head? := by
    rcases hjoins with hnext | hlast
    · obtain ⟨rest, rfl⟩ := List.head?_eq_some_iff.1 hnext
      have hreads : (b.push ['|']).Reads ('|' :: rest) [] ((b.push ['|']).push ['|']) rest :=
        .joinedBar hdepth (.inr (lastChar?_push (by decide)))
      have hz := head?_joined hreads hregular' rfl (by decide) hrun
      exact .inl (by rw [List.head?_append, hz]; rfl)
    · exact .inr hlast
  exact (Reads.joinedBar hdepth hjoins').run_eq

theorem synced_equals (h : Synced flaw (b.spaced ['=']) ((b.spaced ['=']).run text))
    (hregular : b.Regular ('=' :: text)) (hdepth : b.depth = 0) (hnext : text.head? ≠ some '>')
    (hjoins : ¬b.JoinsEquals text.head?) : Synced flaw b ((b.spaced ['=']).run text) := by
  have hregular' := (Reads.equals hdepth hnext hjoins).regular hregular
  have hinner : 0 < b.depth → b.built ≠ [] ∧ true = false :=
    fun hpos => absurd hdepth (Nat.ne_of_gt hpos)
  refine Synced.of_space (h.push _ hregular' hinner rfl (by decide) rfl (by decide) ?_)
  intro level z ls hrun k
  have hmay := mayFollow_run hregular' (built_push_ne (b := { b with space := true }) '=' [])
    hdepth hrun
  have hequals := head?_trail_ne hmay (c := '=') (by decide) (by decide) (.inl rfl) k ls
  have harrow := head?_trail_ne hmay (c := '>') (by decide) (by decide) (.inl rfl) k ls
  have hjoins' : ¬JoinsEquals { b with space := true } (z ++ Line.trail k ls).head? :=
    fun hjoins' => hjoins'.elim hequals fun hlast => hjoins (.inr hlast)
  exact (Reads.equals (b := { b with space := true }) hdepth harrow hjoins').run_eq

/-- An arrow behind a pushed equals sign is written with a space in front of it. -/
theorem run_arrowBehind {rest : List Char} (hdepth : b.depth = 0)
    (hregular : (b.push ['=']).Regular ('=' :: '>' :: rest)) :
    ∃ z ls, (b.push ['=']).run ('=' :: '>' :: rest) =
      .text b.level ((b.push ['=']).line ++ (' ' :: '=' :: '>' :: z)) :: ls := by
  have hreads : (b.push ['=']).Reads ('=' :: '>' :: rest) []
      ((b.push ['=']).spaced ['=', '>']) rest := .arrow hdepth
  have hline : ((b.push ['=']).spaced ['=', '>']).line =
      (b.push ['=']).line ++ [' ', '=', '>'] := by
    have hgap := gap_due (built_push_ne (b := b) '=' [])
    exact (line_push { b.push ['='] with space := true } _).trans (by rw [hgap]; rfl)
  exact hreads.run_writes hregular hline (by decide)

/-- An equals sign that joins an arrow is read alone in the second pass. Only a space in front of
it, or an empty line, makes this no difference. -/
theorem run_equals_arrow (hdepth : b.depth = 0) (hlast : ¬b.JoinsEquals none)
    (hspace : b.space = true ∨ b.built = []) (more : List Char) :
    b.run ('=' :: ' ' :: '=' :: '>' :: more) = (b.push ['=']).run (' ' :: '=' :: '>' :: more) := by
  have hjoins : ¬b.JoinsEquals (' ' :: '=' :: '>' :: more).head? := by
    rintro (hnext | hop)
    · exact absurd hnext (by simp)
    · exact hlast (.inr hop)
  have hreads : b.Reads ('=' :: ' ' :: '=' :: '>' :: more) [] (b.spaced ['='])
      (' ' :: '=' :: '>' :: more) := .equals hdepth (by simp) hjoins
  have hspaces : ∀ b' : Body, b'.depth = 0 →
      b'.run ([' '] ++ '=' :: '>' :: more) = { b' with space := true }.run ('=' :: '>' :: more) := by
    intro b' hdepth'
    exact (Reads.spaces hdepth' (List.cons_ne_nil _ _) blank_of_mem_space
      (fun c hc => by cases hc; decide) (by decide)).run_eq
  have hbody : { b.spaced ['='] with space := true } = { b.push ['='] with space := true } := by
    rcases hspace with hspace | hbuilt
    · rw [spaced, ← hspace]
    · rw [spaced, push_of_built hbuilt]
  rw [hreads.run_eq, List.nil_append]
  exact (hspaces (b.spaced ['=']) hdepth).trans
    ((congrArg (fun b' : Body => b'.run ('=' :: '>' :: more)) hbody).trans
      (hspaces (b.push ['=']) hdepth).symm)

theorem synced_joinedEquals (h : Synced flaw (b.push ['=']) ((b.push ['=']).run text))
    (hregular : b.Regular ('=' :: text)) (hdepth : b.depth = 0) (hnext : text.head? ≠ some '>')
    (hjoins : b.JoinsEquals text.head?) (harrow : ¬b.TightArrow ('=' :: text)) :
    Synced flaw b ((b.push ['=']).run text) := by
  have hregular' := (Reads.joinedEquals hdepth hnext hjoins).regular hregular
  refine h.push _ hregular' hregular.inner rfl (by decide) rfl (by decide) fun {_ z ls} hrun k => ?_
  have hmay := mayFollow_run hregular' (built_push_ne '=' []) hdepth hrun
  have hnext' := head?_trail_ne hmay (c := '>') (by decide) (by decide) (.inr hnext) k ls
  by_cases hlast : b.JoinsEquals none
  · have hjoins' : b.JoinsEquals (z ++ Line.trail k ls).head? :=
      .inr (hlast.resolve_left (by simp))
    exact (Reads.joinedEquals hdepth hnext' hjoins').run_eq
  have hequals := hjoins.resolve_right fun hop => hlast (.inr hop)
  obtain ⟨rest, rfl⟩ := List.head?_eq_some_iff.1 hequals
  by_cases hbehind : rest.head? = some '>'
  · obtain ⟨rest, rfl⟩ := List.head?_eq_some_iff.1 hbehind
    have hspace : b.space = true ∨ b.built = [] := by
      refine Decidable.byContradiction fun hne => harrow ?_
      rw [not_or] at hne
      exact ⟨hdepth, by simpa using hne.1, hne.2, fun hop => hlast (.inr hop), ⟨rest, rfl⟩⟩
    obtain ⟨z', ls', hrun'⟩ := run_arrowBehind hdepth hregular'
    rw [eq_of_run hrun' hrun]
    exact run_equals_arrow hdepth hlast hspace _
  · have hreads : (b.push ['=']).Reads ('=' :: rest) [] ((b.push ['=']).push ['=']) rest :=
      .joinedEquals hdepth hbehind (.inr (by rw [lastChar?_push (by decide)]; decide))
    have hz := head?_joined hreads hregular' rfl (by decide) hrun
    exact (Reads.joinedEquals hdepth hnext' (.inl (by rw [List.head?_append, hz]; rfl))).run_eq

/-- A tight arrow makes the layout diverge: the second pass puts a space in front of its first
sign. -/
theorem synced_tightArrow (hregular : b.Regular text) (harrow : b.TightArrow text) (hflaw : flaw) :
    Synced flaw b (b.run text) := by
  obtain ⟨hdepth, hspace, hbuilt, hlast, rest, rfl⟩ := harrow
  have hreads : b.Reads ('=' :: '=' :: '>' :: rest) [] (b.push ['=']) ('=' :: '>' :: rest) :=
    .joinedEquals hdepth (by simp) (.inl rfl)
  obtain ⟨z', ls', hrun⟩ := run_arrowBehind hdepth (hreads.regular hregular)
  have hline : (b.push ['=']).line = b.line ++ ['='] := by
    rw [line_push, gap_of_space hspace]
    rfl
  intro level z ls hdrop due k hdue
  have hdue : { b with space := due } = b := by
    cases due with
    | false => rw [← hspace]
    | true => exact absurd (hdue rfl) (by simp [hspace, hbuilt])
  have hsource : b.run (['=', '=', '>'] ++ rest) =
      .text b.level (b.line ++ ('=' :: ' ' :: '=' :: '>' :: z')) :: ls' := by
    have hrun' := hreads.run_eq
    rw [List.nil_append, hrun, hline, List.append_assoc] at hrun'
    exact hrun'
  rw [hsource, List.dropWhile_cons_of_neg (by simp [Line.isBlankLine])] at hdrop
  injection hdrop with hfirst hls
  injection hfirst with hlevel hcontent
  rw [List.append_cancel_left_eq] at hcontent
  subst hls hlevel hcontent
  -- The second pass reads the first sign by itself.
  have hjoins : ¬b.JoinsEquals (some ' ') := by
    rintro (hnext | hop)
    · exact absurd hnext (by simp)
    · exact hlast hop
  have hreads' : b.Reads ('=' :: ' ' :: '=' :: '>' :: z' ++ Line.trail k ls') []
      (b.spaced ['=']) (' ' :: '=' :: '>' :: z' ++ Line.trail k ls') :=
    .equals hdepth (by simp) hjoins
  have hregular' : b.Regular ('=' :: ' ' :: '=' :: '>' :: z' ++ Line.trail k ls') :=
    ⟨hregular.first, fun _ => .inl ((hregular.last (by simp)).resolve_right
      fun hpos => absurd hdepth (Nat.ne_of_gt hpos.1)), hregular.inner⟩
  have hspaced : (b.spaced ['=']).line = b.line ++ [' ', '='] :=
    (line_push { b with space := true } _).trans (by rw [gap_due hbuilt]; rfl)
  obtain ⟨z'', ls'', hrun'⟩ := hreads'.run_writes hregular' hspaced (by decide)
  rw [hdue, hrun']
  exact ⟨fun hnone => absurd hflaw hnone, fun _ => Line.diverges_of_ne (by decide) _ _⟩

theorem synced_ordinary {c : Char} (h : Synced flaw (b.push [c]) ((b.push [c]).run text))
    (hregular : b.Regular (c :: text)) (hdepth : b.depth = 0) (hblank : isBlank c = false)
    (hquote : c ≠ '"') (hordinary : isOrdinary c) (hcomment : ¬opensComment (c :: text) = true)
    (hattribute : ¬(c = '#' ∧ text.head? = some '[' ∧ allBlank b.built)) :
    Synced flaw b ((b.push [c]).run text) := by
  have hregular' :=
    (Reads.ordinary hdepth hblank hquote hordinary hcomment hattribute).regular hregular
  refine h.push _ hregular' hregular.inner rfl hblank rfl hblank fun {_ z ls} hrun k => ?_
  rw [opensComment_cons, not_or] at hcomment
  have hbracket : c = '#' → text.head? = some '[' := fun hc =>
    Decidable.byContradiction fun hne => hcomment.2 ⟨hc, hne⟩
  have hcomment' : ¬opensComment (c :: (z ++ Line.trail k ls)) = true := by
    rw [opensComment_cons]
    rintro (⟨rfl, hslash⟩ | ⟨rfl, hne⟩)
    · have hmay := mayFollow_run hregular' (built_push_ne '/' []) hdepth hrun
      exact head?_trail_ne hmay (by decide) (by decide)
        (.inr fun hhead => hcomment.1 ⟨rfl, hhead⟩) k ls hslash
    · obtain ⟨rest, rfl⟩ := List.head?_eq_some_iff.1 (hbracket rfl)
      have hreads : (b.push ['#']).Reads ('[' :: rest) []
          { (b.push ['#']).push ['['] with depth := b.depth + 1 } rest := .bracket hdepth (.inr rfl)
      have hz := head?_joined hreads hregular' rfl (by decide) hrun
      exact hne (by rw [List.head?_append, hz]; rfl)
  refine (Reads.ordinary hdepth hblank hquote hordinary hcomment' ?_).run_eq
  exact fun hc => hattribute ⟨hc.1, hbracket hc.1, hc.2.2⟩

end Body

end LogScript.Layout
