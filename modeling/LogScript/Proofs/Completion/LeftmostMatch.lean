import LogScript.Proofs.Completion.Lookback
import LogScript.Proofs.Highlight.ByteRuns

/-!
Completion as a search. Here the place of a completion is found as in a text of bytes: cut the line
behind the last line feed, leave its last characters as the window, and look there for the leftmost
match of a pattern that goes on to the end; a cut inside a character gives no answer at all. There
always is an answer, and it is the offer that the trailing run gives. From the run can be told when
nothing is offered, where the anchor of an offer is, and that the text behind the anchor is empty or
keeps the offer alive.
-/

namespace LogScript

namespace LeftmostMatch

open ByteScan

/-- The position of the last line feed. -/
def lastLineFeed? : List Char → Option Nat
  | [] => none
  | c :: rest =>
    match lastLineFeed? rest with
    | some i => some (c.utf8Size + i)
    | none => if c == '\n' then some 0 else none

/-- The leftmost position from which a text matches through to its end. -/
def find? (pattern : List Char → Bool) : List Char → Option Nat
  | [] => if pattern [] then some 0 else none
  | c :: rest =>
    if pattern (c :: rest) then some 0 else (find? pattern rest).map (c.utf8Size + ·)

/-- The position of the match that ends with the text and starts in its window. The outer option
tells whether all cuts fall between characters. -/
def before? (pattern : List Char → Bool) (before : List Char) : Option (Option Nat) := do
  let lineStart := (lastLineFeed? before).elim 0 (· + 1)
  let line ← dropBytes? lineStart before
  let windowStart := lineStart + byteLength (line.take (line.length - windowSize))
  let window ← dropBytes? windowStart before
  return (find? pattern window).map (windowStart + ·)

/-- The position of a bar right before the cursor, which only OML looks for. -/
def bar? (language : Language) (before : List Char) : Option (Option Nat) :=
  if language = .oml then before? (· == ['|']) before else some none

/-- The position from which a completion replaces the text; a bar counts more than a word. -/
def start? (language : Language) (before : List Char) (explicit : Bool) :
    Option (Option Nat) := do
  let word ← before? language.isValidTyped before
  let bar ← bar? language before
  return (bar.or word).or (if explicit then some (byteLength before) else none)

/-- The offer of a catalog, with its anchor counted in characters. -/
def complete? (c : Catalog) (before : List Char) (explicit : Bool) : Option (Option Offer) := do
  match ← start? c.language before explicit with
  | none => return none
  | some start =>
    let front ← takeBytes? start before
    return some ⟨c.language, front.length, c.items⟩

/-- The last line feed parts the last line from the lines in front of it. -/
theorem exists_lastLine (text : List Char) :
    ∃ front, text = front ++ (text.reverse.takeWhile (· != '\n')).reverse ∧
      byteLength front = (lastLineFeed? text).elim 0 (· + 1) := by
  induction text with
  | nil => exact ⟨[], rfl, rfl⟩
  | cons c rest ih =>
    obtain ⟨front, hrest, hlength⟩ := ih
    have hlengths := congrArg List.length hrest
    rw [List.length_append, List.length_reverse] at hlengths
    rw [List.reverse_cons, List.takeWhile_append, lastLineFeed?, List.length_reverse]
    cases hline : lastLineFeed? rest with
    | some i =>
      -- the line starts in the rest, whatever stands in front of it
      rw [hline] at hlength
      have hfront : 0 < front.length := by
        rw [List.length_pos_iff]
        rintro rfl
        exact absurd hlength (Nat.succ_ne_zero i).symm
      rw [if_neg (by omega)]
      refine ⟨c :: front, congrArg (c :: ·) hrest, ?_⟩
      rw [byteLength_cons, hlength]
      exact (Nat.add_assoc _ _ _).symm
    | none =>
      rw [hline] at hlength
      obtain rfl : front = [] := by
        by_contra hne
        exact absurd hlength (Nat.ne_of_gt (byteLength_pos hne))
      rw [if_pos (by simpa using hlengths.symm)]
      by_cases hc : c = '\n'
      · subst hc
        exact ⟨['\n'], by simp, rfl⟩
      · exact ⟨[], by simp [hc], by simp [hc]⟩

/-- The search looks at the window, whatever stands in front of it. -/
theorem exists_before?_eq (before : List Char) :
    ∃ front, before = front ++ completionWindow before ∧
      ∀ pattern, before? pattern before =
        some ((find? pattern (completionWindow before)).map (byteLength front + ·)) := by
  obtain ⟨front, hbefore, hlength⟩ := exists_lastLine before
  generalize hline : (before.reverse.takeWhile (· != '\n')).reverse = line at hbefore
  have hwindow : completionWindow before = line.drop (line.length - windowSize) := by
    rw [completionWindow, List.reverse_take, hline, ← List.length_reverse, hline]
  have hparts : before = (front ++ line.take (line.length - windowSize)) ++
      completionWindow before := by
    rw [hwindow, List.append_assoc, List.take_append_drop, ← hbefore]
  refine ⟨front ++ line.take (line.length - windowSize), hparts, fun pattern => ?_⟩
  have hdropLine : dropBytes? (byteLength front) before = some line :=
    dropBytes?_of_eq hbefore rfl
  have hdropWindow : dropBytes? (byteLength front +
      byteLength (line.take (line.length - windowSize))) before =
        some (completionWindow before) :=
    dropBytes?_of_eq hparts (byteLength_append _ _).symm
  simp only [before?, ← hlength, hdropLine, hdropWindow, byteLength_append, Option.bind_eq_bind,
    Option.bind_some, Option.pure_def]

theorem find?_eq_none {pattern : List Char → Bool} {text : List Char}
    (h : ∀ back, back <:+ text → pattern back = false) : find? pattern text = none := by
  induction text with
  | nil => rw [find?, if_neg (by simp [h [] List.suffix_rfl])]
  | cons c rest ih =>
    have hrest := ih fun back hback => h back (hback.trans (List.suffix_cons c rest))
    rw [find?, if_neg (by simp [h (c :: rest) List.suffix_rfl]), hrest, Option.map_none]

/-- A match behind `front` is the leftmost if no longer piece of the text matches. -/
theorem find?_append {pattern : List Char → Bool} {back : List Char} (hback : pattern back = true)
    (front : List Char)
    (h : ∀ more, more ≠ [] → more <:+ front → pattern (more ++ back) = false) :
    find? pattern (front ++ back) = some (byteLength front) := by
  induction front with
  | nil => cases back <;> simp [find?, hback]
  | cons c front ih =>
    have hrest := ih fun more hne hmore => h more hne (hmore.trans (List.suffix_cons c front))
    have hlonger := h (c :: front) (List.cons_ne_nil c front) List.suffix_rfl
    rw [List.cons_append] at hlonger ⊢
    rw [find?, if_neg (by simp [hlonger]), hrest, Option.map_some, byteLength_cons]

/-- No match reaches further back than the trailing run. -/
theorem length_le_trailingRun {accept : Char → Bool} {text back : List Char} (hback : back <:+ text)
    (h : ∀ c ∈ back, accept c = true) : back.length ≤ trailingRun accept text := by
  obtain ⟨front, rfl⟩ := hback
  rw [trailingRun_append_of_all h]
  exact Nat.le_add_right _ _

variable {language : Language} {text : List Char}

/-- Apart from a bar, what keeps an offer alive is a piece of a run. -/
theorem length_le_of_isValidTyped (hbar : ¬(language = .oml ∧ text.getLast? = some '|'))
    {back : List Char} (hback : back <:+ text) (hvalid : language.isValidTyped back = true) :
    0 < back.length ∧ back.length ≤ trailingRun language.isIdentifierChar text := by
  rw [Language.isValidTyped, Bool.or_eq_true, Bool.and_eq_true, Bool.and_eq_true, beq_iff_eq,
    beq_iff_eq, List.all_eq_true] at hvalid
  rcases hvalid with ⟨hne, hall⟩ | ⟨hlanguage, rfl⟩
  · exact ⟨List.length_pos_iff.2 (by simpa using hne), length_le_trailingRun hback hall⟩
  · obtain ⟨front, rfl⟩ := hback
    exact absurd ⟨hlanguage, List.getLast?_concat⟩ hbar

theorem find?_isValidTyped (hbar : ¬(language = .oml ∧ text.getLast? = some '|')) :
    find? language.isValidTyped text =
      if 0 < trailingRun language.isIdentifierChar text then
        some (byteLength (text.take (text.length - trailingRun language.isIdentifierChar text)))
      else none := by
  split
  · rename_i hpos
    obtain ⟨front, run, htext, hlength, hrun⟩ := exists_trailingRun language.isIdentifierChar text
    have htake : text.take (text.length - run.length) = front := by
      rw [htext, List.length_append, Nat.add_sub_cancel, List.take_left]
    have hvalid : language.isValidTyped run = true := by
      rw [Language.isValidTyped, Bool.or_eq_true, Bool.and_eq_true, List.all_eq_true]
      exact .inl ⟨by simpa using List.length_pos_iff.1 (hlength ▸ hpos), hrun⟩
    rw [← hlength, htake]
    conv => lhs; rw [htext]
    refine find?_append hvalid front fun more hne hmore => ?_
    cases hlonger : language.isValidTyped (more ++ run) with
    | false => rfl
    | true =>
      obtain ⟨rest, rfl⟩ := hmore
      have hle := (length_le_of_isValidTyped hbar ⟨rest, by rw [htext, List.append_assoc]⟩ hlonger).2
      have hpos := List.length_pos_iff.2 hne
      rw [List.length_append] at hle
      omega
  · rename_i hzero
    refine find?_eq_none fun back hback => ?_
    cases hvalid : language.isValidTyped back with
    | false => rfl
    | true =>
      obtain ⟨hpos, hle⟩ := length_le_of_isValidTyped hbar hback hvalid
      omega

/-- A bar is found where the text ends with one. -/
theorem find?_bar_concat (front : List Char) :
    find? (· == ['|']) (front ++ ['|']) = some (byteLength front) := by
  refine find?_append rfl front fun more hne _ => ?_
  obtain ⟨c, more, rfl⟩ := List.exists_cons_of_ne_nil hne
  simp

theorem find?_bar_eq_none (h : text.getLast? ≠ some '|') : find? (· == ['|']) text = none := by
  refine find?_eq_none fun back hback => beq_false_of_ne ?_
  rintro rfl
  obtain ⟨front, rfl⟩ := hback
  exact h List.getLast?_concat

/-- The search finds where the replaced text starts. -/
theorem start?_eq (language : Language) (before : List Char) (explicit : Bool) :
    start? language before explicit =
      some ((replacedLength? language before explicit).map fun n =>
        byteLength (before.take (before.length - n))) := by
  obtain ⟨front, hbefore, hsearch⟩ := exists_before?_eq before
  have hposition {a b : List Char} (h : completionWindow before = a ++ b) :
      byteLength front + byteLength a = byteLength (before.take (before.length - b.length)) := by
    rw [hbefore, h, ← List.append_assoc, List.length_append, Nat.add_sub_cancel, List.take_left,
      byteLength_append]
  rw [replacedLength?]
  by_cases hbar : language = .oml ∧ (completionWindow before).getLast? = some '|'
  · obtain ⟨more, hwindow⟩ := List.getLast?_eq_some_iff.1 hbar.2
    have hfound : bar? language before = some (some (byteLength front + byteLength more)) := by
      rw [bar?, if_pos hbar.1, hsearch, hwindow, find?_bar_concat, Option.map_some]
    rw [if_pos hbar, start?, hfound, hsearch, hposition hwindow]
    rfl
  · obtain ⟨more, run, hwindow, hlength, -⟩ :=
      exists_trailingRun language.isIdentifierChar (completionWindow before)
    have hnobar : bar? language before = some none := by
      rw [bar?]
      split
      · rename_i hlanguage
        rw [hsearch, find?_bar_eq_none fun h => hbar ⟨hlanguage, h⟩, Option.map_none]
      · rfl
    have htake : (completionWindow before).take ((completionWindow before).length - run.length) =
        more := by
      rw [hwindow, List.length_append, Nat.add_sub_cancel, List.take_left]
    rw [if_neg hbar, start?, hnobar, hsearch, find?_isValidTyped hbar, ← hlength, htake]
    simp only [Option.bind_eq_bind, Option.bind_some, Option.pure_def, Option.none_or, gt_iff_lt]
    split
    · rw [Option.map_some, Option.map_some, Option.some_or, hposition hwindow]
    · cases explicit with
      | true => simp
      | false => rfl

theorem complete?_eq (c : Catalog) (before : List Char) (explicit : Bool) :
    complete? c before explicit = some (c.complete before explicit) := by
  rw [complete?, start?_eq, Catalog.complete]
  cases hlength : replacedLength? c.language before explicit with
  | none => rfl
  | some n =>
    have htake := takeBytes?_byteLength (before.take (before.length - n))
      (before.drop (before.length - n))
    rw [List.take_append_drop] at htake
    simp [htake]

end LeftmostMatch

/-- For every catalog, every text before the cursor and both kinds of requests: the search answers
with the offer of the catalog. Nothing is offered exactly if nobody asked and neither a run of
identifier characters nor, in OML, a bar is right before the cursor. An offer holds the whole
catalog. Its anchor is in front of the bar, or in front of the last 250 characters of the run, and
the text behind the anchor is empty or keeps the offer alive. -/
theorem Catalog.complete_trailingRun (c : Catalog) (before : List Char) (explicit : Bool) :
    let run := trailingRun c.language.isIdentifierChar before
    LeftmostMatch.complete? c before explicit = some (c.complete before explicit) ∧
      (c.complete before explicit = none ↔
        explicit = false ∧ run = 0 ∧ ¬(c.language = .oml ∧ before.getLast? = some '|')) ∧
      ∀ offer, c.complete before explicit = some offer →
        offer.candidates = c.items ∧ offer.language = c.language ∧
          offer.anchor =
            (if c.language = .oml ∧ before.getLast? = some '|' then before.length - 1
              else before.length - min run 250) ∧
          (before.drop offer.anchor = [] ∨
            offer.language.isValidTyped (before.drop offer.anchor) = true) := by
  intro run
  refine ⟨LeftmostMatch.complete?_eq c before explicit, ?_, fun offer hoffer => ?_⟩
  · rw [Catalog.complete, Option.map_eq_none_iff]
    exact replacedLength?_eq_none_iff
  · obtain ⟨n, hn, rfl⟩ := Option.map_eq_some_iff.1 hoffer
    refine ⟨rfl, rfl, ?_, valid_of_replacedLength? hn⟩
    rw [length_of_replacedLength? hn, apply_ite (before.length - ·), Nat.min_comm]
    rfl

/-- A run that is longer than the window, behind a character of several bytes. -/
theorem Catalog.complete_trailingRun_long :
    let before := 'é' :: ' ' :: List.replicate 300 'a'
    ∃ offer, (Catalog.builtin .wpl .enUS).complete before false = some offer ∧
      offer.anchor = 52 := by
  intro before
  obtain ⟨-, hnone, hoffer⟩ := (Catalog.builtin .wpl .enUS).complete_trailingRun before false
  have hrun : trailingRun Language.wpl.isIdentifierChar before ≠ 0 := by decide +kernel
  obtain ⟨offer, hcomplete⟩ := Option.ne_none_iff_exists'.1 fun h => hrun (hnone.1 h).2.1
  exact ⟨offer, hcomplete, (hoffer offer hcomplete).2.2.1.trans (by decide +kernel)⟩

end LogScript
