import LogScript.Proofs.Layout.OmlVisible
import LogScript.Proofs.Layout.Trimmed

/-!
The text that lines settle to. The text behind a line starts every further line with a line feed,
and with a second one where a blank line is due. Two layouts of the same lines either settle to the
same text, or differ at a character that no further line can make equal.
-/

namespace LogScript.Layout

namespace Line

/-- The text of lines that stand behind another line. -/
def after (gap : Bool) (ls : List Line) : List Char :=
  (settle gap ls).flatMap ('\n' :: ·)

/-- A blank line is due behind some lines; `gap` tells whether one was due in front of them. -/
def gapBehind (gap : Bool) : List Line → Bool
  | [] => gap
  | .blank :: rest => gapBehind true rest
  | .text _ _ :: rest => gapBehind false rest

@[simp] theorem after_nil (gap : Bool) : after gap [] = [] := rfl

@[simp] theorem after_blank (gap : Bool) (ls : List Line) :
    after gap (.blank :: ls) = after true ls := rfl

theorem after_text (gap : Bool) (level : Nat) (text : List Char) (ls : List Line) :
    after gap (.text level text :: ls) =
      '\n' :: ((if gap then ['\n'] else []) ++ indented level text ++ after false ls) := by
  cases gap <;> simp [after, settle]

theorem settle_append (gap : Bool) (front ls : List Line) :
    settle gap (front ++ ls) = settle gap front ++ settle (gapBehind gap front) ls := by
  induction front generalizing gap with
  | nil => rfl
  | cons line front ih =>
    cases line with
    | blank => exact ih true
    | text level text => simp only [List.cons_append, settle, gapBehind, ih, List.append_assoc]

theorem after_append (gap : Bool) (front ls : List Line) :
    after gap (front ++ ls) = after gap front ++ after (gapBehind gap front) ls := by
  rw [after, settle_append, List.flatMap_append]
  rfl

theorem dropWhile_isBlankLine (ls : List Line) :
    ls.dropWhile isBlankLine = [] ∨
      ∃ level text rest, ls.dropWhile isBlankLine = .text level text :: rest := by
  induction ls with
  | nil => exact .inl rfl
  | cons line ls ih =>
    cases line with
    | blank => exact ih
    | text level text => exact .inr ⟨level, text, ls, rfl⟩

/-- Blank lines in front of a line of text are worth one. -/
theorem after_of_dropWhile {ls rest : List Line} {level : Nat} {text : List Char}
    (h : ls.dropWhile isBlankLine = .text level text :: rest) (gap : Bool) :
    ∃ due : Bool, after gap ls = after due (.text level text :: rest) ∧
      (due = true ↔ gap = true ∨ ls ≠ .text level text :: rest) := by
  induction ls generalizing gap with
  | nil => cases h
  | cons line ls ih =>
    cases line with
    | blank =>
      rw [List.dropWhile_cons_of_pos rfl] at h
      obtain ⟨due, hafter, hdue⟩ := ih h true
      refine ⟨due, hafter, ?_⟩
      simp [hdue]
    | text l t =>
      rw [List.dropWhile_cons_of_neg (by simp [isBlankLine])] at h
      exact ⟨gap, by rw [h], by simp [h]⟩

theorem after_of_dropWhile_nil {ls : List Line} (h : ls.dropWhile isBlankLine = [])
    (gap : Bool) : after gap ls = [] := by
  induction ls generalizing gap with
  | nil => rfl
  | cons line ls ih =>
    cases line with
    | blank => exact ih h true
    | text level text =>
      rw [List.dropWhile_cons_of_neg (by simp [isBlankLine])] at h
      cases h

theorem shown_of_dropWhile_nil {ls : List Line} (h : ls.dropWhile isBlankLine = []) :
    shown ls = [] := by
  rw [← shown_dropWhile_isBlankLine, h, shown_nil]

theorem visible_after (gap : Bool) (ls : List Line) : visible (after gap ls) = shown ls := by
  rw [← visible_settle gap, after]
  induction settle gap ls with
  | nil => rfl
  | cons line settled ih =>
    rw [List.flatMap_cons, List.flatten_cons, visible_append, visible_append, ih,
      visible_cons_of_blank (by decide)]

theorem head?_after (gap : Bool) (ls : List Line) :
    after gap ls = [] ∨ (after gap ls).head? = some '\n' := by
  rw [after]
  cases settle gap ls with
  | nil => exact .inl rfl
  | cons line settled => exact .inr rfl

theorem lineFeed_flatMap (settled : List (List Char)) :
    '\n' :: settled.flatMap (· ++ ['\n']) = settled.flatMap ('\n' :: ·) ++ ['\n'] := by
  induction settled with
  | nil => rfl
  | cons line settled ih =>
    simp only [List.flatMap_cons, List.cons_append, List.append_assoc, ← ih, List.nil_append]

theorem after_true_dropWhile (ls : List Line) :
    after true (ls.dropWhile isBlankLine) = after true ls := by
  induction ls with
  | nil => rfl
  | cons line ls ih =>
    cases line with
    | blank => exact ih
    | text level text => rw [List.dropWhile_cons_of_neg (by simp [isBlankLine])]

theorem gapBehind_true_dropWhile (ls : List Line) :
    gapBehind true (ls.dropWhile isBlankLine) = gapBehind true ls := by
  induction ls with
  | nil => rfl
  | cons line ls ih =>
    cases line with
    | blank => exact ih
    | text level text => rw [List.dropWhile_cons_of_neg (by simp [isBlankLine])]

/-- The text of lines, each with its line feed. -/
def written (gap : Bool) (ls : List Line) : List Char :=
  (settle gap ls).flatMap (· ++ ['\n'])

theorem lineFeed_written (gap : Bool) (ls : List Line) :
    '\n' :: written gap ls = after gap ls ++ ['\n'] :=
  lineFeed_flatMap _

theorem written_append (gap : Bool) (front ls : List Line) :
    written gap (front ++ ls) = written gap front ++ written (gapBehind gap front) ls := by
  rw [written, settle_append, List.flatMap_append]
  rfl

theorem render_eq_written {ls : List Line} (h : ls.dropWhile isBlankLine ≠ []) :
    render ls = written false (ls.dropWhile isBlankLine) ++ ['\n'] := by
  rcases dropWhile_isBlankLine ls with hnil | ⟨level, text, rest, hdrop⟩
  · exact absurd hnil h
  · rw [render, written, hdrop]
    rfl

/-- What a document reads once its first line of text is known. -/
theorem render_of_dropWhile {ls rest : List Line} {level : Nat} {text : List Char}
    (h : ls.dropWhile isBlankLine = .text level text :: rest) :
    render ls = indented level text ++ after false rest ++ ['\n', '\n'] := by
  have hafter : after false (.text level text :: rest) =
      '\n' :: (indented level text ++ after false rest) := after_text false level text rest
  have hwritten := lineFeed_written false (.text level text :: rest)
  rw [hafter, List.cons_append, List.cons.injEq] at hwritten
  rw [render_eq_written (by rw [h]; exact List.cons_ne_nil _ _), h, hwritten.2,
    List.append_assoc _ ['\n']]
  rfl

theorem render_of_dropWhile_nil {ls : List Line} (h : ls.dropWhile isBlankLine = []) :
    render ls = [] := by
  rw [render, h]
  rfl

theorem after_true_of_dropWhile {ls rest : List Line} {level : Nat} {text : List Char}
    (h : ls.dropWhile isBlankLine = .text level text :: rest) :
    after true ls = '\n' :: '\n' :: (indented level text ++ after false rest) := by
  obtain ⟨due, hafter, hdue⟩ := after_of_dropWhile h true
  rw [hafter, hdue.2 (.inl rfl), after_text]
  rfl

/-- Two documents read the same when their lines would read the same behind a blank line. -/
theorem render_eq_iff {old new : List Line} :
    render new = render old ↔ after true new = after true old := by
  have hnil : ∀ {ls : List Line}, ls.dropWhile isBlankLine = [] →
      render ls = [] ∧ after true ls = [] := fun h =>
    ⟨render_of_dropWhile_nil h, after_of_dropWhile_nil h true⟩
  have htext : ∀ {ls rest : List Line} {level : Nat} {text : List Char},
      ls.dropWhile isBlankLine = .text level text :: rest →
        '\n' :: '\n' :: render ls = after true ls ++ ['\n', '\n'] := fun h => by
    rw [render_of_dropWhile h, after_true_of_dropWhile h]
    rfl
  rcases dropWhile_isBlankLine old with hold | ⟨level, text, rest, hold⟩
  · rcases dropWhile_isBlankLine new with hnew | ⟨level', text', rest', hnew⟩
    · rw [(hnil hold).1, (hnil hold).2, (hnil hnew).1, (hnil hnew).2]
    · rw [(hnil hold).1, (hnil hold).2, render_of_dropWhile hnew, after_true_of_dropWhile hnew]
      simp
  · rcases dropWhile_isBlankLine new with hnew | ⟨level', text', rest', hnew⟩
    · rw [(hnil hnew).1, (hnil hnew).2, render_of_dropWhile hold, after_true_of_dropWhile hold]
      simp
    · rw [← List.append_cancel_right_eq (after true new) ['\n', '\n'], ← htext hnew,
        ← htext hold, List.cons.injEq, List.cons.injEq]
      simp only [true_and]

theorem mem_settle {gap : Bool} {ls : List Line} {settled : List Char}
    (h : settled ∈ settle gap ls) :
    settled = [] ∨ ∃ level text, .text level text ∈ ls ∧ settled = indented level text := by
  induction ls generalizing gap with
  | nil => cases h
  | cons line ls ih =>
    have hrest : ∀ {due : Bool}, settled ∈ settle due ls → settled = [] ∨
        ∃ level text, .text level text ∈ line :: ls ∧ settled = indented level text := fun h =>
      (ih h).imp_right fun ⟨level, content, hmem, heq⟩ =>
        ⟨level, content, List.mem_cons_of_mem line hmem, heq⟩
    cases line with
    | blank => exact hrest h
    | text level text =>
      rw [settle, List.mem_append, List.mem_cons] at h
      rcases h with h | rfl | h
      · split at h
        · exact .inl (List.mem_singleton.1 h)
        · cases h
      · exact .inr ⟨level, text, List.mem_cons_self, rfl⟩
      · exact hrest h

theorem gapBehind_of_after {gap : Bool} {ls : List Line} (h : after gap ls ≠ []) (due due' : Bool) :
    gapBehind due ls = gapBehind due' ls := by
  cases ls with
  | nil => exact absurd rfl h
  | cons line ls => cases line <;> rfl

/-- The text behind a line: further lines, and some line feeds. -/
def trail (k : Nat) (ls : List Line) : List Char :=
  after false ls ++ List.replicate k '\n'

theorem count_spaces (n : Nat) : (List.replicate n ' ').count '\n' = 0 :=
  List.count_eq_zero.2 fun hmem => absurd (List.eq_of_mem_replicate hmem) (by decide)

/-- In front of the first line of text stand blank characters, with two line feeds if a blank line
does. -/
theorem trail_of_dropWhile {ls rest : List Line} {level : Nat} {text : List Char}
    (h : ls.dropWhile isBlankLine = .text level text :: rest) (k : Nat) :
    ∃ blanks, trail k ls = blanks ++ (text ++ trail k rest) ∧ blanks ≠ [] ∧
      (∀ c ∈ blanks, isBlank c) ∧
      (ls = .text level text :: rest ∧ blanks.count '\n' = 1 ∨
        ls ≠ .text level text :: rest ∧ blanks.count '\n' = 2) := by
  obtain ⟨due, hafter, hdue⟩ := after_of_dropWhile h false
  have hcount := count_spaces (4 * level)
  refine ⟨'\n' :: ((if due then ['\n'] else []) ++ List.replicate (4 * level) ' '), ?_,
    List.cons_ne_nil _ _, ?_, ?_⟩
  · rw [trail, trail, hafter, after_text, indented]
    simp only [List.cons_append, List.append_assoc]
  · intro c hc
    rcases List.mem_cons.1 hc with rfl | hc
    · decide
    rcases List.mem_append.1 hc with hc | hc
    · split at hc
      · rw [List.mem_singleton.1 hc]
        decide
      · cases hc
    · exact blank_of_mem_spaces c hc
  · cases due with
    | false =>
      have hls : ls = .text level text :: rest :=
        Decidable.byContradiction fun hne => Bool.false_ne_true (hdue.2 (.inr hne))
      exact .inl ⟨hls, by simp [hcount]⟩
    | true =>
      have hls := (hdue.1 rfl).resolve_left Bool.false_ne_true
      exact .inr ⟨hls, by simp [hcount]⟩

theorem trail_starts (k : Nat) (ls : List Line) :
    trail k ls = [] ∨ (trail k ls).head? = some '\n' := by
  rcases head?_after false ls with h | h
  · cases k with
    | zero => exact .inl (by rw [trail, h]; rfl)
    | succ k => exact .inr (by rw [trail, h]; rfl)
  · exact .inr (by rw [trail, List.head?_append, h]; rfl)

theorem visible_trail (k : Nat) (ls : List Line) : visible (trail k ls) = shown ls := by
  have hbreaks : visible (List.replicate k '\n') = [] :=
    visible_of_blank fun c hc => by rw [List.eq_of_mem_replicate hc]; decide
  rw [trail, visible_append, visible_after, hbreaks, List.append_nil]

/-- Lines read from the layout of some lines, where `k` line feeds followed. They settle to the
same text and, unless an empty line followed, leave no blank line due behind them. -/
structure Restores (k : Nat) (old new : List Line) : Prop where
  text : ∀ gap, after gap new = after gap old
  behind : k < 2 → gapBehind false new = false

/-- Lines that settle to a text that differs before it ends. -/
def Diverges (old new : List Line) : Prop :=
  ∀ gap tail tail', after gap new ++ tail' ≠ after gap old ++ tail

/-- Lines are restored, unless a flaw makes them diverge. -/
structure Relaid (flaw : Prop) (k : Nat) (old new : List Line) : Prop where
  restores : ¬flaw → Restores k old new
  diverges : flaw → Diverges old new

variable {flaw : Prop} {k : Nat} {old new : List Line}

theorem Relaid.text_cons (h : Relaid flaw k old new) (level : Nat) (text : List Char) :
    Relaid flaw k (.text level text :: old) (.text level text :: new) := by
  refine ⟨fun hflaw => ⟨fun gap => ?_, (h.restores hflaw).behind⟩, fun hflaw gap tail tail' heq => ?_⟩
  · rw [after_text, after_text, (h.restores hflaw).text]
  · rw [after_text, after_text] at heq
    simp only [List.cons_append, List.append_assoc, List.cons.injEq, true_and,
      List.append_cancel_left_eq] at heq
    exact h.diverges hflaw false tail tail' heq

/-- Blank lines in front of a line of text may become one. -/
theorem Relaid.of_blanks {level : Nat} {text : List Char} {rest : List Line}
    (h : Relaid flaw k (.text level text :: rest) new)
    (hdrop : old.dropWhile isBlankLine = .text level text :: rest)
    (hne : old ≠ .text level text :: rest) : Relaid flaw k old (.blank :: new) := by
  have hafter : ∀ gap, after gap old = after true (.text level text :: rest) := by
    intro gap
    obtain ⟨due, hafter, hdue⟩ := after_of_dropWhile hdrop gap
    rw [hafter, hdue.2 (.inr hne)]
  refine ⟨fun hflaw => ⟨fun gap => ?_, fun hk => ?_⟩, fun hflaw gap => ?_⟩
  · rw [hafter]
    exact (h.restores hflaw).text true
  · have hsome : after false new ≠ [] := by
      rw [(h.restores hflaw).text, after_text]
      exact List.cons_ne_nil _ _
    exact (gapBehind_of_after hsome true false).trans ((h.restores hflaw).behind hk)
  · rw [hafter]
    exact h.diverges hflaw true

theorem relaid_of_blank (hflaw : ¬flaw) (hold : old.dropWhile isBlankLine = [])
    (hnew : new = [] ∨ new = [.blank] ∧ 2 ≤ k) : Relaid flaw k old new := by
  refine ⟨fun _ => ⟨fun gap => ?_, fun hk => ?_⟩, fun h => absurd h hflaw⟩
  · rw [after_of_dropWhile_nil hold]
    rcases hnew with rfl | ⟨rfl, -⟩ <;> rfl
  · rcases hnew with rfl | ⟨rfl, hne⟩
    · rfl
    · omega

theorem diverges_of_ne {level : Nat} {front text text' : List Char} {c c' : Char} (h : c ≠ c')
    (old new : List Line) :
    Diverges (.text level (front ++ c :: text) :: old)
      (.text level (front ++ c' :: text') :: new) := by
  intro gap tail tail' heq
  rw [after_text, after_text, indented, indented] at heq
  simp only [List.cons_append, List.append_assoc, List.cons.injEq, true_and,
    List.append_cancel_left_eq] at heq
  exact h heq.1.symm

end Line

end LogScript.Layout
