import LogScript.Layout.Document
import LogScript.Layout.Wpl

/-!
What the layouts of both languages share about visible characters: line breaks, joining, splitting
into words and dropping blank characters at the ends leave them as they are.
-/

namespace LogScript

@[simp] theorem visible_nil : visible [] = [] := rfl

theorem visible_cons_of_blank {c : Char} (h : isBlank c) (text : List Char) :
    visible (c :: text) = visible text := by
  simp [visible, h]

theorem visible_cons (c : Char) (text : List Char) :
    visible (c :: text) = visible [c] ++ visible text :=
  visible_append [c] text

theorem visible_of_blank {text : List Char} (h : ∀ c ∈ text, isBlank c) : visible text = [] := by
  simpa [visible] using h

@[simp] theorem visible_replicate_space (n : Nat) : visible (List.replicate n ' ') = [] :=
  visible_of_blank (fun c hc => by rw [List.eq_of_mem_replicate hc]; decide)

theorem visible_takeWhile_blank (text : List Char) : visible (text.takeWhile isBlank) = [] :=
  visible_of_blank (List.all_eq_true.1 List.all_takeWhile)

theorem visible_drop_blanks (text : List Char) :
    visible (text.drop (text.takeWhile isBlank).length) = visible text := by
  have hsplit := congrArg visible (takeWhile_append_drop isBlank text)
  rwa [visible_append, visible_takeWhile_blank, List.nil_append] at hsplit

/-- What is left behind a leading part shows the rest of the text. -/
theorem visible_drop_of_prefix {part text : List Char} (h : part <+: text) :
    visible part ++ visible (text.drop part.length) = visible text := by
  obtain ⟨behind, rfl⟩ := h
  rw [List.drop_left, ← visible_append]

theorem visible_of_allBlank {text : List Char} (h : allBlank text) : visible text = [] :=
  visible_of_blank (by simpa [allBlank] using h)

theorem visible_eq_nil_of_trim {text : List Char} (h : trim text = []) : visible text = [] := by
  rw [← visible_trim, h]
  rfl

theorem visible_normalizeNewlines (text : List Char) :
    visible (normalizeNewlines text) = visible text := by
  induction text using normalizeNewlines.induct with
  | case1 => rfl
  | case2 rest ih =>
    rw [normalizeNewlines, visible_cons_of_blank (by decide), ih,
      visible_cons_of_blank (by decide), visible_cons_of_blank (by decide)]
  | case3 rest hne ih =>
    rw [normalizeNewlines, visible_cons_of_blank (by decide), ih,
      visible_cons_of_blank (by decide)]
    exact hne
  | case4 c rest hcrlf hcr ih =>
    rw [normalizeNewlines, visible_cons, ih, ← visible_cons]
    · exact hcrlf
    · exact hcr

theorem flatten_consHead (c : Char) (pieces : List (List Char)) :
    (consHead c pieces).flatten = c :: pieces.flatten := by
  cases pieces <;> rfl

theorem visible_flatten_lines (text : List Char) :
    visible (lines text).flatten = visible text := by
  induction text with
  | nil => rfl
  | cons c rest ih =>
    rw [lines]
    split
    · rename_i hc
      rw [List.flatten_cons, List.nil_append, ih, visible_cons_of_blank (by rw [eq_of_beq hc]; decide)]
    · rw [flatten_consHead, visible_cons, ih, ← visible_cons]

theorem visible_intercalate {gap : List Char} (h : visible gap = []) (ls : List (List Char)) :
    visible (gap.intercalate ls) = visible ls.flatten := by
  induction ls with
  | nil => rfl
  | cons l ls ih =>
    cases ls with
    | nil => simp
    | cons m ls =>
      rw [List.intercalate_cons_cons, visible_append, visible_append, h, ih, List.append_nil,
        ← visible_append, ← List.flatten_cons]

theorem visible_joinLines (ls : List (List Char)) : visible (joinLines ls) = visible ls.flatten :=
  visible_intercalate rfl ls

end LogScript
