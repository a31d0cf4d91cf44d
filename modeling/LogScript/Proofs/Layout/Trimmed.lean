import LogScript.Layout.OmlBody
import LogScript.Text.Lines

/-!
Trimmed texts, and texts cut into lines. Trimming twice trims once; a text that starts and ends
with a visible character is its own trim. A line feed cuts the lines of a text in two, and joining
the lines of a text that ends with a line feed gives the text in front of it.
-/

namespace LogScript

theorem trimEnd_cons_of_not_blank {c : Char} (h : isBlank c = false) (text : List Char) :
    trimEnd (c :: text) = c :: trimEnd text := by
  rw [trimEnd]
  split
  · rename_i hrest
    rw [hrest, h]
    rfl
  · rfl

theorem blank_of_mem_space : ∀ c ∈ [' '], isBlank c := by
  intro c hc
  rw [List.mem_singleton.1 hc]
  decide

theorem blank_of_mem_spaces {n : Nat} : ∀ c ∈ List.replicate n ' ', isBlank c := by
  intro c hc
  rw [List.eq_of_mem_replicate hc]
  decide

theorem blank_of_mem_lineFeed : ∀ c ∈ ['\n'], isBlank c := by
  intro c hc
  rw [List.mem_singleton.1 hc]
  decide

theorem blank_of_mem_indentOf (text : List Char) : ∀ c ∈ indentOf text, isBlank c :=
  fun _ hc => List.all_eq_true.1 List.all_takeWhile _ hc

theorem trimEnd_of_blanks {text : List Char} (h : ∀ c ∈ text, isBlank c) : trimEnd text = [] := by
  induction text with
  | nil => rfl
  | cons c rest ih =>
    rw [trimEnd, ih (fun d hd => h d (List.mem_cons_of_mem c hd))]
    exact if_pos (h c List.mem_cons_self)

theorem trimEnd_append_blanks (text : List Char) {blanks : List Char}
    (h : ∀ c ∈ blanks, isBlank c) : trimEnd (text ++ blanks) = trimEnd text := by
  induction text with
  | nil => exact trimEnd_of_blanks h
  | cons c rest ih => rw [List.cons_append, trimEnd, trimEnd, ih]

theorem trimEnd_append_of_ne {text : List Char} (front : List Char) (h : trimEnd text ≠ []) :
    trimEnd (front ++ text) = front ++ trimEnd text := by
  induction front with
  | nil => rfl
  | cons c front ih =>
    rw [List.cons_append, trimEnd, ih]
    split
    · rename_i hempty
      exact absurd (List.append_eq_nil_iff.1 hempty).2 h
    · rfl

theorem trimEnd_concat {c : Char} (h : isBlank c = false) (text : List Char) :
    trimEnd (text ++ [c]) = text ++ [c] := by
  have hlast : trimEnd [c] = [c] := trimEnd_cons_of_not_blank h []
  rw [trimEnd_append_of_ne text (by rw [hlast]; exact List.cons_ne_nil c []), hlast]

theorem trimEnd_ne_nil {text : List Char} {c : Char} (hc : c ∈ text) (h : isBlank c = false) :
    trimEnd text ≠ [] := by
  induction text with
  | nil => cases hc
  | cons d rest ih =>
    rw [trimEnd]
    rcases List.mem_cons.1 hc with rfl | hc
    · split
      · rw [h]
        exact List.cons_ne_nil c []
      · exact List.cons_ne_nil _ _
    · split
      · rename_i hrest
        exact absurd hrest (ih hc)
      · exact List.cons_ne_nil _ _

/-- Trimming takes blank characters off the end, and no others. -/
theorem exists_trimEnd_append (text : List Char) :
    ∃ blanks, text = trimEnd text ++ blanks ∧ ∀ c ∈ blanks, isBlank c := by
  induction text with
  | nil => exact ⟨[], rfl, fun c hc => absurd hc List.not_mem_nil⟩
  | cons c rest ih =>
    obtain ⟨blanks, hrest, hblanks⟩ := ih
    rw [trimEnd]
    split
    · rename_i hempty
      rw [hempty, List.nil_append] at hrest
      split
      · rename_i hc
        refine ⟨c :: rest, rfl, fun d hd => ?_⟩
        rcases List.mem_cons.1 hd with rfl | hd
        · exact hc
        · rw [hrest] at hd
          exact hblanks d hd
      · exact ⟨blanks, by rw [hrest]; rfl, hblanks⟩
    · exact ⟨blanks, by rw [List.cons_append, ← hrest], hblanks⟩

theorem trimEnd_eq_nil {text : List Char} (h : trimEnd text = []) : ∀ c ∈ text, isBlank c := by
  obtain ⟨blanks, htext, hblanks⟩ := exists_trimEnd_append text
  rw [h, List.nil_append] at htext
  rw [htext]
  exact hblanks

theorem prefix_trimEnd (text : List Char) : trimEnd text <+: text := by
  obtain ⟨blanks, htext, -⟩ := exists_trimEnd_append text
  exact ⟨blanks, htext.symm⟩

theorem prefix_trimEnd_append (front text : List Char) : trimEnd front <+: trimEnd (front ++ text) := by
  by_cases h : trimEnd text = []
  · have heq := trimEnd_append_blanks front (trimEnd_eq_nil h)
    exact heq ▸ List.prefix_rfl
  · rw [trimEnd_append_of_ne front h]
    exact (prefix_trimEnd front).trans (List.prefix_append front _)

theorem head?_of_head?_trimEnd {c : Char} {text : List Char} (h : (trimEnd text).head? = some c) :
    text.head? = some c := by
  obtain ⟨blanks, htext, -⟩ := exists_trimEnd_append text
  rw [htext, List.head?_append, h]
  rfl

theorem getLast?_trimEnd (text : List Char) : ∀ c ∈ (trimEnd text).getLast?, isBlank c = false := by
  induction text with
  | nil => exact fun c hc => by cases hc
  | cons d rest ih =>
    intro c hc
    rw [trimEnd] at hc
    split at hc
    · split at hc
      · cases hc
      · rename_i hd
        cases hc
        simpa using hd
    · rename_i kept hkept
      rw [List.getLast?_cons_of_ne_nil hkept] at hc
      exact ih c hc

theorem trimEnd_of_getLast? {text : List Char} (h : ∀ c ∈ text.getLast?, isBlank c = false) :
    trimEnd text = text := by
  rcases List.eq_nil_or_concat text with rfl | ⟨front, c, rfl⟩
  · rfl
  · rw [List.concat_eq_append] at h ⊢
    exact trimEnd_concat (h c (by simp)) front

theorem trimEnd_trimEnd (text : List Char) : trimEnd (trimEnd text) = trimEnd text :=
  trimEnd_of_getLast? (getLast?_trimEnd text)

theorem trimStart_of_head? {text : List Char} (h : ∀ c ∈ text.head?, isBlank c = false) :
    trimStart text = text := by
  cases text with
  | nil => rfl
  | cons c rest => exact List.dropWhile_cons_of_neg (by simp [h c rfl])

theorem trim_of_head? {text : List Char} (h : ∀ c ∈ text.head?, isBlank c = false) :
    trim text = trimEnd text := by
  rw [trim, trimStart_of_head? h]

theorem trim_of_ends {text : List Char} (hfirst : ∀ c ∈ text.head?, isBlank c = false)
    (hlast : ∀ c ∈ text.getLast?, isBlank c = false) : trim text = text := by
  rw [trim_of_head? hfirst, trimEnd_of_getLast? hlast]

theorem trimStart_of_blanks {text : List Char} (h : ∀ c ∈ text, isBlank c) :
    trimStart text = [] := by
  induction text with
  | nil => rfl
  | cons c rest ih =>
    rw [trimStart, List.dropWhile_cons_of_pos (h c List.mem_cons_self)]
    exact ih (fun d hd => h d (List.mem_cons_of_mem c hd))

theorem trimStart_append_of_blanks {blanks : List Char} (h : ∀ c ∈ blanks, isBlank c)
    (text : List Char) : trimStart (blanks ++ text) = trimStart text :=
  List.dropWhile_append_of_pos h

theorem indentOf_append {indent : List Char} {c : Char} (hindent : ∀ c ∈ indent, isBlank c)
    (hc : isBlank c = false) (text : List Char) : indentOf (indent ++ c :: text) = indent := by
  rw [indentOf, List.takeWhile_append_of_pos hindent, List.takeWhile_cons_of_neg (by simp [hc]),
    List.append_nil]

theorem trimStart_of_indent {indent text : List Char} {c : Char} (hindent : ∀ c ∈ indent, isBlank c)
    (hhead : text.head? = some c) (hblank : isBlank c = false) : trimStart (indent ++ text) = text := by
  rw [trimStart_append_of_blanks hindent, trimStart_of_head?]
  intro d hd
  rw [hhead] at hd
  cases hd
  exact hblank

theorem head?_trimStart (text : List Char) : ∀ c ∈ (trimStart text).head?, isBlank c = false := by
  induction text with
  | nil => exact fun c hc => by cases hc
  | cons d rest ih =>
    intro c hc
    rw [trimStart, List.dropWhile_cons] at hc
    split at hc
    · exact ih c hc
    · rename_i hd
      cases hc
      simpa using hd

theorem head?_trim (text : List Char) : ∀ c ∈ (trim text).head?, isBlank c = false := by
  intro c hc
  obtain ⟨blanks, htext, -⟩ := exists_trimEnd_append (trimStart text)
  have hprefix : trim text ++ blanks = trimStart text := htext.symm
  refine head?_trimStart text c ?_
  rw [← hprefix, List.head?_append, Option.mem_def.1 hc]
  rfl

theorem getLast?_trim (text : List Char) : ∀ c ∈ (trim text).getLast?, isBlank c = false :=
  getLast?_trimEnd _

theorem trim_trim (text : List Char) : trim (trim text) = trim text :=
  trim_of_ends (head?_trim text) (getLast?_trim text)

/-- Trimming takes off the indentation, and blank characters at the end. -/
theorem exists_trim_append (text : List Char) :
    ∃ blanks, text = indentOf text ++ (trim text ++ blanks) ∧ ∀ c ∈ blanks, isBlank c := by
  obtain ⟨blanks, hend, hblanks⟩ := exists_trimEnd_append (trimStart text)
  refine ⟨blanks, ?_, hblanks⟩
  rw [trim, ← hend]
  exact List.takeWhile_append_dropWhile.symm

theorem trim_append_blanks (text : List Char) {blanks : List Char} (h : ∀ c ∈ blanks, isBlank c) :
    trim (text ++ blanks) = trim text := by
  cases hstart : trimStart text with
  | nil =>
    have hboth : trimStart (text ++ blanks) = [] := by
      rw [trimStart, List.dropWhile_append, ← trimStart, hstart]
      exact trimStart_of_blanks h
    rw [trim, trim, hboth, hstart]
  | cons c rest =>
    have hboth : trimStart (text ++ blanks) = trimStart text ++ blanks := by
      rw [trimStart, List.dropWhile_append, ← trimStart, hstart]
      rfl
    rw [trim, hboth, trimEnd_append_blanks _ h, trim]

theorem trim_blanks_append {blanks : List Char} (h : ∀ c ∈ blanks, isBlank c) (text : List Char) :
    trim (blanks ++ text) = trim text := by
  rw [trim, trimStart_append_of_blanks h]
  rfl

theorem mem_of_mem_trim {c : Char} {text : List Char} (h : c ∈ trim text) : c ∈ text := by
  obtain ⟨blanks, htext, -⟩ := exists_trimEnd_append (trimStart text)
  have hstart : c ∈ trimStart text := by
    rw [htext]
    exact List.mem_append_left _ h
  exact (List.dropWhile_sublist isBlank).mem hstart

theorem lines_lineFeed (text : List Char) : lines ('\n' :: text) = [] :: lines text := rfl

theorem lines_cons {c : Char} (h : c ≠ '\n') (text : List Char) :
    lines (c :: text) = consHead c (lines text) := by
  rw [lines, if_neg (by simpa using h)]

/-- A line feed ends a line; what follows is cut by itself. -/
theorem lines_append_lineFeed (front text : List Char) :
    lines (front ++ '\n' :: text) = lines (front ++ ['\n']) ++ lines text := by
  induction front with
  | nil => rfl
  | cons c front ih =>
    by_cases hc : c = '\n'
    · subst hc
      simp only [List.cons_append, lines_lineFeed, ih]
    · have hne : lines (front ++ ['\n']) ≠ [] := by
        cases front with
        | nil => exact List.cons_ne_nil _ _
        | cons d front =>
          rw [List.cons_append, lines]
          split
          · exact List.cons_ne_nil _ _
          · cases lines (front ++ ['\n']) <;> exact List.cons_ne_nil _ _
      rw [List.cons_append, lines_cons hc, ih, List.cons_append, lines_cons hc]
      cases hlines : lines (front ++ ['\n']) with
      | nil => exact absurd hlines hne
      | cons piece pieces => rfl

theorem lines_of_not_mem {line : List Char} (h : '\n' ∉ line) (text : List Char) :
    lines (line ++ '\n' :: text) = line :: lines text := by
  induction line with
  | nil => rfl
  | cons c line ih =>
    have hc : c ≠ '\n' := fun heq => h (heq ▸ List.mem_cons_self)
    rw [List.cons_append, lines_cons hc, ih (fun hm => h (List.mem_cons_of_mem c hm))]
    rfl

/-- A text without line feeds is one line. -/
theorem lines_of_one {line : List Char} (hne : line ≠ []) (h : '\n' ∉ line) :
    lines line = [line] := by
  induction line with
  | nil => exact absurd rfl hne
  | cons c line ih =>
    rw [List.mem_cons, not_or] at h
    rw [lines_cons fun heq => h.1 heq.symm]
    by_cases hline : line = []
    · rw [hline]
      rfl
    · rw [ih hline h.2]
      rfl

/-- The first line of a text, and what follows it with its line feed. -/
theorem exists_firstLine_append (text : List Char) :
    ∃ behind, text = firstLine text ++ behind ∧ '\n' ∉ firstLine text ∧
      (behind = [] ∨ behind.head? = some '\n') := by
  induction text with
  | nil => exact ⟨[], rfl, List.not_mem_nil, .inl rfl⟩
  | cons c rest ih =>
    by_cases hc : c = '\n'
    · subst hc
      exact ⟨_, rfl, List.not_mem_nil, .inr rfl⟩
    · obtain ⟨behind, hrest, hline, hbehind⟩ := ih
      rw [firstLine_cons hc]
      refine ⟨behind, congrArg (c :: ·) hrest, ?_, hbehind⟩
      rw [List.mem_cons, not_or]
      exact ⟨fun heq => hc heq.symm, hline⟩

theorem firstLine_of_not_mem {line : List Char} (h : '\n' ∉ line) :
    firstLine line = line ∧ afterFirstLine line = [] := by
  induction line with
  | nil => exact ⟨rfl, rfl⟩
  | cons c line ih =>
    rw [List.mem_cons, not_or] at h
    have hc : c ≠ '\n' := fun heq => h.1 heq.symm
    rw [firstLine_cons hc, afterFirstLine_cons hc, (ih h.2).1, (ih h.2).2]
    exact ⟨rfl, rfl⟩

theorem firstLine_append_lineFeed {line : List Char} (h : '\n' ∉ line) (rest : List Char) :
    firstLine (line ++ '\n' :: rest) = line ∧ afterFirstLine (line ++ '\n' :: rest) = rest := by
  induction line with
  | nil => exact ⟨rfl, rfl⟩
  | cons c line ih =>
    rw [List.mem_cons, not_or] at h
    have hc : c ≠ '\n' := fun heq => h.1 heq.symm
    rw [List.cons_append, firstLine_cons hc, afterFirstLine_cons hc, (ih h.2).1, (ih h.2).2]
    exact ⟨rfl, rfl⟩

/-- A text is one line, or a line in front of further text. -/
theorem line_cases (text : List Char) :
    '\n' ∉ text ∨ ∃ line rest, '\n' ∉ line ∧ text = line ++ '\n' :: rest := by
  obtain ⟨behind, htext, hline, hbehind⟩ := exists_firstLine_append text
  rcases hbehind with rfl | hbehind
  · rw [List.append_nil] at htext
    exact .inl (htext ▸ hline)
  · obtain ⟨rest, rfl⟩ := List.head?_eq_some_iff.1 hbehind
    exact .inr ⟨firstLine text, rest, hline, htext⟩

theorem lines_flatMap_lineFeed {ls : List (List Char)} (h : ∀ line ∈ ls, '\n' ∉ line)
    (text : List Char) : lines (ls.flatMap (· ++ ['\n']) ++ text) = ls ++ lines text := by
  induction ls with
  | nil => rfl
  | cons line ls ih =>
    rw [List.flatMap_cons, List.append_assoc, List.append_assoc, List.singleton_append,
      lines_of_not_mem (h line List.mem_cons_self),
      ih (fun l hl => h l (List.mem_cons_of_mem line hl)), List.cons_append]

theorem not_mem_of_mem_lines {text line : List Char} (h : line ∈ lines text) : '\n' ∉ line := by
  induction text generalizing line with
  | nil => cases h
  | cons c text ih =>
    by_cases hc : c = '\n'
    · rw [hc, lines_lineFeed] at h
      rcases List.mem_cons.1 h with rfl | h
      · exact List.not_mem_nil
      · exact ih h
    · rw [lines_cons hc] at h
      cases hlines : lines text with
      | nil =>
        rw [hlines, consHead, List.mem_singleton] at h
        rw [h, List.mem_singleton]
        exact fun heq => hc heq.symm
      | cons piece pieces =>
        rw [hlines, consHead, List.mem_cons] at h
        rcases h with rfl | h
        · intro hm
          rcases List.mem_cons.1 hm with heq | hm
          · exact hc heq.symm
          · exact ih (hlines ▸ List.mem_cons_self) hm
        · exact ih (hlines ▸ List.mem_cons_of_mem piece h)

theorem mem_of_mem_lines {c : Char} {text : List Char} (h : c ∈ (lines text).flatten) :
    c ∈ text := by
  induction text with
  | nil => cases h
  | cons d text ih =>
    by_cases hd : d = '\n'
    · rw [hd, lines_lineFeed] at h
      exact List.mem_cons_of_mem d (ih h)
    · have hflatten : (lines (d :: text)).flatten = d :: (lines text).flatten := by
        rw [lines_cons hd]
        cases lines text <;> rfl
      rw [hflatten] at h
      rcases List.mem_cons.1 h with rfl | h
      · exact List.mem_cons_self
      · exact List.mem_cons_of_mem d (ih h)

theorem joinLines_cons {ls : List (List Char)} (h : ls ≠ []) (line : List Char) :
    joinLines (line :: ls) = line ++ '\n' :: joinLines ls := by
  cases ls with
  | nil => exact absurd rfl h
  | cons m ls => rw [joinLines, List.intercalate_cons_cons, List.append_assoc]; rfl

theorem mem_of_mem_intercalate {c : Char} {gap : List Char} {ls : List (List Char)}
    (h : c ∈ gap.intercalate ls) : c ∈ gap ∨ c ∈ ls.flatten := by
  induction ls with
  | nil => cases h
  | cons line ls ih =>
    cases ls with
    | nil =>
      rw [List.intercalate_singleton] at h
      exact .inr (List.mem_append_left _ h)
    | cons next ls =>
      rw [List.intercalate_cons_cons] at h
      rcases List.mem_append.1 h with h | h
      · exact (List.mem_append.1 h).symm.imp_right (List.mem_append_left _)
      · exact (ih h).imp_right (List.mem_append_right line)

theorem mem_of_mem_joinLines {c : Char} {ls : List (List Char)} (h : c ∈ joinLines ls) :
    c = '\n' ∨ c ∈ ls.flatten :=
  (mem_of_mem_intercalate h).imp_left List.mem_singleton.1

/-- Joining the lines of a text drops the line feed it ends with. -/
theorem joinLines_lines (text : List Char) : joinLines (lines (text ++ ['\n'])) = text := by
  induction text with
  | nil => rfl
  | cons c text ih =>
    by_cases hc : c = '\n'
    · have hne : lines (text ++ ['\n']) ≠ [] := by
        intro hnil
        rw [hnil] at ih
        cases ih
        cases hnil
      rw [hc, List.cons_append, lines_lineFeed, joinLines_cons hne, ih]
      rfl
    · rw [List.cons_append, lines_cons hc]
      cases hlines : lines (text ++ ['\n']) with
      | nil =>
        rw [hlines] at ih
        cases ih
        cases hlines
      | cons piece pieces =>
        rw [hlines] at ih
        cases pieces with
        | nil =>
          rw [joinLines, List.intercalate_singleton] at ih
          rw [consHead, joinLines, List.intercalate_singleton, ih]
        | cons next pieces =>
          rw [joinLines_cons (List.cons_ne_nil _ _)] at ih
          rw [consHead, joinLines_cons (List.cons_ne_nil _ _), List.cons_append, ih]

theorem flatMap_lineFeed (line : List Char) (ls : List (List Char)) :
    (line :: ls).flatMap (· ++ ['\n']) = joinLines (line :: ls) ++ ['\n'] := by
  induction ls generalizing line with
  | nil => simp [joinLines]
  | cons next ls ih =>
    rw [List.flatMap_cons, ih, joinLines_cons (List.cons_ne_nil _ _), List.append_assoc,
      List.append_assoc]
    rfl

theorem firstLine_mem_lines {text : List Char} (h : text ≠ []) : firstLine text ∈ lines text := by
  rcases line_cases text with hline | ⟨line, rest, hline, rfl⟩
  · rw [(firstLine_of_not_mem hline).1, lines_of_one h hline]
    exact List.mem_cons_self
  · rw [(firstLine_append_lineFeed hline rest).1, lines_of_not_mem hline]
    exact List.mem_cons_self

theorem lines_ne_nil {text : List Char} (h : text ≠ []) : lines text ≠ [] :=
  List.ne_nil_of_mem (firstLine_mem_lines h)

/-- A line feed behind every line. -/
theorem flatMap_lines_cases (text : List Char) :
    (lines text).flatMap (· ++ ['\n']) = text ∨ (lines text).flatMap (· ++ ['\n']) = text ++ ['\n'] := by
  induction text with
  | nil => exact .inl rfl
  | cons c text ih =>
    by_cases hc : c = '\n'
    · rw [hc, lines_lineFeed, List.flatMap_cons]
      exact ih.imp (congrArg ('\n' :: ·)) (congrArg ('\n' :: ·))
    · have hcons : (lines (c :: text)).flatMap (· ++ ['\n']) =
          c :: if lines text = [] then ['\n'] else (lines text).flatMap (· ++ ['\n']) := by
        rw [lines_cons hc]
        cases lines text <;> rfl
      rw [hcons]
      split
      · rename_i hnil
        obtain rfl : text = [] := Decidable.byContradiction fun hne => lines_ne_nil hne hnil
        exact .inr rfl
      · exact ih.imp (congrArg (c :: ·)) (congrArg (c :: ·))

theorem not_mem_normalizeNewlines (text : List Char) : '\r' ∉ normalizeNewlines text := by
  induction text using normalizeNewlines.induct with
  | case1 => exact List.not_mem_nil
  | case2 rest ih =>
    rw [normalizeNewlines, List.mem_cons, not_or]
    exact ⟨by decide, ih⟩
  | case3 rest hrest ih =>
    rw [normalizeNewlines, List.mem_cons, not_or]
    · exact ⟨by decide, ih⟩
    · exact hrest
  | case4 c rest hpair hreturn ih =>
    rw [normalizeNewlines, List.mem_cons, not_or]
    · exact ⟨fun hc => hreturn hc.symm, ih⟩
    · exact hpair
    · exact hreturn

theorem normalizeNewlines_of_not_mem {text : List Char} (h : '\r' ∉ text) :
    normalizeNewlines text = text := by
  induction text with
  | nil => rfl
  | cons c rest ih =>
    rw [List.mem_cons, not_or] at h
    rw [normalizeNewlines, ih h.2]
    · rintro tail rfl
      exact absurd rfl h.1
    · exact fun hc => h.1 hc.symm

theorem head?_normalizeNewlines {c : Char} (hc : c ≠ '\n') {text : List Char}
    (h : (normalizeNewlines text).head? = some c) : text.head? = some c := by
  induction text using normalizeNewlines.induct with
  | case1 => exact h
  | case2 rest => exact absurd (Option.some.inj h).symm hc
  | case3 rest hrest =>
    rw [normalizeNewlines] at h
    · exact absurd (Option.some.inj h).symm hc
    · exact hrest
  | case4 d rest hpair hreturn =>
    rw [normalizeNewlines] at h
    · exact h
    · exact hpair
    · exact hreturn

/-- Two neighbours that are no line breaks were neighbours before. -/
theorem infix_normalizeNewlines {a b : Char} (ha : a ≠ '\n') (hb : b ≠ '\n') {text : List Char}
    (h : [a, b] <:+: normalizeNewlines text) : [a, b] <:+: text := by
  induction text using normalizeNewlines.induct with
  | case1 => exact h
  | case2 rest ih =>
    rw [normalizeNewlines, List.infix_cons_iff, List.cons_prefix_cons] at h
    exact (ih (h.resolve_left fun h => ha h.1)).trans ⟨['\r', '\n'], [], by simp⟩
  | case3 rest hrest ih =>
    rw [normalizeNewlines, List.infix_cons_iff, List.cons_prefix_cons] at h
    · exact (ih (h.resolve_left fun h => ha h.1)).trans (List.suffix_cons _ rest).isInfix
    · exact hrest
  | case4 c rest hpair hreturn ih =>
    rw [normalizeNewlines, List.infix_cons_iff, List.cons_prefix_cons] at h
    · rcases h with ⟨rfl, more, hmore⟩ | h
      · have hhead : rest.head? = some b := head?_normalizeNewlines hb (by rw [← hmore]; rfl)
        obtain ⟨behind, rfl⟩ := List.head?_eq_some_iff.1 hhead
        exact ⟨[], behind, rfl⟩
      · exact (ih h).trans (List.suffix_cons c rest).isInfix
    · exact hpair
    · exact hreturn

end LogScript
