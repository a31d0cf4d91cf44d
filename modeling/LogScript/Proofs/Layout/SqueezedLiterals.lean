import LogScript.Proofs.Layout.CallSearch
import LogScript.Proofs.Layout.Literals

/-!
Texts with single spaces. Squeezing a text puts one space between its words, and it does the same to
each of its literals by itself: their quotes are visible, so no literal comes or goes, and none runs
into another. A text without a call has none when it is squeezed, and is then one line.
-/

namespace LogScript.Layout

/-- The words of a text with one space between them. -/
def squeeze (text : List Char) : List Char :=
  [' '].intercalate (words text)

/-- A squeezed text behind a visible character: blank characters in front become a space if a word
follows. -/
def squeezeBehind (text : List Char) : List Char :=
  (if text.head?.any isBlank ∧ words text ≠ [] then [' '] else []) ++ squeeze text

section Squeeze

variable {c : Char} {text rest : List Char}

theorem squeeze_of_blank (h : isBlank c) (rest : List Char) :
    squeeze (c :: rest) = squeeze rest := by
  rw [squeeze, words, if_pos h, squeeze]

theorem words_ne_nil (h : isBlank c = false) (rest : List Char) : words (c :: rest) ≠ [] := by
  rw [words, h, if_neg Bool.false_ne_true]
  split
  · exact List.cons_ne_nil _ _
  · exact consHead_ne_nil c _

theorem squeeze_of_visible (h : isBlank c = false) (rest : List Char) :
    squeeze (c :: rest) = c :: squeezeBehind rest := by
  rw [squeeze, words, h, if_neg Bool.false_ne_true, squeezeBehind, squeeze]
  cases rest with
  | nil => rfl
  | cons d rest =>
    cases hd : isBlank d with
    | true =>
      cases hwords : words (d :: rest) with
      | nil => simp [hd]
      | cons word more => simp [hd, List.intercalate_cons_cons]
    | false =>
      rw [List.head?_cons, Option.all_some, hd, if_neg Bool.false_ne_true,
        intercalate_consHead _ _ (words_ne_nil hd rest)]
      simp [hd]

theorem squeezeBehind_of_visible (h : isBlank c = false) (rest : List Char) :
    squeezeBehind (c :: rest) = c :: squeezeBehind rest := by
  rw [squeezeBehind, squeeze_of_visible h, List.head?_cons, Option.any_some, h]
  rfl

theorem squeezeBehind_of_blank (h : isBlank c) (rest : List Char) :
    squeezeBehind (c :: rest) = if words rest = [] then [] else ' ' :: squeeze rest := by
  have hwords : words (c :: rest) = words rest := by rw [words, if_pos h]
  rw [squeezeBehind, squeeze_of_blank h, List.head?_cons, Option.any_some, h, hwords]
  split
  · rename_i hne
    rw [if_neg hne.2]
    rfl
  · rename_i hnone
    have hnil : words rest = [] := by simpa using hnone
    rw [if_pos hnil, squeeze, hnil]
    rfl

theorem words_eq_nil : words text = [] ↔ ∀ c ∈ text, isBlank c := by
  induction text with
  | nil => simp [words]
  | cons d rest ih =>
    rw [List.forall_mem_cons]
    cases hd : isBlank d with
    | false => exact iff_of_false (words_ne_nil hd rest) fun h => absurd h.1 Bool.false_ne_true
    | true => rw [words, if_pos hd, ih, and_iff_right rfl]

/-- The only blank characters that are left are spaces. -/
theorem lineFeed_not_mem_squeeze (text : List Char) :
    '\n' ∉ squeeze text ∧ '\n' ∉ squeezeBehind text := by
  induction text with
  | nil => exact ⟨List.not_mem_nil, List.not_mem_nil⟩
  | cons c rest ih =>
    cases hc : isBlank c with
    | true =>
      rw [squeeze_of_blank hc, squeezeBehind_of_blank hc]
      refine ⟨ih.1, ?_⟩
      split
      · exact List.not_mem_nil
      · rw [List.mem_cons, not_or]
        exact ⟨by decide, ih.1⟩
    | false =>
      have hvisible : '\n' ∉ c :: squeezeBehind rest := by
        rw [List.mem_cons, not_or]
        exact ⟨fun heq => absurd hc (by rw [← heq]; decide), ih.2⟩
      rw [squeeze_of_visible hc, squeezeBehind_of_visible hc]
      exact ⟨hvisible, hvisible⟩

end Squeeze

section Literals

variable {q : Quoting} {c : Char} {body text : List Char}

theorem next_blank (h : q ≠ .outside) (hc : isBlank c) : literalScan.next q c = .inside := by
  cases q with
  | outside => exact absurd rfl h
  | inside =>
    change Quoting.inside.next c = .inside
    rw [Quoting.next, ne_of_isBlank hc (by decide : isBlank '\\' = false),
      ne_of_isBlank hc (by decide : isBlank '"' = false)]
    rfl
  | escaped => rfl

theorem Scan.Closes.words_ne_nil (h : literalScan.Closes q body) (hq : q ≠ .outside) :
    words body ≠ [] := by
  induction h with
  | last closes => exact Layout.words_ne_nil (literalScan.not_blank_of_closes hq closes) []
  | @cons q c rest stays _ ih =>
    cases hc : isBlank c with
    | false => exact Layout.words_ne_nil hc rest
    | true =>
      rw [words, if_pos hc]
      exact ih stays

/-- Squeezing what is left of a literal leaves that of a literal. -/
theorem Scan.Closes.squeeze (h : literalScan.Closes q body) (hq : q ≠ .outside) :
    literalScan.Closes q (squeezeBehind body) ∧
      (q = .inside → literalScan.Closes q (squeeze body)) := by
  induction h with
  | last closes =>
    have hvisible := literalScan.not_blank_of_closes hq closes
    rw [squeezeBehind_of_visible hvisible, squeeze_of_visible hvisible]
    exact ⟨.last closes, fun _ => .last closes⟩
  | @cons q c rest stays later ih =>
    obtain ⟨hbehind, hsqueezed⟩ := ih stays
    cases hc : isBlank c with
    | true =>
      have hinside := next_blank hq hc
      have hspace : literalScan.next q ' ' = .inside := next_blank hq (by decide)
      have hrest : literalScan.Closes .inside (Layout.squeeze rest) := hinside ▸ hsqueezed hinside
      rw [squeezeBehind_of_blank hc, if_neg (later.words_ne_nil stays), squeeze_of_blank hc]
      refine ⟨.cons (by rw [hspace]; decide) (by rw [hspace]; exact hrest), ?_⟩
      rintro rfl
      exact hrest
    | false =>
      rw [squeezeBehind_of_visible hc, squeeze_of_visible hc]
      exact ⟨.cons stays hbehind, fun _ => .cons stays hbehind⟩

/-- What stands behind a literal is squeezed by itself. -/
theorem Scan.Closes.squeeze_append (h : literalScan.Closes q body) (hq : q ≠ .outside)
    (text : List Char) :
    squeezeBehind (body ++ text) = squeezeBehind body ++ squeezeBehind text ∧
      Layout.squeeze (body ++ text) = Layout.squeeze body ++ squeezeBehind text := by
  induction h with
  | last closes =>
    have hvisible := literalScan.not_blank_of_closes hq closes
    rw [List.singleton_append, squeezeBehind_of_visible hvisible, squeezeBehind_of_visible hvisible,
      squeeze_of_visible hvisible, squeeze_of_visible hvisible]
    exact ⟨rfl, rfl⟩
  | @cons q c rest stays later ih =>
    obtain ⟨hbehind, hsqueezed⟩ := ih stays
    rw [List.cons_append]
    cases hc : isBlank c with
    | true =>
      have hwords : words rest ≠ [] := later.words_ne_nil stays
      have hboth : words (rest ++ text) ≠ [] := fun hnil => hwords <|
        words_eq_nil.2 fun d hd => words_eq_nil.1 hnil d (List.mem_append_left text hd)
      rw [squeezeBehind_of_blank hc, squeezeBehind_of_blank hc, if_neg hwords, if_neg hboth,
        squeeze_of_blank hc, squeeze_of_blank hc, hsqueezed]
      exact ⟨rfl, rfl⟩
    | false =>
      rw [squeezeBehind_of_visible hc, squeezeBehind_of_visible hc, squeeze_of_visible hc,
        squeeze_of_visible hc, hbehind]
      exact ⟨rfl, rfl⟩

theorem same_squeezeBehind (text : List Char) :
    literalScan.Same .outside (squeezeBehind text) (squeeze text) := by
  rw [squeezeBehind]
  split
  · exact Scan.same_blanks_append blank_of_mem_space _
  · exact .refl _ _

/-- Squeezing a text squeezes its literals. -/
theorem literals_squeeze (h : literalScan.past .outside text = .outside) :
    literals (squeeze text) = (literals text).map squeeze ∧
      literalScan.past .outside (squeeze text) = .outside := by
  suffices hbehind : literals (squeezeBehind text) = (literals text).map Layout.squeeze ∧
      literalScan.past .outside (squeezeBehind text) = .outside by
    have hsame := same_squeezeBehind text
    rwa [hsame.literals, hsame.past] at hbehind
  induction text, h using Scan.closed_induction with
  | nil => exact ⟨rfl, rfl⟩
  | idle c rest _ _ hidle ih =>
    rw [literals_of_idle hidle]
    cases hblank : isBlank c with
    | false =>
      rw [squeezeBehind_of_visible hblank, literals_of_idle hidle, Scan.past_cons, hidle]
      exact ih
    | true =>
      rw [squeezeBehind_of_blank hblank]
      split
      · rename_i hwords
        have hrest : literalScan.Same .outside rest [] := Scan.same_blanks (words_eq_nil.1 hwords)
        rw [hrest.literals]
        exact ⟨rfl, rfl⟩
      · have hsame : literalScan.Same .outside (' ' :: squeeze rest) (squeezeBehind rest) :=
          (Scan.same_blanks_append blank_of_mem_space _).trans (same_squeezeBehind rest).symm
        rw [hsame.literals, hsame.past]
        exact ih
  | part c body rest _ _ hopens hbody ih =>
    obtain ⟨hsqueezed, -⟩ := hbody.squeeze hopens
    have hvisible := literalScan.not_blank_of_opens hopens
    rw [squeezeBehind_of_visible hvisible, (hbody.squeeze_append hopens rest).1,
      literals_of_closes hopens hsqueezed, literals_of_closes hopens hbody, ih.1, List.map_cons,
      squeeze_of_visible hvisible]
    refine ⟨rfl, ?_⟩
    rw [Scan.past_cons, Scan.past_append, hsqueezed.past]
    exact ih.2

end Literals

section Calls

variable {bounded : Bool}

theorem callAt?_append_squeezeBehind (front text : List Char) :
    callAt? (front ++ squeezeBehind text) = callAt? (front ++ text) := by
  induction text generalizing front with
  | nil => rfl
  | cons c rest ih =>
    cases hc : isBlank c with
    | true =>
      rw [squeezeBehind_of_blank hc, callAt?_append (breaks_of_blank hc)]
      split
      · rw [List.append_nil]
      · exact callAt?_append breaks_space front _
    | false =>
      rw [squeezeBehind_of_visible hc, List.append_cons, ih, ← List.append_cons]

/-- Squeezing brings no call about. -/
theorem findCall?_squeeze (text : List Char) :
    (∀ bounded, findCall? bounded text = none → findCall? bounded (squeezeBehind text) = none) ∧
      (findCall? true text = none → findCall? true (squeeze text) = none) := by
  induction text with
  | nil => exact ⟨fun _ _ => rfl, fun _ => rfl⟩
  | cons c rest ih =>
    cases hc : isBlank c with
    | true =>
      have hrest : ∀ {bounded}, findCall? bounded (c :: rest) = none →
          findCall? true (squeeze rest) = none := by
        intro bounded h
        have hnone := (findCall?_cons_eq_none h).2
        rw [(breaks_of_blank hc).name] at hnone
        exact ih.2 hnone
      rw [squeezeBehind_of_blank hc, squeeze_of_blank hc]
      refine ⟨fun bounded h => ?_, hrest⟩
      split
      · rfl
      · rw [findCall?_cons_of_not (by rw [callAt?_of_head (.inl (by decide)), ite_self]),
          breaks_space.name, Bool.not_false, hrest h]
        rfl
    | false =>
      have hbehind : ∀ bounded, findCall? bounded (c :: rest) = none →
          findCall? bounded (c :: squeezeBehind rest) = none := by
        intro bounded h
        obtain ⟨hat, hnone⟩ := findCall?_cons_eq_none h
        have hsame : callAt? (c :: squeezeBehind rest) = callAt? (c :: rest) :=
          callAt?_append_squeezeBehind [c] rest
        rw [findCall?_cons_of_not (by rw [hsame]; exact hat), ih.1 _ hnone]
        rfl
      rw [squeezeBehind_of_visible hc, squeeze_of_visible hc]
      exact ⟨hbehind, hbehind true⟩

end Calls

end LogScript.Layout
