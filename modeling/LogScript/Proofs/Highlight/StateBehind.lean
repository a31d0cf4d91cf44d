import Mathlib.Data.List.TakeWhile
import LogScript.Proofs.Highlight.OmlState

/-!
What the state of the OML classifier tells about the tokens in front of it. The sections come from
the number of separators, and an equals sign or a colon is remembered up to the next terminator;
what the start state says counts as long as no terminator has been read. This holds behind every
token of a text, so a state in the privacy section is never in front of the body.
-/

namespace LogScript.Highlight

/-- What a state says about the lexemes that led to it from a start state, in document order. -/
structure OmlState.Remembers (start : OmlState) (ls : List Lexeme) (s : OmlState) : Prop where
  inHeader : s.inHeader = true ↔ start.inHeader = true ∨ .separator ∈ ls
  inPrivacy : s.inPrivacy = true ↔
    start.inPrivacy = true ∨ 2 ≤ ls.count .separator ∨
      (start.inHeader = true ∧ .separator ∈ ls)
  /-- Of the lexemes in front of the last terminator nothing is left. -/
  behindTerminator : ∀ front back, ls = front ++ .terminator :: back → .terminator ∉ back →
    (s.afterEqual = true ↔ .equals ∈ back) ∧ (s.afterColon = true → .colon ∈ back)
  withoutTerminator : .terminator ∉ ls →
    (s.afterEqual = true ↔ start.afterEqual = true ∨ .equals ∈ ls) ∧
      (s.afterColon = true → start.afterColon = true ∨ .colon ∈ ls)

variable {v : Vocabulary} {start s : OmlState} {ls front back : List Lexeme}

theorem bne_terminator_of_not_mem (h : .terminator ∉ ls) :
    ∀ l ∈ ls.reverse, (l != .terminator) = true := by
  intro l hl
  rw [bne_iff_ne]
  rintro rfl
  exact h (List.mem_reverse.1 hl)

theorem sinceTerminator_of_not_mem (h : .terminator ∉ ls) :
    sinceTerminator ls.reverse = ls.reverse :=
  List.takeWhile_eq_self_iff.2 (bne_terminator_of_not_mem h)

theorem sinceTerminator_append (h : .terminator ∉ back) :
    sinceTerminator (front ++ .terminator :: back).reverse = back.reverse := by
  have hreverse : (front ++ .terminator :: back).reverse =
      back.reverse ++ .terminator :: front.reverse := by simp
  rw [hreverse, sinceTerminator, List.takeWhile_append_of_pos (bne_terminator_of_not_mem h),
    List.takeWhile_cons_of_neg (by simp), List.append_nil]

theorem remembers_of_reaches (h : (oml v).Reaches start ls.reverse s) :
    OmlState.Remembers start ls s where
  inHeader := by
    rw [inHeader_iff_of_reaches h, List.count_reverse, List.one_le_count_iff]
  inPrivacy := by
    rw [inPrivacy_iff_of_reaches h, List.count_reverse, List.one_le_count_iff]
  behindTerminator := by
    rintro front back rfl hback
    have hread : Lexeme.terminator ∈ (front ++ .terminator :: back).reverse := by simp
    have hequal := afterEqual_iff_of_reaches h
    have hcolon := colon_of_afterColon_of_reaches h
    rw [sinceTerminator_append hback, List.mem_reverse] at hequal hcolon
    exact ⟨by simpa [hread] using hequal, fun hpending => by simpa [hread] using hcolon hpending⟩
  withoutTerminator := by
    intro hnone
    have hnone' : Lexeme.terminator ∉ ls.reverse := by simpa using hnone
    have hequal := afterEqual_iff_of_reaches h
    have hcolon := colon_of_afterColon_of_reaches h
    rw [sinceTerminator_of_not_mem hnone, List.mem_reverse] at hequal hcolon
    exact ⟨by simpa [hnone', or_comm] using hequal,
      fun hpending => by simpa [hnone', or_comm] using hcolon hpending⟩

/-- A privacy section has a header in front of it, if the start state says so too. -/
theorem OmlState.Remembers.inHeader_of_inPrivacy (h : OmlState.Remembers start ls s)
    (hstart : start.inPrivacy = true → start.inHeader = true) (hprivacy : s.inPrivacy = true) :
    s.inHeader = true := by
  rw [h.inHeader]
  rcases h.inPrivacy.1 hprivacy with hbefore | htwo | ⟨hheader, -⟩
  · exact .inl (hstart hbefore)
  · exact .inr (List.count_pos_iff.1 (Nat.lt_of_lt_of_le Nat.zero_lt_two htwo))
  · exact .inl hheader

/-- For every text, vocabulary and start state: the state behind any number of tokens remembers
these tokens, and behind all of them it is the state that comes with the tokens. If the start state
is in the privacy section only behind a header, so are all the states behind it. -/
theorem remembers_tokenizeFrom (v : Vocabulary) (text : List Char) (start : OmlState) :
    let tokens := ((oml v).tokenizeFrom text start).1
    let final := ((oml v).tokenizeFrom text start).2
    OmlState.Remembers start (tokens.map (·.lexemeIn text)) final ∧
      (oml v).stateBehind tokens.length text start = final ∧
      ∀ n, let s := (oml v).stateBehind n text start
        OmlState.Remembers start ((tokens.take n).map (·.lexemeIn text)) s ∧
          ((start.inPrivacy = true → start.inHeader = true) →
            s.inPrivacy = true → s.inHeader = true) := by
  intro tokens final
  have hlexemes : tokens.map (·.lexemeIn text) = ((oml v).lexFrom text start).1 :=
    (oml v).map_lexemeIn_tokenizeFrom text start
  have hlength : tokens.length = ((oml v).lexFrom text start).1.length := by
    rw [← hlexemes, List.length_map]
  have hfinal : (oml v).stateBehind tokens.length text start = final := by
    rw [hlength]
    exact (oml v).stateBehind_length text start
  have hremembers (n : Nat) : OmlState.Remembers start ((tokens.take n).map (·.lexemeIn text))
      ((oml v).stateBehind n text start) := by
    rw [List.map_take, hlexemes]
    exact remembers_of_reaches ((oml v).reaches_stateBehind n text start)
  refine ⟨?_, hfinal, fun n => ⟨hremembers n, (hremembers n).inHeader_of_inPrivacy⟩⟩
  have hall := hremembers tokens.length
  rwa [List.take_length, hfinal] at hall

/-- Behind two separators, with a terminator between the equals sign and the colon. -/
theorem remembers_tokenizeFrom_privacy :
    let text := "x = 1 ; y : z\n---\n---".toList
    let final := ((oml .empty).tokenizeFrom text {}).2
    final.inPrivacy = true ∧ final.inHeader = true ∧ ¬final.afterEqual = true := by
  intro text final
  obtain ⟨hfinal, hlast, hbehind⟩ := remembers_tokenizeFrom .empty text {}
  have hprivacy : final.inPrivacy = true := hfinal.inPrivacy.2 (.inr (.inl (by decide +kernel)))
  have hheader : final.inHeader = true := by
    have hkept := (hbehind ((oml .empty).tokenizeFrom text {}).1.length).2 (by decide)
    simp only [hlast] at hkept
    exact hkept hprivacy
  have hequal := (hfinal.behindTerminator
    [⟨['x'], .variableName⟩, ⟨[' '], .unstyled⟩, .equals, ⟨[' '], .unstyled⟩, ⟨['1'], .number⟩,
      ⟨[' '], .unstyled⟩]
    [⟨[' '], .unstyled⟩, ⟨['y'], .variableName⟩, ⟨[' '], .unstyled⟩, .colon, ⟨[' '], .unstyled⟩,
      ⟨['z'], .variableName⟩, ⟨['\n'], .unstyled⟩, .separator, ⟨['\n'], .unstyled⟩, .separator]
    (by decide +kernel) (by decide)).1
  exact ⟨hprivacy, hheader, fun h => absurd (hequal.1 h) (by decide)⟩

end LogScript.Highlight
