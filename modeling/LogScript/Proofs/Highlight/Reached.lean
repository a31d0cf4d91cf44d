import LogScript.Proofs.Highlight.CodeCharacters

/-!
The states of a classifier on its way through a text. Each state is reached behind the lexemes that
have been cut off so far, and the next step, which sees that state, cuts off the next lexeme. What
every step keeps therefore holds in front of each token of a text.
-/

namespace LogScript

namespace Classifier

variable {σ : Type} {k : Classifier σ} {start s s' : σ} {l : Lexeme} {earlier : List Lexeme}

/-- In state `s` a step cuts the lexeme off some text and goes on with state `s'`. -/
inductive Cuts (k : Classifier σ) (s : σ) : Lexeme → σ → Prop where
  | intro (c : Char) (rest : List Char) :
    Cuts k s
      ⟨(c :: rest).take (stride (k.classify (c :: rest) s).length (c :: rest)),
        (k.classify (c :: rest) s).category⟩
      (k.classify (c :: rest) s).state

/-- From `start` the lexemes, latest first, have led to a state. -/
inductive Reaches (k : Classifier σ) (start : σ) : List Lexeme → σ → Prop where
  | start : Reaches k start [] start
  | step {earlier : List Lexeme} {s s' : σ} {l : Lexeme} (reached : Reaches k start earlier s)
      (cuts : k.Cuts s l s') : Reaches k start (l :: earlier) s'

/-- The state behind the first `n` steps through a text, or behind all of them. -/
def stateBehind (k : Classifier σ) : Nat → List Char → σ → σ
  | 0, _, s => s
  | _ + 1, [], s => s
  | n + 1, c :: rest, s =>
    let step := k.classify (c :: rest) s
    k.stateBehind n ((c :: rest).drop (stride step.length (c :: rest))) step.state

/-- Each step through a text leads on from any state that has been reached. -/
theorem Reaches.stateBehind (n : Nat) {text : List Char} (h : k.Reaches start earlier s) :
    k.Reaches start (((k.lexFrom text s).1.take n).reverse ++ earlier)
      (k.stateBehind n text s) := by
  induction n generalizing text earlier s with
  | zero => exact h
  | succ n ih =>
    cases text with
    | nil =>
      rw [lexFrom_nil]
      exact h
    | cons c rest =>
      rw [Classifier.lexFrom, List.take_succ_cons, List.reverse_cons, List.append_assoc,
        List.singleton_append]
      exact ih (.step h (.intro c rest))

theorem reaches_stateBehind (k : Classifier σ) (n : Nat) (text : List Char) (start : σ) :
    k.Reaches start ((k.lexFrom text start).1.take n).reverse (k.stateBehind n text start) := by
  have hstart : k.Reaches start [] start := .start
  simpa using Reaches.stateBehind n hstart

/-- Behind as many steps as there are lexemes stands the last state. -/
theorem stateBehind_length (k : Classifier σ) :
    ∀ (text : List Char) (s : σ),
      k.stateBehind (k.lexFrom text s).1.length text s = (k.lexFrom text s).2
  | [], s => by
    rw [lexFrom_nil]
    rfl
  | c :: rest, s => by
    rw [Classifier.lexFrom]
    exact k.stateBehind_length
      ((c :: rest).drop (stride (k.classify (c :: rest) s).length (c :: rest)))
      (k.classify (c :: rest) s).state
termination_by text => text.length
decreasing_by
  simp only [List.length_drop, List.length_cons, stride]
  omega

theorem reaches_lexFrom (k : Classifier σ) (text : List Char) (start : σ) :
    k.Reaches start (k.lexFrom text start).1.reverse (k.lexFrom text start).2 := by
  have hbehind := k.reaches_stateBehind (k.lexFrom text start).1.length text start
  rwa [List.take_length, stateBehind_length] at hbehind

/-- In front of each lexeme stands the state behind the lexemes before it. -/
theorem Reaches.of_append {later : List Lexeme} (h : k.Reaches start (later ++ l :: earlier) s') :
    ∃ s next, k.Reaches start earlier s ∧ k.Cuts s l next := by
  induction later generalizing s' with
  | nil =>
    cases h with
    | step reached cuts => exact ⟨_, _, reached, cuts⟩
  | cons _ later ih =>
    cases h with
    | step reached _ => exact ih reached

/-- In front of each token of a text stands the state behind the tokens before it. -/
theorem exists_reaches_of_tokenize {text : List Char} {before after : List Token} {t : Token}
    (h : k.tokenize text = before ++ t :: after) :
    ∃ s next, k.Reaches k.start (before.map (·.lexemeIn text)).reverse s ∧
      k.Cuts s (t.lexemeIn text) next := by
  have hlex := k.map_lexemeIn_tokenize text
  have hreaches := k.reaches_lexFrom text k.start
  rw [← lex, ← hlex, h] at hreaches
  simp only [List.map_append, List.map_cons, List.reverse_append, List.reverse_cons,
    List.append_assoc, List.singleton_append] at hreaches
  exact hreaches.of_append

end Classifier

end LogScript
