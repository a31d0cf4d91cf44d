import LogScript.Highlight.Token

/-!
Classifiers and the loop that drives them. A classifier looks at the rest of a text and says how
many bytes belong together, in which category, and with which state to go on. The loop cuts the
text accordingly. It keeps going whatever the classifier answers: a length that covers no whole
character is taken as one character, a length past the end as all that is left.
-/

namespace LogScript

structure Step (σ : Type) where
  length : Nat
  category : Category
  state : σ
  deriving Repr

/-- The step that takes exactly `lexeme` off the front. -/
def Step.take {σ : Type} (lexeme : List Char) (category : Category) (state : σ) : Step σ :=
  ⟨byteLength lexeme, category, state⟩

structure Classifier (σ : Type) where
  start : σ
  classify : List Char → σ → Step σ

namespace Classifier

variable {σ : Type}

/-- The number of characters a step of `length` bytes takes off a text that is not empty. -/
def stride (length : Nat) (text : List Char) : Nat :=
  max 1 (charsWithin length text)

/-- The lexemes of a text from a state, and the state behind it. -/
def lexFrom (k : Classifier σ) (text : List Char) (state : σ) : List Lexeme × σ :=
  match text with
  | [] => ([], state)
  | c :: rest =>
    let step := k.classify (c :: rest) state
    let n := stride step.length (c :: rest)
    let later := k.lexFrom ((c :: rest).drop n) step.state
    (⟨(c :: rest).take n, step.category⟩ :: later.1, later.2)
termination_by text.length
decreasing_by
  simp only [List.length_drop, List.length_cons, stride]
  omega

def lex (k : Classifier σ) (text : List Char) : List Lexeme :=
  (k.lexFrom text k.start).1

/-- The tokens of a text from a state, and the state behind it. -/
def tokenizeFrom (k : Classifier σ) (text : List Char) (state : σ) : List Token × σ :=
  let result := k.lexFrom text state
  (Token.place 0 result.1, result.2)

def tokenize (k : Classifier σ) (text : List Char) : List Token :=
  (k.tokenizeFrom text k.start).1

@[simp] theorem lexFrom_nil (k : Classifier σ) (state : σ) : k.lexFrom [] state = ([], state) := by
  rw [lexFrom]

/-- Nothing of the text is lost, added or moved. -/
theorem lexFrom_texts (k : Classifier σ) :
    ∀ (text : List Char) (state : σ), ((k.lexFrom text state).1.map Lexeme.text).flatten = text
  | [], _ => by simp
  | c :: rest, state => by
    rw [lexFrom]
    simp only [List.map_cons, List.flatten_cons]
    rw [lexFrom_texts, List.take_append_drop]
termination_by text => text.length
decreasing_by
  simp only [List.length_drop, List.length_cons, stride]
  omega

end Classifier

end LogScript
