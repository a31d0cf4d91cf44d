import LogScript.Text.Units

/-!
Highlighting units. A lexeme is a piece of text with its category; a token is a lexeme placed
in its text, between two byte positions. Lexemes that follow one another become tokens that
follow one another.
-/

namespace LogScript

inductive Category where
  | comment
  | string
  | number
  | keyword
  | typeName
  | function
  | atom
  | variableName
  | operator
  | unstyled
  deriving DecidableEq, Repr

namespace Category

def all : List Category :=
  [.comment, .string, .number, .keyword, .typeName, .function, .atom, .variableName, .operator,
    .unstyled]

def name : Category → String
  | .comment => "comment"
  | .string => "string"
  | .number => "number"
  | .keyword => "keyword"
  | .typeName => "type"
  | .function => "function"
  | .atom => "atom"
  | .variableName => "variable"
  | .operator => "operator"
  | .unstyled => "none"

def isStyled (c : Category) : Bool :=
  c != .unstyled

end Category

structure Lexeme where
  text : List Char
  category : Category
  deriving DecidableEq, Repr

structure Token where
  start : Nat
  stop : Nat
  category : Category
  deriving DecidableEq, Repr

namespace Token

/-- Places lexemes one behind the other from byte position `start` on. -/
def place (start : Nat) : List Lexeme → List Token
  | [] => []
  | l :: ls =>
    let stop := start + byteLength l.text
    ⟨start, stop, l.category⟩ :: place stop ls

def isStyled (t : Token) : Bool :=
  t.category.isStyled

def textIn (t : Token) (text : List Char) : List Char :=
  sliceBytes t.start t.stop text

end Token

end LogScript
