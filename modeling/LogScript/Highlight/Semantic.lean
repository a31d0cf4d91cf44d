import LogScript.Highlight.Token

/-!
Semantic tokens for language servers. A styled token that spans lines has one entry for every
line it covers with text. Lines count from 0, columns and lengths are in UTF-16 units, and each
entry is given relative to the one before it: by lines, and on the same line by columns.
-/

namespace LogScript.Semantic

/-- The names of the token types, in the order of their numbers. -/
def legend : List String :=
  ["comment", "string", "number", "keyword", "type", "function", "enumMember", "variable",
    "operator"]

def typeNumber? : Category → Option Nat
  | .comment => some 0
  | .string => some 1
  | .number => some 2
  | .keyword => some 3
  | .typeName => some 4
  | .function => some 5
  | .atom => some 6
  | .variableName => some 7
  | .operator => some 8
  | .unstyled => none

structure Place where
  line : Nat
  column : Nat
  deriving DecidableEq, Repr

/-- The place behind a character. -/
def Place.past (p : Place) (c : Char) : Place :=
  if c == '\n' then ⟨p.line + 1, 0⟩ else ⟨p.line, p.column + utf16Size c⟩

def Place.pastText (p : Place) (text : List Char) : Place :=
  text.foldl Place.past p

/-- A piece of a token on one line. -/
structure Entry where
  place : Place
  length : Nat
  type : Nat
  deriving DecidableEq, Repr

/-- The entries of a text from a place, where `length` units of the current piece are read. -/
def entriesOfText (type : Nat) (p : Place) (length : Nat) : List Char → List Entry
  | [] => if length = 0 then [] else [⟨⟨p.line, p.column - length⟩, length, type⟩]
  | c :: rest =>
    if c == '\n' then
      entriesOfText type p length [] ++ entriesOfText type (p.past c) 0 rest
    else entriesOfText type (p.past c) (length + utf16Size c) rest

/-- The entries of tokens, where `rest` is the text from byte position `offset` at place `p` on. -/
def entriesFrom (p : Place) (offset : Nat) (rest : List Char) : List Token → List Entry
  | [] => []
  | t :: ts =>
    match typeNumber? t.category with
    | none => entriesFrom p offset rest ts
    | some type =>
      let gap := charsWithin (t.start - offset) rest
      let p := p.pastText (rest.take gap)
      let rest := rest.drop gap
      let size := charsWithin (t.stop - t.start) rest
      let body := rest.take size
      entriesOfText type p 0 body ++ entriesFrom (p.pastText body) t.stop (rest.drop size) ts

def entries (text : List Char) (tokens : List Token) : List Entry :=
  entriesFrom ⟨0, 0⟩ 0 text tokens

/-- An entry relative to the one before it. -/
structure Delta where
  line : Nat
  start : Nat
  length : Nat
  type : Nat
  deriving DecidableEq, Repr

def encodeFrom (last : Place) : List Entry → List Delta
  | [] => []
  | e :: es =>
    let line := e.place.line - last.line
    let start := if line = 0 then e.place.column - last.column else e.place.column
    ⟨line, start, e.length, e.type⟩ :: encodeFrom e.place es

def encode (text : List Char) (tokens : List Token) : List Delta :=
  encodeFrom ⟨0, 0⟩ (entries text tokens)

end LogScript.Semantic
