import LogScript.Text.Run
import LogScript.Vocabulary.Basic

/-!
Decorations mark the function names of a text. An identifier is decorated when the vocabulary
takes it for a function, wherever it stands, unless it starts in a comment or a string.
-/

namespace LogScript

namespace Run

def startsIdentifier (c : Char) : Bool :=
  c.isAlpha || c == '_'

/-- The length of the double colon or slash at the front of a text. -/
def partMark (text : List Char) : Nat :=
  if [':', ':'].isPrefixOf text then 2 else if text.head? == some '/' then 1 else 0

/-- The further parts of an identifier: each a double colon or a slash, and word characters. -/
def identifierParts (text : List Char) : List Char :=
  match text with
  | [] => []
  | c :: rest =>
    let mark := partMark (c :: rest)
    let part := ((c :: rest).drop mark).takeWhile isWordChar
    if mark = 0 ∨ part = [] then []
    else
      (c :: rest).take mark ++ part ++ identifierParts ((c :: rest).drop (mark + part.length))
termination_by text.length
decreasing_by
  simp only [List.length_drop, List.length_cons]
  omega

/-- The identifier at the front of a text that starts with an identifier character. -/
def identifier (text : List Char) : List Char :=
  let word := text.takeWhile isWordChar
  word ++ identifierParts (text.drop word.length)

end Run

/-- An identifier with its byte position; `call` tells whether a call follows it. -/
structure Identifier where
  start : Nat
  text : List Char
  call : Bool
  deriving DecidableEq, Repr

namespace Identifier

def stop (i : Identifier) : Nat :=
  i.start + byteLength i.text

/-- The identifiers of a text that starts at byte position `offset`. -/
def scanFrom (offset : Nat) (text : List Char) : List Identifier :=
  match text with
  | [] => []
  | c :: rest =>
    if Run.startsIdentifier c then
      let name := Run.identifier (c :: rest)
      let behind := rest.drop (name.length - 1)
      ⟨offset, name, Run.opensCall behind⟩ :: scanFrom (offset + byteLength name) behind
    else scanFrom (offset + c.utf8Size) rest
termination_by text.length
decreasing_by
  · simp only [List.length_drop, List.length_cons]
    omega
  · simp

def scan (text : List Char) : List Identifier :=
  scanFrom 0 text

end Identifier

structure Decoration where
  start : Nat
  stop : Nat
  deriving DecidableEq, Repr

namespace Decoration

def cssClass : String :=
  "cm-highlight-function"

/-- The first of some tokens is a comment or a string around the byte position. -/
def startsInLiteral (tokens : List Token) (position : Nat) : Bool :=
  match tokens with
  | [] => false
  | t :: _ => t.start ≤ position && (t.category == .comment || t.category == .string)

/-- The identifiers that start outside comments and strings. Tokens that end before an identifier
are done with for all later ones too. -/
def outsideLiterals (tokens : List Token) : List Identifier → List Identifier
  | [] => []
  | i :: rest =>
    let tokens := tokens.dropWhile (fun t => t.stop ≤ i.start)
    if startsInLiteral tokens i.start then outsideLiterals tokens rest
    else i :: outsideLiterals tokens rest

def isFunction (v : Vocabulary) (i : Identifier) : Bool :=
  v.roleOf i.text {} i.call == .function

/-- The decorations of a text with these tokens. -/
def ofText (v : Vocabulary) (text : List Char) (tokens : List Token) : List Decoration :=
  ((outsideLiterals tokens (Identifier.scan text)).filter (isFunction v)).map
    (fun i => ⟨i.start, i.stop⟩)

end Decoration

end LogScript
