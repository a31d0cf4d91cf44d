import LogScript.Text.Blank
import LogScript.Text.Lines

/-!
Leading runs. Each function here gives the piece at the front of a text that belongs together
under one rule, as a leading part of that text, and consumes nothing.
-/

namespace LogScript.Run

/-- Letters, digits and the underscore, all of ASCII. -/
def isWordChar (c : Char) : Bool :=
  c.isAlphanum || c == '_'

def blanks (text : List Char) : List Char :=
  text.takeWhile isBlank

def digits (text : List Char) : List Char :=
  text.takeWhile Char.isDigit

/-- From behind the opening quote through the closing one, or to the end. A backslash takes the
next character with it. -/
def literalTail (quote : Char) : List Char → List Char
  | [] => []
  | c :: rest =>
    if c == '\\' then
      match rest with
      | [] => [c]
      | escaped :: rest => c :: escaped :: literalTail quote rest
    else if c == quote then [c]
    else c :: literalTail quote rest

/-- A quoted literal that the first character opens; it ends with its line at the latest. -/
def quoted (quote : Char) (text : List Char) : List Char :=
  match firstLine text with
  | [] => []
  | opening :: rest => opening :: literalTail quote rest

/-- Up to `limit` groups of a point and digits. -/
def pointGroups : Nat → List Char → List Char
  | 0, _ => []
  | limit + 1, text =>
    match text with
    | '.' :: rest =>
      match digits rest with
      | [] => []
      | ds => '.' :: ds ++ pointGroups limit (rest.drop ds.length)
    | _ => []

/-- Digits behind an optional minus sign, and up to `limit` groups of a point and digits. -/
def number (limit : Nat) (text : List Char) : Option (List Char) :=
  let sign := if text.head? = some '-' then ['-'] else []
  let body := text.drop sign.length
  match digits body with
  | [] => none
  | ds => some (sign ++ ds ++ pointGroups limit (body.drop ds.length))

/-- An opening parenthesis follows, perhaps behind spaces and tabs. -/
def opensCall (text : List Char) : Bool :=
  (text.dropWhile (fun c => c == ' ' || c == '\t')).head? == some '('

end LogScript.Run
