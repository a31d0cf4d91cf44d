/-!
JSON documents for output, laid out over lines with two spaces per level. Members keep the order
they are given in. Characters beyond ASCII stand as they are.
-/

namespace LogScript.Json

inductive Document where
  | null
  | number (value : Nat)
  | text (content : List Char)
  | list (items : List Document)
  | record (members : List (String × Document))

/-- Four hexadecimal digits in lower case. -/
def hexPadded (n : Nat) : List Char :=
  let digits := Nat.toDigits 16 n
  List.replicate (4 - digits.length) '0' ++ digits

def escapeChar (c : Char) : List Char :=
  if c == '"' then ['\\', '"']
  else if c == '\\' then ['\\', '\\']
  else if c == '\x08' then ['\\', 'b']
  else if c == '\x0c' then ['\\', 'f']
  else if c == '\n' then ['\\', 'n']
  else if c == '\r' then ['\\', 'r']
  else if c == '\t' then ['\\', 't']
  else if c.toNat < 0x20 then ['\\', 'u'] ++ hexPadded c.toNat
  else [c]

def quote (content : List Char) : List Char :=
  '"' :: content.flatMap escapeChar ++ ['"']

def lineAt (level : Nat) : List Char :=
  '\n' :: List.replicate (2 * level) ' '

namespace Document

mutual

/-- A document whose first line starts at the given level. -/
def render (level : Nat) : Document → List Char
  | .null => "null".toList
  | .number value => Nat.toDigits 10 value
  | .text content => quote content
  | .list [] => ['[', ']']
  | .list (item :: items) =>
    '[' :: lineAt (level + 1) ++ render (level + 1) item ++ renderItems (level + 1) items ++
      lineAt level ++ [']']
  | .record [] => ['\x7b', '\x7d']
  | .record ((name, value) :: members) =>
    '\x7b' :: lineAt (level + 1) ++ quote name.toList ++ [':', ' '] ++ render (level + 1) value ++
      renderMembers (level + 1) members ++ lineAt level ++ ['\x7d']

/-- Further items, each behind a comma. -/
def renderItems (level : Nat) : List Document → List Char
  | [] => []
  | item :: items => ',' :: lineAt level ++ render level item ++ renderItems level items

/-- Further members, each behind a comma. -/
def renderMembers (level : Nat) : List (String × Document) → List Char
  | [] => []
  | (name, value) :: members =>
    ',' :: lineAt level ++ quote name.toList ++ [':', ' '] ++ render level value ++
      renderMembers level members

end

def pretty (d : Document) : List Char :=
  d.render 0

end Document

end LogScript.Json
