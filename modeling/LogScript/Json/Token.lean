import LogScript.Text.Run

/-!
The lexical half of reading JSON: punctuation, literals, numbers in the strict notation, and
strings with their escapes resolved.
-/

namespace LogScript.Json

inductive Token where
  | openObject
  | closeObject
  | openArray
  | closeArray
  | comma
  | colon
  | null
  | bool (value : Bool)
  | number
  | string (text : Option (List Char))
  deriving DecidableEq

def hexValue? (c : Char) : Option Nat :=
  if c.isDigit then some (c.toNat - 0x30)
  else if 'a' ≤ c ∧ c ≤ 'f' then some (c.toNat - 0x61 + 10)
  else if 'A' ≤ c ∧ c ≤ 'F' then some (c.toNat - 0x41 + 10)
  else none

/-- The number four hexadecimal digits denote. -/
def hexUnit? (digits : List Char) : Option Nat :=
  if digits.length = 4 then
    digits.foldl (fun n? c => n?.bind (fun n => (hexValue? c).map (n * 16 + ·))) (some 0)
  else none

/-- The character a one-letter escape stands for. -/
def simpleEscape? (c : Char) : Option Char :=
  if c == '"' || c == '\\' || c == '/' then some c
  else if c == 'b' then some '\x08'
  else if c == 'f' then some '\x0c'
  else if c == 'n' then some '\n'
  else if c == 'r' then some '\r'
  else if c == 't' then some '\t'
  else none

/-- The part of a string before its closing quote, escapes still in place. -/
def stringBody? : List Char → Option (List Char)
  | [] => none
  | c :: rest =>
    if c == '\\' then
      match rest with
      | [] => none
      | escaped :: rest => (stringBody? rest).map (fun body => c :: escaped :: body)
    else if c == '"' then some []
    else (stringBody? rest).map (c :: ·)

/-- Code points and, from numeric escapes, UTF-16 units. Control characters have to be escaped. -/
def units? : List Char → Option (List Nat)
  | [] => some []
  | '\\' :: 'u' :: a :: b :: c :: d :: rest => do
    let unit ← hexUnit? [a, b, c, d]
    (unit :: ·) <$> units? rest
  | '\\' :: e :: rest => do
    let escaped ← simpleEscape? e
    (escaped.toNat :: ·) <$> units? rest
  | c :: rest =>
    if c.toNat < 0x20 || c == '\\' then none else (c.toNat :: ·) <$> units? rest

def isHighSurrogate (unit : Nat) : Bool :=
  0xD800 ≤ unit && unit < 0xDC00

def isLowSurrogate (unit : Nat) : Bool :=
  0xDC00 ≤ unit && unit < 0xE000

/-- Pairs of surrogates become one character; a surrogate without its other half has no text. -/
def pairSurrogates : List Nat → Option (List Char)
  | [] => some []
  | unit :: rest =>
    if isHighSurrogate unit then
      match rest with
      | low :: rest =>
        if isLowSurrogate low then
          (Char.ofNat (0x10000 + (unit - 0xD800) * 0x400 + (low - 0xDC00)) :: ·) <$>
            pairSurrogates rest
        else none
      | [] => none
    else if isLowSurrogate unit then none
    else (Char.ofNat unit :: ·) <$> pairSurrogates rest

/-- A fraction or exponent part: its mark, perhaps a sign, and digits. -/
def markedDigits? (text : List Char) (signs : List Char) : Option (List Char) :=
  match text with
  | [] => none
  | mark :: rest =>
    let sign := (rest.take 1).filter signs.contains
    match Run.digits (rest.drop sign.length) with
    | [] => none
    | ds => some (mark :: sign ++ ds)

/-- The fraction and exponent behind the whole part of a number; `none` when a mark has no digits. -/
def numberTail? (text : List Char) : Option (List Char) :=
  let fraction? := if text.head? == some '.' then markedDigits? text [] else some []
  fraction?.bind fun fraction =>
    let rest := text.drop fraction.length
    if rest.head? == some 'e' || rest.head? == some 'E' then
      (markedDigits? rest ['+', '-']).map (fraction ++ ·)
    else some fraction

/-- A number in the strict notation: no plus sign, and no zero in front of other digits. -/
def number? (text : List Char) : Option (List Char) :=
  let sign := if text.head? == some '-' then ['-'] else []
  let body := text.drop sign.length
  match Run.digits body with
  | [] => none
  | ds =>
    if ds.head? == some '0' && ds.length != 1 then none
    else (numberTail? (body.drop ds.length)).map (fun tail => sign ++ ds ++ tail)

/-- The token that a character opens, and how many characters behind it belong to it too. -/
def tokenAt? (c : Char) (rest : List Char) : Option (Token × Nat) :=
  if c == '\x7b' then some (.openObject, 0)
  else if c == '\x7d' then some (.closeObject, 0)
  else if c == '[' then some (.openArray, 0)
  else if c == ']' then some (.closeArray, 0)
  else if c == ',' then some (.comma, 0)
  else if c == ':' then some (.colon, 0)
  else if c == '"' then do
    let body ← stringBody? rest
    let units ← units? body
    some (.string (pairSurrogates units), body.length + 1)
  else if "null".toList.isPrefixOf (c :: rest) then some (.null, 3)
  else if "true".toList.isPrefixOf (c :: rest) then some (.bool true, 3)
  else if "false".toList.isPrefixOf (c :: rest) then some (.bool false, 4)
  else (number? (c :: rest)).map (fun n => (.number, n.length - 1))

def isSpace (c : Char) : Bool :=
  c == ' ' || c == '\t' || c == '\n' || c == '\r'

def tokens? (text : List Char) : Option (List Token) :=
  match text with
  | [] => some []
  | c :: rest =>
    if isSpace c then tokens? rest
    else match tokenAt? c rest with
      | none => none
      | some (token, n) => (token :: ·) <$> tokens? (rest.drop n)
termination_by text.length
decreasing_by
  · simp
  · simp only [List.length_drop, List.length_cons]
    omega

end LogScript.Json
