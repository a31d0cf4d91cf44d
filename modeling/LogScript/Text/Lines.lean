import LogScript.Text.Blank

/-!
Lines that end with a line feed. `lines` drops the empty piece behind a final line feed, so a
text and the same text with one more final line feed have the same lines.

Lines of a document buffer end with LF, CR, CR LF as one break, vertical tab, form feed, next line,
line separator or paragraph separator; behind the last break there is one more line.
-/

namespace LogScript

/-- Every CR LF pair, and every other CR, becomes one LF. -/
def normalizeNewlines : List Char → List Char
  | [] => []
  | '\r' :: '\n' :: rest => '\n' :: normalizeNewlines rest
  | '\r' :: rest => '\n' :: normalizeNewlines rest
  | c :: rest => c :: normalizeNewlines rest

def lines : List Char → List (List Char)
  | [] => []
  | c :: rest => if c == '\n' then [] :: lines rest else consHead c (lines rest)

/-- The lines with one line feed between each two neighbours. -/
def joinLines (ls : List (List Char)) : List Char :=
  ['\n'].intercalate ls

/-- The characters before the first line feed. -/
def firstLine (text : List Char) : List Char :=
  text.takeWhile (· != '\n')

/-- What follows the first line feed; nothing when there is none. -/
def afterFirstLine (text : List Char) : List Char :=
  text.drop ((firstLine text).length + 1)

@[simp] theorem firstLine_lineFeed (rest : List Char) : firstLine ('\n' :: rest) = [] := rfl

theorem firstLine_cons {c : Char} (h : c ≠ '\n') (rest : List Char) :
    firstLine (c :: rest) = c :: firstLine rest := by
  rw [firstLine, List.takeWhile_cons, if_pos (by simpa using h)]
  rfl

@[simp] theorem afterFirstLine_lineFeed (rest : List Char) :
    afterFirstLine ('\n' :: rest) = rest := rfl

theorem afterFirstLine_cons {c : Char} (h : c ≠ '\n') (rest : List Char) :
    afterFirstLine (c :: rest) = afterFirstLine rest := by
  rw [afterFirstLine, firstLine_cons h]
  rfl

def isLineBreak (c : Char) : Bool :=
  let n := c.toNat
  (0xA ≤ n && n ≤ 0xD) || n == 0x85 || n == 0x2028 || n == 0x2029

/-- The positions behind the line breaks of a text that starts at position `offset`. -/
def lineStartsFrom (offset : Nat) : List Char → List Nat
  | [] => []
  | c :: rest =>
    let later := lineStartsFrom (offset + 1) rest
    if isLineBreak c && !(c == '\r' && rest.head? == some '\n') then (offset + 1) :: later
    else later

/-- The positions where lines start. -/
def lineStarts (text : List Char) : List Nat :=
  0 :: lineStartsFrom 0 text

/-- The start of the line that a position is on. -/
def lineStart (text : List Char) (position : Nat) : Nat :=
  ((lineStarts text).filter (· ≤ position)).getLast?.getD 0

end LogScript
