import LogScript.Layout.Bracket
import LogScript.Text.Blank
import LogScript.Text.Lines

/-!
The layout of the statements of an OML document. A line ends behind `;`, behind an opening brace
and around a closing one; `=`, `=>` and `|` get one space on each side. Literals keep every
character, and text in parentheses or square brackets keeps its spacing, apart from line breaks.

The machine goes through the text with the line it is building. A step looks at one character
and what follows it, gives the lines that are complete, and may take characters with it. Blank lines
are settled at the end: however many stand between two lines of text, one remains; none remains at the
front, and the document ends with exactly one.
-/

namespace LogScript.Layout

inductive Line where
  | blank
  | text (level : Nat) (content : List Char)
  deriving DecidableEq, Repr

namespace Line

/-- The text of a line, indented by four spaces per level. -/
def indented (level : Nat) (content : List Char) : List Char :=
  List.replicate (4 * level) ' ' ++ content

/-- The lines of text with a blank line wherever one is due; `gap` tells that it is. -/
def settle (gap : Bool) : List Line → List (List Char)
  | [] => []
  | .blank :: rest => settle true rest
  | .text level content :: rest =>
    (if gap then [[]] else []) ++ indented level content :: settle false rest

def isBlankLine : Line → Bool
  | .blank => true
  | .text _ _ => false

def render (ls : List Line) : List Char :=
  match settle false (ls.dropWhile isBlankLine) with
  | [] => []
  | settled => settled.flatMap (· ++ ['\n']) ++ ['\n']

end Line

/-- A comment; an opening square bracket behind the number sign makes an attribute instead. -/
def opensComment (text : List Char) : Bool :=
  match text with
  | '/' :: '/' :: _ => true
  | '#' :: '[' :: _ => false
  | '#' :: _ => true
  | _ => false

theorem opensComment_cons (c : Char) (rest : List Char) :
    opensComment (c :: rest) = true ↔
      c = '/' ∧ rest.head? = some '/' ∨ c = '#' ∧ rest.head? ≠ some '[' := by
  unfold opensComment
  split
  · rename_i h
    cases h
    simp
  · rename_i h
    cases h
    simp
  · rename_i hbracket h
    cases h
    have hhead : rest.head? ≠ some '[' := by
      intro hhead
      cases rest with
      | nil => cases hhead
      | cons d rest =>
        cases hhead
        exact hbracket rest rfl
    simp [hhead]
  · rename_i hslashes hbracket hhash
    have hc : c ≠ '#' := fun heq => hhash rest (heq ▸ rfl)
    have hslash : ¬(c = '/' ∧ rest.head? = some '/') := by
      rintro ⟨rfl, hhead⟩
      cases rest with
      | nil => cases hhead
      | cons d rest =>
        cases hhead
        exact hslashes rest rfl
    simp [hc, hslash]

/-- Blank runs outside literals become one space. -/
def collapseBlanks (q : Quoting) (afterSpace : Bool) : List Char → List Char
  | [] => []
  | c :: rest =>
    if !q.covers c && isBlank c then
      if afterSpace then collapseBlanks (q.next c) true rest
      else ' ' :: collapseBlanks (q.next c) true rest
    else c :: collapseBlanks (q.next c) (c == ' ') rest

/-- Drops the spaces outside literals that follow an opening bracket or a comma, or precede a
closing bracket or a comma. -/
def tightenSpaces (q : Quoting) (last : Option Char) : List Char → List Char
  | [] => []
  | c :: rest =>
    let afterOpening := last == some '[' || last == some '(' || last == some ','
    let beforeClosing := rest.head? == some ']' || rest.head? == some ')' || rest.head? == some ','
    if !q.covers c && c == ' ' && (afterOpening || beforeClosing) then
      tightenSpaces (q.next c) last rest
    else c :: tightenSpaces (q.next c) (some c) rest

/-- An attribute on one line with single spaces, and none next to brackets and commas. -/
def normalizeAttribute (text : List Char) : List Char :=
  tightenSpaces .outside none (trim (collapseBlanks .outside false text))

/-- The line being built. -/
structure Body where
  /-- Its text from the last character to the first. -/
  built : List Char := []
  /-- A space is due before more text. -/
  space : Bool := false
  /-- The level of the braces around it. -/
  level : Nat := 0
  /-- How many brackets are open in it. -/
  depth : Nat := 0
  deriving DecidableEq, Repr

namespace Body

def line (b : Body) : List Char :=
  b.built.reverse

/-- Adds text as it is. -/
def add (b : Body) (text : List Char) : Body :=
  { b with built := text.reverse ++ b.built }

/-- Adds text, behind the space that is due. -/
def push (b : Body) (text : List Char) : Body :=
  let gap := if b.space && !b.built.isEmpty then [' '] else []
  { b.add (gap ++ text) with space := false }

@[simp] theorem line_add (b : Body) (text : List Char) : (b.add text).line = b.line ++ text := by
  simp [line, add]

/-- Adds an operator with a space on each side. -/
def spaced (b : Body) (operator : List Char) : Body :=
  { { b with space := true }.push operator with space := true }

/-- The line as it stands, if anything stands in it. -/
def pending (b : Body) : List Line :=
  match trim b.line with
  | [] => []
  | content => [.text b.level content]

def cleared (b : Body) : Body :=
  { b with built := [], space := false }

/-- The last character that is not blank. -/
def lastChar? (b : Body) : Option Char :=
  b.built.find? (fun c => !isBlank c)

end Body

/-- What a step does: the machine behind it, the lines it completes, and how many more
characters it takes. -/
structure Move where
  body : Body
  lines : List Line := []
  taken : Nat := 0

namespace Body

/-- A blank run. In brackets a line break becomes a space; elsewhere an empty line ends the
statement, and any other run calls for a space. -/
def blankRun (b : Body) (run : List Char) : Move :=
  let taken := run.length - 1
  if b.depth > 0 then
    if run.contains '\n' then ⟨b.add [' '], [], taken⟩ else ⟨b.add run, [], taken⟩
  else if run.count '\n' ≥ 2 then ⟨b.cleared, b.pending ++ [.blank], taken⟩
  else ⟨{ b with space := true }, [], taken⟩

def literal (b : Body) (c : Char) (rest : List Char) : Move :=
  let tail := literalRest .inside rest
  ⟨b.push (c :: tail), [], tail.length⟩

/-- A character inside brackets. -/
def enclosed (b : Body) (c : Char) : Move :=
  let depth :=
    if c == '(' || c == '[' then b.depth + 1
    else if c == ')' || c == ']' then b.depth - 1
    else b.depth
  ⟨{ b.add [c] with depth }, [], 0⟩

/-- A comment takes the rest of its line; it ends the statement it follows. -/
def comment (b : Body) (c : Char) (rest : List Char) : Move :=
  let tail := firstLine rest
  let content := trimEnd (c :: tail)
  if allBlank b.built then
    ⟨{ b with built := [] }, [.text b.level content], tail.length⟩
  else
    let b := { b with space := true }.push content
    ⟨b.cleared, b.pending, tail.length⟩

/-- An attribute on a line of its own. -/
def attributeLine (b : Body) (rest : List Char) : Move :=
  let tail :=
    match splitClosing '[' ']' .outside 0 (rest.drop 1) with
    | some (inner, _) => '[' :: inner ++ [']']
    | none => rest
  ⟨{ b with built := [] }, [.text b.level (normalizeAttribute ('#' :: tail))], tail.length⟩

def openBrace (b : Body) (rest : List Char) : Move :=
  let blanks := rest.takeWhile isBlank
  let b := { b with space := true }
  if (rest.drop blanks.length).head? = some '\x7d' then
    ⟨b.push ['\x7b', '\x7d'], [], blanks.length + 1⟩
  else
    let b := b.push ['\x7b']
    ⟨{ b.cleared with level := b.level + 1 }, b.pending, 0⟩

/-- A closing brace goes one level out; only `;`, `,` and `)` may follow it on its line. -/
def closeBrace (b : Body) (rest : List Char) : Move :=
  let blanks := rest.takeWhile isBlank
  let done := b.pending
  let b := { b.cleared with level := b.level - 1 }.push ['\x7d']
  let follower := (rest.drop blanks.length).head?
  if follower = some ';' ∨ follower = some ',' ∨ follower = some ')' then ⟨b, done, blanks.length⟩
  else ⟨b.cleared, done ++ b.pending, 0⟩

def equals (b : Body) (next : Option Char) : Move :=
  if next = some '>' then ⟨b.spaced ['=', '>'], [], 1⟩
  else if next = some '=' ∨ b.lastChar?.any (['=', '!', '<', '>'].contains ·) then
    ⟨b.push ['='], [], 0⟩
  else ⟨b.spaced ['='], [], 0⟩

def bar (b : Body) (next : Option Char) : Move :=
  if next = some '|' ∨ b.lastChar? = some '|' then ⟨b.push ['|'], [], 0⟩
  else ⟨b.spaced ['|'], [], 0⟩

/-- A character of a statement that is neither blank nor part of a literal or a comment. -/
def statement (b : Body) (c : Char) (rest : List Char) : Move :=
  if c == '#' && rest.head? == some '[' && allBlank b.built then b.attributeLine rest
  else if c == '(' || c == '[' then ⟨{ b.push [c] with depth := b.depth + 1 }, [], 0⟩
  else if c == ';' then
    let b := { b with space := false }.push [';']
    ⟨b.cleared, b.pending, 0⟩
  else if c == '=' then b.equals rest.head?
  else if c == '|' then b.bar rest.head?
  else if c == '\x7b' then b.openBrace rest
  else if c == '\x7d' then b.closeBrace rest
  else ⟨b.push [c], [], 0⟩

def step (b : Body) (c : Char) (rest : List Char) : Move :=
  if isBlank c then b.blankRun (c :: rest.takeWhile isBlank)
  else if c == '"' then b.literal c rest
  else if b.depth > 0 then b.enclosed c
  else if opensComment (c :: rest) then b.comment c rest
  else b.statement c rest

/-- All lines from a machine and the text in front of it. -/
def run (b : Body) (text : List Char) : List Line :=
  match text with
  | [] => b.pending
  | c :: rest =>
    let move := b.step c rest
    move.lines ++ move.body.run (rest.drop move.taken)
termination_by text.length
decreasing_by
  simp only [List.length_drop, List.length_cons]
  omega

theorem run_nil (b : Body) : b.run [] = b.pending := by
  rw [run.eq_def]

theorem run_cons (b : Body) (c : Char) (rest : List Char) :
    b.run (c :: rest) =
      (b.step c rest).lines ++ (b.step c rest).body.run (rest.drop (b.step c rest).taken) := by
  rw [run.eq_def]

end Body

def bodyLines (text : List Char) : List Line :=
  Body.run {} text

end LogScript.Layout
