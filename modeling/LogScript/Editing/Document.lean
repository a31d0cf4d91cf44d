import LogScript.Language
import LogScript.Text.Lines
import LogScript.Text.Units

/-!
Documents: a text with a selection and its history. Positions count characters. An edit that
changes the text is kept with the two texts it exchanges and the selection before it, and is
taken back and made again from that. An edit that changes nothing leaves no trace.
-/

namespace LogScript

/-- The characters from `start` up to `stop`. -/
structure Span where
  start : Nat
  stop : Nat
  deriving DecidableEq, Repr

def Span.at (position : Nat) : Span :=
  ⟨position, position⟩

structure Edit where
  start : Nat
  removed : List Char
  inserted : List Char
  selectionBefore : Span
  deriving DecidableEq, Repr

structure Document where
  text : List Char
  /-- Empty when there is only a cursor. -/
  selection : Span := ⟨0, 0⟩
  /-- The edits that can be taken back, latest first. -/
  undoable : List Edit := []
  /-- The edits that can be made again, next first. -/
  redoable : List Edit := []
  deriving DecidableEq, Repr

namespace Document

def ofText (text : List Char) : Document :=
  { text }

def cursor (d : Document) : Nat :=
  d.selection.stop

def checkPosition (d : Document) (position : Nat) : Except ToolError Unit :=
  if position ≤ d.text.length then .ok ()
  else .error (.offsetOutOfBounds position d.text.length)

/-- The end of a span has to lie in the text, and its start not behind its end. -/
def checkSpan (d : Document) (s : Span) : Except ToolError Unit := do
  d.checkPosition s.stop
  if s.start ≤ s.stop then .ok () else .error (.offsetOutOfBounds s.start s.stop)

def setCursor (d : Document) (position : Nat) : Except ToolError Document := do
  d.checkPosition position
  return { d with selection := .at position }

def select (d : Document) (s : Span) : Except ToolError Document := do
  d.checkSpan s
  return { d with selection := s }

def charsIn (d : Document) (s : Span) : List Char :=
  (d.text.drop s.start).take (s.stop - s.start)

def slice (d : Document) (s : Span) : Except ToolError (List Char) := do
  d.checkSpan s
  return d.charsIn s

/-- The start of the line a position is on, and the text from there to the position. -/
def linePrefix (d : Document) (position : Nat) : Except ToolError (Nat × List Char) := do
  d.checkPosition position
  let start := lineStart d.text position
  return (start, d.charsIn ⟨start, position⟩)

def bytePosition (d : Document) (position : Nat) : Except ToolError Nat := do
  d.checkPosition position
  return byteLength (d.text.take position)

def lineCount (d : Document) : Nat :=
  (lineStarts d.text).length

/-- Puts `inserted` in the place of the `removed` characters behind position `start`. -/
def splice (text : List Char) (start removed : Nat) (inserted : List Char) : List Char :=
  text.take start ++ inserted ++ text.drop (start + removed)

/-- Makes an edit; the cursor goes behind what it inserts. -/
def applyEdit (d : Document) (e : Edit) : Document :=
  { d with
    text := splice d.text e.start e.removed.length e.inserted
    selection := .at (e.start + e.inserted.length) }

/-- Makes a new edit. Nothing can be made again after that. -/
def commit (d : Document) (e : Edit) : Document :=
  { d.applyEdit e with undoable := e :: d.undoable, redoable := [] }

/-- Replaces the text of a span, and tells whether that changed anything. -/
def replace (d : Document) (s : Span) (text : List Char) : Except ToolError (Document × Bool) := do
  d.checkSpan s
  let removed := d.charsIn s
  if removed = text then return (d, false)
  return (d.commit ⟨s.start, removed, text, d.selection⟩, true)

def insert (d : Document) (position : Nat) (text : List Char) :
    Except ToolError (Document × Bool) :=
  d.replace (.at position) text

/-- Replaces the whole text. A cursor at the end stays at the end, any other stays where it was
as far as the new text reaches. -/
def setText (d : Document) (text : List Char) : Document × Bool :=
  if d.text = text then (d, false)
  else
    let cursor := if d.cursor = d.text.length then text.length else min d.cursor text.length
    ({ d.commit ⟨0, d.text, text, d.selection⟩ with selection := .at cursor }, true)

def undo (d : Document) : Document × Bool :=
  match d.undoable with
  | [] => (d, false)
  | e :: rest =>
    ({ text := splice d.text e.start e.inserted.length e.removed
       selection := e.selectionBefore
       undoable := rest
       redoable := e :: d.redoable }, true)

def redo (d : Document) : Document × Bool :=
  match d.redoable with
  | [] => (d, false)
  | e :: rest =>
    ({ d.applyEdit e with undoable := e :: d.undoable, redoable := rest }, true)

def canUndo (d : Document) : Bool :=
  !d.undoable.isEmpty

def canRedo (d : Document) : Bool :=
  !d.redoable.isEmpty

end Document

end LogScript
