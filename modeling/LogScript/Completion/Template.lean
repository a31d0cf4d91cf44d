/-!
Insertable templates. A template is text with slots, written `${name}`, `${N:name}`, `${N}` or
`$N`. Reading never fails: a dollar sign that opens no slot is text, and so is everything from a
slot that is never closed.

Every slot gets a tab-stop number. Written numbers are kept; the other slots are numbered behind
the largest written number in order of appearance, and slots of one name share a number. Numbers
have 32 bits, and counting stops at the largest.
-/

namespace LogScript.Template

def largestNumber : Nat :=
  4294967295

inductive Segment where
  | text (content : List Char)
  | slot (number : Option Nat) (name : List Char)
  deriving DecidableEq, Repr

/-- The number some digits denote, unless there are none or it does not fit. -/
def numberOf? (digits : List Char) : Option Nat :=
  let value := digits.foldl (fun n c => n * 10 + (c.toNat - 0x30)) 0
  if digits.isEmpty || value > largestNumber then none else some value

/-- The slot between braces: a number, a number and a name, or a name. -/
def slotOfBody (body : List Char) : Segment :=
  let digits := body.takeWhile Char.isDigit
  match numberOf? digits with
  | none => .slot none body
  | some n =>
    match body.drop digits.length with
    | [] => .slot (some n) []
    | ':' :: name => .slot (some n) name
    | _ => .slot none body

/-- What a dollar sign opens. -/
inductive Opening where
  | slot (segment : Segment) (taken : Nat)
  | unclosed
  | nothing

/-- What the text behind a dollar sign makes of it, with the number of characters taken. -/
def openingOf (text : List Char) : Opening :=
  match text with
  | '\x7b' :: inner =>
    let body := inner.takeWhile (· != '\x7d')
    if body.length = inner.length then .unclosed else .slot (slotOfBody body) (body.length + 2)
  | _ =>
    let digits := text.takeWhile Char.isDigit
    match numberOf? digits with
    | some n => .slot (.slot (some n) []) digits.length
    | none => .nothing

/-- Puts a character in front, into the first segment if that is text. -/
def consText (c : Char) : List Segment → List Segment
  | .text content :: rest => .text (c :: content) :: rest
  | segments => .text [c] :: segments

def parse (text : List Char) : List Segment :=
  match text with
  | [] => []
  | c :: rest =>
    if c == '$' then
      match openingOf rest with
      | .slot segment taken => segment :: parse (rest.drop taken)
      | .unclosed => [.text (c :: rest)]
      | .nothing => consText c (parse rest)
    else consText c (parse rest)
termination_by text.length
decreasing_by
  all_goals simp only [List.length_drop, List.length_cons]
  all_goals omega

def isSlot : Segment → Bool
  | .slot _ _ => true
  | .text _ => false

def hasSlots (segments : List Segment) : Bool :=
  segments.any isSlot

/-- A segment whose slot has its tab-stop number. -/
inductive Piece where
  | text (content : List Char)
  | stop (number : Nat) (name : List Char)
  deriving DecidableEq, Repr

def writtenNumber : Segment → Nat
  | .slot (some n) _ => n
  | _ => 0

/-- The number behind `n`, or `n` again if it is the largest. -/
def numberAfter (n : Nat) : Nat :=
  min (n + 1) largestNumber

def firstFreeNumber (segments : List Segment) : Nat :=
  numberAfter ((segments.map writtenNumber).foldl max 0)

/-- Numbers the slots from `next` on; `named` holds the numbers that names have already. -/
def numberFrom (next : Nat) (named : List (List Char × Nat)) : List Segment → List Piece
  | [] => []
  | .text content :: rest => .text content :: numberFrom next named rest
  | .slot (some n) name :: rest => .stop n name :: numberFrom next named rest
  | .slot none name :: rest =>
    if name.isEmpty then .stop next name :: numberFrom (numberAfter next) named rest
    else match named.lookup name with
      | some n => .stop n name :: numberFrom next named rest
      | none => .stop next name :: numberFrom (numberAfter next) ((name, next) :: named) rest

def numbered (segments : List Segment) : List Piece :=
  numberFrom (firstFreeNumber segments) [] segments

def Piece.content : Piece → List Char
  | .text content => content
  | .stop _ name => name

/-- A tab stop between two character positions. -/
structure TabStop where
  number : Nat
  start : Nat
  stop : Nat
  deriving DecidableEq, Repr

/-- The tab stops of pieces whose text starts at `offset`, in order of appearance. -/
def stopsFrom (offset : Nat) : List Piece → List TabStop
  | [] => []
  | .text content :: rest => stopsFrom (offset + content.length) rest
  | .stop number name :: rest =>
    ⟨number, offset, offset + name.length⟩ :: stopsFrom (offset + name.length) rest

/-- Stops are visited by number, the stops numbered 0 last. -/
def TabStop.visitKey (s : TabStop) : Nat :=
  if s.number = 0 then largestNumber + 1 else s.number

/-- A template as it is inserted: its text, and its tab stops in the order of visiting. -/
structure Insertion where
  text : List Char
  stops : List TabStop
  deriving DecidableEq, Repr

def resolve (segments : List Segment) : Insertion :=
  let pieces := numbered segments
  ⟨pieces.flatMap Piece.content,
    (stopsFrom 0 pieces).mergeSort (fun a b => decide (a.visitKey ≤ b.visitKey))⟩

def escapeSnippetChar (c : Char) : List Char :=
  if c == '$' || c == '\x7d' || c == '\\' then ['\\', c] else [c]

def decimal (n : Nat) : List Char :=
  Nat.toDigits 10 n

def renderPiece : Piece → List Char
  | .text content => content.flatMap escapeSnippetChar
  | .stop number [] => '$' :: decimal number
  | .stop number name => ['$', '\x7b'] ++ decimal number ++ [':'] ++ name ++ ['\x7d']

/-- The template with a number in every slot, and with what could be taken for a slot escaped in
the text between them. -/
def renderSnippet (segments : List Segment) : List Char :=
  (numbered segments).flatMap renderPiece

/-- A tab stop spans the name of a slot, in the text of the pieces. -/
theorem exists_name_of_mem_stopsFrom {offset : Nat} {pieces : List Piece} {s : TabStop}
    (h : s ∈ stopsFrom offset pieces) :
    ∃ front name back, .stop s.number name ∈ pieces ∧
      pieces.flatMap Piece.content = front ++ name ++ back ∧
      s.start = offset + front.length ∧ s.stop = s.start + name.length := by
  induction pieces generalizing offset with
  | nil => cases h
  | cons piece pieces ih =>
    have hlater (h : s ∈ stopsFrom (offset + piece.content.length) pieces) :
        ∃ front name back, .stop s.number name ∈ piece :: pieces ∧
          (piece :: pieces).flatMap Piece.content = front ++ name ++ back ∧
          s.start = offset + front.length ∧ s.stop = s.start + name.length := by
      obtain ⟨front, name, back, hmem, htext, hstart, hstop⟩ := ih h
      refine ⟨piece.content ++ front, name, back, List.mem_cons_of_mem _ hmem, ?_, ?_, hstop⟩
      · rw [List.flatMap_cons, htext]
        simp only [List.append_assoc]
      · rw [hstart, List.length_append, Nat.add_assoc]
    cases piece with
    | text content => exact hlater h
    | stop number name =>
      rcases List.mem_cons.1 h with rfl | h
      · exact ⟨[], name, pieces.flatMap Piece.content, List.mem_cons_self, rfl, rfl, rfl⟩
      · exact hlater h

theorem exists_name_of_mem_stops {segments : List Segment} {s : TabStop}
    (h : s ∈ (resolve segments).stops) :
    ∃ front name back, .stop s.number name ∈ numbered segments ∧
      (resolve segments).text = front ++ name ++ back ∧
      s.start = front.length ∧ s.stop = s.start + name.length := by
  have hname := exists_name_of_mem_stopsFrom (List.mem_mergeSort.1 h)
  simp only [Nat.zero_add] at hname
  exact hname

/-- The tab stops of a template lie in the text it inserts. -/
theorem bounds_of_mem_stops {segments : List Segment} {s : TabStop}
    (h : s ∈ (resolve segments).stops) :
    s.start ≤ s.stop ∧ s.stop ≤ (resolve segments).text.length := by
  obtain ⟨front, name, back, -, htext, hstart, hstop⟩ := exists_name_of_mem_stops h
  rw [htext, List.length_append, List.length_append]
  omega

end LogScript.Template
