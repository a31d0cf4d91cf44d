import LogScript.Completion.Catalog
import LogScript.Completion.Ranking
import LogScript.Text.Lines

/-!
When completions are offered, and where an accepted one goes. The decision looks at the line
before the cursor only, and at no more than a window of its last characters. Something to
complete is a run of identifier characters, or in OML a bar, right before the cursor; without it
only an explicit request is answered. An offer always holds the whole catalog.

A session starts with an offer and lives as long as the text typed since its anchor stays valid;
meanwhile the candidates are narrowed to those the text matches.
-/

namespace LogScript

/-- How far back a line is looked at. -/
def windowSize : Nat :=
  250

namespace Language

def isIdentifierChar : Language → Char → Bool
  | .wpl, c => c.isAlphanum || c == '_' || c == '/'
  | .oml, c => c.isAlphanum || c == '_' || c == '/' || c == ':' || c == '[' || c == ']'

/-- Text that keeps an offer alive: identifier characters, or in OML a single bar. -/
def isValidTyped (language : Language) (typed : List Char) : Bool :=
  (!typed.isEmpty && typed.all language.isIdentifierChar) || (language == .oml && typed == ['|'])

/-- The same condition as a pattern for hosts. -/
def validPattern : Language → String
  | .wpl => "^(?:[A-Za-z0-9_/]+)$"
  | .oml => "^(?:[A-Za-z0-9_/:\\[\\]]+|\\|)$"

end Language

/-- What a decision may look at: the end of the last line of the text before the cursor. -/
def completionWindow (before : List Char) : List Char :=
  (before.reverse.takeWhile (· != '\n') |>.take windowSize).reverse

/-- The length of the run of accepted characters at the end of a text. -/
def trailingRun (accept : Char → Bool) (text : List Char) : Nat :=
  (text.reverse.takeWhile accept).length

/-- How many characters before the cursor an accepted completion replaces. -/
def replacedLength? (language : Language) (before : List Char) (explicit : Bool) : Option Nat :=
  let window := completionWindow before
  if language = .oml ∧ window.getLast? = some '|' then some 1
  else
    let run := trailingRun language.isIdentifierChar window
    if run > 0 then some run else if explicit then some 0 else none

structure Offer where
  language : Language
  /-- The character position from which an accepted completion replaces the text. -/
  anchor : Nat
  candidates : List Item
  deriving DecidableEq, Repr

/-- The first candidate with this label. -/
def Offer.get? (o : Offer) (label : List Char) : Option Item :=
  o.candidates.find? (·.label == label)

/-- The offer for a cursor right behind `before`. -/
def Catalog.complete (c : Catalog) (before : List Char) (explicit : Bool) : Option Offer :=
  (replacedLength? c.language before explicit).map fun n =>
    ⟨c.language, before.length - n, c.items⟩

/-- A request of a host: the text before the cursor, and whether the user asked. -/
structure CompletionRequest where
  before : List Char := []
  explicit : Bool := false
  deriving DecidableEq, Repr

namespace CompletionRequest

def ofJson? (value : Json) : Option CompletionRequest := do
  let fields ← value.fields? ["before".toList, "explicit".toList]
  return {
    before := ← Json.field? fields "before" Json.text? []
    explicit := ← Json.field? fields "explicit" Json.bool? false }

def read (text : List Char) : Except ToolError CompletionRequest :=
  match (Json.read? text).bind ofJson? with
  | some r => .ok r
  | none => .error .unreadableRequest

end CompletionRequest

structure Session where
  offer : Offer
  typed : List Char
  deriving DecidableEq, Repr

namespace Session

/-- The session that an offer for a cursor right behind `before` opens. -/
def start (offer : Offer) (before : List Char) : Session :=
  ⟨offer, before.drop offer.anchor⟩

/-- The session with its anchor `n` characters further, for text in front of the offer's. -/
def shift (s : Session) (n : Nat) : Session :=
  { s with offer := { s.offer with anchor := s.offer.anchor + n } }

def accepts (s : Session) (typed : List Char) : Bool :=
  typed.isEmpty || s.offer.language.isValidTyped typed

/-- The session with other typed text, unless that ends it. No text at all keeps it alive. -/
def update? (s : Session) (typed : List Char) : Option Session :=
  if s.accepts typed then some { s with typed } else none

def visible (s : Session) (c : Criteria) : List Item :=
  c.rank s.typed s.offer.candidates

/-- The first matching candidate with this label. -/
def candidate? (s : Session) (label : List Char) : Option Item :=
  (s.visible .unbounded).find? (·.label == label)

end Session

end LogScript
