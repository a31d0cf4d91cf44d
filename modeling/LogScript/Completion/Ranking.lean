import LogScript.Completion.Item
import LogScript.Text.Lowercase

/-!
Ranking of candidates against the text typed so far. Candidates that do not match fall out. The
others are ordered by a score of match quality and label length, where less is better, and by
label where scores are equal.

A scoring says how scores are built and compared. Scores may be incomparable, and then count as
equal without a look at the labels; the order of such candidates is that of the list.
-/

namespace LogScript

/-- How a label matches, from best to worst. -/
inductive Quality where
  | exactStart
  | looseStart
  | inside
  deriving DecidableEq, Repr

namespace Quality

def rank : Quality → Nat
  | .exactStart => 0
  | .looseStart => 1
  | .inside => 2

def name : Quality → String
  | .exactStart => "Prefix"
  | .looseStart => "CaseInsensitivePrefix"
  | .inside => "Substring"

def containsText (part : List Char) : List Char → Bool
  | [] => part.isEmpty
  | c :: rest => part.isPrefixOf (c :: rest) || containsText part rest

/-- The match of a label with the typed text; only the exact start looks at case. -/
def of? (label typed : List Char) : Option Quality :=
  if typed.isPrefixOf label then some .exactStart
  else if (lowercase typed).isPrefixOf (lowercase label) then some .looseStart
  else if containsText (lowercase typed) (lowercase label) then some .inside
  else none

end Quality

/-- Scores of a type: how one is made from a quality and a label length, and how two compare. -/
structure Scoring (α : Type) where
  score : Quality → Nat → α
  compare? : α → α → Option Ordering

/-- The order of texts by code points. -/
def compareText : List Char → List Char → Ordering
  | [], [] => .eq
  | [], _ :: _ => .lt
  | _ :: _, [] => .gt
  | a :: as, b :: bs => if a < b then .lt else if b < a then .gt else compareText as bs

/-- Inserts behind everything that is not greater, into a list with the greatest in front. -/
def insertDescending {α : Type} (less : α → α → Bool) (x : α) : List α → List α
  | [] => [x]
  | y :: ys => if less x y then y :: insertDescending less x ys else x :: y :: ys

/-- Stable sorting by insertion. -/
def stableSort {α : Type} (less : α → α → Bool) (xs : List α) : List α :=
  (xs.foldl (fun sorted x => insertDescending less x sorted) []).reverse

namespace Scoring

variable {α : Type}

def less (s : Scoring α) (a b : α × Item) : Bool :=
  match s.compare? a.1 b.1 with
  | some .lt => true
  | some .eq => compareText a.2.label b.2.label == .lt
  | _ => false

def scored (s : Scoring α) (typed : List Char) (items : List Item) : List (α × Item) :=
  items.filterMap fun i =>
    (Quality.of? i.label typed).map (fun q => (s.score q i.label.length, i))

/-- All matching items, best first. -/
def ranked (s : Scoring α) (typed : List Char) (items : List Item) : List Item :=
  (stableSort s.less (s.scored typed items)).map Prod.snd

end Scoring

/-- Weights of quality and length, and how many candidates are kept. -/
structure Criteria where
  matchWeight : Float := 10.0
  lengthWeight : Float := 0.01
  limit : Option Nat := some 50

namespace Criteria

def unbounded : Criteria :=
  { limit := none }

def compareFloats (a b : Float) : Option Ordering :=
  if a < b then some .lt else if a == b then some .eq else if b < a then some .gt else none

def scoring (c : Criteria) : Scoring Float where
  score q length := Float.ofNat q.rank * c.matchWeight + Float.ofNat length * c.lengthWeight
  compare? := compareFloats

/-- Keeps the first candidates up to the limit. -/
def cut {β : Type} (limit : Option Nat) (xs : List β) : List β :=
  match limit with
  | some n => xs.take n
  | none => xs

def rank (c : Criteria) (typed : List Char) (items : List Item) : List Item :=
  cut c.limit (c.scoring.ranked typed items)

end Criteria

end LogScript
