/-!
What the tools count about themselves: highlighting passes and their tokens, completion requests
that were answered or not, and lookups of catalogs, all modulo 2^64; and for each named
operation how long its latest runs took.
-/

namespace LogScript

inductive Event where
  | tokenized (tokens : Nat)
  | offered
  | suppressed
  | catalogHit
  | catalogMiss
  deriving DecidableEq, Repr

structure Counters where
  passes : UInt64 := 0
  tokens : UInt64 := 0
  offered : UInt64 := 0
  suppressed : UInt64 := 0
  hits : UInt64 := 0
  misses : UInt64 := 0
  deriving DecidableEq, Repr

namespace Counters

def record (c : Counters) : Event → Counters
  | .tokenized n => { c with passes := c.passes + 1, tokens := c.tokens + n.toUInt64 }
  | .offered => { c with offered := c.offered + 1 }
  | .suppressed => { c with suppressed := c.suppressed + 1 }
  | .catalogHit => { c with hits := c.hits + 1 }
  | .catalogMiss => { c with misses := c.misses + 1 }

/-- The share of catalog lookups that hit; 0 before the first. -/
def hitRate (c : Counters) : Float :=
  let total := c.hits + c.misses
  if total = 0 then 0.0 else c.hits.toFloat / total.toFloat

end Counters

/-- How many samples of an operation are kept. -/
def sampleLimit : Nat :=
  1024

/-- Durations in microseconds, summarized. -/
structure Summary where
  count : Nat
  least : Nat
  greatest : Nat
  mean : Nat
  median : Nat
  /-- Nineteen of twenty samples take no longer. -/
  percentile95 : Nat
  deriving DecidableEq, Repr

namespace Summary

/-- Where the mark of nineteen in twenty stands among sorted samples. The product is rounded to 53
binary digits before its whole part is taken. -/
def percentileRank (count : Nat) : Nat :=
  (count.toUInt64.toFloat * 0.95).toUInt64.toNat

/-- The sample at a rank, or the last one when there are not so many. -/
def atRank (sorted : List Nat) (rank : Nat) : Nat :=
  (sorted[min rank (sorted.length - 1)]?).getD 0

/-- The summary of sorted samples. Their sum is taken modulo 2^64. -/
def ofSorted (sorted : List Nat) : Summary where
  count := sorted.length
  least := atRank sorted 0
  greatest := atRank sorted (sorted.length - 1)
  mean := sorted.foldr (· + ·) 0 % UInt64.size / sorted.length
  median := atRank sorted (sorted.length / 2)
  percentile95 := atRank sorted (percentileRank sorted.length)

def of? (samples : List Nat) : Option Summary :=
  if samples.isEmpty then none
  else some (ofSorted (samples.mergeSort (fun a b => decide (a ≤ b))))

end Summary

structure Activity where
  counters : Counters := {}
  /-- The latest samples of each operation that has any, oldest first. -/
  samples : List (List Char × List Nat) := []
  deriving DecidableEq, Repr

namespace Activity

def record (a : Activity) (e : Event) : Activity :=
  { a with counters := a.counters.record e }

def samplesOf (a : Activity) (name : List Char) : List Nat :=
  (a.samples.lookup name).getD []

/-- Puts samples in the place of those of an operation. -/
def setSamples (name : List Char) (samples : List Nat) :
    List (List Char × List Nat) → List (List Char × List Nat)
  | [] => [(name, samples)]
  | entry :: rest =>
    if entry.1 = name then (name, samples) :: rest else entry :: setSamples name samples rest

/-- One more sample. The oldest one goes when as many as are kept are there. -/
def pushSample (samples : List Nat) (micros : Nat) : List Nat :=
  (if samples.length = sampleLimit then samples.tail else samples) ++ [micros]

/-- Adds a run of an operation. -/
def time (a : Activity) (name : List Char) (micros : Nat) : Activity :=
  { a with samples := setSamples name (pushSample (a.samplesOf name) micros) a.samples }

def summary? (a : Activity) (name : List Char) : Option Summary :=
  Summary.of? (a.samplesOf name)

/-- Whole microseconds of a duration, modulo 2^64. -/
def microsOfNanos (nanos : Nat) : Nat :=
  nanos / 1000 % UInt64.size

/-- Forgets all counts and samples. -/
def reset (_ : Activity) : Activity :=
  {}

/-- What an activity is told. -/
inductive Report where
  | counted (e : Event)
  | timed (name : List Char) (micros : UInt64)
  | reset
  deriving DecidableEq, Repr

def apply (a : Activity) : Report → Activity
  | .counted e => a.record e
  | .timed name micros => a.time name micros.toNat
  | .reset => a.reset

end Activity

end LogScript
