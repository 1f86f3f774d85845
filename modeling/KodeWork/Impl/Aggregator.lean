import Mathlib.Tactic.Common

/-!
# The output aggregator

`kodework-ssh/src/aggregator.rs`: terminal output is buffered and goes on in batches. An instant
and an interval are numbers of nanoseconds; a call that reads the clock has what it read as an
argument.
-/

namespace KW.Aggregator

structure OutputAggregator where
  buffer : List UInt8
  byteThreshold : Nat
  maxInterval : Nat
  firstByteAt : Option Nat
deriving DecidableEq, Repr

namespace OutputAggregator

def new (byteThreshold maxInterval : Nat) : OutputAggregator where
  buffer := []
  byteThreshold := byteThreshold
  maxInterval := maxInterval
  firstByteAt := none

def takeBatch (a : OutputAggregator) : Option (List UInt8) × OutputAggregator :=
  if a.buffer.isEmpty then (none, a)
  else (some a.buffer, { a with firstByteAt := none, buffer := [] })

def push (a : OutputAggregator) (data : List UInt8) (now : Nat) : Option (List UInt8) × OutputAggregator :=
  if data.isEmpty then (none, a)
  else
    let a := { a with buffer := a.buffer ++ data }
    let a := if a.firstByteAt.isNone then { a with firstByteAt := some now } else a
    if a.byteThreshold ≤ a.buffer.length then a.takeBatch else (none, a)

/-- `elapsed` is zero where the clock is behind. -/
def tick (a : OutputAggregator) (now : Nat) : Option (List UInt8) × OutputAggregator :=
  match a.firstByteAt with
  | some started => if a.maxInterval ≤ now - started then a.takeBatch else (none, a)
  | none => (none, a)

def flush (a : OutputAggregator) : Option (List UInt8) × OutputAggregator := a.takeBatch

end OutputAggregator

/-! ## Calls -/

inductive Call where
  | push (data : List UInt8) (now : Nat)
  | tick (now : Nat)
  | flush
deriving DecidableEq, Repr

def Call.data : Call → List UInt8
  | .push data _ => data
  | .tick _ | .flush => []

def call (a : OutputAggregator) : Call → Option (List UInt8) × OutputAggregator
  | .push data now => a.push data now
  | .tick now => a.tick now
  | .flush => a.flush

/-- The batches that a sequence of calls emits, and the aggregator after it. -/
def run (a : OutputAggregator) : List Call → List (List UInt8) × OutputAggregator
  | [] => ([], a)
  | c :: cs =>
    let (batch, a) := call a c
    let (batches, a) := run a cs
    (batch.toList ++ batches, a)

end KW.Aggregator
