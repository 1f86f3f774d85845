import KodeWork.Framework.Promises

/-!
# The disconnect gate

`HostDisconnectGate` of the renderer. A step is a call of one of its methods, one job
of the job queue, or something done by the code around it: it makes a promise, settles
one of its own, or ends the call of an operation, by a return of its promise or by an
exception. The jobs run when no operation is being called; everything else may happen
at any time, also while an operation is being called.

An operation has the number of its call of `enqueue`. `tracked`, here and in an
operation, is read by no step: the connects that `trackConnect` has been called with.
-/

namespace KW.DisconnectGate

open Promises

/-- The functions that the gate passes to `then`, with the variables they use. -/
inductive Callback
  /-- `() => {}` -/
  | ignore
  /-- `operation` -/
  | operation (k : Nat)
  /-- `() => connect.then(() => operation(), () => operation())` -/
  | afterConnect (k : Nat) (connect : Nat)
  /-- `release` of `enqueue` -/
  | releasePending (hostId : String) (current : Nat)
  /-- `release` of `trackConnect` -/
  | releaseConnect (hostId : String) (connect : Nat)
deriving DecidableEq, Repr

/-- A call of `enqueue`, with its variables. -/
structure Operation where
  hostId : String
  /-- the connect that `enqueueAfterConnect` found -/
  connect : Option Nat
  earlier : Nat
  /-- `earlier.catch(() => {})` -/
  caught : Nat
  current : Nat
  /-- what was tracked for its host before the call of `enqueueAfterConnect` -/
  tracked : List Nat
deriving DecidableEq, Repr

/-- How far an operation is. -/
inductive Stage
  | queued
  /-- `connect.then(..)` has been called, and has given `inner` -/
  | awaiting (inner : Nat)
  /-- it is being called, to settle or resolve `promise` -/
  | running (promise : Nat)
  | returned (result : Nat)
  | threw
deriving DecidableEq, Repr

structure Gate where
  world : World Callback
  pending : String → Option Nat
  connects : String → Option Nat
  operations : List Operation
  stage : Nat → Stage
  /-- the operation that is being called, and the promise it is called for -/
  running : Option (Nat × Nat)
  tracked : String → List Nat

def Gate.new : Gate := ⟨.new, fun _ => none, fun _ => none, [], fun _ => .queued, none, fun _ => []⟩

namespace Gate

/-- `this.pending.get(hostId) ?? Promise.resolve()` -/
def earlier (g : Gate) (hostId : String) : World Callback × Nat :=
  match g.pending hostId with
  | some p => (g.world, p)
  | none => (g.world.makeResolved, g.world.made)

/-- What `enqueue` passes to `then`, for `enqueueAfterConnect` with a connect. -/
def callback (k : Nat) : Option Nat → Callback
  | none => .operation k
  | some connect => .afterConnect k connect

/-- `enqueue`, of the operation itself or of the function that awaits `connect` first. -/
def enqueue (g : Gate) (hostId : String) (connect : Option Nat) (tracked : List Nat) : Gate :=
  let k := g.operations.length
  let (w, earlier) := g.earlier hostId
  let caught := w.made
  let w := w.derive earlier none (some .ignore)
  let current := w.made
  let w := w.derive caught (some (callback k connect)) none
  let release := Callback.releasePending hostId current
  { g with
    world := w.derive current (some release) (some release)
    pending := Function.update g.pending hostId (some current)
    operations := g.operations ++ [⟨hostId, connect, earlier, caught, current, tracked⟩] }

def trackConnect (g : Gate) (hostId : String) (connect : Nat) : Gate :=
  let release := Callback.releaseConnect hostId connect
  { g with
    world := g.world.derive connect (some release) (some release)
    connects := Function.update g.connects hostId (some connect)
    tracked := Function.update g.tracked hostId (g.tracked hostId ++ [connect]) }

def enqueueAfterConnect (g : Gate) (hostId : String) : Gate :=
  g.enqueue hostId (g.connects hostId) (g.tracked hostId)

/-- A callback is called in the job of the promise `d`; all but an operation return at
once. -/
def call (g : Gate) (d : Nat) : Callback → Gate
  | .ignore => { g with world := g.world.become d (.settled .fulfilled) }
  | .operation k => { g with running := some (k, d), stage := Function.update g.stage k (.running d) }
  | .afterConnect k connect =>
    let inner := g.world.made
    { g with
      world := (g.world.derive connect (some (.operation k)) (some (.operation k))).resolve d inner
      stage := Function.update g.stage k (.awaiting inner) }
  | .releasePending hostId current =>
    { g with
      world := g.world.become d (.settled .fulfilled)
      pending := if g.pending hostId = some current then Function.update g.pending hostId none else g.pending }
  | .releaseConnect hostId connect =>
    { g with
      world := g.world.become d (.settled .fulfilled)
      connects := if g.connects hostId = some connect then Function.update g.connects hostId none else g.connects }

def job (g : Gate) : Option Gate :=
  g.world.runJob.map fun (w, called) =>
    match called with
    | some (d, callback) => { g with world := w }.call d callback
    | none => { g with world := w }

end Gate

inductive Event
  /-- the code around the gate makes a promise of its own -/
  | promise
  /-- and settles one -/
  | settle (p : Nat) (outcome : Outcome)
  | trackConnect (hostId : String) (connect : Nat)
  | enqueue (hostId : String)
  | enqueueAfterConnect (hostId : String)
  | job
  /-- the operation that is being called returns a promise -/
  | returns (result : Nat)
  | throws
deriving DecidableEq, Repr

def step (g : Gate) : Event → Option Gate
  | .promise => some { g with world := g.world.make }
  | .settle p outcome =>
    match g.world.state p with
    | some .external => some { g with world := g.world.become p (.settled outcome) }
    | _ => none
  | .trackConnect hostId connect =>
    if (g.world.state connect).isSome then some (g.trackConnect hostId connect) else none
  | .enqueue hostId => some (g.enqueue hostId none [])
  | .enqueueAfterConnect hostId => some (g.enqueueAfterConnect hostId)
  | .job => if g.running = none then g.job else none
  | .returns result =>
    match g.running with
    | some (k, d) =>
      if (g.world.state result).isSome then
        some { g with
          world := g.world.resolve d result
          running := none
          stage := Function.update g.stage k (.returned result) }
      else none
    | none => none
  | .throws =>
    match g.running with
    | some (k, d) =>
      some { g with
        world := g.world.become d (.settled .rejected)
        running := none
        stage := Function.update g.stage k .threw }
    | none => none

def machine : Machine Gate Event := ⟨step⟩

def Initial (g : Gate) : Prop := g = .new

end KW.DisconnectGate
