import KodeWork.Impl.Session

/-!
# The controller, one access at a time

`ConnectionStateController` is shared by every task of a session: `state` is
under a mutex, `generation` is an atomic beside it. Here each load, each store
and each section under the mutex is a step of its own, and any number of calls
run at once. `Impl.Session` takes some of these accesses together, because its
callers hold `connect_guard`; nothing here relies on that.

The generation is a `u64`: `reserve_generation` wraps around at its end.

`overtaken` is not in the program and is read by no step: a call past its load
keeps in it whether another call has since written a generation that its load
would have refused.
-/

namespace KW.Session

open ConnectionStateController

/-- What a call on the controller returns. -/
inductive CallResult
  | unit
  | error (e : StateTransitionError)
  | reserved (generation : Nat)
  | snapshot (state : ConnectionState) (generation : Nat)
  | state (state : ConnectionState)
  | generation (generation : Nat)
deriving DecidableEq, Repr

/-- A call on the controller and where it stands. -/
inductive Call
  | transition (target : ConnectionState)
  /-- `transition_for_generation`: before its load of the generation -/
  | transitionForGeneration (generation : Nat) (target : ConnectionState)
  /-- `transition_for_generation`: the load agreed, before `self.transition(to)` -/
  | checked (generation : Nat) (target : ConnectionState) (overtaken : Bool)
  | reserveGeneration
  /-- `install_generation`: before its load -/
  | installGeneration (generation : Nat)
  /-- `install_generation`: the load was not newer, before the store -/
  | installing (generation : Nat) (overtaken : Bool)
  /-- `snapshot`: before the section that copies the state -/
  | snapshot
  /-- `snapshot`: before its load of the generation -/
  | snapshotLoad (state : ConnectionState)
  | state
  /-- `state`: the `snapshot` it calls loads the generation too -/
  | stateLoad (state : ConnectionState)
  | generation
  | returned (result : CallResult)
deriving DecidableEq, Repr

namespace Call

/-- The calls as their callers make them, with `u64` arguments. -/
def entry : Call → Bool
  | .transition _ | .reserveGeneration | .snapshot | .state | .generation => true
  | .transitionForGeneration g _ | .installGeneration g => decide (g < UInt64.size)
  | _ => false

/-- What a call past its load notices, for the statements, of a generation
that another call writes. -/
def overtake (written : Nat) : Call → Call
  | .checked g target overtaken => .checked g target (overtaken || written != g)
  | .installing g overtaken => .installing g (overtaken || decide (g < written))
  | call => call

end Call

/-- The controller and the calls on it. -/
structure SharedController where
  cell : ConnectionStateController
  calls : Nat → Option Call

namespace SharedController

def new : SharedController := ⟨.new, fun _ => none⟩

/-- The call `i` goes on as `call`. -/
def put (s : SharedController) (i : Nat) (call : Call) : SharedController :=
  { s with calls := Function.update s.calls i (some call) }

/-- A generation is written. -/
def write (s : SharedController) (generation : Nat) : SharedController where
  cell := { s.cell with generation := generation }
  calls := fun i => (s.calls i).map (Call.overtake generation)

/-- The section under the mutex: `transition(target)`, as the end of call `i`. -/
def transitionSection (s : SharedController) (i : Nat) (target : ConnectionState) : SharedController :=
  match s.cell.transition target with
  | .ok cell => { s with cell := cell }.put i (.returned .unit)
  | .error e => s.put i (.returned (.error e))

/-- The next access of the call `i`. -/
def callStep (s : SharedController) (i : Nat) : Call → Option SharedController
  | .transition target => some (s.transitionSection i target)
  | .transitionForGeneration generation target =>
    let actual := s.cell.generation
    if actual ≠ generation then
      some (s.put i (.returned (.error (.staleGeneration generation actual))))
    else some (s.put i (.checked generation target false))
  | .checked _ target _ => some (s.transitionSection i target)
  | .reserveGeneration =>
    let next := (s.cell.generation + 1) % UInt64.size
    some ((s.write next).put i (.returned (.reserved next)))
  | .installGeneration generation =>
    let current := s.cell.generation
    if generation < current then
      some (s.put i (.returned (.error (.staleGeneration generation current))))
    else some (s.put i (.installing generation false))
  | .installing generation _ => some ((s.write generation).put i (.returned .unit))
  | .snapshot => some (s.put i (.snapshotLoad s.cell.state))
  | .snapshotLoad state => some (s.put i (.returned (.snapshot state s.cell.generation)))
  | .state => some (s.put i (.stateLoad s.cell.state))
  | .stateLoad state => some (s.put i (.returned (.state state)))
  | .generation => some (s.put i (.returned (.generation s.cell.generation)))
  | .returned _ => none

end SharedController

/-- A task makes a call, or the call `i` takes its next access. -/
inductive ControllerAction
  | call (i : Nat) (call : Call)
  | access (i : Nat)
deriving DecidableEq, Repr

def controllerStep (s : SharedController) : ControllerAction → Option SharedController
  | .call i call => if s.calls i = none ∧ call.entry = true then some (s.put i call) else none
  | .access i =>
    match s.calls i with
    | some call => s.callStep i call
    | none => none

/-- The controller with every interleaving of calls on it. -/
def controllerMachine : Machine SharedController ControllerAction := ⟨controllerStep⟩

/-- The controller as `ConnectionStateController::new` makes it. -/
def FreshController (s : SharedController) : Prop := s = .new

end KW.Session
