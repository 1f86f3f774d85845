import KodeWork.Framework.Machine
import KodeWork.Impl.Transfer.Manager

/-!
# The events of a transfer manager

What the tasks of one `TransferManager` put on its bounded event channel, as a
machine: `emit` of `kodework-sftp/src/manager.rs` and every place it is called
from (`enqueue_internal`, `retry`, `run_transfer` and `attempt_transfer` with its
copy loops), with the pump that takes events off the channel. A step is one
atomic access, one `try_send` or one await of one task.

What the calls and the workers do besides (leases, maps, files, waiting) is
`Impl/Transfer/Manager` and `Impl/Transfer/Io`; here it is up to the environment
when they go on, how much progress an attempt reports and how it ends.

`offers` is not in the program and is read by no step: it records what was
handed to `try_send`, by which task, and how many events were waiting then.
-/

namespace KW.Transfer.Events

/-- Where a task stands. A call of `emit` has two accesses and goes on at `next`. -/
inductive Pc
  /-- `emit(event)`: `pump_alive.load` -/
  | emit (event : TransferEvent) (next : Pc)
  /-- `emit(event)`: `events.try_send(event)` -/
  | send (event : TransferEvent) (next : Pc)
  /-- `retry`: `cancelled.store(false)` -/
  | resetCancelled
  /-- `retry`: `retries_left.store(max_retries)` -/
  | resetRetries
  /-- `spawn_worker`, of either call -/
  | spawn
  /-- a call has returned -/
  | called
  /-- a worker: `semaphore.acquire().await` -/
  | acquire
  /-- `attempt_transfer`: `wait_while_paused(controls).await` -/
  | wait
  /-- `cancelled.load` before the attempt -/
  | checkCancelled
  /-- `pump_alive.load` before the attempt -/
  | checkPump
  /-- `upload` or `download` -/
  | copy
  /-- an attempt failed: `cancelled.load` -/
  | failed (error : SftpError)
  | loadRetries (error : SftpError)
  | storeRetries (retriesLeft : Nat)
  /-- `run_transfer` has returned -/
  | returned (outcome : Except SftpError Unit)
  /-- the permit is dropped -/
  | ended (outcome : Except SftpError Unit)
deriving DecidableEq, Repr

/-- What `run_transfer` returned, once it has. -/
def Pc.result : Pc → Option (Except SftpError Unit)
  | .returned outcome | .ended outcome => some outcome
  | _ => none

structure Task where
  id : TransferId
  pc : Pc
deriving DecidableEq, Repr

/-- An event handed to `try_send`. -/
structure Offer where
  task : Nat
  event : TransferEvent
  /-- The number of events in the channel at that time. -/
  waiting : Nat
deriving DecidableEq, Repr

structure EventState where
  /-- The size of the channel. -/
  capacity : Nat
  /-- What is in the channel, the oldest event first. -/
  channel : List TransferEvent
  /-- What the pump has taken off it. -/
  received : List TransferEvent
  pumpAlive : Bool
  permits : Nat
  controls : TransferId → TransferControls
  tasks : List Task
  nextId : Nat
  offers : List Offer

/-- `TransferManager::new`. -/
def EventState.new (maxConcurrency eventBuffer : Nat) : EventState where
  capacity := max eventBuffer 8
  channel := []
  received := []
  pumpAlive := true
  permits := max 1 (min maxConcurrency maxConcurrencyCeiling)
  controls := fun _ => .new 0
  tasks := []
  nextId := 0
  offers := []

/-- The status of the last event of a transfer with this outcome. -/
def terminalStatus : Except SftpError Unit → TransferStatus
  | .ok () => .completed
  | .error .cancelled => .cancelled
  | .error _ => .failed

namespace EventState

/-- The task numbered `i` goes on at `pc`. -/
def go (s : EventState) (i : Nat) (task : Task) (pc : Pc) : EventState :=
  { s with tasks := s.tasks.set i { task with pc := pc } }

def setControls (s : EventState) (id : TransferId) (f : TransferControls → TransferControls) :
    EventState :=
  { s with controls := Function.update s.controls id (f (s.controls id)) }

/-- `try_send` by the task numbered `i`: an event for which there is no room is
dropped. -/
def trySend (s : EventState) (i : Nat) (event : TransferEvent) : EventState :=
  { s with
    channel := if s.channel.length < s.capacity then s.channel ++ [event] else s.channel
    offers := s.offers ++ [⟨i, event, s.channel.length⟩] }

/-- The last two events of a transfer that failed with `error`. -/
def giveUp (id : TransferId) (error : SftpError) : Pc :=
  .emit (.failed id error.message) (.emit (.state id .failed) (.returned (.error error)))

/-- What the environment decides in a step of a task. -/
inductive Choice
  | go
  | progress (progress : TransferProgress)
  | outcome (outcome : Except SftpError Unit)
deriving DecidableEq, Repr

/-- One step of the task numbered `i`. -/
def taskStep (s : EventState) (i : Nat) (task : Task) : Pc → Choice → Option EventState
  | .emit event next, .go =>
    if s.pumpAlive then some (s.go i task (.send event next)) else some (s.go i task next)
  | .send event next, .go => some ((s.trySend i event).go i task next)
  | .resetCancelled, .go =>
    some ((s.setControls task.id fun k => { k with cancelled := false }).go i task .resetRetries)
  | .resetRetries, .go =>
    some ((s.setControls task.id fun k => { k with retriesLeft := k.maxRetries }).go i task
      (.emit (.state task.id .queued) .spawn))
  | .spawn, .go =>
    let t := s.go i task .called
    some { t with tasks := t.tasks ++ [⟨task.id, .acquire⟩] }
  | .acquire, .go =>
    if 0 < s.permits then some ({ s with permits := s.permits - 1 }.go i task .wait) else none
  | .wait, .go => some (s.go i task .checkCancelled)
  | .checkCancelled, .go =>
    if (s.controls task.id).cancelled then some (s.go i task (.failed .cancelled))
    else some (s.go i task (.emit (.state task.id .transferring) .checkPump))
  | .checkPump, .go =>
    if s.pumpAlive then some (s.go i task .copy) else some (s.go i task (.failed .cancelled))
  | .copy, .progress p => some (s.go i task (.emit (.progress task.id p) .copy))
  | .copy, .outcome (.ok ()) =>
    some (s.go i task (.emit (.state task.id .completed) (.returned (.ok ()))))
  | .copy, .outcome (.error e) => some (s.go i task (.failed e))
  | .failed e, .go =>
    if e = .cancelled ∨ (s.controls task.id).cancelled then
      some (s.go i task (.emit (.state task.id .cancelled) (.returned (.error .cancelled))))
    else if e.isRetryable then some (s.go i task (.loadRetries e))
    else some (s.go i task (giveUp task.id e))
  | .loadRetries e, .go =>
    if (s.controls task.id).retriesLeft = 0 then some (s.go i task (giveUp task.id e))
    else some (s.go i task (.storeRetries (s.controls task.id).retriesLeft))
  | .storeRetries n, .go =>
    some ((s.setControls task.id fun k => { k with retriesLeft := n - 1 }).go i task
      (.emit (.state task.id .retrying) .wait))
  | .returned outcome, .go => some ({ s with permits := s.permits + 1 }.go i task (.ended outcome))
  | _, _ => none

/-- `events.recv().await` of the pump. -/
def receive (s : EventState) : Option EventState :=
  match s.channel with
  | [] => none
  | event :: rest => some { s with channel := rest, received := s.received ++ [event] }

end EventState

/-! ## The machine -/

inductive Action
  | enqueue (retries : Nat)
  | retry (id : TransferId)
  | cancel (id : TransferId)
  | eventPumpStopped
  | task (i : Nat) (choice : EventState.Choice)
  /-- the pump takes an event -/
  | receive
deriving DecidableEq, Repr

/-- `enqueue_internal` when the lease is taken and the maps have the transfer. -/
def EventState.enqueue (s : EventState) (retries : Nat) : EventState :=
  let id : TransferId := ⟨s.nextId⟩
  let t := s.setControls id fun _ => .new retries
  { t with tasks := t.tasks ++ [⟨id, .emit (.state id .queued) .spawn⟩], nextId := s.nextId + 1 }

def step (s : EventState) : Action → Option EventState
  | .enqueue retries => some (s.enqueue retries)
  | .retry id =>
    if id.uuid < s.nextId then some { s with tasks := s.tasks ++ [⟨id, .resetCancelled⟩] } else none
  | .cancel id => some (s.setControls id fun k => { k with cancelled := true })
  | .eventPumpStopped => some { s with pumpAlive := false }
  | .task i choice =>
    match s.tasks[i]? with
    | some task => s.taskStep i task task.pc choice
    | none => none
  | .receive => s.receive

def machine : Machine EventState Action := ⟨step⟩

def Initial (s : EventState) : Prop := ∃ maxConcurrency eventBuffer, s = .new maxConcurrency eventBuffer

theorem init_new (maxConcurrency eventBuffer : Nat) : Initial (.new maxConcurrency eventBuffer) :=
  ⟨_, _, rfl⟩

end KW.Transfer.Events
