import KodeWork.Framework.Lease
import KodeWork.Framework.Machine
import KodeWork.Impl.Transfer.Request

/-!
# The transfer managers

`TransferManager` of `kodework-sftp/src/manager.rs` as a machine: any number of
managers that share one lease registry, the calls on them (`enqueue_internal`
and `retry`, `pause`, `resume`, `cancel`, `event_pump_stopped`) and the worker
tasks they spawn. A step is one lock section or one atomic access of one task.

What `run_transfer` does with the files is not here (`Impl/Transfer/Io`): an
attempt ends with an outcome the environment chooses, and the retry loop around
it decides what follows. The answer of `lease_key` depends on the server and on
the working directory, so it is chosen by the environment too. Events and the
completion channel of `enqueue_and_wait` change none of this state.

The lock of the registry is never poisoned: no section under it can panic. For
the locks of the two maps the source has a recovery path, which is modelled.
-/

namespace KW.Transfer

/-- `TransferControls`, shared by the calls and the workers of one transfer. -/
structure TransferControls where
  paused : Bool
  cancelled : Bool
  running : Bool
  generation : Nat
  maxRetries : Nat
  retriesLeft : Nat
  transferred : Nat
deriving DecidableEq, Repr

def TransferControls.new (retries : Nat) : TransferControls where
  paused := false
  cancelled := false
  running := false
  generation := 0
  maxRetries := retries
  retriesLeft := retries
  transferred := 0

def maxConcurrencyCeiling : Nat := 4

structure TransferManager where
  /-- Free permits of the semaphore. -/
  permits : Nat
  /-- The keys of `controls`. -/
  controls : TransferId → Bool
  requests : TransferId → Option TransferRequest
  pumpAlive : Bool

def TransferManager.new (maxConcurrency : Nat) : TransferManager where
  permits := max 1 (min maxConcurrency maxConcurrencyCeiling)
  controls := fun _ => false
  requests := fun _ => none
  pumpAlive := true

/-! ## Tasks -/

/-- Where a call of `enqueue_internal` or of `retry` stands. -/
inductive CallPc
  /-- `enqueue_internal`: `lease_key(&request).await` -/
  | enqueueKey (request : TransferRequest) (retries : Nat)
  /-- the section under the registry's lock -/
  | enqueueLease (request : TransferRequest) (retries : Nat) (key : Text)
  | insertControls (request : TransferRequest) (retries : Nat) (key : Text)
  | insertRequest (request : TransferRequest) (key : Text)
  /-- `requests` is poisoned: `controls.remove(&id)` -/
  | rollbackControls (key : Text)
  /-- a map is poisoned: `release_lease` -/
  | rollbackLease (key : Text)
  /-- `retry`: the request is read -/
  | retryRequest
  /-- `controls_for` -/
  | retryControls (request : TransferRequest)
  /-- the loop that waits for `running` to clear, after `n` rounds -/
  | poll (request : TransferRequest) (n : Nat)
  /-- the last reading of `running` -/
  | lastCheck (request : TransferRequest)
  | resetCancelled (request : TransferRequest)
  | resetPaused (request : TransferRequest)
  | resetRetries (request : TransferRequest)
  | resetTransferred (request : TransferRequest)
  | retryKey (request : TransferRequest)
  | retryLease (request : TransferRequest) (key : Text)
  /-- `spawn_worker`, of either call -/
  | spawn (request : TransferRequest) (key : Text)
  | returned (result : Except SftpError TransferId)

structure Call where
  manager : Nat
  id : TransferId
  pc : CallPc

/-- Where a worker stands. -/
inductive WorkerPc
  /-- `semaphore.acquire().await` -/
  | queued
  /-- `run_transfer`: `running.store(true)` -/
  | start
  /-- `attempt_transfer(..).await` -/
  | attempt
  /-- an attempt failed: `cancelled` is read -/
  | failed (error : SftpError)
  | loadRetries (error : SftpError)
  | storeRetries (retriesLeft : Nat)
  /-- `run_transfer` returns: `RunningGuard` clears `running` -/
  | finish (outcome : Except SftpError Unit)
  /-- `release_lease` -/
  | release
  | dropPermit
  /-- `sleep(REAP_DELAY).await`, then `generation` is read -/
  | reapGeneration
  | reapRunning
  | reapControls
  | reapRequests
  /-- the second `release_lease` -/
  | reapRelease
  | ended

structure Worker where
  manager : Nat
  id : TransferId
  key : Text
  generation : Nat
  pc : WorkerPc

/-- The worker is between the start of `run_transfer` and its return. -/
def Worker.active (w : Worker) : Bool :=
  match w.pc with
  | .start | .attempt | .failed _ | .loadRetries _ | .storeRetries _ | .finish _ => true
  | _ => false

structure TransferState where
  /-- `TransferLeaseRegistry`. -/
  leases : Text → Option TransferId
  managers : Nat → TransferManager
  /-- The `TransferControls` behind the shared pointers of each transfer. -/
  controls : TransferId → TransferControls
  calls : List Call
  workers : List Worker
  /-- Ids are drawn in order; the source draws fresh UUIDs. -/
  nextId : Nat

def TransferState.new (maxConcurrency : Nat → Nat) : TransferState where
  leases := fun _ => none
  managers := fun m => .new (maxConcurrency m)
  controls := fun _ => .new 0
  calls := []
  workers := []
  nextId := 0

namespace TransferState

def setManager (s : TransferState) (m : Nat) (f : TransferManager → TransferManager) : TransferState :=
  { s with managers := Function.update s.managers m (f (s.managers m)) }

def setControls (s : TransferState) (id : TransferId) (f : TransferControls → TransferControls) :
    TransferState :=
  { s with controls := Function.update s.controls id (f (s.controls id)) }

/-- The call numbered `c` goes on at `pc`. -/
def goCall (s : TransferState) (c : Nat) (call : Call) (pc : CallPc) : TransferState :=
  { s with calls := s.calls.set c { call with pc := pc } }

def failCall (s : TransferState) (c : Nat) (call : Call) (error : SftpError) : TransferState :=
  s.goCall c call (.returned (.error error))

/-- The worker numbered `i` goes on at `pc`. -/
def goWorker (s : TransferState) (i : Nat) (w : Worker) (pc : WorkerPc) : TransferState :=
  { s with workers := s.workers.set i { w with pc := pc } }

def releaseLease (s : TransferState) (key : Text) (id : TransferId) : TransferState :=
  { s with leases := Lease.release s.leases key id }

def takeLease (s : TransferState) (key : Text) (id : TransferId) : TransferState :=
  { s with leases := Function.update s.leases key (some id) }

/-! ## Calls -/

/-- What the environment decides in a step of a call. -/
inductive CallChoice
  | go
  | key (key : Text)
  | keyError (error : SftpError)
  | poisoned

def lockError : SftpError := .backend "transfer manager lock poisoned".toList

/-- `spawn_worker`: the generation is bumped and the worker task starts. -/
def spawnWorker (s : TransferState) (call : Call) (key : Text) : TransferState :=
  let generation := (s.controls call.id).generation + 1
  let t := s.setControls call.id fun k => { k with generation := generation }
  { t with workers := t.workers ++ [⟨call.manager, call.id, key, generation, .queued⟩] }

/-- One step of the call numbered `c`. -/
def callStep (s : TransferState) (c : Nat) (call : Call) : CallPc → CallChoice → Option TransferState
  | .enqueueKey request retries, .key k => some (s.goCall c call (.enqueueLease request retries k))
  | .enqueueKey _ _, .keyError e => some (s.failCall c call e)
  | .enqueueLease request retries k, .go =>
    if (s.leases k).isSome then some (s.failCall c call .destinationBusy)
    else some ((s.takeLease k call.id).goCall c call (.insertControls request retries k))
  | .insertControls request retries k, .go =>
    let t := s.setControls call.id fun _ => .new retries
    let t := t.setManager call.manager fun m => { m with controls := Function.update m.controls call.id true }
    some (t.goCall c call (.insertRequest request k))
  | .insertControls _ _ k, .poisoned => some (s.goCall c call (.rollbackLease k))
  | .insertRequest request k, .go =>
    let t := s.setManager call.manager fun m =>
      { m with requests := Function.update m.requests call.id (some request) }
    some (t.goCall c call (.spawn request k))
  | .insertRequest _ k, .poisoned => some (s.goCall c call (.rollbackControls k))
  | .rollbackControls k, .go =>
    let t := s.setManager call.manager fun m => { m with controls := Function.update m.controls call.id false }
    some (t.goCall c call (.rollbackLease k))
  | .rollbackLease k, .go => some ((s.releaseLease k call.id).failCall c call lockError)
  | .retryRequest, .go =>
    match (s.managers call.manager).requests call.id with
    | some request => some (s.goCall c call (.retryControls request))
    | none => some (s.failCall c call .unknownTransfer)
  | .retryControls request, .go =>
    if (s.managers call.manager).controls call.id then some (s.goCall c call (.poll request 0))
    else some (s.failCall c call .unknownTransfer)
  | .poll request n, .go =>
    if (s.controls call.id).running ∧ n + 1 < 200 then some (s.goCall c call (.poll request (n + 1)))
    else some (s.goCall c call (.lastCheck request))
  | .lastCheck request, .go =>
    if (s.controls call.id).running then
      some (s.failCall c call (.backend "transfer worker did not stop".toList))
    else some (s.goCall c call (.resetCancelled request))
  | .resetCancelled request, .go =>
    some ((s.setControls call.id fun k => { k with cancelled := false }).goCall c call (.resetPaused request))
  | .resetPaused request, .go =>
    some ((s.setControls call.id fun k => { k with paused := false }).goCall c call (.resetRetries request))
  | .resetRetries request, .go =>
    some ((s.setControls call.id fun k => { k with retriesLeft := k.maxRetries }).goCall c call
      (.resetTransferred request))
  | .resetTransferred request, .go =>
    some ((s.setControls call.id fun k => { k with transferred := 0 }).goCall c call (.retryKey request))
  | .retryKey request, .key k => some (s.goCall c call (.retryLease request k))
  | .retryKey _, .keyError e => some (s.failCall c call e)
  | .retryLease request k, .go =>
    if (s.leases k).any fun owner => owner ≠ call.id then some (s.failCall c call .destinationBusy)
    else some ((s.takeLease k call.id).goCall c call (.spawn request k))
  | .spawn _ k, .go => some ((s.spawnWorker call k).goCall c call (.returned (.ok call.id)))
  | _, _ => none

/-! ## Workers -/

/-- What the environment decides in a step of a worker. -/
inductive WorkerChoice
  | go
  | outcome (outcome : Except SftpError Unit)

/-- One step of the worker numbered `i`. -/
def workerStep (s : TransferState) (i : Nat) (w : Worker) :
    WorkerPc → WorkerChoice → Option TransferState
  | .queued, .go =>
    if 0 < (s.managers w.manager).permits then
      some ((s.setManager w.manager fun m => { m with permits := m.permits - 1 }).goWorker i w .start)
    else none
  | .start, .go =>
    some ((s.setControls w.id fun k => { k with running := true }).goWorker i w .attempt)
  | .attempt, .outcome (.ok ()) => some (s.goWorker i w (.finish (.ok ())))
  | .attempt, .outcome (.error e) => some (s.goWorker i w (.failed e))
  | .failed e, .go =>
    if e = .cancelled ∨ (s.controls w.id).cancelled then
      some (s.goWorker i w (.finish (.error .cancelled)))
    else if e.isRetryable then some (s.goWorker i w (.loadRetries e))
    else some (s.goWorker i w (.finish (.error e)))
  | .loadRetries e, .go =>
    if (s.controls w.id).retriesLeft = 0 then some (s.goWorker i w (.finish (.error e)))
    else some (s.goWorker i w (.storeRetries (s.controls w.id).retriesLeft))
  | .storeRetries n, .go =>
    some ((s.setControls w.id fun k => { k with retriesLeft := n - 1 }).goWorker i w .attempt)
  | .finish _, .go =>
    some ((s.setControls w.id fun k => { k with running := false }).goWorker i w .release)
  | .release, .go => some ((s.releaseLease w.key w.id).goWorker i w .dropPermit)
  | .dropPermit, .go =>
    some ((s.setManager w.manager fun m => { m with permits := m.permits + 1 }).goWorker i w
      .reapGeneration)
  | .reapGeneration, .go =>
    if (s.controls w.id).generation = w.generation then some (s.goWorker i w .reapRunning)
    else some (s.goWorker i w .ended)
  | .reapRunning, .go =>
    if (s.controls w.id).running then some (s.goWorker i w .ended)
    else some (s.goWorker i w .reapControls)
  | .reapControls, .go =>
    let t := s.setManager w.manager fun m => { m with controls := Function.update m.controls w.id false }
    some (t.goWorker i w .reapRequests)
  | .reapRequests, .go =>
    let t := s.setManager w.manager fun m => { m with requests := Function.update m.requests w.id none }
    some (t.goWorker i w .reapRelease)
  | .reapRelease, .go => some ((s.releaseLease w.key w.id).goWorker i w .ended)
  | _, _ => none

/-- A control call (`pause`, `resume`, `cancel`) on a transfer the manager
knows. -/
def control (s : TransferState) (m : Nat) (id : TransferId) (f : TransferControls → TransferControls) :
    TransferState :=
  if (s.managers m).controls id then s.setControls id f else s

end TransferState

/-! ## The machine -/

open TransferState in
/-- One step of one task, or the start of a call. -/
inductive Action
  | enqueue (manager : Nat) (request : TransferRequest) (retries : Nat)
  | retry (manager : Nat) (id : TransferId)
  | pause (manager : Nat) (id : TransferId)
  | resume (manager : Nat) (id : TransferId)
  | cancel (manager : Nat) (id : TransferId)
  | eventPumpStopped (manager : Nat)
  | call (c : Nat) (choice : CallChoice)
  | worker (i : Nat) (choice : WorkerChoice)

/-- `enqueue_internal` up to its first await: the request is validated and an
id drawn. -/
def TransferState.enqueue (s : TransferState) (m : Nat) (request : TransferRequest) (retries : Nat) :
    TransferState :=
  let id : TransferId := ⟨s.nextId⟩
  match validateRequest request with
  | .error e => { s with calls := s.calls ++ [⟨m, id, .returned (.error e)⟩] }
  | .ok () => { s with calls := s.calls ++ [⟨m, id, .enqueueKey request retries⟩], nextId := s.nextId + 1 }

def step (s : TransferState) : Action → Option TransferState
  | .enqueue m request retries => some (s.enqueue m request retries)
  | .retry m id => some { s with calls := s.calls ++ [⟨m, id, .retryRequest⟩] }
  | .pause m id => some (s.control m id fun k => { k with paused := true })
  | .resume m id => some (s.control m id fun k => { k with paused := false })
  | .cancel m id => some (s.control m id fun k => { k with cancelled := true })
  | .eventPumpStopped m => some (s.setManager m fun k => { k with pumpAlive := false })
  | .call c choice =>
    match s.calls[c]? with
    | some call => s.callStep c call call.pc choice
    | none => none
  | .worker i choice =>
    match s.workers[i]? with
    | some w => s.workerStep i w w.pc choice
    | none => none

def machine : Machine TransferState Action := ⟨step⟩

/-- Runs start with fresh managers and an empty registry. -/
def Initial (s : TransferState) : Prop := ∃ maxConcurrency, s = .new maxConcurrency

theorem init_new (maxConcurrency : Nat → Nat) : Initial (.new maxConcurrency) := ⟨_, rfl⟩

end KW.Transfer
