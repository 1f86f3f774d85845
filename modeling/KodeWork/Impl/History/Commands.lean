import KodeWork.Framework.Machine
import KodeWork.Impl.History.Store

/-!
# Running and reconciling actions

`run_action` and `run_reconcile` of `src-tauri/src/commands.rs`, with what they
use of `kodework-core` (`run_action_with_id`, `reconcile_remote_runs`), and
the start-up call of `recover_orphaned_quick_runs`, as a machine over the
persisted runs. A step is one section under the database lock or one remote
call of one task; the tasks of all calls interleave, and a crash may drop all of
them at any time.

The remote side is the environment: how a command ends, what a probe prints (the
fields of its lines), what the clock says. The previews of the output are not
persisted and are left out.

`cleaned` records each call of `cleanup_remote_run_metadata` with the status its
run had in the table at the call; no step reads it.
-/

namespace KW.History

/-! ## Running an action -/

inductive RunDisposition
  | completed
  | backgroundStarted
  | interactiveDispatched
deriving DecidableEq, Repr

/-- The fields of `ActionRunError` that decide what is persisted. -/
structure ActionRunError where
  dispatched : Bool
deriving DecidableEq, Repr

structure RunOutcome where
  disposition : RunDisposition
  exitCode : Option Int32
  outputBytes : Nat
  remoteSessionRef : Option String
deriving DecidableEq, Repr

/-- What a remote command printed, and its exit status if one arrived. -/
structure CommandOutput where
  exitCode : Option Int32
  bytes : Nat
deriving DecidableEq, Repr

/-- The id as 32 hexadecimal digits. -/
def runKey (id : RunId) : String :=
  let digits := Nat.toDigits 16 id.uuid
  String.ofList (List.replicate (32 - digits.length) '0' ++ digits)

/-- `run_action_with_id`, when the remote command ended in `remote`. -/
def runActionWithId (mode : ActionMode) (id : RunId) (remote : Except ActionRunError CommandOutput) :
    Except ActionRunError RunOutcome :=
  match remote with
  | .error e => .error e
  | .ok output =>
    match mode with
    | .interactive => .ok ⟨.interactiveDispatched, none, 0, none⟩
    | .quick => .ok ⟨.completed, output.exitCode, output.bytes, some ("metadata:" ++ runKey id)⟩
    | .background =>
      if output.exitCode ≠ some 0 then .ok ⟨.completed, output.exitCode, output.bytes, none⟩
      else .ok ⟨.backgroundStarted, none, 0, some ("tmux:kodework-run-" ++ runKey id)⟩

def completedRunStatus : Option Int32 → RunStatus
  | some code => if code = 0 then .succeeded else .failed
  | none => .unknown

/-- The update `run_action` makes of the outcome. -/
def runUpdate (mode : ActionMode) (id : RunId) (finishedAtMs : Nat) :
    Except ActionRunError RunOutcome → RunReconciliationUpdate
  | .ok value =>
    match value.disposition with
    | .backgroundStarted => ⟨id, .running, none, none, value.remoteSessionRef, value.outputBytes, none⟩
    | .completed =>
      ⟨id, completedRunStatus value.exitCode, value.exitCode,
        if value.exitCode.isSome then some finishedAtMs else none, value.remoteSessionRef,
        value.outputBytes, none⟩
    | .interactiveDispatched => ⟨id, .unknown, none, some finishedAtMs, none, 0, none⟩
  | .error e =>
    if (mode = .quick ∨ mode = .background) ∧ e.dispatched then ⟨id, .unknown, none, none, none, 0, none⟩
    else ⟨id, .failed, none, some finishedAtMs, none, 0, none⟩

/-- Where `run_action` stands. -/
inductive ActionPc
  /-- the action is loaded and checked, the interactive mode is split off -/
  | start
  /-- `create` -/
  | create
  /-- `run_action_with_id(..).await` -/
  | dispatch
  /-- `finish` -/
  | finish (update : RunReconciliationUpdate)
  | returned
deriving DecidableEq, Repr

structure ActionTask where
  host : HostId
  mode : ActionMode
  run : RunId
  pc : ActionPc
deriving DecidableEq, Repr

/-! ## Reconciling -/

inductive RemoteRunState
  | running
  | completed (exitCode : Int32) (startedAtMs finishedAtMs : Option Nat)
  | unknown
deriving DecidableEq, Repr

/-- A line of the probe: the run it names, and its fields. -/
inductive ProbeLine
  | completed (id : RunId) (exitCode : Option Int32) (startedAtMs finishedAtMs : Option Nat)
  | running (id : RunId)
  | other (id : RunId)
deriving DecidableEq, Repr

def ProbeLine.id : ProbeLine → RunId
  | .completed id .. | .running id | .other id => id

def ProbeLine.state (mode : ActionMode) : ProbeLine → RemoteRunState
  | .completed _ (some exitCode) started finished => .completed exitCode started finished
  | .completed _ none _ _ => .unknown
  | .running _ => if mode = .background then .running else .unknown
  | .other _ => .unknown

/-- `reconcile_remote_runs` and the lookup of its probes in the batch: the last
line for a run counts. -/
def reconcileRemoteRuns (batch : List Run) (lines : List ProbeLine) : List (Run × RemoteRunState) :=
  batch.map fun run =>
    let line := (lines.filter fun line => line.id = run.id).getLast?
    (run, (line.map fun line => line.state run.mode).getD .unknown)

def u64Max : Nat := UInt64.size - 1

def reconciledRunFields (remote : RemoteRunState) (localStartedAtMs : Option Nat) (observedAtMs : Nat) :
    RunStatus × Option Int32 × Option Nat :=
  match remote with
  | .running => (.running, none, none)
  | .completed exitCode startedAtMs finishedAtMs =>
    let finished :=
      match localStartedAtMs, startedAtMs, finishedAtMs with
      | some localStart, some remoteStart, some remoteFinish =>
        if remoteStart ≤ remoteFinish then min (localStart + (remoteFinish - remoteStart)) u64Max
        else observedAtMs
      | _, _, _ => observedAtMs
    (if exitCode = 0 then .succeeded else .failed, some exitCode, some finished)
  | .unknown => (.unknown, none, none)

def reconcileUpdate (run : Run) (remote : RemoteRunState) (now : Nat) : RunReconciliationUpdate :=
  let (status, exitCode, finished) := reconciledRunFields remote run.startedAtMs now
  ⟨run.id, status, exitCode, finished, run.remoteSessionRef, run.outputBytes, some now⟩

def RemoteRunState.isCompleted : RemoteRunState → Bool
  | .completed .. => true
  | _ => false

/-- The runs of a batch that the remote side reported as completed. -/
def cleanupRuns (probes : List (Run × RemoteRunState)) : List RunId :=
  (probes.filter fun p => p.2.isCompleted).map fun p => p.1.id

/-- Where `run_reconcile` stands. -/
inductive ReconcilePc
  /-- `reconciling.insert(host_id)` -/
  | acquire
  /-- `list_reconcilable_by_host(host_id, 100)` -/
  | list
  /-- the batches of 32 that are left to probe, and the probes so far -/
  | probe (left : List Run) (probes : List (Run × RemoteRunState))
  /-- `finish_batch` -/
  | commit (probes : List (Run × RemoteRunState))
  /-- `cleanup_remote_run_metadata` -/
  | cleanup (left : List RunId)
  /-- the guard: `reconciling.remove(&host_id)` -/
  | release
  | returned
deriving DecidableEq, Repr

structure ReconcileTask where
  host : HostId
  pc : ReconcilePc
deriving DecidableEq, Repr

/-! ## The machine -/

structure RunState where
  runs : Runs
  reconciling : List HostId
  actions : List ActionTask
  reconciles : List ReconcileTask
  cleaned : List (RunId × Option RunStatus)

def RunState.new : RunState := ⟨[], [], [], [], []⟩

/-- What the environment decides in a step of a task. -/
inductive Choice
  | go
  /-- a check, a lock, the clock or SQLite fails -/
  | fault
  /-- the clock -/
  | time (now : Nat)
  | times (now : List Nat)
  /-- how the remote command ends, and the clock then -/
  | remote (result : Except ActionRunError CommandOutput) (now : Nat)
  /-- what the probe prints -/
  | lines (lines : List ProbeLine)

namespace RunState

def goAction (s : RunState) (i : Nat) (task : ActionTask) (pc : ActionPc) : RunState :=
  { s with actions := s.actions.set i { task with pc := pc } }

def queuedRun (task : ActionTask) (startedAtMs : Nat) : Run :=
  ⟨task.run, task.host, task.mode, .queued, some startedAtMs, none, none, none, 0, none⟩

/-- One step of the `run_action` numbered `i`. -/
def actionStep (s : RunState) (i : Nat) (task : ActionTask) : ActionPc → Choice → Option RunState
  | .start, .go =>
    if task.mode = .interactive then some (s.goAction i task .returned)
    else some (s.goAction i task .create)
  | .start, .fault => some (s.goAction i task .returned)
  | .create, .time now =>
    match s.runs.create (queuedRun task now) with
    | .ok runs => some ({ s with runs := runs }.goAction i task .dispatch)
    | .error _ => some (s.goAction i task .returned)
  | .create, .fault => some (s.goAction i task .returned)
  | .dispatch, .remote result now =>
    let outcome := runActionWithId task.mode task.run result
    some (s.goAction i task (.finish (runUpdate task.mode task.run now outcome)))
  | .dispatch, .fault => some (s.goAction i task .returned)
  | .finish update, .go =>
    match s.runs.finish update with
    | .ok runs => some ({ s with runs := runs }.goAction i task .returned)
    | .error _ => some (s.goAction i task .returned)
  | .finish _, .fault => some (s.goAction i task .returned)
  | _, _ => none

def goReconcile (s : RunState) (i : Nat) (task : ReconcileTask) (pc : ReconcilePc) : RunState :=
  { s with reconciles := s.reconciles.set i { task with pc := pc } }

/-- The updates of a commit, each with the clock at its turn. -/
def reconcileUpdates (probes : List (Run × RemoteRunState)) (now : List Nat) :
    List RunReconciliationUpdate :=
  probes.mapIdx fun i p => reconcileUpdate p.1 p.2 (now.getD i 0)

/-- One step of the `run_reconcile` numbered `i`. -/
def reconcileStep (s : RunState) (i : Nat) (task : ReconcileTask) : ReconcilePc → Choice → Option RunState
  | .acquire, .go =>
    if task.host ∈ s.reconciling then some (s.goReconcile i task .returned)
    else some ({ s with reconciling := task.host :: s.reconciling }.goReconcile i task .list)
  | .acquire, .fault => some (s.goReconcile i task .returned)
  | .list, .go => some (s.goReconcile i task (.probe (s.runs.listReconcilableByHost task.host 100) []))
  | .list, .fault => some (s.goReconcile i task .release)
  | .probe [] probes, .go => some (s.goReconcile i task (.commit probes))
  | .probe (run :: left) probes, .lines lines =>
    let batch := (run :: left).take 32
    some (s.goReconcile i task
      (.probe ((run :: left).drop 32) (probes ++ reconcileRemoteRuns batch lines)))
  | .probe (run :: left) probes, .fault =>
    some (s.goReconcile i task (.probe ((run :: left).drop 32) probes))
  | .commit probes, .times now =>
    match s.runs.finishBatch (reconcileUpdates probes now) with
    | .ok runs => some ({ s with runs := runs }.goReconcile i task (.cleanup (cleanupRuns probes)))
    | .error _ => some (s.goReconcile i task .release)
  | .commit _, .fault => some (s.goReconcile i task .release)
  | .cleanup [], .go => some (s.goReconcile i task .release)
  | .cleanup (id :: left), .go =>
    let status := (s.runs.get id).map fun r => r.status
    some ({ s with cleaned := s.cleaned ++ [(id, status)] }.goReconcile i task (.cleanup left))
  | .release, .go =>
    some ({ s with reconciling := s.reconciling.filter (· ≠ task.host) }.goReconcile i task .returned)
  | _, _ => none

end RunState

inductive Action
  | runAction (host : HostId) (mode : ActionMode) (id : RunId)
  | runReconcile (host : HostId)
  /-- the start of the process: `recover_orphaned_quick_runs` -/
  | recover
  /-- the process ends, and every task with it -/
  | crash
  | action (i : Nat) (choice : Choice)
  | reconcile (i : Nat) (choice : Choice)

def step (s : RunState) : Action → Option RunState
  | .runAction host mode id => some { s with actions := s.actions ++ [⟨host, mode, id, .start⟩] }
  | .runReconcile host => some { s with reconciles := s.reconciles ++ [⟨host, .acquire⟩] }
  | .recover => some { s with runs := s.runs.recoverOrphanedQuickRuns }
  | .crash => some { s with reconciling := [], actions := [], reconciles := [] }
  | .action i choice =>
    match s.actions[i]? with
    | some task => s.actionStep i task task.pc choice
    | none => none
  | .reconcile i choice =>
    match s.reconciles[i]? with
    | some task => s.reconcileStep i task task.pc choice
    | none => none

def machine : Machine RunState Action := ⟨step⟩

/-- An empty table. -/
def Initial (s : RunState) : Prop := s = .new

theorem init_new : Initial .new := rfl

end KW.History
