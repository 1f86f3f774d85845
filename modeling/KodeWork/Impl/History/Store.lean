import KodeWork.Impl.Domain
import Mathlib.Data.List.Sort

/-!
# Persisted runs

The `runs` table and `RunRepository` of `kodework-storage/src/repositories.rs`.
The columns are those that the commands read or write; the names, the command
and the directory of a run are written once, by `create`, and the previews of
its output never. The status column holds the JSON text of the status, which
`json_from` writes and which is compared and parsed as such; here it is the
status.

A statement that fails changes nothing. `finish_batch` is one transaction.
-/

namespace KW.History

structure Run where
  id : RunId
  hostId : HostId
  mode : ActionMode
  status : RunStatus
  startedAtMs : Option Nat
  finishedAtMs : Option Nat
  exitCode : Option Int32
  remoteSessionRef : Option String
  outputBytes : Nat
  lastReconciledAtMs : Option Nat
deriving DecidableEq, Repr

inductive StorageError
  | runNotFound (id : RunId)
  | invalidRunTransition (current target : RunStatus)
  /-- the row exists, a value does not fit its column, or SQLite fails -/
  | sqlite
deriving DecidableEq, Repr

/-- The rows of `runs`. -/
abbrev Runs := List Run

/-- `SqlU64`: the integer columns are signed. -/
def sqlU64 (value : Nat) : Bool := value < 0x8000000000000000

def sqlOptionU64 (value : Option Nat) : Bool := value.all sqlU64

/-- What `finish` and one update of `finish_batch` write. -/
structure RunReconciliationUpdate where
  id : RunId
  status : RunStatus
  exitCode : Option Int32
  finishedAtMs : Option Nat
  remoteSessionRef : Option String
  outputBytes : Nat
  reconciledAtMs : Option Nat
deriving DecidableEq, Repr

def Run.update (r : Run) (u : RunReconciliationUpdate) : Run :=
  { r with
    status := u.status
    exitCode := u.exitCode
    finishedAtMs := u.finishedAtMs
    remoteSessionRef := u.remoteSessionRef
    outputBytes := u.outputBytes
    lastReconciledAtMs := u.reconciledAtMs }

namespace Runs

def get (runs : Runs) (id : RunId) : Option Run := runs.find? fun r => r.id = id

def create (runs : Runs) (run : Run) : Except StorageError Runs :=
  if (runs.get run.id).isSome then .error .sqlite
  else if sqlOptionU64 run.startedAtMs ∧ sqlOptionU64 run.finishedAtMs ∧ sqlU64 run.outputBytes ∧
      sqlOptionU64 run.lastReconciledAtMs then .ok (runs ++ [run])
  else .error .sqlite

def currentStatus (runs : Runs) (id : RunId) : Except StorageError RunStatus :=
  match runs.get id with
  | some r => .ok r.status
  | none => .error (.runNotFound id)

def finish (runs : Runs) (u : RunReconciliationUpdate) : Except StorageError Runs :=
  match runs.currentStatus u.id with
  | .error e => .error e
  | .ok current =>
    if runTransition current u.status = false then .error (.invalidRunTransition current u.status)
    else if sqlOptionU64 u.finishedAtMs ∧ sqlU64 u.outputBytes ∧ sqlOptionU64 u.reconciledAtMs then
      .ok (runs.map fun r => if r.id = u.id then r.update u else r)
    else .error .sqlite

/-- The first update that fails rolls the transaction back. -/
def finishBatch (runs : Runs) : List RunReconciliationUpdate → Except StorageError Runs
  | [] => .ok runs
  | u :: us =>
    match runs.finish u with
    | .error e => .error e
    | .ok runs => finishBatch runs us

def recoverOrphanedQuickRuns (runs : Runs) : Runs :=
  runs.map fun r =>
    if r.mode = .quick ∧ (r.status = .queued ∨ r.status = .running) then
      { r with status := .unknown, finishedAtMs := none }
    else r

def listReconcilableByHost (runs : Runs) (host : HostId) (limit : Nat) : List Run :=
  let reconcilable := runs.filter fun r =>
    r.hostId = host ∧ (r.mode = .quick ∨ r.mode = .background) ∧
      (r.status = .queued ∨ r.status = .running ∨ r.status = .unknown)
  (reconcilable.insertionSort fun a b => b.startedAtMs.getD 0 ≤ a.startedAtMs.getD 0).take (min limit 500)

end Runs

end KW.History
