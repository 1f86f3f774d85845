import KodeWork.Framework.Transactions
import KodeWork.Impl.Domain
import KodeWork.Impl.Text

/-!
# The rows of the runs table

`RunRepository::finish_batch` of `kodework-storage/src/repositories.rs` on the table as
SQLite has it: a status is the JSON text that `json_from` wrote, or whatever else has
been stored in the column, and the counters are signed.

The columns that `finish_batch` does not write are one value of a type `ρ`, the id apart.
`serde_json` is a parameter (`StatusJson`).
-/

namespace KW.RunRows

/-- A value of SQLite. -/
inductive Value
  | null
  | integer (n : Int)
  | real (bits : UInt64)
  | text (t : Text)
  | blob (bytes : List UInt8)
deriving DecidableEq, Repr

/-- What `serde_json` does with a `RunStatus`. -/
structure StatusJson where
  toText : RunStatus → Text
  fromText : Text → Option RunStatus
  from_to (s : RunStatus) : fromText (toText s) = some s

structure Row (ρ : Type) where
  id : RunId
  status : Value
  exitCode : Value
  finishedAtMs : Value
  remoteSessionRef : Value
  outputBytes : Value
  stdoutPreview : Value
  stderrPreview : Value
  lastReconciledAtMs : Value
  others : ρ
deriving DecidableEq, Repr

abbrev Table (ρ : Type) := List (Row ρ)

inductive StorageError
  | runNotFound (id : RunId)
  | invalidRunTransition (current target : RunStatus)
  | serialization
  /-- a value that does not fit its column, or of another type, or an error of SQLite -/
  | sqlite
deriving DecidableEq, Repr

structure RunReconciliationUpdate where
  id : RunId
  status : RunStatus
  exitCode : Option Int32
  finishedAtMs : Option UInt64
  remoteSessionRef : Option Text
  outputBytes : UInt64
  reconciledAtMs : UInt64
deriving DecidableEq, Repr

/-! ## Values -/

def i64Max : Nat := 0x7fffffffffffffff

/-- `SqlU64`: the integers of SQLite are signed. -/
def sqlU64 (n : UInt64) : Except StorageError Value :=
  if n.toNat ≤ i64Max then .ok (.integer n.toNat) else .error .sqlite

def sqlOptionU64 : Option UInt64 → Except StorageError Value
  | none => .ok .null
  | some n => sqlU64 n

def sqlOptionI32 : Option Int32 → Value
  | none => .null
  | some n => .integer n.toInt

def sqlOptionText : Option Text → Value
  | none => .null
  | some t => .text t

/-! ## Statements -/

variable {ρ : Type}

def Table.get (table : Table ρ) (id : RunId) : Option (Row ρ) := table.find? fun row => row.id = id

/-- `SELECT status FROM runs WHERE id = ?1`. -/
def selectStatus (id : RunId) (table : Table ρ) : Except StorageError (Text × Table ρ) :=
  match table.get id with
  | none => .error (.runNotFound id)
  | some row =>
    match row.status with
    | .text raw => .ok (raw, table)
    | _ => .error .sqlite

/-- The row with what the update writes, where its values are these. -/
def Row.write (J : StatusJson) (u : RunReconciliationUpdate) (finished bytes reconciled : Value) (row : Row ρ) :
    Row ρ :=
  { row with
    status := .text (J.toText u.status)
    exitCode := sqlOptionI32 u.exitCode
    finishedAtMs := finished
    remoteSessionRef := sqlOptionText u.remoteSessionRef
    outputBytes := bytes
    stdoutPreview := .text []
    stderrPreview := .text []
    lastReconciledAtMs := reconciled }

/-- `UPDATE runs SET .. WHERE id = ?9`. -/
def updateRun (J : StatusJson) (u : RunReconciliationUpdate) (table : Table ρ) :
    Except StorageError (Unit × Table ρ) := do
  let finished ← sqlOptionU64 u.finishedAtMs
  let bytes ← sqlU64 u.outputBytes
  let reconciled ← sqlU64 u.reconciledAtMs
  .ok ((), table.map fun row => if row.id = u.id then row.write J u finished bytes reconciled else row)

/-! ## The batch -/

abbrev Storage (ρ : Type) := Prog StorageError (Connection (Table ρ))

def fromText (J : StatusJson) (raw : Text) : Storage ρ RunStatus :=
  match J.fromText raw with
  | some status => pure status
  | none => throw .serialization

/-- One update of the batch. -/
def finishOne (J : StatusJson) (u : RunReconciliationUpdate) : Storage ρ Unit := do
  let raw ← statement (selectStatus u.id)
  let current ← fromText J raw
  if runTransition current u.status = false then throw (.invalidRunTransition current u.status)
  else statement (updateRun J u)

/-- The `for` loop over the updates. -/
def finishEach (J : StatusJson) : List RunReconciliationUpdate → Storage ρ Unit
  | [] => pure ()
  | u :: updates => do
    finishOne J u
    finishEach J updates

def finishBatch (J : StatusJson) (updates : List RunReconciliationUpdate) : Storage ρ Unit :=
  if updates.isEmpty then pure () else transaction .sqlite (finishEach J updates)

end KW.RunRows
