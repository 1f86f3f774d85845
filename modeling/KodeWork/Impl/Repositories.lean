import KodeWork.Framework.References
import KodeWork.Impl.Actions.Action
import KodeWork.Impl.HostRows
import KodeWork.Impl.Migrations
import KodeWork.Impl.Transfer.Request

/-!
# Repositories

The repositories of `kodework-storage/src/repositories.rs`, with `upsert_host` and
`delete_host` of `lib.rs` and the writes of `HostKeyRepository` (`host_keys.rs`), on the
tables that the migrations make: what they write is one change or a few of a transaction,
and what they read a list of the values of the selected columns.

`Sqlite` is what SQLite does with values, and the order in which it finds rows. `faults`
says of each statement whether SQLite fails in it for a reason of its own. What `serde_json`
does is a parameter (`StoreJson`).
-/

namespace KW.Repositories

open Sql
open Actions (Action ActionId ProjectId)
open HostRecord (RuntimeKind)
open HostRows (HostJson ofU16 ofBool getText getOptionText getU16 getI32)
open Migrations (Name Column)
open RunRows (Value StorageError RunReconciliationUpdate sqlU64 sqlOptionU64 sqlOptionI32 sqlOptionText)
open Transfer (TransferDirection TransferStatus)

/-! ## The schema -/

/-- The schema that the migrations make. -/
def schema : Schema Name Column Value := effectAll (Migrations.migrations.flatMap (·.sql)) fun _ => none

/-- The clauses `ON DELETE` of the scripts. -/
def onDelete (name : Name) (k : ForeignKey Name Column) : OnDelete :=
  match name, k.column with
  | .runs, .actionId => .setNull
  | .runs, .projectId => .setNull
  | .sessions, .projectId => .setNull
  | .tunnels, .sessionId => .setNull
  | _, _ => .cascade

def rank : Name → Nat
  | .hosts => 0
  | .addresses | .projects | .transfers | .workspaceSnapshots | .hostKeyIdentities => 1
  | .actions | .sessions => 2
  | _ => 3

/-- What the keys of the schema do on deletion. -/
def references : References schema where
  onDelete := onDelete
  rank := rank
  rank_lt := by
    intro name
    revert name
    decide
  nullable := by
    have hnullable : ∀ name, ∀ d ∈ schema.definition name, ∀ k ∈ d.foreignKeys, onDelete name k = .setNull →
        ∀ column ∈ d.columns, column.name = k.column → column.notNull = false := by decide
    exact @fun name d hd => hnullable name d hd
  unreferred := by
    intro name
    revert name
    decide

abbrev Tables := Sql.Tables Name Column Value
abbrev Row := Sql.Row Column Value
abbrev Change := Sql.Change Name Column Value

/-- What SQLite does with values and rows. -/
structure Sqlite extends Migrations.Sqlite where
  convert_blob (v : Value) : convert .blob v = v
  same_blob (a b : List UInt8) : same (.blob a) (.blob b) = decide (a = b)
  same_text (s t : Text) : same (.text s) (.text t) = decide (s = t)
  /-- the rows of a query in the order in which they are found -/
  scan : Multiset Row → List Row
  coe_scan (rows : Multiset Row) : (scan rows : Multiset Row) = rows
  order : HostRows.ValueOrder

/-! ## Records -/

structure SessionId where
  uuid : Nat
deriving DecidableEq, Repr

structure TunnelId where
  uuid : Nat
deriving DecidableEq, Repr

structure SnippetId where
  uuid : Nat
deriving DecidableEq, Repr

structure Project where
  id : ProjectId
  hostId : HostId
  name : Text
  remoteCwd : Text
  preferredRuntime : RuntimeKind
deriving DecidableEq, Repr

structure Run where
  id : RunId
  actionId : Option ActionId
  hostId : HostId
  projectId : Option ProjectId
  actionName : Text
  commandSnapshot : Text
  mode : ActionMode
  cwdSnapshot : Option Text
  status : RunStatus
  startedAtMs : Option UInt64
  finishedAtMs : Option UInt64
  exitCode : Option Int32
  remoteSessionRef : Option Text
  stdoutPreview : Text
  stderrPreview : Text
  outputBytes : UInt64
  lastReconciledAtMs : Option UInt64
deriving DecidableEq, Repr

inductive SessionState
  | detached
  | attaching
  | attached
  | suspended
  | reattaching
  | closed
  | failed
deriving DecidableEq, Repr

structure Session where
  id : SessionId
  hostId : HostId
  projectId : Option ProjectId
  runtime : RuntimeKind
  externalRef : Option Text
  state : SessionState
deriving DecidableEq, Repr

structure Transfer where
  id : TransferId
  hostId : HostId
  localPath : Text
  remotePath : Text
  direction : TransferDirection
  totalBytes : Option UInt64
  transferredBytes : UInt64
  status : TransferStatus
deriving DecidableEq, Repr

structure Tunnel where
  id : TunnelId
  hostId : HostId
  remoteHost : Text
  remotePort : UInt16
  localPort : UInt16
deriving DecidableEq, Repr

structure Snippet where
  id : SnippetId
  name : Text
  text : Text
  sortOrder : Int32
deriving DecidableEq, Repr

structure HostKeyRecord where
  hostname : Text
  port : UInt16
  algorithm : Text
  fingerprint : Text
  keyBlobBase64 : Text
  createdAtMs : Int
  updatedAtMs : Int
deriving DecidableEq, Repr

structure HostKeyIdentityRecord where
  hostId : HostId
  algorithm : Text
  fingerprint : Text
  keyBlobBase64 : Text
  createdAtMs : Int
  updatedAtMs : Int
deriving DecidableEq, Repr

/-- What `serde_json` does with the types that are stored as text. -/
structure StoreJson extends HostJson where
  mode : HostRows.Json ActionMode
  dangerLevel : HostRows.Json Actions.DangerLevel
  confirmation : HostRows.Json Actions.ConfirmationPolicy
  status : HostRows.Json RunStatus
  sessionState : HostRows.Json SessionState
  direction : HostRows.Json TransferDirection
  transferStatus : HostRows.Json TransferStatus
  env : List (Text × Text) → Text
  readEnv : Text → Option (List (Text × Text))
  /-- a map has its keys in order -/
  readEnv_env {entries : List (Text × Text)} : entries.Pairwise (fun a b => a.1 < b.1) →
    readEnv (env entries) = some entries

/-! ## Values -/

/-- The last bytes of a number, the first of them first. -/
def bytes : Nat → Nat → List UInt8
  | 0, _ => []
  | n + 1, v => bytes n (v / 256) ++ [UInt8.ofNat v]

/-- `id_to_blob`. -/
def idToBlob (uuid : Nat) : Value := .blob (bytes 16 uuid)

def optionToBlob : Option Nat → Value
  | none => .null
  | some uuid => idToBlob uuid

/-- `Uuid::from_slice`. -/
def uuidFromSlice (slice : List UInt8) : Option Nat :=
  if slice.length = 16 then some (slice.foldl (fun n byte => n * 256 + byte.toNat) 0) else none

/-- `blob_to_id`. -/
def blobToId : Value → Except StorageError Nat
  | .blob slice =>
    match uuidFromSlice slice with
    | some uuid => .ok uuid
    | none => .error .sqlite
  | _ => .error .sqlite

def optionBlobToId : Value → Except StorageError (Option Nat)
  | .null => .ok none
  | value => (blobToId value).map some

/-- `timeout_ms.map(SqlU64)`. -/
def sqlTimeout : Option Nat → Except StorageError Value
  | none => .ok .null
  | some n => if n ≤ RunRows.i64Max then .ok (.integer n) else .error .sqlite

/-- `u64_column`. -/
def getU64 : Value → Except StorageError UInt64
  | .integer n => if 0 ≤ n ∧ n ≤ RunRows.i64Max then .ok (UInt64.ofNat n.toNat) else .error .sqlite
  | _ => .error .sqlite

/-- `optional_u64_column`. -/
def getOptionU64 : Value → Except StorageError (Option UInt64)
  | .null => .ok none
  | value => (getU64 value).map some

def getOptionI32 : Value → Except StorageError (Option Int32)
  | .null => .ok none
  | value => (getI32 value).map some

def fromText {α : Type} (json : HostRows.Json α) (value : Value) : Except StorageError α := do
  HostRows.fromText json (← getText value)

/-! ## Statements -/

variable (S : Sqlite) (J : StoreJson)

abbrev Storage := Prog StorageError (Connection Tables)

/-- A statement that changes rows, and their number; `number` is that of the statement. -/
def execute (faults : Nat → Bool) (number : Nat) (change : Change) : Storage Nat :=
  statement fun tables =>
    if faults number then .error .sqlite
    else
      match change.run S.toEngine references tables with
      | some tables' => .ok (change.count tables, tables')
      | none => .error .sqlite

/-- A statement whose values do not fit is not executed. -/
def executeWith (faults : Nat → Bool) (number : Nat) : Except StorageError Change → Storage Nat
  | .ok change => execute S faults number change
  | .error e => throw e

/-- The row has the value in the column. -/
def has (column : Column) (value : Value) (row : Row) : Bool := S.same (row column) value

/-- `SELECT columns FROM table WHERE ..`. -/
def select (tables : Tables) (table : Name) (columns : List Column) (chosen : Row → Bool) : List (List Value) :=
  (S.scan ((tables table).filter fun row => chosen row = true)).map fun row => columns.map row

/-- `SELECT columns FROM table WHERE .. ORDER BY ..`, where the rows before others are these. -/
def selectOrdered (tables : Tables) (table : Name) (columns : List Column) (chosen : Row → Bool)
    (before : Row → Row → Bool) : List (List Value) :=
  ((S.scan ((tables table).filter fun row => chosen row = true)).insertionSort fun a b => before a b = true).map
    fun row => columns.map row

/-- What `COLLATE NOCASE` compares. -/
def nocase : Value → Value
  | .text t => .text (Actions.toAsciiLowercase t)
  | value => value

/-- `COALESCE(value, 0)`. -/
def coalesce : Value → Value
  | .null => .integer 0
  | value => value

/-- `LIMIT`, which is signed, and none if it is negative. -/
def limited {α : Type} (limit : Nat) (rows : List α) : List α :=
  if limit ≤ RunRows.i64Max then rows.take limit else rows

/-- `query_row(..).optional()`. -/
def queryRow {α : Type} (read : List Value → Except StorageError α) : List (List Value) → Except StorageError (Option α)
  | [] => .ok none
  | values :: _ => (read values).map some

/-! ### Projects -/

def projectColumns : List Column := [.id, .hostId, .name, .remoteCwd, .preferredRuntime]

def projectValues (project : Project) : List Value :=
  [idToBlob project.id.uuid, idToBlob project.hostId.uuid, .text project.name, .text project.remoteCwd,
    .text (J.runtime.toText project.preferredRuntime)]

def upsertProjectChange (project : Project) : Change :=
  .upsert .projects projectColumns (projectValues J project) projectColumns.tail

def deleteProjectChange (id : ProjectId) : Change := .delete .projects (has S .id (idToBlob id.uuid))

def readProject : List Value → Except StorageError Project
  | [id, hostId, name, remoteCwd, preferredRuntime] => do
    let id ← blobToId id
    let hostId ← blobToId hostId
    let name ← getText name
    let remoteCwd ← getText remoteCwd
    let preferredRuntime ← fromText J.runtime preferredRuntime
    .ok ⟨⟨id⟩, ⟨hostId⟩, name, remoteCwd, preferredRuntime⟩
  | _ => .error .sqlite

namespace ProjectRepository

def upsert (faults : Nat → Bool) (project : Project) : Storage Nat :=
  execute S faults 0 (upsertProjectChange J project)

def delete (faults : Nat → Bool) (id : ProjectId) : Storage Bool := do
  let changed ← execute S faults 0 (deleteProjectChange S id)
  pure (changed != 0)

def get (tables : Tables) (id : ProjectId) : Except StorageError (Option Project) :=
  queryRow (readProject J) (select S tables .projects projectColumns (has S .id (idToBlob id.uuid)))

def listByHost (tables : Tables) (hostId : HostId) : Except StorageError (List Project) :=
  (selectOrdered S tables .projects projectColumns (has S .hostId (idToBlob hostId.uuid)) fun a b =>
    S.order.le (nocase (a .name)) (nocase (b .name))).mapM (readProject J)

end ProjectRepository

/-! ### Actions -/

def actionColumns : List Column :=
  [.id, .projectId, .name, .command, .mode, .cwd, .timeoutMs, .dangerLevel, .confirmation, .envJson]

def actionValues (action : Action) (timeout : Value) : List Value :=
  [idToBlob action.id.uuid, idToBlob action.projectId.uuid, .text action.name, .text action.command,
    .text (J.mode.toText action.mode), sqlOptionText action.cwd, timeout,
    .text (J.dangerLevel.toText action.dangerLevel), .text (J.confirmation.toText action.confirmation),
    .text (J.env action.env)]

def upsertActionChange (action : Action) : Except StorageError Change := do
  let timeout ← sqlTimeout action.timeoutMs
  .ok (.upsert .actions actionColumns (actionValues J action timeout) actionColumns.tail)

def deleteActionChange (id : ActionId) : Change := .delete .actions (has S .id (idToBlob id.uuid))

def readAction : List Value → Except StorageError Action
  | [id, projectId, name, command, mode, cwd, timeoutMs, dangerLevel, confirmation, env] => do
    let id ← blobToId id
    let projectId ← blobToId projectId
    let name ← getText name
    let command ← getText command
    let mode ← fromText J.mode mode
    let cwd ← getOptionText cwd
    let timeoutMs ← getOptionU64 timeoutMs
    let dangerLevel ← fromText J.dangerLevel dangerLevel
    let confirmation ← fromText J.confirmation confirmation
    match J.readEnv (← getText env) with
    | some env =>
      .ok ⟨⟨id⟩, ⟨projectId⟩, name, command, mode, cwd, timeoutMs.map (·.toNat), dangerLevel, confirmation, env⟩
    | none => .error .sqlite
  | _ => .error .sqlite

namespace ActionRepository

def upsert (faults : Nat → Bool) (action : Action) : Storage Nat :=
  executeWith S faults 0 (upsertActionChange J action)

def delete (faults : Nat → Bool) (id : ActionId) : Storage Bool := do
  let changed ← execute S faults 0 (deleteActionChange S id)
  pure (changed != 0)

def get (tables : Tables) (id : ActionId) : Except StorageError (Option Action) :=
  queryRow (readAction J) (select S tables .actions actionColumns (has S .id (idToBlob id.uuid)))

def listByProject (tables : Tables) (projectId : ProjectId) : Except StorageError (List Action) :=
  (selectOrdered S tables .actions actionColumns (has S .projectId (idToBlob projectId.uuid)) fun a b =>
    S.order.le (nocase (a .name)) (nocase (b .name))).mapM (readAction J)

end ActionRepository

/-! ### Runs -/

def runColumns : List Column := Migrations.runsV9Columns

def runValues (run : Run) (started finished bytes reconciled : Value) : List Value :=
  [idToBlob run.id.uuid, optionToBlob (run.actionId.map (·.uuid)), idToBlob run.hostId.uuid,
    optionToBlob (run.projectId.map (·.uuid)), .text run.actionName, .text run.commandSnapshot,
    .text (J.mode.toText run.mode), sqlOptionText run.cwdSnapshot, .text (J.status.toText run.status), started,
    finished, sqlOptionI32 run.exitCode, sqlOptionText run.remoteSessionRef, .text [], .text [], bytes, reconciled]

def createRunChange (run : Run) : Except StorageError Change := do
  let started ← sqlOptionU64 run.startedAtMs
  let finished ← sqlOptionU64 run.finishedAtMs
  let bytes ← sqlU64 run.outputBytes
  let reconciled ← sqlOptionU64 run.lastReconciledAtMs
  .ok (.insert .runs runColumns (runValues J run started finished bytes reconciled))

/-- `UPDATE runs SET .. WHERE id = ..` of `update_status`. -/
def updateStatusChange (id : RunId) (status : RunStatus) (exitCode : Option Int32) (finishedAtMs : Option UInt64) :
    Except StorageError Change := do
  let finished ← sqlOptionU64 finishedAtMs
  .ok (.update .runs [(.status, .text (J.status.toText status)), (.exitCode, sqlOptionI32 exitCode),
    (.finishedAtMs, finished)] (has S .id (idToBlob id.uuid)))

/-- `UPDATE runs SET .. WHERE id = ..` of `finish` and `finish_batch`. -/
def finishChange (u : RunReconciliationUpdate) (reconciledAtMs : Option UInt64) : Except StorageError Change := do
  let finished ← sqlOptionU64 u.finishedAtMs
  let bytes ← sqlU64 u.outputBytes
  let reconciled ← sqlOptionU64 reconciledAtMs
  .ok (.update .runs [(.status, .text (J.status.toText u.status)), (.exitCode, sqlOptionI32 u.exitCode),
    (.finishedAtMs, finished), (.remoteSessionRef, sqlOptionText u.remoteSessionRef), (.outputBytes, bytes),
    (.stdoutPreview, .text []), (.stderrPreview, .text []), (.lastReconciledAtMs, reconciled)]
    (has S .id (idToBlob u.id.uuid)))

/-- `UPDATE runs SET .. WHERE mode = .. AND status IN (..)`. -/
def recoverChange : Change :=
  .update .runs [(.status, .text (J.status.toText .unknown)), (.finishedAtMs, .null)] fun row =>
    has S .mode (.text (J.mode.toText .quick)) row && (has S .status (.text (J.status.toText .queued)) row ||
      has S .status (.text (J.status.toText .running)) row)

def readRun : List Value → Except StorageError Run
  | [id, actionId, hostId, projectId, actionName, commandSnapshot, mode, cwdSnapshot, status, startedAtMs, finishedAtMs,
      exitCode, remoteSessionRef, stdoutPreview, stderrPreview, outputBytes, lastReconciledAtMs] => do
    let id ← blobToId id
    let actionId ← optionBlobToId actionId
    let hostId ← blobToId hostId
    let projectId ← optionBlobToId projectId
    let actionName ← getText actionName
    let commandSnapshot ← getText commandSnapshot
    let mode ← fromText J.mode mode
    let cwdSnapshot ← getOptionText cwdSnapshot
    let status ← fromText J.status status
    let startedAtMs ← getOptionU64 startedAtMs
    let finishedAtMs ← getOptionU64 finishedAtMs
    let exitCode ← getOptionI32 exitCode
    let remoteSessionRef ← getOptionText remoteSessionRef
    let stdoutPreview ← getText stdoutPreview
    let stderrPreview ← getText stderrPreview
    let outputBytes ← getU64 outputBytes
    let lastReconciledAtMs ← getOptionU64 lastReconciledAtMs
    .ok ⟨⟨id⟩, actionId.map ActionId.mk, ⟨hostId⟩, projectId.map ProjectId.mk, actionName, commandSnapshot, mode,
      cwdSnapshot, status, startedAtMs, finishedAtMs, exitCode, remoteSessionRef, stdoutPreview, stderrPreview,
      outputBytes, lastReconciledAtMs⟩
  | _ => .error .sqlite

namespace RunRepository

/-- `SELECT status FROM runs WHERE id = ?1`, which may fail as another statement. -/
def currentStatus (faults : Nat → Bool) (number : Nat) (id : RunId) : Storage RunStatus := do
  let raw ← statement fun tables =>
    if faults number then .error .sqlite
    else
      match select S tables .runs [.status] (has S .id (idToBlob id.uuid)) with
      | [] => .error (.runNotFound id)
      | (.text raw :: _) :: _ => .ok (raw, tables)
      | _ => .error .sqlite
  match J.status.fromText raw with
  | some status => pure status
  | none => throw .serialization

def create (faults : Nat → Bool) (run : Run) : Storage Nat := executeWith S faults 0 (createRunChange J run)

def updateStatus (faults : Nat → Bool) (id : RunId) (status : RunStatus) (exitCode : Option Int32)
    (finishedAtMs : Option UInt64) : Storage Nat := do
  let current ← currentStatus S J faults 0 id
  if runTransition current status = false then throw (.invalidRunTransition current status)
  else executeWith S faults 1 (updateStatusChange S J id status exitCode finishedAtMs)

/-- One update; `number` is that of its first statement. -/
def finishAt (faults : Nat → Bool) (number : Nat) (u : RunReconciliationUpdate) (reconciledAtMs : Option UInt64) :
    Storage Nat := do
  let current ← currentStatus S J faults number u.id
  if runTransition current u.status = false then throw (.invalidRunTransition current u.status)
  else executeWith S faults (number + 1) (finishChange S J u reconciledAtMs)

def finish (faults : Nat → Bool) (u : RunReconciliationUpdate) (reconciledAtMs : Option UInt64) : Storage Nat :=
  finishAt S J faults 0 u reconciledAtMs

/-- The `for` loop over the updates. -/
def finishEach (faults : Nat → Bool) : Nat → List RunReconciliationUpdate → Storage Unit
  | _, [] => pure ()
  | number, u :: updates => do
    discard (finishAt S J faults number u (some u.reconciledAtMs))
    finishEach faults (number + 2) updates

def finishBatch (faults : Nat → Bool) (updates : List RunReconciliationUpdate) : Storage Unit :=
  if updates.isEmpty then pure () else transaction .sqlite (finishEach S J faults 0 updates)

def recoverOrphanedQuickRuns (faults : Nat → Bool) : Storage Nat := execute S faults 0 (recoverChange S J)

def get (tables : Tables) (id : RunId) : Except StorageError (Option Run) :=
  queryRow (readRun J) (select S tables .runs runColumns (has S .id (idToBlob id.uuid)))

/-- `ORDER BY COALESCE(started_at_ms, 0) DESC`. -/
def newest (a b : Row) : Bool := S.order.le (coalesce (b .startedAtMs)) (coalesce (a .startedAtMs))

def listReconcilableByHost (tables : Tables) (hostId : HostId) (limit : Nat) : Except StorageError (List Run) :=
  (limited (min limit 500) (selectOrdered S tables .runs runColumns (fun row =>
    has S .hostId (idToBlob hostId.uuid) row &&
      (has S .mode (.text (J.mode.toText .quick)) row || has S .mode (.text (J.mode.toText .background)) row) &&
      (has S .status (.text (J.status.toText .queued)) row || has S .status (.text (J.status.toText .running)) row ||
        has S .status (.text (J.status.toText .unknown)) row)) (newest S))).mapM (readRun J)

def listByAction (tables : Tables) (actionId : ActionId) (limit : Nat) : Except StorageError (List Run) :=
  (limited limit (selectOrdered S tables .runs runColumns (has S .actionId (idToBlob actionId.uuid)) fun a b =>
    S.order.le (b .startedAtMs) (a .startedAtMs))).mapM (readRun J)

def listRecent (tables : Tables) (limit : Nat) : Except StorageError (List Run) :=
  (limited (min limit 500) (selectOrdered S tables .runs runColumns (fun _ => true) (newest S))).mapM (readRun J)

def listRecentByHost (tables : Tables) (hostId : HostId) (limit : Nat) : Except StorageError (List Run) :=
  (limited (min limit 500) (selectOrdered S tables .runs runColumns (has S .hostId (idToBlob hostId.uuid))
    (newest S))).mapM (readRun J)

def countByHost (tables : Tables) (hostId : HostId) : Nat :=
  (tables .runs).countP fun row => has S .hostId (idToBlob hostId.uuid) row = true

end RunRepository

/-! ### Sessions, transfers, tunnels and snippets -/

def sessionColumns : List Column := [.id, .hostId, .projectId, .runtime, .externalRef, .state]

def createSessionChange (session : Session) : Change :=
  .insert .sessions sessionColumns
    [idToBlob session.id.uuid, idToBlob session.hostId.uuid, optionToBlob (session.projectId.map (·.uuid)),
      .text (J.runtime.toText session.runtime), sqlOptionText session.externalRef,
      .text (J.sessionState.toText session.state)]

def updateStateChange (id : SessionId) (state : SessionState) : Change :=
  .update .sessions [(.state, .text (J.sessionState.toText state))] (has S .id (idToBlob id.uuid))

namespace SessionRepository

def create (faults : Nat → Bool) (session : Session) : Storage Nat := execute S faults 0 (createSessionChange J session)

def updateState (faults : Nat → Bool) (id : SessionId) (state : SessionState) : Storage Nat :=
  execute S faults 0 (updateStateChange S J id state)

end SessionRepository

def transferColumns : List Column :=
  [.id, .hostId, .localPath, .remotePath, .direction, .totalBytes, .transferredBytes, .status]

def createTransferChange (transfer : Transfer) : Except StorageError Change := do
  let total ← sqlOptionU64 transfer.totalBytes
  let transferred ← sqlU64 transfer.transferredBytes
  .ok (.insert .transfers transferColumns
    [idToBlob transfer.id.uuid, idToBlob transfer.hostId.uuid, .text transfer.localPath, .text transfer.remotePath,
      .text (J.direction.toText transfer.direction), total, transferred,
      .text (J.transferStatus.toText transfer.status)])

def updateProgressChange (id : TransferId) (transferredBytes : UInt64) (status : TransferStatus) :
    Except StorageError Change := do
  let transferred ← sqlU64 transferredBytes
  .ok (.update .transfers [(.transferredBytes, transferred), (.status, .text (J.transferStatus.toText status))]
    (has S .id (idToBlob id.uuid)))

namespace TransferRepository

def create (faults : Nat → Bool) (transfer : Transfer) : Storage Nat :=
  executeWith S faults 0 (createTransferChange J transfer)

def updateProgress (faults : Nat → Bool) (id : TransferId) (transferredBytes : UInt64) (status : TransferStatus) :
    Storage Nat :=
  executeWith S faults 0 (updateProgressChange S J id transferredBytes status)

end TransferRepository

def createTunnelChange (tunnel : Tunnel) : Change :=
  .insert .tunnels [.id, .hostId, .remoteHost, .remotePort, .localPort, .status, .sessionId]
    [idToBlob tunnel.id.uuid, idToBlob tunnel.hostId.uuid, .text tunnel.remoteHost, ofU16 tunnel.remotePort,
      ofU16 tunnel.localPort, .text "open".toList, .null]

def deleteTunnelChange (id : TunnelId) : Change := .delete .tunnels (has S .id (idToBlob id.uuid))

namespace TunnelRepository

def create (faults : Nat → Bool) (tunnel : Tunnel) : Storage Nat := execute S faults 0 (createTunnelChange tunnel)

def delete (faults : Nat → Bool) (id : TunnelId) : Storage Bool := do
  let changed ← execute S faults 0 (deleteTunnelChange S id)
  pure (changed != 0)

end TunnelRepository

def snippetColumns : List Column := [.id, .name, .text, .sortOrder]

def snippetValues (snippet : Snippet) : List Value :=
  [idToBlob snippet.id.uuid, .text snippet.name, .text snippet.text, .integer snippet.sortOrder.toInt]

def upsertSnippetChange (snippet : Snippet) : Change :=
  .upsert .snippets snippetColumns (snippetValues snippet) snippetColumns.tail

def deleteSnippetChange (id : SnippetId) : Change := .delete .snippets (has S .id (idToBlob id.uuid))

namespace SnippetRepository

def upsert (faults : Nat → Bool) (snippet : Snippet) : Storage Nat :=
  execute S faults 0 (upsertSnippetChange snippet)

def delete (faults : Nat → Bool) (id : SnippetId) : Storage Bool := do
  let changed ← execute S faults 0 (deleteSnippetChange S id)
  pure (changed != 0)

end SnippetRepository

/-! ### Hosts and their keys -/

def hostColumns : List Column :=
  [.id, .label, .username, .port, .authRef, .tailscaleJson, .defaultRuntime, .jumpHostname, .jumpPort, .jumpUsername,
    .jumpAuthJson, .authMode, .privateKeyPath, .defaultRemotePath]

def hostValues (host : HostRecord.Host) : List Value :=
  let row := HostRows.hostRow J.toHostJson host
  [idToBlob host.id.uuid, row.label, row.username, row.port, row.authRef, row.tailscaleJson, row.defaultRuntime,
    row.jumpHostname, row.jumpPort, row.jumpUsername, row.jumpAuthJson, row.authMode, row.privateKeyPath,
    row.defaultRemotePath]

def upsertHostChange (host : HostRecord.Host) : Change :=
  .upsert .hosts hostColumns (hostValues J host) hostColumns.tail

def deleteAddressesChange (id : HostId) : Change := .delete .addresses (has S .hostId (idToBlob id.uuid))

def insertAddressChange (hostId : HostId) (address : HostRecord.Address) : Change :=
  .insert .addresses [.id, .hostId, .kind, .hostnameOrIp, .port, .priority, .enabled]
    [idToBlob address.id.uuid, idToBlob hostId.uuid, .text (J.addressKind.toText address.kind),
      .text address.hostnameOrIp, ofU16 address.port, .integer address.priority.toInt, ofBool address.enabled]

/-- The `for` loop over the addresses; `number` is that of the next statement. -/
def insertAddresses (faults : Nat → Bool) (hostId : HostId) : Nat → List HostRecord.Address → Storage Unit
  | _, [] => pure ()
  | number, address :: addresses => do
    discard (execute S faults number (insertAddressChange J hostId address))
    insertAddresses faults hostId (number + 1) addresses

def writeHost (faults : Nat → Bool) (host : HostRecord.Host) : Storage Unit := do
  discard (execute S faults 0 (upsertHostChange J host))
  discard (execute S faults 1 (deleteAddressesChange S host.id))
  insertAddresses S J faults host.id 2 host.addresses
  statement fun tables => if faults (host.addresses.length + 2) then .error .sqlite else .ok ((), tables)

def upsertHost (faults : Nat → Bool) (host : HostRecord.Host) : Storage Unit :=
  transaction .sqlite (writeHost S J faults host)

def deleteHostChange (id : HostId) : Change := .delete .hosts (has S .id (idToBlob id.uuid))

def deleteHost (faults : Nat → Bool) (id : HostId) : Storage Bool := do
  let changed ← execute S faults 0 (deleteHostChange S id)
  pure (changed != 0)

def saveHostKeyChange (record : HostKeyRecord) : Change :=
  .upsert .hostKeys [.hostname, .port, .algorithm, .fingerprint, .keyBlobBase64, .createdAtMs, .updatedAtMs]
    [.text record.hostname, ofU16 record.port, .text record.algorithm, .text record.fingerprint,
      .text record.keyBlobBase64, .integer record.createdAtMs, .integer record.updatedAtMs]
    [.algorithm, .fingerprint, .keyBlobBase64, .updatedAtMs]

def deleteHostKeyChange (hostname : Text) (port : UInt16) : Change :=
  .delete .hostKeys fun row => has S .hostname (.text hostname) row && has S .port (ofU16 port) row

def saveForHostChange (record : HostKeyIdentityRecord) : Change :=
  .upsert .hostKeyIdentities [.hostId, .algorithm, .fingerprint, .keyBlobBase64, .createdAtMs, .updatedAtMs]
    [idToBlob record.hostId.uuid, .text record.algorithm, .text record.fingerprint, .text record.keyBlobBase64,
      .integer record.createdAtMs, .integer record.updatedAtMs]
    [.fingerprint, .keyBlobBase64, .updatedAtMs]

namespace HostKeyRepository

def save (faults : Nat → Bool) (record : HostKeyRecord) : Storage Nat :=
  execute S faults 0 (saveHostKeyChange record)

def delete (faults : Nat → Bool) (hostname : Text) (port : UInt16) : Storage Bool := do
  let changed ← execute S faults 0 (deleteHostKeyChange S hostname port)
  pure (changed != 0)

def saveForHost (faults : Nat → Bool) (record : HostKeyIdentityRecord) : Storage Nat :=
  execute S faults 0 (saveForHostChange record)

end HostKeyRepository

/-! ## Operations -/

/-- What is called of the repositories, where it writes. -/
inductive Operation
  | upsertHost (host : HostRecord.Host)
  | deleteHost (id : HostId)
  | upsertProject (project : Project)
  | deleteProject (id : ProjectId)
  /-- the environment is a map, in the order of its keys -/
  | upsertAction (action : Action) (hkeys : action.env.Pairwise fun a b => a.1 < b.1)
  | deleteAction (id : ActionId)
  | createRun (run : Run)
  | updateStatus (id : RunId) (status : RunStatus) (exitCode : Option Int32) (finishedAtMs : Option UInt64)
  | finish (u : RunReconciliationUpdate) (reconciledAtMs : Option UInt64)
  | finishBatch (updates : List RunReconciliationUpdate)
  | recoverOrphanedQuickRuns
  | createSession (session : Session)
  | updateState (id : SessionId) (state : SessionState)
  | createTransfer (transfer : Transfer)
  | updateProgress (id : TransferId) (transferredBytes : UInt64) (status : TransferStatus)
  | createTunnel (tunnel : Tunnel)
  | deleteTunnel (id : TunnelId)
  | upsertSnippet (snippet : Snippet)
  | deleteSnippet (id : SnippetId)
  | saveHostKey (record : HostKeyRecord)
  | deleteHostKey (hostname : Text) (port : UInt16)
  | saveForHost (record : HostKeyIdentityRecord)

/-- The call. What it returns besides an error is left out here. -/
def Operation.call (faults : Nat → Bool) : Operation → Storage Unit
  | .upsertHost host => Repositories.upsertHost S J faults host
  | .deleteHost id => discard (Repositories.deleteHost S faults id)
  | .upsertProject project => discard (ProjectRepository.upsert S J faults project)
  | .deleteProject id => discard (ProjectRepository.delete S faults id)
  | .upsertAction action _ => discard (ActionRepository.upsert S J faults action)
  | .deleteAction id => discard (ActionRepository.delete S faults id)
  | .createRun run => discard (RunRepository.create S J faults run)
  | .updateStatus id status exitCode finishedAtMs =>
    discard (RunRepository.updateStatus S J faults id status exitCode finishedAtMs)
  | .finish u reconciledAtMs => discard (RunRepository.finish S J faults u reconciledAtMs)
  | .finishBatch updates => RunRepository.finishBatch S J faults updates
  | .recoverOrphanedQuickRuns => discard (RunRepository.recoverOrphanedQuickRuns S J faults)
  | .createSession session => discard (SessionRepository.create S J faults session)
  | .updateState id state => discard (SessionRepository.updateState S J faults id state)
  | .createTransfer transfer => discard (TransferRepository.create S J faults transfer)
  | .updateProgress id transferredBytes status =>
    discard (TransferRepository.updateProgress S J faults id transferredBytes status)
  | .createTunnel tunnel => discard (TunnelRepository.create S faults tunnel)
  | .deleteTunnel id => discard (TunnelRepository.delete S faults id)
  | .upsertSnippet snippet => discard (SnippetRepository.upsert S faults snippet)
  | .deleteSnippet id => discard (SnippetRepository.delete S faults id)
  | .saveHostKey record => discard (HostKeyRepository.save S faults record)
  | .deleteHostKey hostname port => discard (HostKeyRepository.delete S faults hostname port)
  | .saveForHost record => discard (HostKeyRepository.saveForHost S faults record)

/-- One call after another on a connection, with the faults of each; those that fail are
over with that. -/
def callAll (calls : List (Operation × (Nat → Bool))) (connection : Connection Tables) : Connection Tables :=
  calls.foldl (fun connection p => ((p.1.call S J p.2).exec connection).2) connection

end KW.Repositories
