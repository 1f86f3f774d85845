import KodeWork.Framework.Scripts
import KodeWork.Framework.Transactions
import KodeWork.Impl.History.Rows

/-!
# Migrations

`MIGRATIONS` and `apply_migrations` of `kodework-storage/src/lib.rs`: the scripts as the
statements that they are, and the transaction that runs the missing ones. What deletes
from a table does to those that refer to it is left out, as no script deletes from one
that is referred to.

`Sqlite` is what SQLite does with values, and `now` what the clock says when the version
is recorded.
-/

namespace KW.Migrations

open Sql
open RunRows (Value)

/-- What the scripts name: tables and indexes. -/
inductive Name
  | schemaMigrations
  | hosts
  | addresses
  | projects
  | actions
  | runs
  | sessions
  | transfers
  | settings
  | hostKeys
  | tunnels
  | snippets
  | workspaceSnapshots
  | snippetsV5
  | runsV9
  | idxRunsHostStarted
  | idxRunsActionStarted
  | idxRunsStatus
  | hostKeyIdentities
  | hostKeyIdentitiesV12
deriving DecidableEq, Repr

def Name.all : List Name :=
  [.schemaMigrations, .hosts, .addresses, .projects, .actions, .runs, .sessions, .transfers, .settings, .hostKeys,
    .tunnels, .snippets, .workspaceSnapshots, .snippetsV5, .runsV9, .idxRunsHostStarted, .idxRunsActionStarted,
    .idxRunsStatus, .hostKeyIdentities, .hostKeyIdentitiesV12]

instance : Fintype Name := ⟨⟨Name.all, by decide⟩, fun n => by cases n <;> decide⟩

inductive Column
  | version | appliedAtMs
  | id | label | username | port | authRef
  | hostId | kind | hostnameOrIp | priority | enabled
  | name | remoteCwd | preferredRuntime
  | projectId | command | mode | cwd | timeoutMs | dangerLevel | confirmation | envJson
  | actionId | status | startedAtMs | finishedAtMs | exitCode | remoteSessionRef | outputBytes
  | runtime | externalRef | state
  | localPath | remotePath | direction | totalBytes | transferredBytes
  | key | valueJson
  | tailscaleJson | defaultRuntime | jumpHostname | jumpPort | jumpUsername | authMode | privateKeyPath
  | defaultRemotePath | jumpAuthJson
  | hostname | algorithm | fingerprint | keyBlobBase64 | createdAtMs | updatedAtMs
  | remoteHost | remotePort | localPort | sessionId
  | text | sortOrder
  | payloadJson
  | actionName | commandSnapshot | cwdSnapshot | stdoutPreview | stderrPreview | lastReconciledAtMs
deriving DecidableEq, Repr

abbrev Def := TableDef Name Column Value
abbrev Script := List (Statement Name Column Value)
abbrev Db := Database Name Column Value

/-- What SQLite does with values. -/
structure Sqlite extends Engine Value where
  null_eq : null = .null
  convert_text (t : Text) : convert .text (.text t) = .text t
  convert_integer (n : Int) : convert .integer (.integer n) = .integer n
  same_integer (m n : Int) : same (.integer m) (.integer n) = decide (m = n)

/-! ## Columns -/

def blob (c : Column) : ColumnDef Column Value := ⟨c, .blob, false, none⟩
def text (c : Column) : ColumnDef Column Value := ⟨c, .text, false, none⟩
def integer (c : Column) : ColumnDef Column Value := ⟨c, .integer, false, none⟩

/-- `NOT NULL`. -/
def required (column : ColumnDef Column Value) : ColumnDef Column Value := { column with notNull := true }

/-- `DEFAULT`. -/
def defaulting (column : ColumnDef Column Value) (value : Value) : ColumnDef Column Value :=
  { column with default := some value }

/-- `REFERENCES table(id)`. -/
def references (column : Column) (table : Name) : ForeignKey Name Column := ⟨column, table, .id⟩

/-! ## The scripts -/

/-- The table `schema_migrations`. -/
def schemaMigrations : Def where
  columns := [integer .version, required (integer .appliedAtMs)]
  primaryKey := [.version]
  foreignKeys := []

/-- The table `projects`. -/
def projects : Def where
  columns := [blob .id, required (blob .hostId), required (text .name), required (text .remoteCwd),
    required (text .preferredRuntime)]
  primaryKey := [.id]
  foreignKeys := [references .hostId .hosts]

/-- The table `actions`. -/
def actions : Def where
  columns := [blob .id, required (blob .projectId), required (text .name), required (text .command),
    required (text .mode), text .cwd, integer .timeoutMs, required (text .dangerLevel),
    required (text .confirmation), required (text .envJson)]
  primaryKey := [.id]
  foreignKeys := [references .projectId .projects]

/-- The table `runs` of the first version. -/
def runs : Def where
  columns := [blob .id, required (blob .actionId), required (text .status), integer .startedAtMs,
    integer .finishedAtMs, integer .exitCode, text .remoteSessionRef, required (integer .outputBytes)]
  primaryKey := [.id]
  foreignKeys := [references .actionId .actions]

/-- `initial_domain_schema`. -/
def initialDomainSchema : Script :=
  [ .createTable .schemaMigrations schemaMigrations true,
    .createTable .hosts
      { columns := [blob .id, required (text .label), required (text .username), required (integer .port),
          text .authRef]
        primaryKey := [.id]
        foreignKeys := [] } true,
    .createTable .addresses
      { columns := [blob .id, required (blob .hostId), required (text .kind), required (text .hostnameOrIp),
          required (integer .port), required (integer .priority), required (integer .enabled)]
        primaryKey := [.id]
        foreignKeys := [references .hostId .hosts] } true,
    .createTable .projects projects true,
    .createTable .actions actions true,
    .createTable .runs runs true,
    .createTable .sessions
      { columns := [blob .id, required (blob .hostId), blob .projectId, required (text .runtime),
          text .externalRef, required (text .state)]
        primaryKey := [.id]
        foreignKeys := [references .hostId .hosts, references .projectId .projects] } true,
    .createTable .transfers
      { columns := [blob .id, required (blob .hostId), required (text .localPath), required (text .remotePath),
          required (text .direction), integer .totalBytes, required (integer .transferredBytes),
          required (text .status)]
        primaryKey := [.id]
        foreignKeys := [references .hostId .hosts] } true,
    .createTable .settings
      { columns := [text .key, required (text .valueJson)]
        primaryKey := [.key]
        foreignKeys := [] } true ]

/-- `host_tailscale_configuration`. -/
def hostTailscaleConfiguration : Script := [.addColumn .hosts (text .tailscaleJson)]

/-- `host_default_runtime`. -/
def hostDefaultRuntime : Script :=
  [.addColumn .hosts (defaulting (required (text .defaultRuntime)) (.text "Tmux".toList))]

/-- `host_keys_tunnels_snippets_snapshots`. -/
def hostKeysTunnelsSnippetsSnapshots : Script :=
  [ .createTable .hostKeys
      { columns := [required (text .hostname), required (integer .port), required (text .algorithm),
          required (text .fingerprint), required (text .keyBlobBase64), required (integer .createdAtMs),
          required (integer .updatedAtMs)]
        primaryKey := [.hostname, .port]
        foreignKeys := [] } true,
    .createTable .tunnels
      { columns := [blob .id, required (blob .hostId), required (text .remoteHost), required (integer .remotePort),
          required (integer .localPort), required (text .status), blob .sessionId]
        primaryKey := [.id]
        foreignKeys := [references .hostId .hosts, references .sessionId .sessions] } true,
    .createTable .snippets
      { columns := [blob .id, required (blob .projectId), required (text .name), required (text .text),
          defaulting (required (integer .sortOrder)) (.integer 0)]
        primaryKey := [.id]
        foreignKeys := [references .projectId .projects] } true,
    .createTable .workspaceSnapshots
      { columns := [blob .id, required (blob .hostId), required (text .payloadJson),
          required (integer .createdAtMs)]
        primaryKey := [.id]
        foreignKeys := [references .hostId .hosts] } true ]

/-- `host_jump_configuration`. -/
def hostJumpConfiguration : Script :=
  [ .addColumn .hosts (text .jumpHostname),
    .addColumn .hosts (integer .jumpPort),
    .addColumn .hosts (text .jumpUsername) ]

/-- `global_snippets`. -/
def globalSnippets : Script :=
  [ .renameTable .snippets .snippetsV5,
    .createTable .snippets
      { columns := [blob .id, required (text .name), required (text .text),
          defaulting (required (integer .sortOrder)) (.integer 0)]
        primaryKey := [.id]
        foreignKeys := [] } false,
    .insertSelect .snippets [.id, .name, .text, .sortOrder]
      { columns := [.column .snippetsV5 .id, .column .snippetsV5 .name, .column .snippetsV5 .text,
          .column .snippetsV5 .sortOrder]
        source := .snippetsV5
        joins := [] },
    .dropTable .snippetsV5 ]

/-- `host_authentication_configuration`. -/
def hostAuthenticationConfiguration : Script :=
  [ .addColumn .hosts (defaulting (required (text .authMode)) (.text "Password".toList)),
    .addColumn .hosts (text .privateKeyPath) ]

/-- `host_default_remote_path`. -/
def hostDefaultRemotePath : Script :=
  [.addColumn .hosts (defaulting (required (text .defaultRemotePath)) (.text "/".toList))]

/-- The table `runs` of the ninth version. -/
def runsV9 : Def where
  columns := [blob .id, blob .actionId, required (blob .hostId), blob .projectId, required (text .actionName),
    required (text .commandSnapshot), required (text .mode), text .cwdSnapshot, required (text .status),
    integer .startedAtMs, integer .finishedAtMs, integer .exitCode, text .remoteSessionRef,
    defaulting (required (text .stdoutPreview)) (.text []), defaulting (required (text .stderrPreview)) (.text []),
    defaulting (required (integer .outputBytes)) (.integer 0), integer .lastReconciledAtMs]
  primaryKey := [.id]
  foreignKeys := [references .actionId .actions, references .hostId .hosts, references .projectId .projects]

def runsV9Columns : List Column :=
  [.id, .actionId, .hostId, .projectId, .actionName, .commandSnapshot, .mode, .cwdSnapshot, .status, .startedAtMs,
    .finishedAtMs, .exitCode, .remoteSessionRef, .stdoutPreview, .stderrPreview, .outputBytes, .lastReconciledAtMs]

/-- `SELECT .. FROM runs INNER JOIN actions .. INNER JOIN projects ..`. -/
def selectRuns : Select Name Column Value where
  columns := [.column .runs .id, .column .runs .actionId, .column .projects .hostId, .column .actions .projectId,
    .column .actions .name, .column .actions .command, .column .actions .mode, .column .actions .cwd,
    .column .runs .status, .column .runs .startedAtMs, .column .runs .finishedAtMs, .column .runs .exitCode,
    .column .runs .remoteSessionRef, .literal (.text []), .literal (.text []), .column .runs .outputBytes,
    .literal .null]
  source := .runs
  joins := [⟨.actions, (.actions, .id), (.runs, .actionId)⟩, ⟨.projects, (.projects, .id), (.actions, .projectId)⟩]

/-- `durable_run_history`. -/
def durableRunHistory : Script :=
  [ .createTable .runsV9 runsV9 false,
    .insertSelect .runsV9 runsV9Columns selectRuns,
    .dropTable .runs,
    .renameTable .runsV9 .runs,
    .createIndex .idxRunsHostStarted .runs [.hostId, .startedAtMs],
    .createIndex .idxRunsActionStarted .runs [.actionId, .startedAtMs],
    .createIndex .idxRunsStatus .runs [.status] ]

/-- The table `host_key_identities` of the tenth version. -/
def hostKeyIdentities : Def where
  columns := [blob .hostId, required (text .algorithm), required (text .fingerprint), required (text .keyBlobBase64),
    required (integer .createdAtMs), required (integer .updatedAtMs)]
  primaryKey := [.hostId]
  foreignKeys := [references .hostId .hosts]

/-- `host_scoped_host_key_identities`. -/
def hostScopedHostKeyIdentities : Script := [.createTable .hostKeyIdentities hostKeyIdentities false]

/-- `remove_persisted_run_output_previews`. -/
def removePersistedRunOutputPreviews : Script :=
  [.update .runs [(.stdoutPreview, .text []), (.stderrPreview, .text [])]]

/-- The table `host_key_identities` of the twelfth version. -/
def hostKeyIdentitiesV12 : Def where
  columns := [required (blob .hostId), required (text .algorithm), required (text .fingerprint),
    required (text .keyBlobBase64), required (integer .createdAtMs), required (integer .updatedAtMs)]
  primaryKey := [.hostId, .algorithm]
  foreignKeys := [references .hostId .hosts]

def identityColumns : List Column := [.hostId, .algorithm, .fingerprint, .keyBlobBase64, .createdAtMs, .updatedAtMs]

def selectIdentities : Select Name Column Value where
  columns := identityColumns.map (.column .hostKeyIdentities)
  source := .hostKeyIdentities
  joins := []

/-- `host_key_identities_per_algorithm`. -/
def hostKeyIdentitiesPerAlgorithm : Script :=
  [ .createTable .hostKeyIdentitiesV12 hostKeyIdentitiesV12 false,
    .insertSelect .hostKeyIdentitiesV12 identityColumns selectIdentities,
    .dropTable .hostKeyIdentities,
    .renameTable .hostKeyIdentitiesV12 .hostKeyIdentities ]

/-- `jump_host_independent_authentication`. -/
def jumpHostIndependentAuthentication : Script := [.addColumn .hosts (text .jumpAuthJson)]

structure Migration where
  version : UInt32
  sql : Script

def migrations : List Migration :=
  [ ⟨1, initialDomainSchema⟩,
    ⟨2, hostTailscaleConfiguration⟩,
    ⟨3, hostDefaultRuntime⟩,
    ⟨4, hostKeysTunnelsSnippetsSnapshots⟩,
    ⟨5, hostJumpConfiguration⟩,
    ⟨6, globalSnippets⟩,
    ⟨7, hostAuthenticationConfiguration⟩,
    ⟨8, hostDefaultRemotePath⟩,
    ⟨9, durableRunHistory⟩,
    ⟨10, hostScopedHostKeyIdentities⟩,
    ⟨11, removePersistedRunOutputPreviews⟩,
    ⟨12, hostKeyIdentitiesPerAlgorithm⟩,
    ⟨13, jumpHostIndependentAuthentication⟩ ]

def schemaVersion : UInt32 := 13

/-! ## Applying them -/

inductive StorageError
  | unsupportedVersion (version : UInt32)
  | invalidMigrationOrder
  | sqlite
deriving DecidableEq, Repr

/-- The loop of `validate_migrations`, and the version it ends with. -/
def validateOrder : UInt32 → List Migration → Except StorageError UInt32
  | previous, [] => .ok previous
  | previous, migration :: rest =>
    if migration.version ≤ previous then .error .invalidMigrationOrder else validateOrder migration.version rest

def validateMigrations : Except StorageError Unit := do
  let previous ← validateOrder 0 migrations
  if previous ≠ schemaVersion then .error (.unsupportedVersion previous) else .ok ()

abbrev Storage := Prog StorageError (Connection Db)

/-- `row.get::<_, u32>(0)`. -/
def readVersion : Value → Option UInt32
  | .integer n => if 0 ≤ n ∧ n < 4294967296 then some (UInt32.ofNat n.toNat) else none
  | _ => none

/-- The versions in the table, if there is one. -/
def readApplied (db : Db) : Except StorageError (Multiset UInt32 × Db) :=
  match db.schema.definition .schemaMigrations with
  | none => .ok (0, db)
  | some _ =>
    let values := (db.rows .schemaMigrations).map fun row => row .version
    if values.countP (fun v => readVersion v = none) = 0 then .ok (values.filterMap readVersion, db)
    else .error .sqlite

variable (S : Sqlite) (now : UInt32 → Int)

/-- A statement of a script. -/
def execute (s : Statement Name Column Value) (db : Db) : Except StorageError (Unit × Db) :=
  match s.run S.toEngine db with
  | some db' => .ok ((), db')
  | none => .error .sqlite

/-- `execute_batch`. -/
def executeBatch : Script → Storage Unit
  | [] => pure ()
  | s :: sql => do
    statement (execute S s)
    executeBatch sql

/-- The version with the time, as a row of `schema_migrations`. -/
def record (version : UInt32) : Statement Name Column Value :=
  .insertValues .schemaMigrations [.version, .appliedAtMs] [.integer version.toNat, .integer (now version)]

/-- The loop over the migrations. -/
def applyEach (applied : Multiset UInt32) : List Migration → Storage Unit
  | [] => pure ()
  | migration :: rest =>
    if migration.version ∈ applied then applyEach applied rest
    else do
      executeBatch S migration.sql
      statement (execute S (record now migration.version))
      applyEach applied rest

def applyMigrations : Storage Unit :=
  match validateMigrations with
  | .error e => throw e
  | .ok () => do
    let applied ← statement readApplied
    transaction .sqlite (applyEach S now applied migrations)

end KW.Migrations
