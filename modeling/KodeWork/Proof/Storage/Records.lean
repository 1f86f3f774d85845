import KodeWork.Proof.Storage.Hosts
import KodeWork.Proof.Storage.RunHistory

/-!
# What is stored is read back

A column of projects, actions and runs holds values of one `Kind`, which says how they are
read. Every call writes such values (`Operation.Makes.writes`), SQLite stores them as they
are (`Kind.Holds.plain`), and a reference that is cleared is one that may be missing. No
read fails for what it finds, then, and no run has output (`reads_succeed`).
-/

namespace KW.Repositories

open Sql
open Migrations (Name Column)
open HostRows (getText getI32)
open RunRows (Value StorageError RunReconciliationUpdate)

variable {S : Sqlite} {J : StoreJson} {tables tables' : Tables}

/-! ## What is in the columns -/

/-- What a column of projects, actions and runs is read as. -/
inductive Kind
  | id
  | optionId
  | text
  | optionText
  | runtime
  | mode
  | danger
  | confirmation
  | environment
  | status
  | noText
  | counter
  | optionCounter
  | optionCode
  | unread
deriving DecidableEq

def kind : Name → Column → Kind
  | .projects, .id | .projects, .hostId | .actions, .id | .actions, .projectId | .runs, .id | .runs, .hostId => .id
  | .runs, .actionId | .runs, .projectId => .optionId
  | .projects, .name | .projects, .remoteCwd | .actions, .name | .actions, .command | .runs, .actionName
  | .runs, .commandSnapshot => .text
  | .actions, .cwd | .runs, .cwdSnapshot | .runs, .remoteSessionRef => .optionText
  | .projects, .preferredRuntime => .runtime
  | .actions, .mode | .runs, .mode => .mode
  | .actions, .dangerLevel => .danger
  | .actions, .confirmation => .confirmation
  | .actions, .envJson => .environment
  | .runs, .status => .status
  | .runs, .stdoutPreview | .runs, .stderrPreview => .noText
  | .runs, .outputBytes => .counter
  | .actions, .timeoutMs | .runs, .startedAtMs | .runs, .finishedAtMs | .runs, .lastReconciledAtMs => .optionCounter
  | .runs, .exitCode => .optionCode
  | _, _ => .unread

/-- The affinity of the columns that are read so. -/
def Kind.affinity : Kind → Option Affinity
  | .id | .optionId => some .blob
  | .counter | .optionCounter | .optionCode => some .integer
  | .unread => none
  | _ => some .text

/-- The value is read without an error. -/
def Reads {α : Type} (read : Value → Except StorageError α) (value : Value) : Prop := ∃ a, read value = .ok a

/-- The value is one that is read so. -/
def Kind.Holds (J : StoreJson) : Kind → Value → Prop
  | .id => Reads blobToId
  | .optionId => Reads optionBlobToId
  | .text => Reads getText
  | .optionText => Reads HostRows.getOptionText
  | .runtime => Reads (fromText J.runtime)
  | .mode => Reads (fromText J.mode)
  | .danger => Reads (fromText J.dangerLevel)
  | .confirmation => Reads (fromText J.confirmation)
  | .environment => fun value => ∃ t, value = .text t ∧ ∃ env, J.readEnv t = some env
  | .status => Reads (fromText J.status)
  | .noText => fun value => value = .text []
  | .counter => Reads getU64
  | .optionCounter => Reads getOptionU64
  | .optionCode => Reads getOptionI32
  | .unread => fun _ => True

/-- What may be in the columns. -/
def fine (J : StoreJson) (name : Name) (c : Column) (value : Value) : Prop := (kind name c).Holds J value

theorem kind_affinity : ∀ name, ∀ d ∈ schema.definition name, ∀ column ∈ d.columns,
    ∀ affinity ∈ (kind name column.name).affinity, affinity = column.affinity := by
  decide

theorem kind_setNull : ∀ name, ∀ k ∈ schema.foreignKeys name, onDelete name k = .setNull →
    kind name k.column = .optionId ∨ kind name k.column = .unread := by
  decide

/-- A column of the affinity stores the value as it is. -/
inductive Plain : Affinity → Value → Prop
  | null (affinity : Affinity) : Plain affinity .null
  | blob (slice : List UInt8) : Plain .blob (.blob slice)
  | text (t : Text) : Plain .text (.text t)
  | integer (n : Int) : Plain .integer (.integer n)

theorem Plain.convert {affinity : Affinity} {value : Value} (h : Plain affinity value) :
    S.convert affinity value = value := by
  cases h with
  | null => exact S.null_eq ▸ (S.convert_eq_null affinity S.null).mpr rfl
  | blob slice => exact S.convert_blob _
  | text t => exact S.convert_text t
  | integer n => exact S.convert_integer n

theorem blob_of_reads {value : Value} (h : Reads blobToId value) : ∃ slice, value = .blob slice := by
  obtain ⟨a, h⟩ := h
  cases value with
  | blob slice => exact ⟨slice, rfl⟩
  | null => cases h
  | integer n => cases h
  | real bits => cases h
  | text t => cases h

theorem plain_blob {value : Value} (h : Reads blobToId value) : Plain .blob value := by
  obtain ⟨slice, rfl⟩ := blob_of_reads h
  exact .blob slice

theorem plain_text {value : Value} (h : Reads getText value) : Plain .text value := by
  obtain ⟨a, h⟩ := h
  cases value with
  | text t => exact .text t
  | null => cases h
  | integer n => cases h
  | real bits => cases h
  | blob slice => cases h

theorem plain_json {α : Type} {json : HostRows.Json α} {value : Value} (h : Reads (fromText json) value) :
    Plain .text value := by
  obtain ⟨a, h⟩ := h
  obtain ⟨t, ht, -⟩ := Actions.ok_of_bind h
  exact plain_text ⟨t, ht⟩

theorem plain_counter {value : Value} (h : Reads getU64 value) : Plain .integer value := by
  obtain ⟨a, h⟩ := h
  cases value with
  | integer n => exact .integer n
  | null => cases h
  | real bits => cases h
  | text t => cases h
  | blob slice => cases h

theorem plain_code {value : Value} (h : Reads getI32 value) : Plain .integer value := by
  obtain ⟨a, h⟩ := h
  cases value with
  | integer n => exact .integer n
  | null => cases h
  | real bits => cases h
  | text t => cases h
  | blob slice => cases h

/-- A value that may be missing. -/
theorem plain_option {α : Type} {affinity : Affinity} {read : Value → Except StorageError α} {value : Value}
    (hplain : Reads read value → Plain affinity value)
    (h : value = .null ∨ Reads (fun value => (read value).map some) value) : Plain affinity value := by
  rcases h with rfl | ⟨a, h⟩
  · exact .null affinity
  · cases hread : read value with
    | error e => simp [hread, Except.map] at h
    | ok b => exact hplain ⟨b, hread⟩

/-- A column of the kind stores the value as it is. -/
theorem Kind.Holds.plain {k : Kind} {value : Value} (h : k.Holds J value) {affinity : Affinity}
    (haffinity : affinity ∈ k.affinity) : Plain affinity value := by
  cases k with
  | id => cases haffinity; exact plain_blob h
  | optionId =>
    cases haffinity
    cases value with
    | null => exact .null _
    | _ => exact plain_option plain_blob (.inr h)
  | text => cases haffinity; exact plain_text h
  | optionText =>
    cases haffinity
    cases value with
    | null => exact .null _
    | _ => exact plain_option plain_text (.inr h)
  | runtime => cases haffinity; exact plain_json h
  | mode => cases haffinity; exact plain_json h
  | danger => cases haffinity; exact plain_json h
  | confirmation => cases haffinity; exact plain_json h
  | environment =>
    cases haffinity
    obtain ⟨t, rfl, -⟩ := h
    exact .text t
  | status => cases haffinity; exact plain_json h
  | noText =>
    cases haffinity
    rw [show value = .text [] from h]
    exact .text []
  | counter => cases haffinity; exact plain_counter h
  | optionCounter =>
    cases haffinity
    cases value with
    | null => exact .null _
    | _ => exact plain_option plain_counter (.inr h)
  | optionCode =>
    cases haffinity
    cases value with
    | null => exact .null _
    | _ => exact plain_option plain_code (.inr h)
  | unread => cases haffinity

theorem fine_convert (name : Name) (d : Sql.TableDef Name Column Value) (hd : d ∈ schema.definition name)
    (column : Sql.ColumnDef Column Value) (hcolumn : column ∈ d.columns) (v : Value) (h : fine J name column.name v) :
    fine J name column.name (S.convert column.affinity v) := by
  cases haffinity : (kind name column.name).affinity with
  | none =>
    have hunread : kind name column.name = .unread := by
      cases hkind : kind name column.name with
      | unread => rfl
      | _ => rw [hkind] at haffinity; cases haffinity
    rw [fine, hunread]
    exact trivial
  | some affinity =>
    have heq := kind_affinity name d hd column hcolumn affinity haffinity
    rw [← heq, (Kind.Holds.plain h haffinity).convert]
    exact h

/-! ## What is written -/

theorem length_bytes (n v : Nat) : (bytes n v).length = n := by
  induction n generalizing v with
  | zero => rfl
  | succ n ih => rw [bytes, List.length_append, ih, List.length_singleton]

/-- The number as sixteen bytes hold it. -/
def uuid16 (uuid : Nat) : Nat := uuid % 340282366920938463463374607431768211456

theorem foldl_bytes (n v k : Nat) :
    (bytes n v).foldl (fun m byte => m * 256 + byte.toNat) k = k * Nat.pow 256 n + v % Nat.pow 256 n := by
  induction n generalizing v k with
  | zero =>
    show k = k * 1 + v % 1
    omega
  | succ n ih =>
    have hbyte : (UInt8.ofNat v).toNat = v % 256 := UInt8.toNat_ofNat'
    rw [bytes, List.foldl_append, ih, List.foldl_cons, List.foldl_nil, hbyte]
    show (k * Nat.pow 256 n + v / 256 % Nat.pow 256 n) * 256 + v % 256 =
      k * (Nat.pow 256 n * 256) + v % (Nat.pow 256 n * 256)
    rw [Nat.mul_comm (Nat.pow 256 n) 256, Nat.mod_mul, Nat.add_mul, Nat.mul_comm 256 (Nat.pow 256 n), Nat.mul_assoc]
    omega

theorem blobToId_idToBlob (uuid : Nat) : blobToId (idToBlob uuid) = .ok (uuid16 uuid) := by
  have hslice : uuidFromSlice (bytes 16 uuid) = some (uuid16 uuid) := by
    have hfold := foldl_bytes 16 uuid 0
    rw [uuidFromSlice, if_pos (length_bytes 16 uuid), hfold, Nat.zero_mul, Nat.zero_add]
    rfl
  rw [idToBlob, blobToId, hslice]

theorem optionBlobToId_optionToBlob (uuid : Option Nat) :
    optionBlobToId (optionToBlob uuid) = .ok (uuid.map uuid16) := by
  cases uuid with
  | none => rfl
  | some uuid =>
    show (blobToId (idToBlob uuid)).map some = _
    rw [blobToId_idToBlob]
    rfl

theorem getOptionText_sqlOptionText (t : Option Text) :
    HostRows.getOptionText (RunRows.sqlOptionText t) = .ok t := by
  cases t <;> rfl

theorem getU64_of_le {n : Nat} (h : n ≤ RunRows.i64Max) : getU64 (.integer n) = .ok (UInt64.ofNat n) := by
  rw [getU64, if_pos ⟨Int.natCast_nonneg n, Int.ofNat_le.mpr h⟩, Int.toNat_natCast]

theorem getU64_sqlU64 {n : UInt64} {value : Value} (h : RunRows.sqlU64 n = .ok value) : getU64 value = .ok n := by
  rw [RunRows.sqlU64] at h
  split at h
  · case isTrue hle =>
    cases h
    rw [getU64_of_le hle, UInt64.ofNat_toNat]
  · cases h

theorem getOptionU64_sqlOptionU64 {n : Option UInt64} {value : Value} (h : RunRows.sqlOptionU64 n = .ok value) :
    getOptionU64 value = .ok n := by
  cases n with
  | none =>
    cases h
    rfl
  | some n =>
    have hread := getU64_sqlU64 h
    cases value with
    | null => cases hread
    | _ => exact congrArg (Except.map some) hread

theorem getOptionU64_sqlTimeout {n : Option Nat} {value : Value} (h : sqlTimeout n = .ok value) :
    ∃ timeout, getOptionU64 value = .ok timeout ∧ timeout.map (·.toNat) = n := by
  cases n with
  | none =>
    cases h
    exact ⟨none, rfl, rfl⟩
  | some n =>
    rw [sqlTimeout] at h
    split at h
    · case isTrue hle =>
      cases h
      have hlt : n < UInt64.size := Nat.lt_of_le_of_lt hle (by decide)
      exact ⟨some (UInt64.ofNat n), congrArg (Except.map some) (getU64_of_le hle),
        congrArg some (UInt64.toNat_ofNat_of_lt hlt)⟩
    · cases h

theorem getOptionI32_sqlOptionI32 (n : Option Int32) : getOptionI32 (RunRows.sqlOptionI32 n) = .ok n := by
  cases n with
  | none => rfl
  | some n => exact congrArg (Except.map some) (HostRows.getI32_toInt n)

theorem reads_id (uuid : Nat) : Reads blobToId (idToBlob uuid) := ⟨_, blobToId_idToBlob uuid⟩

theorem reads_optionId (uuid : Option Nat) : Reads optionBlobToId (optionToBlob uuid) :=
  ⟨_, optionBlobToId_optionToBlob uuid⟩

theorem reads_json {α : Type} (json : HostRows.Json α) (a : α) : Reads (fromText json) (.text (json.toText a)) :=
  ⟨a, HostRows.fromText_toText json a⟩

theorem reads_optionText (t : Option Text) : Reads HostRows.getOptionText (RunRows.sqlOptionText t) :=
  ⟨t, getOptionText_sqlOptionText t⟩

theorem reads_sqlU64 {n : UInt64} {value : Value} (h : RunRows.sqlU64 n = .ok value) : Reads getU64 value :=
  ⟨n, getU64_sqlU64 h⟩

theorem reads_sqlOptionU64 {n : Option UInt64} {value : Value} (h : RunRows.sqlOptionU64 n = .ok value) :
    Reads getOptionU64 value := ⟨n, getOptionU64_sqlOptionU64 h⟩

theorem reads_sqlTimeout {n : Option Nat} {value : Value} (h : sqlTimeout n = .ok value) :
    Reads getOptionU64 value := by
  obtain ⟨timeout, hread, -⟩ := getOptionU64_sqlTimeout h
  exact ⟨timeout, hread⟩

theorem reads_code (n : Option Int32) : Reads getOptionI32 (RunRows.sqlOptionI32 n) :=
  ⟨n, getOptionI32_sqlOptionI32 n⟩

theorem kind_other {name : Name} (h : name ∉ [Name.projects, .actions, .runs]) (c : Column) :
    kind name c = .unread := by
  cases name with
  | projects => exact absurd (by decide) h
  | actions => exact absurd (by decide) h
  | runs => exact absurd (by decide) h
  | _ => rfl

/-- Of the other tables nothing is said. -/
theorem writes_other {change : Change} (name : Name) (htable : change.table = name)
    (h : name ∉ [Name.projects, .actions, .runs]) (d : Sql.TableDef Name Column Value) :
    change.Writes S.toEngine (fine J) d := by
  have hfine (c : Column) (value : Value) : fine J change.table c value := by
    rw [fine, htable, kind_other h]
    exact trivial
  cases change with
  | insert table columns values => exact fun column _ => hfine _ _
  | upsert table columns values sets => exact fun column _ => hfine _ _
  | update table sets chosen => exact fun p _ => hfine _ _
  | delete table chosen => exact trivial

theorem writes_project (project : Project) :
    ∀ d ∈ schema.definition .projects, (upsertProjectChange J project).Writes S.toEngine (fine J) d := by
  intro d hd
  cases hd
  refine List.forall_mem_cons.mpr ⟨reads_id _, List.forall_mem_cons.mpr ⟨reads_id _, ?_⟩⟩
  refine List.forall_mem_cons.mpr ⟨⟨_, rfl⟩, List.forall_mem_cons.mpr ⟨⟨_, rfl⟩, ?_⟩⟩
  exact List.forall_mem_singleton.mpr (reads_json _ _)

theorem writes_action {action : Actions.Action} (hkeys : action.env.Pairwise fun a b => a.1 < b.1) {timeout : Value}
    (htimeout : sqlTimeout action.timeoutMs = .ok timeout) : ∀ d ∈ schema.definition .actions,
    (Sql.Change.upsert Name.actions actionColumns (actionValues J action timeout) actionColumns.tail).Writes S.toEngine
      (fine J) d := by
  intro d hd
  cases hd
  refine List.forall_mem_cons.mpr ⟨reads_id _, List.forall_mem_cons.mpr ⟨reads_id _, ?_⟩⟩
  refine List.forall_mem_cons.mpr ⟨⟨_, rfl⟩, List.forall_mem_cons.mpr ⟨⟨_, rfl⟩, ?_⟩⟩
  refine List.forall_mem_cons.mpr ⟨reads_json _ _, List.forall_mem_cons.mpr ⟨reads_optionText _, ?_⟩⟩
  refine List.forall_mem_cons.mpr ⟨reads_sqlTimeout htimeout, List.forall_mem_cons.mpr ⟨reads_json _ _, ?_⟩⟩
  exact List.forall_mem_cons.mpr ⟨reads_json _ _, List.forall_mem_singleton.mpr ⟨_, rfl, _, J.readEnv_env hkeys⟩⟩

theorem writes_run {run : Run} {change : Change} (h : createRunChange J run = .ok change) :
    ∀ d ∈ schema.definition change.table, change.Writes S.toEngine (fine J) d := by
  obtain ⟨started, finished, bytes, reconciled, hstarted, hfinished, hbytes, hreconciled, rfl⟩ := createRunChange_ok h
  intro d hd
  cases hd
  refine List.forall_mem_cons.mpr ⟨reads_id _, List.forall_mem_cons.mpr ⟨reads_optionId _, ?_⟩⟩
  refine List.forall_mem_cons.mpr ⟨reads_id _, List.forall_mem_cons.mpr ⟨reads_optionId _, ?_⟩⟩
  refine List.forall_mem_cons.mpr ⟨⟨_, rfl⟩, List.forall_mem_cons.mpr ⟨⟨_, rfl⟩, ?_⟩⟩
  refine List.forall_mem_cons.mpr ⟨reads_json _ _, List.forall_mem_cons.mpr ⟨reads_optionText _, ?_⟩⟩
  refine List.forall_mem_cons.mpr ⟨reads_json _ _, List.forall_mem_cons.mpr ⟨reads_sqlOptionU64 hstarted, ?_⟩⟩
  refine List.forall_mem_cons.mpr ⟨reads_sqlOptionU64 hfinished, List.forall_mem_cons.mpr ⟨reads_code _, ?_⟩⟩
  refine List.forall_mem_cons.mpr ⟨reads_optionText _, List.forall_mem_cons.mpr ⟨rfl, ?_⟩⟩
  refine List.forall_mem_cons.mpr ⟨rfl, List.forall_mem_cons.mpr ⟨reads_sqlU64 hbytes, ?_⟩⟩
  exact List.forall_mem_singleton.mpr (reads_sqlOptionU64 hreconciled)

theorem writes_updateStatus {id : RunId} {status : RunStatus} {exitCode : Option Int32} {finishedAtMs : Option UInt64}
    {change : Change} (h : updateStatusChange S J id status exitCode finishedAtMs = .ok change)
    (d : Sql.TableDef Name Column Value) : change.Writes S.toEngine (fine J) d := by
  obtain ⟨finished, hfinished, rfl⟩ := updateStatusChange_ok h
  refine List.forall_mem_cons.mpr ⟨reads_json _ _, List.forall_mem_cons.mpr ⟨reads_code _, ?_⟩⟩
  exact List.forall_mem_singleton.mpr (reads_sqlOptionU64 hfinished)

theorem writes_finish {u : RunReconciliationUpdate} {reconciledAtMs : Option UInt64} {change : Change}
    (h : finishChange S J u reconciledAtMs = .ok change) (d : Sql.TableDef Name Column Value) :
    change.Writes S.toEngine (fine J) d := by
  obtain ⟨finished, bytes, reconciled, hfinished, hbytes, hreconciled, rfl⟩ := finishChange_ok h
  refine List.forall_mem_cons.mpr ⟨reads_json _ _, List.forall_mem_cons.mpr ⟨reads_code _, ?_⟩⟩
  refine List.forall_mem_cons.mpr ⟨reads_sqlOptionU64 hfinished, List.forall_mem_cons.mpr ⟨reads_optionText _, ?_⟩⟩
  refine List.forall_mem_cons.mpr ⟨reads_sqlU64 hbytes, List.forall_mem_cons.mpr ⟨rfl, ?_⟩⟩
  exact List.forall_mem_cons.mpr ⟨rfl, List.forall_mem_singleton.mpr (reads_sqlOptionU64 hreconciled)⟩

theorem writes_recover (d : Sql.TableDef Name Column Value) : (recoverChange S J).Writes S.toEngine (fine J) d :=
  List.forall_mem_cons.mpr ⟨reads_json _ _, List.forall_mem_singleton.mpr ⟨none, rfl⟩⟩

/-- What a call writes is read without an error. -/
theorem Operation.Makes.writes {operation : Operation} {change : Change} (h : operation.Makes S J change) :
    ∀ d ∈ schema.definition change.table, change.Writes S.toEngine (fine J) d := by
  cases operation with
  | upsertHost host =>
    rcases h with rfl | rfl | ⟨address, -, rfl⟩
    · exact fun d _ => writes_other .hosts rfl (by decide) d
    · exact fun d _ => trivial
    · exact fun d _ => writes_other .addresses rfl (by decide) d
  | upsertProject project => exact (show change = _ from h) ▸ writes_project project
  | upsertAction action hkeys =>
    obtain ⟨timeout, htimeout, rfl⟩ := upsertActionChange_ok h
    exact writes_action hkeys htimeout
  | createRun run => exact writes_run h
  | updateStatus id status exitCode finishedAtMs => exact fun d _ => writes_updateStatus h d
  | finish u reconciledAtMs => exact fun d _ => writes_finish h d
  | finishBatch updates =>
    obtain ⟨u, -, h⟩ := h
    exact fun d _ => writes_finish h d
  | recoverOrphanedQuickRuns => exact (show change = _ from h) ▸ fun d _ => writes_recover d
  | createTransfer transfer =>
    obtain ⟨values, rfl⟩ := createTransferChange_ok h
    exact fun d _ => writes_other .transfers rfl (by decide) d
  | updateProgress id transferredBytes status =>
    obtain ⟨transferred, rfl⟩ := updateProgressChange_ok h
    exact fun d _ => writes_other .transfers rfl (by decide) d
  | deleteHost id => exact (show change = _ from h) ▸ fun d _ => trivial
  | deleteProject id => exact (show change = _ from h) ▸ fun d _ => trivial
  | deleteAction id => exact (show change = _ from h) ▸ fun d _ => trivial
  | deleteTunnel id => exact (show change = _ from h) ▸ fun d _ => trivial
  | deleteSnippet id => exact (show change = _ from h) ▸ fun d _ => trivial
  | deleteHostKey hostname port => exact (show change = _ from h) ▸ fun d _ => trivial
  | createSession session => exact (show change = _ from h) ▸ fun d _ => writes_other .sessions rfl (by decide) d
  | updateState id state => exact (show change = _ from h) ▸ fun d _ => writes_other .sessions rfl (by decide) d
  | createTunnel tunnel => exact (show change = _ from h) ▸ fun d _ => writes_other .tunnels rfl (by decide) d
  | upsertSnippet snippet => exact (show change = _ from h) ▸ fun d _ => writes_other .snippets rfl (by decide) d
  | saveHostKey record => exact (show change = _ from h) ▸ fun d _ => writes_other .hostKeys rfl (by decide) d
  | saveForHost record => exact (show change = _ from h) ▸ fun d _ => writes_other .hostKeyIdentities rfl (by decide) d

/-- The columns hold what is read of them. -/
def Readable (J : StoreJson) (tables : Tables) : Prop :=
  ∀ name, ∀ row ∈ tables name, ∀ d ∈ schema.definition name, ∀ c ∈ d.names, fine J name c (row c)

theorem readable_of_empty (h : ∀ name ≠ .schemaMigrations, tables name = 0) : Readable J tables := by
  intro name row hrow d hd c hc
  by_cases hname : name = .schemaMigrations
  · rw [fine, kind_other (by rw [hname]; decide)]
    exact trivial
  · rw [h name hname] at hrow
    exact absurd hrow (Multiset.notMem_zero row)

theorem Operation.Makes.readable {operation : Operation} {change : Change} (h : operation.Makes S J change) :
    KeptBy S (Readable J) change := by
  intro tables tables' hrows hrun
  refine Change.forall_columns fine_convert (fun name k hk hon => ?_) h.writes hrows hrun
  rw [fine, S.null_eq]
  rcases kind_setNull name k hk hon with hkind | hkind
  · rw [hkind]
    exact ⟨none, rfl⟩
  · rw [hkind]
    exact trivial

/-! ## What is read -/

/-- No output of the run is stored. -/
def NoOutput (run : Run) : Prop := run.stdoutPreview = [] ∧ run.stderrPreview = []

theorem readProject_ok {row : Row} (h : ∀ c ∈ Migrations.projects.names, fine J .projects c (row c)) :
    ∃ project, readProject J (projectColumns.map row) = .ok project := by
  obtain ⟨id, hid⟩ : Reads blobToId (row .id) := h .id (by decide)
  obtain ⟨hostId, hhostId⟩ : Reads blobToId (row .hostId) := h .hostId (by decide)
  obtain ⟨name, hname⟩ : Reads getText (row .name) := h .name (by decide)
  obtain ⟨remoteCwd, hremoteCwd⟩ : Reads getText (row .remoteCwd) := h .remoteCwd (by decide)
  obtain ⟨runtime, hruntime⟩ : Reads (fromText J.runtime) (row .preferredRuntime) := h .preferredRuntime (by decide)
  refine ⟨⟨⟨id⟩, ⟨hostId⟩, name, remoteCwd, runtime⟩, ?_⟩
  show readProject J [row .id, row .hostId, row .name, row .remoteCwd, row .preferredRuntime] = _
  simp only [readProject, bind, hid, hhostId, hname, hremoteCwd, hruntime, HostRows.ok_bind]

theorem readAction_ok {row : Row} (h : ∀ c ∈ Migrations.actions.names, fine J .actions c (row c)) :
    ∃ action, readAction J (actionColumns.map row) = .ok action := by
  obtain ⟨id, hid⟩ : Reads blobToId (row .id) := h .id (by decide)
  obtain ⟨projectId, hprojectId⟩ : Reads blobToId (row .projectId) := h .projectId (by decide)
  obtain ⟨name, hname⟩ : Reads getText (row .name) := h .name (by decide)
  obtain ⟨command, hcommand⟩ : Reads getText (row .command) := h .command (by decide)
  obtain ⟨mode, hmode⟩ : Reads (fromText J.mode) (row .mode) := h .mode (by decide)
  obtain ⟨cwd, hcwd⟩ : Reads HostRows.getOptionText (row .cwd) := h .cwd (by decide)
  obtain ⟨timeout, htimeout⟩ : Reads getOptionU64 (row .timeoutMs) := h .timeoutMs (by decide)
  obtain ⟨danger, hdanger⟩ : Reads (fromText J.dangerLevel) (row .dangerLevel) := h .dangerLevel (by decide)
  obtain ⟨confirmation, hconfirmation⟩ : Reads (fromText J.confirmation) (row .confirmation) :=
    h .confirmation (by decide)
  obtain ⟨t, ht, env, henv⟩ : ∃ t, row .envJson = .text t ∧ ∃ env, J.readEnv t = some env := h .envJson (by decide)
  refine ⟨⟨⟨id⟩, ⟨projectId⟩, name, command, mode, cwd, timeout.map (·.toNat), danger, confirmation, env⟩, ?_⟩
  show readAction J [row .id, row .projectId, row .name, row .command, row .mode, row .cwd, row .timeoutMs,
    row .dangerLevel, row .confirmation, row .envJson] = _
  simp only [readAction, bind, hid, hprojectId, hname, hcommand, hmode, hcwd, htimeout, hdanger, hconfirmation, ht,
    HostRows.getText_text, henv, HostRows.ok_bind]

theorem readRun_ok {row : Row} (h : ∀ c ∈ Migrations.runsV9.names, fine J .runs c (row c)) :
    ∃ run, readRun J (runColumns.map row) = .ok run ∧ NoOutput run := by
  obtain ⟨id, hid⟩ : Reads blobToId (row .id) := h .id (by decide)
  obtain ⟨actionId, hactionId⟩ : Reads optionBlobToId (row .actionId) := h .actionId (by decide)
  obtain ⟨hostId, hhostId⟩ : Reads blobToId (row .hostId) := h .hostId (by decide)
  obtain ⟨projectId, hprojectId⟩ : Reads optionBlobToId (row .projectId) := h .projectId (by decide)
  obtain ⟨name, hname⟩ : Reads getText (row .actionName) := h .actionName (by decide)
  obtain ⟨command, hcommand⟩ : Reads getText (row .commandSnapshot) := h .commandSnapshot (by decide)
  obtain ⟨mode, hmode⟩ : Reads (fromText J.mode) (row .mode) := h .mode (by decide)
  obtain ⟨cwd, hcwd⟩ : Reads HostRows.getOptionText (row .cwdSnapshot) := h .cwdSnapshot (by decide)
  obtain ⟨status, hstatus⟩ : Reads (fromText J.status) (row .status) := h .status (by decide)
  obtain ⟨started, hstarted⟩ : Reads getOptionU64 (row .startedAtMs) := h .startedAtMs (by decide)
  obtain ⟨finished, hfinished⟩ : Reads getOptionU64 (row .finishedAtMs) := h .finishedAtMs (by decide)
  obtain ⟨exitCode, hexitCode⟩ : Reads getOptionI32 (row .exitCode) := h .exitCode (by decide)
  obtain ⟨ref, href⟩ : Reads HostRows.getOptionText (row .remoteSessionRef) := h .remoteSessionRef (by decide)
  have hstdout : row .stdoutPreview = .text [] := h .stdoutPreview (by decide)
  have hstderr : row .stderrPreview = .text [] := h .stderrPreview (by decide)
  obtain ⟨bytes, hbytes⟩ : Reads getU64 (row .outputBytes) := h .outputBytes (by decide)
  obtain ⟨reconciled, hreconciled⟩ : Reads getOptionU64 (row .lastReconciledAtMs) := h .lastReconciledAtMs (by decide)
  refine ⟨⟨⟨id⟩, actionId.map Actions.ActionId.mk, ⟨hostId⟩, projectId.map Actions.ProjectId.mk, name, command, mode,
    cwd, status, started, finished, exitCode, ref, [], [], bytes, reconciled⟩, ?_, rfl, rfl⟩
  show readRun J [row .id, row .actionId, row .hostId, row .projectId, row .actionName, row .commandSnapshot, row .mode,
    row .cwdSnapshot, row .status, row .startedAtMs, row .finishedAtMs, row .exitCode, row .remoteSessionRef,
    row .stdoutPreview, row .stderrPreview, row .outputBytes, row .lastReconciledAtMs] = _
  simp only [readRun, bind, hid, hactionId, hhostId, hprojectId, hname, hcommand, hmode, hcwd, hstatus, hstarted,
    hfinished, hexitCode, href, hstdout, hstderr, HostRows.getText_text, hbytes, hreconciled, HostRows.ok_bind]

/-- A query finds rows of its table. -/
theorem mem_select {table : Name} {columns : List Column} {chosen : Row → Bool} {values : List Value}
    (h : values ∈ select S tables table columns chosen) : ∃ row ∈ tables table, columns.map row = values := by
  obtain ⟨row, hrow, rfl⟩ := List.mem_map.mp h
  have hmem : row ∈ (tables table).filter fun row => chosen row = true := by
    rw [← S.coe_scan ((tables table).filter _)]
    exact Multiset.mem_coe.mpr hrow
  exact ⟨row, Multiset.mem_of_mem_filter hmem, rfl⟩

theorem mem_selectOrdered {table : Name} {columns : List Column} {chosen : Row → Bool} {before : Row → Row → Bool}
    {values : List Value} (h : values ∈ selectOrdered S tables table columns chosen before) :
    ∃ row ∈ tables table, columns.map row = values := by
  obtain ⟨row, hrow, rfl⟩ := List.mem_map.mp h
  have hscan := (List.perm_insertionSort _ _).mem_iff.mp hrow
  exact mem_select (List.mem_map_of_mem hscan)

theorem mem_limited {α : Type} {limit : Nat} {rows : List α} {a : α} (h : a ∈ limited limit rows) : a ∈ rows := by
  rw [limited] at h
  split at h
  · exact List.mem_of_mem_take h
  · exact h

theorem queryRow_ok {α : Type} {read : List Value → Except StorageError α} {P : α → Prop} {rows : List (List Value)}
    (h : ∀ values ∈ rows, ∃ a, read values = .ok a ∧ P a) :
    ∃ found, queryRow read rows = .ok found ∧ ∀ a ∈ found, P a := by
  cases rows with
  | nil => exact ⟨none, rfl, fun a ha => by cases ha⟩
  | cons values rows =>
    obtain ⟨a, ha, hP⟩ := h values List.mem_cons_self
    exact ⟨some a, by rw [queryRow, ha]; rfl, fun b hb => Option.some.inj hb ▸ hP⟩

theorem mapM_ok {α : Type} {read : List Value → Except StorageError α} {P : α → Prop} {rows : List (List Value)}
    (h : ∀ values ∈ rows, ∃ a, read values = .ok a ∧ P a) :
    ∃ found, rows.mapM read = .ok found ∧ ∀ a ∈ found, P a := by
  induction rows with
  | nil => exact ⟨[], rfl, fun a ha => by cases ha⟩
  | cons values rows ih =>
    obtain ⟨a, ha, hP⟩ := h values List.mem_cons_self
    obtain ⟨found, hfound, hall⟩ := ih fun values hvalues => h values (List.mem_cons_of_mem _ hvalues)
    refine ⟨a :: found, ?_, List.forall_mem_cons.mpr ⟨hP, hall⟩⟩
    rw [List.mapM_cons, ha, hfound]
    rfl

/-- The runs are read, and none with output. -/
def ReadsRuns (runs : Except StorageError (List Run)) : Prop := ∃ found, runs = .ok found ∧ ∀ run ∈ found, NoOutput run

/-- Every read succeeds. -/
structure ReadsAll (S : Sqlite) (J : StoreJson) (tables : Tables) : Prop where
  project (id : Actions.ProjectId) : ∃ found, ProjectRepository.get S J tables id = .ok found
  projects (hostId : HostId) : ∃ found, ProjectRepository.listByHost S J tables hostId = .ok found
  action (id : Actions.ActionId) : ∃ found, ActionRepository.get S J tables id = .ok found
  actions (projectId : Actions.ProjectId) : ∃ found, ActionRepository.listByProject S J tables projectId = .ok found
  run (id : RunId) : ∃ found, RunRepository.get S J tables id = .ok found ∧ ∀ run ∈ found, NoOutput run
  reconcilable (hostId : HostId) (limit : Nat) :
    ReadsRuns (RunRepository.listReconcilableByHost S J tables hostId limit)
  ofAction (actionId : Actions.ActionId) (limit : Nat) :
    ReadsRuns (RunRepository.listByAction S J tables actionId limit)
  recent (limit : Nat) : ReadsRuns (RunRepository.listRecent S J tables limit)
  recentOf (hostId : HostId) (limit : Nat) : ReadsRuns (RunRepository.listRecentByHost S J tables hostId limit)

/-- What is in readable tables is read. -/
theorem Readable.readsAll (h : Readable J tables) : ReadsAll S J tables := by
  have hproject {values : List Value} (hvalues : ∃ row ∈ tables .projects, projectColumns.map row = values) :
      ∃ project, readProject J values = .ok project ∧ True := by
    obtain ⟨row, hrow, rfl⟩ := hvalues
    obtain ⟨project, hproject⟩ := readProject_ok (h .projects row hrow _ rfl)
    exact ⟨project, hproject, trivial⟩
  have haction {values : List Value} (hvalues : ∃ row ∈ tables .actions, actionColumns.map row = values) :
      ∃ action, readAction J values = .ok action ∧ True := by
    obtain ⟨row, hrow, rfl⟩ := hvalues
    obtain ⟨action, haction⟩ := readAction_ok (h .actions row hrow _ rfl)
    exact ⟨action, haction, trivial⟩
  have hrun {values : List Value} (hvalues : ∃ row ∈ tables .runs, runColumns.map row = values) :
      ∃ run, readRun J values = .ok run ∧ NoOutput run := by
    obtain ⟨row, hrow, rfl⟩ := hvalues
    exact readRun_ok (h .runs row hrow _ rfl)
  refine
    { project := fun id => ?_, projects := fun hostId => ?_, action := fun id => ?_, actions := fun projectId => ?_
      run := fun id => queryRow_ok fun values hvalues => hrun (mem_select hvalues)
      reconcilable := fun hostId limit => mapM_ok fun values hvalues => hrun (mem_selectOrdered (mem_limited hvalues))
      ofAction := fun actionId limit => mapM_ok fun values hvalues => hrun (mem_selectOrdered (mem_limited hvalues))
      recent := fun limit => mapM_ok fun values hvalues => hrun (mem_selectOrdered (mem_limited hvalues))
      recentOf := fun hostId limit => mapM_ok fun values hvalues => hrun (mem_selectOrdered (mem_limited hvalues)) }
  · obtain ⟨found, hfound, -⟩ := queryRow_ok fun values hvalues => hproject (mem_select hvalues)
    exact ⟨found, hfound⟩
  · obtain ⟨found, hfound, -⟩ := mapM_ok fun values hvalues => hproject (mem_selectOrdered hvalues)
    exact ⟨found, hfound⟩
  · obtain ⟨found, hfound, -⟩ := queryRow_ok fun values hvalues => haction (mem_select hvalues)
    exact ⟨found, hfound⟩
  · obtain ⟨found, hfound, -⟩ := mapM_ok fun values hvalues => haction (mem_selectOrdered hvalues)
    exact ⟨found, hfound⟩

/-- From a new database on, whatever is called and wherever it fails, every read of projects,
actions and runs succeeds: nothing is stored that is not read back. No run comes with output. -/
theorem reads_succeed (S : Sqlite) (J : StoreJson) (now : UInt32 → Int) :
    ∃ tables, (Migrations.applyMigrations S.toSqlite now).exec (.idle Migrations.newDatabase) =
        (.ok (), .idle ⟨schema, tables⟩) ∧
      ∀ calls, ∃ tables', callAll S J calls (.idle tables) = .idle tables' ∧ ReadsAll S J tables' := by
  obtain ⟨db, hexec, hversion, hempty⟩ := Migrations.migrated_new S.toSqlite now
  cases db with
  | mk schema' tables =>
    obtain rfl : schema' = schema := hversion.schema
    refine ⟨tables, hexec, fun calls => ?_⟩
    obtain ⟨tables', hcalls, hreadable'⟩ :=
      callAll_keeps (readable_of_empty hempty) fun p _ change hmakes => hmakes.readable
    exact ⟨tables', hcalls, hreadable'.readsAll⟩

/-- After these calls every read succeeds. -/
theorem hostCalls_read : ∃ tables tables', (Migrations.applyMigrations typed.toSqlite fun _ => 0).exec
      (.idle Migrations.newDatabase) = (.ok (), .idle ⟨schema, tables⟩) ∧
    callAll typed serdeJson hostCalls (.idle tables) = .idle tables' ∧ ReadsAll typed serdeJson tables' := by
  obtain ⟨tables, hnew, hreads⟩ := reads_succeed typed serdeJson fun _ => 0
  obtain ⟨tables', hcalls, hall⟩ := hreads hostCalls
  exact ⟨tables, tables', hnew, hcalls, hall⟩

end KW.Repositories
