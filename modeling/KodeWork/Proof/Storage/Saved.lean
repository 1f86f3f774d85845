import KodeWork.Framework.Lookup
import KodeWork.Proof.Storage.Records

/-!
# What is saved is found

A project, an action or a run is read back as it was written, except that sixteen bytes are
stored of an identifier and no output of a run (`readProject_values`, `readAction_values`,
`readRun_values`). A save puts one row into its table (`PutsRow`), and the identifier is the
key there. The change goes through where the identifier is free, if it has to be, and what
the row refers to is there (`PutsRow.run_iff`).

So the key finds the record behind the save, and the other keys find what they have found
before (`saved_is_found`).
-/

namespace KW.Repositories

open Sql
open Migrations (Name Column)
open RunRows (Value StorageError)

variable {S : Sqlite} {J : StoreJson} {tables tables' : Tables}

/-! ## Identifiers -/

theorem bytes_mod (n v : Nat) : bytes n (v % Nat.pow 256 n) = bytes n v := by
  induction n generalizing v with
  | zero => rfl
  | succ n ih =>
    have hdiv : v % Nat.pow 256 (n + 1) / 256 = v / 256 % Nat.pow 256 n := by
      show v % (Nat.pow 256 n * 256) / 256 = _
      rw [Nat.mul_comm, Nat.mod_mul_right_div_self]
    have hbyte : UInt8.ofNat (v % Nat.pow 256 (n + 1)) = UInt8.ofNat v := by
      refine UInt8.toNat_inj.mp ?_
      rw [UInt8.toNat_ofNat', UInt8.toNat_ofNat']
      exact Nat.mod_mod_of_dvd _ (Nat.dvd_mul_left 256 (Nat.pow 256 n))
    rw [bytes, bytes, hdiv, ih, hbyte]

/-- The same identifier has the same bytes. -/
theorem idToBlob_inj {a b : Nat} : idToBlob a = idToBlob b ↔ uuid16 a = uuid16 b := by
  constructor
  · intro h
    have hread := blobToId_idToBlob a
    rw [h, blobToId_idToBlob b] at hread
    exact (Except.ok.inj hread).symm
  · intro h
    have hbytes (v : Nat) : bytes 16 (uuid16 v) = bytes 16 v := bytes_mod 16 v
    rw [idToBlob, idToBlob, ← hbytes a, h, hbytes b]

theorem same_idToBlob (a b : Nat) : S.same (idToBlob a) (idToBlob b) = true ↔ uuid16 a = uuid16 b := by
  rw [idToBlob, idToBlob, S.same_blob, decide_eq_true_iff, ← idToBlob_inj, idToBlob, idToBlob, RunRows.Value.blob.injEq]

/-! ## What a key finds -/

/-- The value may be missing in a column of the kind. -/
def Kind.mayBeNull : Kind → Bool
  | .optionId | .optionText | .optionCounter | .optionCode | .unread => true
  | _ => false

theorem Kind.Holds.mayBeNull {k : Kind} (h : k.Holds J .null) : k.mayBeNull = true := by
  cases k with
  | optionId => rfl
  | optionText => rfl
  | optionCounter => rfl
  | optionCode => rfl
  | unread => rfl
  | environment =>
    obtain ⟨t, ht, -⟩ := h
    cases ht
  | noText => cases (show Value.null = .text [] from h)
  | id => obtain ⟨a, ha⟩ := h; cases ha
  | text => obtain ⟨a, ha⟩ := h; cases ha
  | runtime => obtain ⟨a, ha⟩ := h; cases ha
  | mode => obtain ⟨a, ha⟩ := h; cases ha
  | danger => obtain ⟨a, ha⟩ := h; cases ha
  | confirmation => obtain ⟨a, ha⟩ := h; cases ha
  | status => obtain ⟨a, ha⟩ := h; cases ha
  | counter => obtain ⟨a, ha⟩ := h; cases ha

/-- A table that is read by its id in these columns. -/
structure Keyed (name : Name) (d : Sql.TableDef Name Column Value) (columns : List Column) : Prop where
  definition : schema.definition name = some d
  primaryKey : d.primaryKey = [.id]
  first : columns = .id :: columns.tail
  once : .id ∉ columns.tail
  more : columns.tail ≠ []
  names : columns ⊆ d.names
  complete : d.names ⊆ columns
  read : ∀ c ∈ columns, (kind name c).affinity ≠ none
  id : kind name .id = .id
  required : ∀ column ∈ d.columns, column.notNull = true → (kind name column.name).mayBeNull = false
  refers : ∀ k ∈ d.foreignKeys, k.table ≠ name ∧ k.key = .id
  referred : ∀ other, ∀ k ∈ schema.foreignKeys other, k.table = name → k.key ∉ columns.tail

theorem keyed_projects : Keyed .projects Migrations.projects projectColumns where
  definition := rfl
  primaryKey := rfl
  first := rfl
  once := by decide
  more := by decide
  names := by decide
  complete := by decide
  read := by decide
  id := rfl
  required := by decide
  refers := by decide
  referred := by decide

theorem keyed_actions : Keyed .actions Migrations.actions actionColumns where
  definition := rfl
  primaryKey := rfl
  first := rfl
  once := by decide
  more := by decide
  names := by decide
  complete := by decide
  read := by decide
  id := rfl
  required := by decide
  refers := by decide
  referred := by decide

theorem keyed_runs : Keyed .runs Migrations.runsV9 runColumns where
  definition := rfl
  primaryKey := rfl
  first := rfl
  once := by decide
  more := by decide
  names := by decide
  complete := by decide
  read := by decide
  id := rfl
  required := by decide
  refers := by decide
  referred := by decide

theorem coe_select (S : Sqlite) (tables : Tables) (name : Name) (columns : List Column) (v : Value) :
    (select S tables name columns (has S .id v) : Multiset (List Value)) =
      found S.toEngine (tables name) .id columns v := by
  rw [select, ← Multiset.map_coe, S.coe_scan]
  rfl

theorem perm_eq {α : Type} {l l' : List α} (h : l.Perm l') (hone : l.length ≤ 1) : l = l' := by
  cases l with
  | nil => exact (List.nil_perm.mp h).symm
  | cons a l =>
    obtain rfl : l = [] := List.eq_nil_of_length_eq_zero (Nat.le_zero.mp (Nat.le_of_succ_le_succ hone))
    exact (List.singleton_perm.mp h).symm ▸ rfl

theorem card_found (rows : Multiset Row) (c : Column) (columns : List Column) (v : Value) :
    Multiset.card (found S.toEngine rows c columns v) = rows.countP fun row => S.same (row c) v = true := by
  rw [found, Multiset.card_map, Multiset.countP_eq_card_filter]

/-- With a key one row is found at most. -/
theorem length_select {name : Name} {d : Sql.TableDef Name Column Value} {columns : List Column}
    (hkeyed : Keyed name d columns) (hvalid : Valid S.toEngine ⟨schema, tables⟩) (v : Value) :
    (select S tables name columns (has S .id v)).length ≤ 1 := by
  have hcard : (select S tables name columns (has S .id v)).length =
      (tables name).countP fun row => S.same (row .id) v = true := by
    rw [← card_found, ← coe_select, Multiset.coe_card]
  rw [hcard]
  exact (hvalid.meets hkeyed.definition).countP_le_one hkeyed.primaryKey v

theorem lookup_zip_isSome {columns : List Column} {values : List Value} (h : columns.length = values.length)
    {c : Column} (hc : c ∈ columns) : ((columns.zip values).lookup c).isSome := by
  induction columns generalizing values with
  | nil => cases hc
  | cons b columns ih =>
    cases values with
    | nil => cases h
    | cons v values =>
      rw [List.zip_cons_cons, List.lookup_cons]
      by_cases hcb : c = b
      · rw [hcb, beq_self_eq_true]
        rfl
      · rw [beq_false_of_ne hcb]
        exact ih (Nat.succ.inj h) ((List.mem_cons.mp hc).resolve_left hcb)

/-- Values that are read are stored as they are. -/
theorem map_newRow {name : Name} {d : Sql.TableDef Name Column Value} {columns : List Column} {values : List Value}
    (hkeyed : Keyed name d columns) (hlength : columns.length = values.length)
    (hvalues : columns.map (fun c => ((columns.zip values).lookup c).getD .null) = values)
    (hwrites : ∀ column ∈ d.columns, fine J name column.name
      (((columns.zip values).lookup column.name).getD (column.default.getD S.null))) :
    columns.map (newRow S.toEngine d columns values) = values := by
  refine Eq.trans (List.map_congr_left fun c hc => ?_) hvalues
  obtain ⟨column, hcolumn, rfl⟩ := List.mem_map.mp (hkeyed.names hc)
  obtain ⟨v, hv⟩ := Option.isSome_iff_exists.mp (lookup_zip_isSome hlength hc)
  have hfine := hwrites column hcolumn
  obtain ⟨affinity, haffinity⟩ := Option.ne_none_iff_exists'.mp (hkeyed.read _ hc)
  rw [newRow, TableDef.column?_name hcolumn]
  simp only [hv, Option.getD_some] at hfine ⊢
  rw [← kind_affinity name d hkeyed.definition column hcolumn affinity haffinity]
  exact (Kind.Holds.plain hfine haffinity).convert

/-- A row with the identifier has its bytes. -/
theorem id_of_same {name : Name} (hid : kind name .id = .id) {row : Row} (hrow : fine J name .id (row .id)) {uuid : Nat}
    (hsame : S.same (row .id) (idToBlob uuid) = true) : row .id = idToBlob uuid := by
  rw [fine, hid] at hrow
  obtain ⟨slice, hslice⟩ := blob_of_reads hrow
  rw [hslice, idToBlob, S.same_blob] at hsame
  rw [hslice, idToBlob, of_decide_eq_true hsame]

theorem lookup_map {α β : Type} [DecidableEq α] {f : α → β} {l : List α} {a : α} (h : a ∈ l) :
    (l.map fun b => (b, f b)).lookup a = some (f a) := by
  have hzip : (l.map fun b => (b, f b)) = l.zip (l.map f) := by
    have hmap := List.zip_map' (f := id) (g := f) (l := l)
    rw [List.map_id] at hmap
    exact hmap.symm
  rw [hzip, lookup_zip_map h]

/-! ## What is read of a row -/

/-- Of the identifiers sixteen bytes are stored. -/
def Project.stored (project : Project) : Project :=
  { project with id := ⟨uuid16 project.id.uuid⟩, hostId := ⟨uuid16 project.hostId.uuid⟩ }

def storedAction (action : Actions.Action) : Actions.Action :=
  { action with id := ⟨uuid16 action.id.uuid⟩, projectId := ⟨uuid16 action.projectId.uuid⟩ }

/-- Of a run no output is stored. -/
def Run.stored (run : Run) : Run :=
  { run with
    id := ⟨uuid16 run.id.uuid⟩
    actionId := run.actionId.map fun id => ⟨uuid16 id.uuid⟩
    hostId := ⟨uuid16 run.hostId.uuid⟩
    projectId := run.projectId.map fun id => ⟨uuid16 id.uuid⟩
    stdoutPreview := []
    stderrPreview := [] }

theorem readProject_values (project : Project) : readProject J (projectValues J project) = .ok project.stored := by
  simp only [projectValues, readProject, bind, blobToId_idToBlob, HostRows.getText_text, fromText, HostRows.ok_bind,
    HostRows.fromText_toText]
  rfl

theorem readAction_values {action : Actions.Action} (hkeys : action.env.Pairwise fun a b => a.1 < b.1)
    {timeout : Value} (htimeout : sqlTimeout action.timeoutMs = .ok timeout) :
    readAction J (actionValues J action timeout) = .ok (storedAction action) := by
  obtain ⟨n, hread, hn⟩ := getOptionU64_sqlTimeout htimeout
  simp only [actionValues, readAction, bind, blobToId_idToBlob, HostRows.getText_text, fromText, HostRows.ok_bind,
    HostRows.fromText_toText, getOptionText_sqlOptionText, hread, J.readEnv_env hkeys, hn]
  rfl

theorem readRun_values {run : Run} {started finished bytes reconciled : Value}
    (hstarted : RunRows.sqlOptionU64 run.startedAtMs = .ok started)
    (hfinished : RunRows.sqlOptionU64 run.finishedAtMs = .ok finished)
    (hbytes : RunRows.sqlU64 run.outputBytes = .ok bytes)
    (hreconciled : RunRows.sqlOptionU64 run.lastReconciledAtMs = .ok reconciled) :
    readRun J (runValues J run started finished bytes reconciled) = .ok run.stored := by
  simp only [runValues, readRun, bind, blobToId_idToBlob, optionBlobToId_optionToBlob, HostRows.getText_text, fromText,
    HostRows.ok_bind, HostRows.fromText_toText, getOptionText_sqlOptionText, getOptionU64_sqlOptionU64 hstarted,
    getOptionU64_sqlOptionU64 hfinished, getOptionI32_sqlOptionI32, getU64_sqlU64 hbytes,
    getOptionU64_sqlOptionU64 hreconciled, Option.map_map]
  rfl

/-! ## The row of a record -/

/-- The change puts the values into a table under the identifier. -/
structure PutsRow (S : Sqlite) (J : StoreJson) (change : Change) (name : Name) (d : Sql.TableDef Name Column Value)
    (columns : List Column) (values : List Value) (uuid : Nat) : Prop where
  keyed : Keyed name d columns
  puts : change = .insert name columns values ∨ change = .upsert name columns values columns.tail
  length : columns.length = values.length
  lookup : columns.map (fun c => ((columns.zip values).lookup c).getD .null) = values
  head : values.head? = some (idToBlob uuid)
  writes : ∀ column ∈ d.columns, fine J name column.name
    (((columns.zip values).lookup column.name).getD (column.default.getD S.null))

theorem puts_project (project : Project) : PutsRow S J (upsertProjectChange J project) .projects Migrations.projects
    projectColumns (projectValues J project) project.id.uuid where
  keyed := keyed_projects
  puts := .inr rfl
  length := rfl
  lookup := rfl
  head := rfl
  writes := writes_project project _ rfl

theorem puts_action {action : Actions.Action} (hkeys : action.env.Pairwise fun a b => a.1 < b.1) {timeout : Value}
    (htimeout : sqlTimeout action.timeoutMs = .ok timeout) :
    PutsRow S J (.upsert .actions actionColumns (actionValues J action timeout) actionColumns.tail) .actions
      Migrations.actions actionColumns (actionValues J action timeout) action.id.uuid where
  keyed := keyed_actions
  puts := .inr rfl
  length := rfl
  lookup := rfl
  head := rfl
  writes := writes_action hkeys htimeout _ rfl

theorem puts_run {run : Run} {started finished bytes reconciled : Value}
    (h : createRunChange J run = .ok (.insert .runs runColumns (runValues J run started finished bytes reconciled))) :
    PutsRow S J (.insert .runs runColumns (runValues J run started finished bytes reconciled)) .runs
      Migrations.runsV9 runColumns (runValues J run started finished bytes reconciled) run.id.uuid where
  keyed := keyed_runs
  puts := .inl rfl
  length := rfl
  lookup := rfl
  head := rfl
  writes := writes_run h _ rfl

section
variable {change : Change} {name : Name} {d : Sql.TableDef Name Column Value} {columns : List Column}
  {values : List Value} {uuid : Nat} {α : Type} {read : List Value → Except StorageError α}

/-- Only the rows of the table change. -/
theorem PutsRow.rows (h : PutsRow S J change name d columns values uuid)
    (hrun : change.run S.toEngine references tables = some tables') :
    tables' = Function.update tables name (change.rows S.toEngine d (tables name)) := by
  have htable : change.table = name := by
    rcases h.puts with rfl | rfl
    · rfl
    · rfl
  obtain ⟨d', hd', -, hput | ⟨table, chosen, rfl, -⟩⟩ := Change.run_cases hrun
  · rw [htable] at hd' hput
    cases h.keyed.definition.symm.trans hd'
    rw [Sql.putRows] at hput
    split at hput
    · cases hput
      rfl
    · cases hput
  · rcases h.puts with hdelete | hdelete
    · cases hdelete
    · cases hdelete

theorem PutsRow.newRow_id (h : PutsRow S J change name d columns values uuid) :
    newRow S.toEngine d columns values .id = idToBlob uuid := by
  have hfirst := congrArg List.head? (map_newRow h.keyed h.length h.lookup h.writes)
  rw [h.keyed.first, List.map_cons, List.head?_cons, ← h.keyed.first, h.head] at hfirst
  exact Option.some.inj hfirst

/-- An upsert leaves the new values in a row of the same identifier. -/
theorem PutsRow.merged (h : PutsRow S J change name d columns values uuid) (hreadable : Readable J tables) {row : Row}
    (hrow : row ∈ tables name) (hsame : S.same (row .id) (idToBlob uuid) = true) :
    columns.map (setColumns S.toEngine d (columns.tail.map fun c => (c, newRow S.toEngine d columns values c)) row) =
      columns.map (newRow S.toEngine d columns values) := by
  refine List.map_congr_left fun c hc => ?_
  have hnames := h.keyed.names hc
  rw [h.keyed.first] at hc
  cases List.mem_cons.mp hc with
  | inl hc =>
    rw [hc, setColumns_of_notMem d (by rw [map_fst_excluded]; exact h.keyed.once), h.newRow_id]
    exact id_of_same h.keyed.id (hreadable name row hrow d h.keyed.definition .id (hc ▸ hnames)) hsame
  | inr hc =>
    obtain ⟨column, hcolumn, rfl⟩ := List.mem_map.mp hnames
    rw [setColumns, lookup_map hc, TableDef.column?_name hcolumn]
    exact (stored_newRow d columns values).convert column hcolumn

/-- An insertion needs a new identifier. -/
def Free (S : Sqlite) (tables : Tables) (change : Change) (name : Name) (uuid : Nat) : Prop :=
  change.sets = [] → ∀ row ∈ tables name, S.same (row .id) (idToBlob uuid) = false

/-- What the row refers to is there. -/
def Refers (S : Sqlite) (tables : Tables) (d : Sql.TableDef Name Column Value) (row : Row) : Prop :=
  ∀ k ∈ d.foreignKeys, row k.column = .null ∨ ∃ parent ∈ tables k.table, has S .id (row k.column) parent = true

theorem PutsRow.found_rows (h : PutsRow S J change name d columns values uuid)
    (hvalid : Valid S.toEngine ⟨schema, tables⟩) (hreadable : Readable J tables)
    (hfree : Free S tables change name uuid) (v : Value) :
    found S.toEngine (change.rows S.toEngine d (tables name)) .id columns v =
      if S.same (idToBlob uuid) v = true then {values} else found S.toEngine (tables name) .id columns v := by
  have hone : (tables name).countP
      (fun row => S.same (row .id) (newRow S.toEngine d columns values .id) = true) ≤ 1 :=
    (hvalid.meets h.keyed.definition).countP_le_one h.keyed.primaryKey _
  rw [← map_newRow h.keyed h.length h.lookup h.writes, ← h.newRow_id]
  rcases h.puts with rfl | rfl
  · exact found_insert (h.newRow_id ▸ hfree rfl) columns v
  · exact found_upsertRow h.keyed.primaryKey h.keyed.once hone
      (fun row hrow hsame => h.merged hreadable hrow (h.newRow_id ▸ hsame)) v

/-- A row behind the change is one from before or has the values. -/
theorem PutsRow.mem_rows (h : PutsRow S J change name d columns values uuid) (hreadable : Readable J tables) {row : Row}
    (hrow : row ∈ change.rows S.toEngine d (tables name)) :
    row ∈ tables name ∨ columns.map row = columns.map (newRow S.toEngine d columns values) := by
  rcases h.puts with rfl | rfl
  · cases Multiset.mem_add.mp hrow with
    | inl hmem => exact .inl hmem
    | inr hmem => exact .inr (by rw [Multiset.mem_singleton.mp hmem])
  · rcases mem_upsertRow hrow with ⟨old, hold, rfl⟩ | rfl
    · rw [setWhere]
      split
      · case isTrue hsame =>
        rw [h.keyed.primaryKey, sameKey_singleton, h.newRow_id] at hsame
        exact .inr (h.merged hreadable hold hsame)
      · exact .inl hold
    · exact .inr rfl

/-- No required value of the new row is null. -/
theorem PutsRow.newRow_ne_null (h : PutsRow S J change name d columns values uuid)
    {column : Sql.ColumnDef Column Value} (hcolumn : column ∈ d.columns) (hrequired : column.notNull = true) :
    newRow S.toEngine d columns values column.name ≠ S.null := by
  intro hnull
  have hfine : fine J name column.name (newRow S.toEngine d columns values column.name) := by
    rw [newRow, TableDef.column?_name hcolumn]
    exact fine_convert name d h.keyed.definition column hcolumn _ (h.writes column hcolumn)
  rw [hnull, S.null_eq] at hfine
  have hkind := h.keyed.required column hcolumn hrequired
  rw [Kind.Holds.mayBeNull hfine] at hkind
  cases hkind

/-- The change meets the constraints of the table where what the new row refers to is there. -/
theorem PutsRow.meets_iff (h : PutsRow S J change name d columns values uuid)
    (hvalid : Valid S.toEngine ⟨schema, tables⟩) (hreadable : Readable J tables)
    (hfree : Free S tables change name uuid) :
    Meets S.toEngine (Function.update tables name (change.rows S.toEngine d (tables name))) d
        (change.rows S.toEngine d (tables name)) ↔
      Refers S tables d (newRow S.toEngine d columns values) := by
  have hmeets : Meets S.toEngine tables d (tables name) := hvalid.meets h.keyed.definition
  have hvalue {row : Row} (hrow : columns.map row = columns.map (newRow S.toEngine d columns values)) {c : Column}
      (hc : c ∈ d.names) : row c = newRow S.toEngine d columns values c :=
    List.map_inj_left.mp hrow c (h.keyed.complete hc)
  have hparents {k : ForeignKey Name Column} (hk : k ∈ d.foreignKeys) :
      Function.update tables name (change.rows S.toEngine d (tables name)) k.table = tables k.table :=
    Function.update_of_ne (h.keyed.refers k hk).1 _ _
  constructor
  · intro hafter k hk
    have hfound := h.found_rows hvalid hreadable hfree (idToBlob uuid)
    rw [if_pos ((same_idToBlob uuid uuid).mpr rfl)] at hfound
    have hmem : values ∈ found S.toEngine (change.rows S.toEngine d (tables name)) .id columns (idToBlob uuid) := by
      rw [hfound]
      exact Multiset.mem_singleton_self values
    obtain ⟨row, hrow, hvalues⟩ := Multiset.mem_map.mp hmem
    rw [← map_newRow h.keyed h.length h.lookup h.writes] at hvalues
    have hrefers := hafter.refers row (Multiset.mem_of_mem_filter hrow) k hk
    rw [hparents hk, hvalue hvalues (d.foreignKeys_mem k hk), S.null_eq, (h.keyed.refers k hk).2] at hrefers
    exact hrefers
  · intro hrefers
    refine ⟨fun row hrow column hcolumn hrequired => ?_, fun row hrow => ?_, fun row hrow k hk => ?_⟩
    · rcases h.mem_rows hreadable hrow with hold | hnew
      · exact hmeets.notNull row hold column hcolumn hrequired
      · rw [hvalue hnew (List.mem_map_of_mem hcolumn)]
        exact h.newRow_ne_null hcolumn hrequired
    · have hcard := congrArg Multiset.card (h.found_rows hvalid hreadable hfree (row .id))
      rw [card_found] at hcard
      simp only [h.keyed.primaryKey, sameKey_singleton]
      rw [hcard]
      split
      · exact Nat.le_refl 1
      · rw [card_found]
        exact hmeets.countP_le_one h.keyed.primaryKey _
    · rw [hparents hk]
      rcases h.mem_rows hreadable hrow with hold | hnew
      · exact hmeets.refers row hold k hk
      · rw [hvalue hnew (d.foreignKeys_mem k hk), S.null_eq, (h.keyed.refers k hk).2]
        exact hrefers k hk

theorem PutsRow.allowed (h : PutsRow S J change name d columns values uuid) :
    change.Allowed schema d ∧ change.lacks S.toEngine d = false := by
  have htail : columns.tail ⊆ d.names := fun c hc => h.keyed.names (List.mem_of_mem_tail hc)
  rcases h.puts with rfl | rfl
  · exact ⟨⟨h.keyed.names, List.nil_subset _, fun _ _ _ _ => List.not_mem_nil⟩, rfl⟩
  · refine ⟨⟨h.keyed.names, htail, h.keyed.referred⟩, ?_⟩
    rw [Change.lacks, List.any_eq_false]
    intro column hcolumn hlacks
    obtain ⟨hrequired, hnull⟩ := of_decide_eq_true hlacks
    exact h.newRow_ne_null hcolumn hrequired hnull

/-- The change goes through where its identifier is free and what it refers to is there. -/
theorem PutsRow.run_iff (h : PutsRow S J change name d columns values uuid)
    (hvalid : Valid S.toEngine ⟨schema, tables⟩) (hreadable : Readable J tables) :
    (∃ tables', change.run S.toEngine references tables = some tables') ↔
      Free S tables change name uuid ∧ Refers S tables d (newRow S.toEngine d columns values) := by
  constructor
  · rintro ⟨tables', hrun⟩
    have hrows := h.rows hrun
    have hvalid' : Valid S.toEngine ⟨schema, tables'⟩ := Change.run_valid hvalid hrun
    have hmeets : Meets S.toEngine tables' d (tables' name) := hvalid'.meets h.keyed.definition
    have hself : tables' name = change.rows S.toEngine d (tables name) := by
      rw [hrows]
      exact Function.update_self _ _ _
    have hfree : Free S tables change name uuid := by
      intro hsets
      have hone := hmeets.countP_le_one h.keyed.primaryKey (newRow S.toEngine d columns values .id)
      rw [← h.newRow_id]
      rcases h.puts with rfl | rfl
      · rw [hself] at hone
        exact distinct_of_insert hone
      · exact absurd hsets h.keyed.more
    refine ⟨hfree, (h.meets_iff hvalid hreadable hfree).mp ?_⟩
    rw [← hrows, ← hself]
    exact hmeets
  · rintro ⟨hfree, hrefers⟩
    have hmeets := (h.meets_iff hvalid hreadable hfree).mpr hrefers
    refine ⟨Function.update tables name (change.rows S.toEngine d (tables name)), ?_⟩
    rcases h.puts with rfl | rfl
    · rw [Change.run, Change.table, h.keyed.definition, Option.bind_some, if_pos h.allowed]
      exact if_pos hmeets
    · rw [Change.run, Change.table, h.keyed.definition, Option.bind_some, if_pos h.allowed]
      exact if_pos hmeets

theorem PutsRow.found (h : PutsRow S J change name d columns values uuid)
    (hvalid : Valid S.toEngine ⟨schema, tables⟩) (hreadable : Readable J tables)
    (hrun : change.run S.toEngine references tables = some tables') (v : Value) :
    found S.toEngine (tables' name) .id columns v =
      if S.same (idToBlob uuid) v = true then {values} else found S.toEngine (tables name) .id columns v := by
  have hrows : tables' name = change.rows S.toEngine d (tables name) := by
    rw [h.rows hrun]
    exact Function.update_self _ _ _
  have hfree := ((h.run_iff hvalid hreadable).mp ⟨tables', hrun⟩).1
  rw [hrows]
  exact h.found_rows hvalid hreadable hfree v

/-- The identifier finds the values, and every other one what it has found before. -/
theorem PutsRow.selects (h : PutsRow S J change name d columns values uuid)
    (hvalid : Valid S.toEngine ⟨schema, tables⟩) (hreadable : Readable J tables)
    (hrun : change.run S.toEngine references tables = some tables') (id : Nat) :
    select S tables' name columns (has S .id (idToBlob id)) =
      if uuid16 id = uuid16 uuid then [values] else select S tables name columns (has S .id (idToBlob id)) := by
  have hfound := h.found hvalid hreadable hrun (idToBlob id)
  have hsame : S.same (idToBlob uuid) (idToBlob id) = true ↔ uuid16 id = uuid16 uuid :=
    (same_idToBlob uuid id).trans eq_comm
  split
  · case isTrue heq =>
    rw [if_pos (hsame.mpr heq), ← coe_select] at hfound
    exact Multiset.coe_eq_singleton.mp hfound
  · case isFalse hne =>
    rw [if_neg fun hs => hne (hsame.mp hs), ← coe_select, ← coe_select] at hfound
    exact perm_eq (Multiset.coe_eq_coe.mp hfound) (length_select h.keyed (Change.run_valid hvalid hrun) _)

theorem PutsRow.get {β : Type} (h : PutsRow S J change name d columns values uuid) {a : α}
    (hread : read values = .ok a) (hvalid : Valid S.toEngine ⟨schema, tables⟩) (hreadable : Readable J tables)
    (hrun : change.run S.toEngine references tables = some tables') (f : α → β) (id : Nat) :
    (queryRow read (select S tables' name columns (has S .id (idToBlob id)))).map (Option.map f) =
      if uuid16 id = uuid16 uuid then .ok (some (f a))
      else (queryRow read (select S tables name columns (has S .id (idToBlob id)))).map (Option.map f) := by
  rw [h.selects hvalid hreadable hrun id]
  split
  · rw [queryRow, hread]
    rfl
  · rfl

end

/-! ## What a save does -/

/-- What a record is looked up with. -/
inductive Key
  | project (id : Actions.ProjectId)
  | action (id : Actions.ActionId)
  | run (id : RunId)
deriving DecidableEq

inductive Record
  | project (project : Project)
  | action (action : Actions.Action)
  | run (run : Run)

def find (S : Sqlite) (J : StoreJson) (tables : Tables) : Key → Except StorageError (Option Record)
  | .project id => (ProjectRepository.get S J tables id).map (Option.map .project)
  | .action id => (ActionRepository.get S J tables id).map (Option.map .action)
  | .run id => (RunRepository.get S J tables id).map (Option.map .run)

def Key.table : Key → Name
  | .project _ => .projects
  | .action _ => .actions
  | .run _ => .runs

/-- The keys of the other tables find what they have found before. -/
theorem PutsRow.find_other {change : Change} {name : Name} {d : Sql.TableDef Name Column Value} {columns : List Column}
    {values : List Value} {uuid : Nat} (h : PutsRow S J change name d columns values uuid)
    (hrun : change.run S.toEngine references tables = some tables') {key : Key} (hne : key.table ≠ name) :
    find S J tables' key = find S J tables key := by
  have hrows : tables' key.table = tables key.table := by
    rw [h.rows hrun]
    exact Function.update_of_ne hne _ _
  cases key with
  | project id =>
    have hprojects : tables' .projects = tables .projects := hrows
    rw [find, find, ProjectRepository.get, ProjectRepository.get, select, select, hprojects]
  | action id =>
    have hactions : tables' .actions = tables .actions := hrows
    rw [find, find, ActionRepository.get, ActionRepository.get, select, select, hactions]
  | run id =>
    have hruns : tables' .runs = tables .runs := hrows
    rw [find, find, RunRepository.get, RunRepository.get, select, select, hruns]

/-- The key as it is stored. -/
def Key.stored : Key → Key
  | .project id => .project ⟨uuid16 id.uuid⟩
  | .action id => .action ⟨uuid16 id.uuid⟩
  | .run id => .run ⟨uuid16 id.uuid⟩

/-- A call that saves a record. -/
inductive Save
  | project (project : Project)
  | action (action : Actions.Action) (hkeys : action.env.Pairwise fun a b => a.1 < b.1)
  | run (run : Run)

def Save.operation : Save → Operation
  | .project p => .upsertProject p
  | .action a hkeys => .upsertAction a hkeys
  | .run r => .createRun r

def Save.key : Save → Key
  | .project p => .project p.id
  | .action a _ => .action a.id
  | .run r => .run r.id

/-- The record as it is stored. -/
def Save.stored : Save → Record
  | .project p => .project p.stored
  | .action a _ => .action (storedAction a)
  | .run r => .run r.stored

theorem Save.finds {save : Save} {change : Change} (hmakes : save.operation.Makes S J change)
    (hvalid : Valid S.toEngine ⟨schema, tables⟩) (hreadable : Readable J tables)
    (hrun : change.run S.toEngine references tables = some tables') (key : Key) :
    find S J tables' key =
      if key.stored = save.key.stored then .ok (some save.stored) else find S J tables key := by
  cases save with
  | project project =>
    obtain rfl : change = upsertProjectChange J project := hmakes
    have hputs : PutsRow S J _ _ _ _ _ _ := puts_project project
    cases key with
    | project id =>
      have hget := hputs.get (readProject_values project) hvalid hreadable hrun Record.project id.uuid
      simp only [Key.stored, Save.key, Key.project.injEq, Actions.ProjectId.mk.injEq]
      exact hget
    | action id =>
      rw [if_neg (fun h => by cases h)]
      exact hputs.find_other hrun Name.noConfusion
    | run id =>
      rw [if_neg (fun h => by cases h)]
      exact hputs.find_other hrun Name.noConfusion
  | action action hkeys =>
    obtain ⟨timeout, htimeout, rfl⟩ := upsertActionChange_ok hmakes
    have hputs : PutsRow S J _ _ _ _ _ _ := puts_action hkeys htimeout
    cases key with
    | action id =>
      have hget := hputs.get (readAction_values hkeys htimeout) hvalid hreadable hrun Record.action id.uuid
      simp only [Key.stored, Save.key, Key.action.injEq, Actions.ActionId.mk.injEq]
      exact hget
    | project id =>
      rw [if_neg (fun h => by cases h)]
      exact hputs.find_other hrun Name.noConfusion
    | run id =>
      rw [if_neg (fun h => by cases h)]
      exact hputs.find_other hrun Name.noConfusion
  | run run =>
    obtain ⟨started, finished, bytes, reconciled, hstarted, hfinished, hbytes, hreconciled, rfl⟩ :=
      createRunChange_ok hmakes
    have hputs : PutsRow S J _ _ _ _ _ _ := puts_run hmakes
    cases key with
    | run id =>
      have hread := readRun_values (J := J) hstarted hfinished hbytes hreconciled
      have hget := hputs.get hread hvalid hreadable hrun Record.run id.uuid
      simp only [Key.stored, Save.key, Key.run.injEq, RunId.mk.injEq]
      exact hget
    | project id =>
      rw [if_neg (fun h => by cases h)]
      exact hputs.find_other hrun Name.noConfusion
    | action id =>
      rw [if_neg (fun h => by cases h)]
      exact hputs.find_other hrun Name.noConfusion

/-- The change of the save, where its values fit. -/
def Save.change (J : StoreJson) : Save → Except StorageError Change
  | .project p => .ok (upsertProjectChange J p)
  | .action a _ => upsertActionChange J a
  | .run r => createRunChange J r

/-- What the record refers to, of which some may be missing. -/
def Save.parents : Save → List (Name × Option Nat)
  | .project p => [(.hosts, some p.hostId.uuid)]
  | .action a _ => [(.projects, some a.projectId.uuid)]
  | .run r => [(.actions, r.actionId.map (·.uuid)), (.hosts, some r.hostId.uuid), (.projects, r.projectId.map (·.uuid))]

def Present (S : Sqlite) (tables : Tables) (p : Name × Option Nat) : Prop :=
  ∀ uuid ∈ p.2, ∃ row ∈ tables p.1, has S .id (idToBlob uuid) row = true

/-- The save finds no row where it needs a new one. -/
def Save.New (S : Sqlite) (tables : Tables) : Save → Prop
  | .run r => ¬∃ row ∈ tables .runs, has S .id (idToBlob r.id.uuid) row = true
  | _ => True

theorem present_iff (p : Name × Option Nat) :
    (optionToBlob p.2 = .null ∨ ∃ parent ∈ tables p.1, has S .id (optionToBlob p.2) parent = true) ↔
      Present S tables p := by
  obtain ⟨name, uuid⟩ := p
  cases uuid with
  | none => exact iff_of_true (.inl rfl) (fun uuid h => by cases h)
  | some uuid =>
    constructor
    · rintro (hnull | hparent) uuid' huuid
      · cases hnull
      · cases huuid
        exact hparent
    · exact fun h => .inr (h uuid rfl)

theorem PutsRow.refers_iff {change : Change} {name : Name} {d : Sql.TableDef Name Column Value} {columns : List Column}
    {values : List Value} {uuid : Nat} (h : PutsRow S J change name d columns values uuid)
    {parents : List (Name × Option Nat)}
    (hparents : d.foreignKeys.map (fun k => (k.table, ((columns.zip values).lookup k.column).getD .null)) =
      parents.map fun p => (p.1, optionToBlob p.2)) :
    Refers S tables d (newRow S.toEngine d columns values) ↔ ∀ p ∈ parents, Present S tables p := by
  have hlookup := (map_newRow h.keyed h.length h.lookup h.writes).trans h.lookup.symm
  have hvalue (k : ForeignKey Name Column) (hk : k ∈ d.foreignKeys) :
      newRow S.toEngine d columns values k.column = ((columns.zip values).lookup k.column).getD .null :=
    List.map_inj_left.mp hlookup k.column (h.keyed.complete (d.foreignKeys_mem k hk))
  have hrefers : Refers S tables d (newRow S.toEngine d columns values) ↔
      ∀ q ∈ d.foreignKeys.map (fun k => (k.table, ((columns.zip values).lookup k.column).getD .null)),
        q.2 = .null ∨ ∃ parent ∈ tables q.1, has S .id q.2 parent = true := by
    rw [List.forall_mem_map]
    exact forall₂_congr fun k hk => by rw [hvalue k hk]
  rw [hrefers, hparents, List.forall_mem_map]
  exact forall₂_congr fun p _ => present_iff p

/-- The change of a save goes through where its identifier is free, if it needs to be, and
what the record refers to is there. -/
theorem Save.run_iff {save : Save} {c : Change} (hc : save.change J = .ok c)
    (hvalid : Valid S.toEngine ⟨schema, tables⟩) (hreadable : Readable J tables) :
    (∃ tables', c.run S.toEngine references tables = some tables') ↔
      save.New S tables ∧ ∀ p ∈ save.parents, Present S tables p := by
  cases save with
  | project project =>
    obtain rfl : upsertProjectChange J project = c := Except.ok.inj hc
    have hputs : PutsRow S J _ _ _ _ _ _ := puts_project project
    rw [hputs.run_iff hvalid hreadable, hputs.refers_iff (show _ = (Save.project project).parents.map _ from rfl)]
    exact and_congr_left fun _ => iff_of_true (fun hsets => by cases hsets) trivial
  | action action hkeys =>
    obtain ⟨timeout, htimeout, rfl⟩ := upsertActionChange_ok hc
    have hputs : PutsRow S J _ _ _ _ _ _ := puts_action hkeys htimeout
    rw [hputs.run_iff hvalid hreadable,
      hputs.refers_iff (show _ = (Save.action action hkeys).parents.map _ from rfl)]
    exact and_congr_left fun _ => iff_of_true (fun hsets => by cases hsets) trivial
  | run run =>
    obtain ⟨started, finished, bytes, reconciled, hstarted, hfinished, hbytes, hreconciled, rfl⟩ :=
      createRunChange_ok hc
    have hputs : PutsRow S J _ _ _ _ _ _ := puts_run hc
    rw [hputs.run_iff hvalid hreadable, hputs.refers_iff (show _ = (Save.run run).parents.map _ from rfl)]
    refine and_congr_left fun _ => ?_
    rw [Save.New, not_exists]
    simp only [not_and, Bool.not_eq_true]
    exact ⟨fun h => h rfl, fun h _ => h⟩

theorem Save.makes (save : Save) {c : Change} (h : save.change J = .ok c) : save.operation.Makes S J c := by
  cases save with
  | project p => exact (Except.ok.inj h).symm
  | action a hkeys => exact h
  | run r => exact h

theorem Save.call_eq (save : Save) (faults : Nat → Bool) :
    save.operation.call S J faults = executeWith S faults 0 (save.change J) >>= fun _ => pure () := by
  rw [← map_eq_pure_bind]
  cases save with
  | project p => rfl
  | action a hkeys => rfl
  | run r => rfl

/-- One statement outside of a transaction: it is executed, or nothing has happened. -/
theorem exec_executeWith (change : Except StorageError Change) (faults : Nat → Bool) (tables : Tables) :
    (∃ e, (executeWith S faults 0 change).exec (.idle tables) = (.error e, .idle tables) ∧
        ¬(faults 0 = false ∧ ∃ c, change = .ok c ∧ ∃ tables', c.run S.toEngine references tables = some tables')) ∨
      ∃ c tables', faults 0 = false ∧ change = .ok c ∧ c.run S.toEngine references tables = some tables' ∧
        (executeWith S faults 0 change).exec (.idle tables) = (.ok (c.count tables), .idle tables') := by
  cases change with
  | error e =>
    refine .inl ⟨e, rfl, ?_⟩
    rintro ⟨-, c, hc, -⟩
    cases hc
  | ok c =>
    cases hfaults : faults 0 with
    | true =>
      have hfails : (execute S faults 0 c).exec (.idle tables) = (.error .sqlite, .idle tables) :=
        statement_idle_error (if_pos hfaults)
      exact .inl ⟨.sqlite, hfails, (fun h => by cases h.1)⟩
    | false =>
      cases hrun : c.run S.toEngine references tables with
      | some tables' => exact .inr ⟨c, tables', rfl, rfl, hrun, execute_idle hfaults hrun⟩
      | none =>
        have hfails : (execute S faults 0 c).exec (.idle tables) = (.error .sqlite, .idle tables) := by
          refine statement_idle_error ?_
          rw [if_neg (by simp [hfaults]), hrun]
        refine .inl ⟨.sqlite, hfails, ?_⟩
        rintro ⟨-, c', hc, tables', hrun'⟩
        cases hc
        rw [hrun] at hrun'
        cases hrun'

/-- The save goes through: SQLite has no fault, the numbers fit, a run is new, and what the
record refers to is there. -/
def Save.GoesThrough (S : Sqlite) (J : StoreJson) (faults : Nat → Bool) (tables : Tables) (save : Save) : Prop :=
  faults 0 = false ∧ (∃ c, save.change J = .ok c) ∧ save.New S tables ∧ ∀ p ∈ save.parents, Present S tables p

theorem Save.goesThrough_iff {save : Save} {faults : Nat → Bool} (hvalid : Valid S.toEngine ⟨schema, tables⟩)
    (hreadable : Readable J tables) :
    save.GoesThrough S J faults tables ↔
      faults 0 = false ∧ ∃ c, save.change J = .ok c ∧ ∃ tables', c.run S.toEngine references tables = some tables' := by
  constructor
  · rintro ⟨hfaults, ⟨c, hc⟩, hfits⟩
    exact ⟨hfaults, c, hc, (run_iff hc hvalid hreadable).mpr hfits⟩
  · rintro ⟨hfaults, c, hc, hrun⟩
    exact ⟨hfaults, ⟨c, hc⟩, (run_iff hc hvalid hreadable).mp hrun⟩

/-- What a save does: the key of the record finds it, and the other keys find what they have
found before; or nothing is stored. -/
structure Saves (S : Sqlite) (J : StoreJson) (save : Save) (before after : Tables)
    (result : Except StorageError Unit) (through : Prop) : Prop where
  ok_iff : result = .ok () ↔ through
  found : result = .ok () → ∀ key, find S J after key =
    if key.stored = save.key.stored then .ok (some save.stored) else find S J before key
  kept : ∀ e, result = .error e → after = before

theorem saves_exec (save : Save) (faults : Nat → Bool) (hvalid : Valid S.toEngine ⟨schema, tables⟩)
    (hreadable : Readable J tables) :
    ∃ result after, (save.operation.call S J faults).exec (.idle tables) = (result, .idle after) ∧
      Saves S J save tables after result (save.GoesThrough S J faults tables) := by
  rw [save.call_eq, exec_bind, save.goesThrough_iff hvalid hreadable]
  rcases exec_executeWith (S := S) (save.change J) faults tables with
    ⟨e, hexec, hnot⟩ | ⟨c, tables', hfaults, hc, hrun, hexec⟩
  · rw [hexec]
    exact ⟨_, tables, rfl, ⟨iff_of_false (fun h => by cases h) hnot, (fun h => by cases h), fun _ _ => rfl⟩⟩
  · rw [hexec]
    exact ⟨_, tables', rfl, ⟨iff_of_true rfl ⟨hfaults, c, hc, tables', hrun⟩,
      fun _ key => Save.finds (save.makes hc) hvalid hreadable hrun key, (fun e h => by cases h)⟩⟩

/-- From a new database on, whatever has been called before and wherever it failed: a save
goes through exactly where SQLite has no fault, its numbers fit, a run is new and what the
record refers to is there. The key of the record finds it then, with the identifiers of
sixteen bytes and without output, and every other key finds what it has found before. A save
that fails stores nothing. -/
theorem saved_is_found (S : Sqlite) (J : StoreJson) (now : UInt32 → Int) :
    ∃ tables, (Migrations.applyMigrations S.toSqlite now).exec (.idle Migrations.newDatabase) =
        (.ok (), .idle ⟨schema, tables⟩) ∧
      ∀ calls (save : Save) faults, ∃ before result after,
        callAll S J calls (.idle tables) = .idle before ∧
        (save.operation.call S J faults).exec (.idle before) = (result, .idle after) ∧
        Saves S J save before after result (save.GoesThrough S J faults before) := by
  obtain ⟨db, hexec, hversion, hempty⟩ := Migrations.migrated_new S.toSqlite now
  cases db with
  | mk schema' tables =>
    obtain rfl : schema' = schema := hversion.schema
    refine ⟨tables, hexec, fun calls save faults => ?_⟩
    obtain ⟨before, hcalls, hversion', hreadable⟩ :=
      callAll_keeps (J := J)
        (I := fun tables => Migrations.AtVersion S.toSqlite 13 ⟨schema, tables⟩ ∧ Readable J tables)
        ⟨hversion, readable_of_empty hempty⟩ fun p _ change hmakes tables tables' h hrun =>
          ⟨hmakes.keptBy_version tables tables' h.1 hrun, hmakes.readable tables tables' h.2 hrun⟩
    obtain ⟨result, after, hsave, hsaves⟩ := saves_exec save faults hversion'.valid hreadable
    exact ⟨before, result, after, hcalls, hsave, hsaves⟩

def orphanProject : Save := .project ⟨⟨1⟩, ⟨1⟩, "kodework".toList, "/".toList, .tmux⟩

/-- A project of a host that was never stored is not saved. -/
theorem orphanProject_refused :
    ∃ tables e, (Migrations.applyMigrations typed.toSqlite fun _ => 0).exec (.idle Migrations.newDatabase) =
        (.ok (), .idle ⟨schema, tables⟩) ∧
      (orphanProject.operation.call typed serdeJson fun _ => false).exec (.idle tables) = (.error e, .idle tables) := by
  obtain ⟨tables, hnew, hsaves⟩ := saved_is_found typed serdeJson fun _ => 0
  obtain ⟨before, result, after, hcalls, hexec, h⟩ := hsaves [] orphanProject fun _ => false
  obtain rfl : tables = before := by injection hcalls
  obtain ⟨db, hexec', -, hempty⟩ := Migrations.migrated_new typed.toSqlite fun _ => 0
  have hdb : (⟨schema, tables⟩ : Migrations.Db) = db := by injection congrArg Prod.snd (hnew.symm.trans hexec')
  cases result with
  | ok u =>
    obtain ⟨-, -, -, hparents⟩ := h.ok_iff.mp rfl
    have hhost := hparents _ (List.mem_singleton_self _)
    rw [← hdb] at hempty
    have hhosts : tables .hosts = 0 := hempty .hosts (by decide)
    obtain ⟨row, hrow, -⟩ := hhost _ rfl
    exact absurd (hhosts ▸ hrow) (Multiset.notMem_zero row)
  | error e =>
    obtain rfl := h.kept e rfl
    exact ⟨_, e, hnew, hexec⟩

end KW.Repositories
