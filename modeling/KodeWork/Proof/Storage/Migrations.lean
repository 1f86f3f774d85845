import KodeWork.Impl.Migrations
import KodeWork.Proof.Storage.Instances

/-!
# What the migrations keep

`AtVersion n` is a database that the first `n` migrations have left, with any rows since.
One migration takes it to the next version if its script runs (`applyOne_ok`): the schema is
computed, the rows are valid as every script keeps them so, and the version is recorded.

The ninth migration joins every run with its action and the project of that. As the
references are never null and the ids unique, the query finds every run once
(`joined_runs`), so that the new rows are in one-to-one correspondence with the old ones
(`rel_newRuns`) and meet the new constraints (`meets_newRuns`). The twelfth copies the
identities of the hosts; a row of no host, which the old table allows, makes it fail, and
the transaction with it.
-/

namespace KW.Migrations

open Sql
open RunRows (Value)

variable (S : Sqlite) (now : UInt32 → Int)

theorem Sqlite.text_ne_null (t : Text) : Value.text t ≠ S.null := by
  rw [S.null_eq]
  exact Value.noConfusion

/-! ## Versions -/

/-- The schema that the first `n` migrations make. -/
def schemaAt (n : Nat) : Schema Name Column Value := effectAll ((migrations.take n).flatMap (·.sql)) fun _ => none

theorem schemaAt_succ {n : Nat} {m : Migration} (hm : migrations[n]? = some m) :
    schemaAt (n + 1) = effectAll m.sql (schemaAt n) := by
  obtain ⟨hn, hm⟩ := List.getElem?_eq_some_iff.mp hm
  rw [schemaAt, List.take_succ_eq_append_getElem hn, hm, List.flatMap_append, effectAll, List.foldl_append]
  simp [schemaAt, effectAll]

/-- What is recorded of a version. -/
def number (m : Migration) : Int := m.version.toNat

/-- A database that the first `n` migrations have left, with any rows since. -/
structure AtVersion (n : Nat) (db : Db) : Prop where
  schema : db.schema = schemaAt n
  valid : Valid S.toEngine db
  recorded : (db.rows .schemaMigrations).map (fun row => row .version) =
    ((migrations.take n).map fun m => Value.integer (number m) : List Value)

theorem readVersion_number (m : Migration) : readVersion (.integer (number m)) = some m.version := by
  have hlt : (number m) < 4294967296 := by
    have := m.version.toNat_lt
    rw [number]
    omega
  have hnonneg : 0 ≤ number m := Int.natCast_nonneg _
  have hread : UInt32.ofNat (number m).toNat = m.version := by
    rw [number, Int.toNat_natCast]
    exact m.version.ofNat_toNat
  have hrange : 0 ≤ number m ∧ number m < 4294967296 := ⟨hnonneg, hlt⟩
  rw [readVersion, if_pos hrange]
  exact congrArg some hread

theorem filterMap_readVersion (ms : List Migration) :
    (ms.map fun m => Value.integer (number m)).filterMap readVersion = ms.map (·.version) := by
  induction ms with
  | nil => rfl
  | cons m ms ih => rw [List.map_cons, List.filterMap_cons, readVersion_number, ih, List.map_cons]

theorem readApplied_atVersion {n : Nat} {db : Db} (h : AtVersion S n db)
    (htable : ((schemaAt n).definition .schemaMigrations).isSome) :
    readApplied db = .ok (((migrations.take n).map (·.version) : List UInt32), db) := by
  obtain ⟨d, hd⟩ := Option.isSome_iff_exists.mp htable
  rw [readApplied, h.schema, hd]
  dsimp only
  rw [h.recorded]
  rw [Multiset.filterMap_coe, filterMap_readVersion, if_pos]
  refine Multiset.countP_eq_zero.mpr fun v hv hnone => ?_
  obtain ⟨m, -, rfl⟩ := List.mem_map.mp (Multiset.mem_coe.mp hv)
  rw [readVersion_number] at hnone
  cases hnone

/-! ## The loop -/

/-- A migration and its record. -/
def applyOne (db : Db) (m : Migration) : Option Db :=
  (runAll S.toEngine m.sql db).bind fun db' => (record now m.version).run S.toEngine db'

/-- The migrations that are missing. -/
def applyMissing (applied : Multiset UInt32) : List Migration → Db → Option Db
  | [], db => some db
  | m :: rest, db =>
    if m.version ∈ applied then applyMissing applied rest db
    else (applyOne S now db m).bind (applyMissing applied rest)

/-- What a statement makes, as a result. -/
def outcome : Option Db → Except StorageError (Unit × Db)
  | some db => .ok ((), db)
  | none => .error .sqlite

theorem outcome_bind (o : Option Db) (f : Db → Option Db) :
    outcome (o.bind f) = (outcome o).bind fun p => outcome (f p.2) := by
  cases o <;> rfl

theorem follows_execute (s : Statement Name Column Value) :
    Follows (statement (execute S s)) fun db => outcome (s.run S.toEngine db) := by
  have hexecute : execute S s = fun db => outcome (s.run S.toEngine db) := by
    funext db
    rw [execute]
    cases s.run S.toEngine db <;> rfl
  rw [hexecute]
  exact Follows.statement _

theorem follows_executeBatch (sql : Script) :
    Follows (executeBatch S sql) fun db => outcome (runAll S.toEngine sql db) := by
  induction sql with
  | nil => exact Follows.pure ()
  | cons s sql ih =>
    have hrun : (fun db => outcome (runAll S.toEngine (s :: sql) db)) = fun db =>
        (outcome (s.run S.toEngine db)).bind fun p => outcome (runAll S.toEngine sql p.2) :=
      funext fun db => outcome_bind _ _
    rw [hrun]
    exact (follows_execute S s).bind fun _ => ih

theorem follows_applyEach (applied : Multiset UInt32) (ms : List Migration) :
    Follows (applyEach S now applied ms) fun db => outcome (applyMissing S now applied ms db) := by
  induction ms with
  | nil => exact Follows.pure ()
  | cons m rest ih =>
    by_cases hmem : m.version ∈ applied
    · have hskip : (fun db => outcome (applyMissing S now applied (m :: rest) db)) =
          fun db => outcome (applyMissing S now applied rest db) := by
        funext db
        rw [applyMissing, if_pos hmem]
      rw [hskip, applyEach, if_pos hmem]
      exact ih
    · have hrun : (fun db => outcome (applyMissing S now applied (m :: rest) db)) = fun db =>
          (outcome (runAll S.toEngine m.sql db)).bind fun p =>
            (outcome ((record now m.version).run S.toEngine p.2)).bind fun p =>
              outcome (applyMissing S now applied rest p.2) := by
        funext db
        rw [applyMissing, if_neg hmem, applyOne, Option.bind_assoc, outcome_bind]
        exact congrArg _ (funext fun p => outcome_bind _ _)
      rw [hrun, applyEach, if_neg hmem]
      exact (follows_executeBatch S m.sql).bind fun _ => (follows_execute S _).bind fun _ => ih

/-- What `apply_migrations` does on a database that has some of the migrations. -/
theorem applyMigrations_exec {db : Db} {applied : Multiset UInt32} (h : readApplied db = .ok (applied, db)) :
    (applyMigrations S now).exec (.idle db) =
      match applyMissing S now applied migrations db with
      | some db' => (.ok (), .idle db')
      | none => (.error .sqlite, .idle db) := by
  have hvalidate : validateMigrations = .ok () := by decide
  rw [applyMigrations, hvalidate]
  dsimp only
  rw [exec_bind, statement_idle h]
  dsimp only
  rw [transaction_exec (follows_applyEach S now applied migrations)]
  cases applyMissing S now applied migrations db <;> rfl

theorem applyMissing_append {applied : Multiset UInt32} {ms : List Migration} (h : ∀ m ∈ ms, m.version ∈ applied)
    (rest : List Migration) (db : Db) :
    applyMissing S now applied (ms ++ rest) db = applyMissing S now applied rest db := by
  induction ms with
  | nil => rfl
  | cons m ms ih =>
    rw [List.cons_append, applyMissing, if_pos (h m List.mem_cons_self)]
    exact ih fun m' hm' => h m' (List.mem_cons_of_mem _ hm')

/-- One missing migration after another. -/
def applyAll : List Migration → Db → Option Db
  | [], db => some db
  | m :: rest, db => (applyOne S now db m).bind (applyAll rest)

theorem applyMissing_eq {applied : Multiset UInt32} {ms : List Migration} (h : ∀ m ∈ ms, m.version ∉ applied)
    (db : Db) : applyMissing S now applied ms db = applyAll S now ms db := by
  induction ms generalizing db with
  | nil => rfl
  | cons m ms ih =>
    rw [applyMissing, applyAll, if_neg (h m List.mem_cons_self)]
    exact congrArg _ (funext fun db' => ih (fun m' hm' => h m' (List.mem_cons_of_mem _ hm')) db')

theorem nodup_versions : (migrations.map (·.version)).Nodup := by decide

/-- On a database of version `n`, the rest of the migrations. -/
theorem exec_atVersion {n : Nat} {db : Db} (h : AtVersion S n db)
    (htable : ((schemaAt n).definition .schemaMigrations).isSome) :
    (applyMigrations S now).exec (.idle db) =
      match applyAll S now (migrations.drop n) db with
      | some db' => (.ok (), .idle db')
      | none => (.error .sqlite, .idle db) := by
  have hdisjoint : ((migrations.take n).map (·.version)).Disjoint ((migrations.drop n).map (·.version)) := by
    have hnodup := nodup_versions
    rw [← List.take_append_drop n migrations, List.map_append] at hnodup
    exact List.disjoint_of_nodup_append hnodup
  have happly : applyMissing S now ((migrations.take n).map (·.version) : List UInt32) migrations db =
      applyAll S now (migrations.drop n) db := by
    have hpresent : ∀ m ∈ migrations.take n,
        m.version ∈ (((migrations.take n).map (·.version) : List UInt32) : Multiset UInt32) :=
      fun m hm => Multiset.mem_coe.mpr (List.mem_map_of_mem hm)
    have hskip := applyMissing_append S now hpresent (migrations.drop n) db
    rw [List.take_append_drop] at hskip
    rw [hskip]
    exact applyMissing_eq S now (fun m hm hmem => hdisjoint (Multiset.mem_coe.mp hmem) (List.mem_map_of_mem hm)) db
  rw [applyMigrations_exec S now (readApplied_atVersion S h htable), happly]

/-! ## One migration -/

theorem nodup_numbers : (migrations.map number).Nodup := by decide

/-- No version is among the first ones twice. -/
theorem countP_number (m : Migration) (n : Nat) :
    (migrations.take n).countP ((fun v => S.same v (.integer (number m))) ∘ fun m => Value.integer (number m)) ≤ 1 := by
  have hsame : ∀ m' : Migration, (S.same (.integer (number m')) (.integer (number m))) = (number m' == number m) :=
    fun m' => S.same_integer _ _
  have hnodup : ((migrations.take n).map number).Nodup := by
    rw [List.map_take]
    exact nodup_numbers.sublist (List.take_sublist _ _)
  have hcount : ((migrations.take n).map number).count (number m) ≤ 1 := List.nodup_iff_count_le_one.mp hnodup _
  rw [List.count, List.countP_map] at hcount
  refine le_of_eq_of_le (List.countP_congr fun m' _ => ?_) hcount
  rw [Function.comp_apply, Function.comp_apply, hsame]

/-- The time is recorded with the version. -/
theorem record_run {n : Nat} {m : Migration} {db : Db} (hm : migrations[n]? = some m) (hvalid : Valid S.toEngine db)
    (hd : db.schema.definition .schemaMigrations = some schemaMigrations)
    (hrecorded : (db.rows .schemaMigrations).map (fun row => row .version) =
      ((migrations.take n).map fun m => Value.integer (number m) : List Value)) :
    ∃ db', (record now m.version).run S.toEngine db = some db' ∧ db'.schema = db.schema ∧
      (db'.rows .schemaMigrations).map (fun row => row .version) =
        ((migrations.take (n + 1)).map fun m => Value.integer (number m) : List Value) ∧
      ∀ name ≠ .schemaMigrations, db'.rows name = db.rows name := by
  let row : Row Column Value := newRow S.toEngine schemaMigrations [.version, .appliedAtMs]
    [.integer (number m), .integer (now m.version)]
  let rows := db.rows .schemaMigrations + {row}
  have hversion : row .version = .integer (number m) := S.convert_integer _
  have hrows : rows.map (fun row => row .version) =
      ((migrations.take (n + 1)).map fun m => Value.integer (number m) : List Value) := by
    obtain ⟨hn, hm⟩ := List.getElem?_eq_some_iff.mp hm
    rw [Multiset.map_add, hrecorded, Multiset.map_singleton, hversion, List.take_succ_eq_append_getElem hn, hm,
      List.map_append]
    rfl
  have hmeets : Meets S.toEngine (Function.update db.rows .schemaMigrations rows) schemaMigrations rows := by
    refine ⟨fun r hr column hcolumn hnotNull => ?_, fun r hr => ?_, fun r _ k hk => absurd hk List.not_mem_nil⟩
    · cases Multiset.mem_add.mp hr with
      | inl hr => exact (hvalid.meets hd).notNull r hr column hcolumn hnotNull
      | inr hr =>
        have htime : row .appliedAtMs ≠ S.null := by
          have hvalue : row .appliedAtMs = .integer (now m.version) := S.convert_integer _
          rw [hvalue, S.null_eq]
          exact Value.noConfusion
        rw [Multiset.mem_singleton.mp hr]
        cases hcolumn with
        | head => cases hnotNull
        | tail _ hcolumn =>
          rw [List.mem_singleton.mp hcolumn]
          exact htime
    · have hmem : r .version ∈ rows.map fun row => row .version := Multiset.mem_map_of_mem _ hr
      rw [hrows] at hmem
      obtain ⟨m', -, hm'⟩ := List.mem_map.mp (Multiset.mem_coe.mp hmem)
      have hcount : rows.countP (fun r' => S.toEngine.sameKey schemaMigrations.primaryKey r' r) =
          (rows.map fun row => row .version).countP fun v => S.same v (.integer (number m')) := by
        rw [Multiset.countP_map, ← Multiset.countP_eq_card_filter, hm']
        refine Multiset.countP_congr rfl fun r' _ => ?_
        show ((S.same (r' .version) (r .version) && true) = true) = _
        rw [Bool.and_true]
      rw [hcount, hrows, Multiset.coe_countP, List.countP_map]
      simp only [Bool.decide_eq_true]
      exact countP_number S m' (n + 1)
  refine ⟨⟨db.schema, Function.update db.rows .schemaMigrations rows⟩, ?_, rfl, ?_, fun name hne => ?_⟩
  · have hallowed : (record now m.version).Allowed db.schema := ⟨schemaMigrations, hd, by decide⟩
    have hstep : (record now m.version).rows S.toEngine db.schema db.rows =
        some (Function.update db.rows .schemaMigrations rows) := by
      show ((db.schema.definition .schemaMigrations).bind fun d => _) = _
      rw [hd]
      exact if_pos hmeets
    rw [Statement.run, if_pos hallowed, hstep]
    rfl
  · show (Function.update db.rows .schemaMigrations rows .schemaMigrations).map _ = _
    rw [Function.update_self]
    exact hrows
  · exact Function.update_of_ne hne _ _

/-- One migration, from what it does to the rows. -/
theorem applyOne_ok {n : Nat} {m : Migration} {db : Db} {tables : Tables Name Column Value} (h : AtVersion S n db)
    (hm : migrations[n]? = some m) (hallowed : AllowedAll m.sql (schemaAt n))
    (hd : (schemaAt (n + 1)).definition .schemaMigrations = some schemaMigrations)
    (hrows : rowsAll S.toEngine m.sql (schemaAt n) db.rows = some tables)
    (hkept : tables .schemaMigrations = db.rows .schemaMigrations) :
    ∃ db', applyOne S now db m = some db' ∧ AtVersion S (n + 1) db' ∧
      ∀ name ≠ .schemaMigrations, db'.rows name = tables name := by
  have hrun : runAll S.toEngine m.sql db = some ⟨schemaAt (n + 1), tables⟩ := by
    rw [runAll_eq S.toEngine (by rwa [h.schema]), h.schema, hrows, schemaAt_succ hm]
    rfl
  have hbefore : (tables .schemaMigrations).map (fun row => row .version) =
      ((migrations.take n).map fun m => Value.integer (number m) : List Value) := by
    rw [hkept]
    exact h.recorded
  obtain ⟨db', hrecord, hschema, hrecorded, hrows'⟩ :=
    record_run S now hm (runAll_valid h.valid hrun) hd hbefore
  have hone : applyOne S now db m = some db' := by rw [applyOne, hrun, Option.bind_some, hrecord]
  exact ⟨db', hone, ⟨hschema, Statement.run_valid (runAll_valid h.valid hrun) hrecord, hrecorded⟩, hrows'⟩

/-! ## The runs of the ninth version -/

theorem rowsAll_nine (tables : Tables Name Column Value) :
    rowsAll S.toEngine durableRunHistory (schemaAt 8) tables =
      (putRows S.toEngine (Function.update tables .runsV9 0) .runsV9 runsV9
        (0 + (selectRuns.joined S.toEngine tables).map fun e =>
          newRow S.toEngine runsV9 runsV9Columns (selectRuns.columns.map (·.eval e)))).bind fun tables =>
        some (Function.update (Function.update (Function.update tables .runs 0) .runsV9 0) .runs (tables .runsV9)) :=
  rfl

/-- A run that the query has found with its action and its project. -/
structure Found (tables : Tables Name Column Value) (e : Joined Name Column Value) : Prop where
  run : e .runs ∈ tables .runs
  action : e .actions ∈ tables .actions
  project : e .projects ∈ tables .projects
  actionId : S.same (e .actions .id) (e .runs .actionId) = true
  projectId : S.same (e .projects .id) (e .actions .projectId) = true

/-- The query finds every run once. -/
theorem joined_runs {tables : Tables Name Column Value} (hruns : Meets S.toEngine tables runs (tables .runs))
    (hactions : Meets S.toEngine tables actions (tables .actions))
    (hprojects : Meets S.toEngine tables projects (tables .projects)) :
    (selectRuns.joined S.toEngine tables).map (fun e => e .runs) = tables .runs ∧
      ∀ e ∈ selectRuns.joined S.toEngine tables, Found S tables e := by
  let withAction : Join Name Column := ⟨.actions, (.actions, .id), (.runs, .actionId)⟩
  let withProject : Join Name Column := ⟨.projects, (.projects, .id), (.actions, .projectId)⟩
  let first : Multiset (Joined Name Column Value) :=
    (tables .runs).map (Function.update (fun _ _ => S.null) .runs)
  let second := withAction.apply S.toEngine tables first
  -- every run has one action
  have hfirst : ∀ e ∈ first, e .runs ∈ tables .runs := by
    intro e he
    obtain ⟨run, hrun, rfl⟩ := Multiset.mem_map.mp he
    exact hrun
  have hone : ∀ e ∈ first, (withAction.matching S.toEngine tables e).card = 1 := by
    intro e he
    refine Join.card_matching hactions rfl rfl (by decide) ?_
    exact hruns.parent (hfirst e he) List.mem_cons_self (by decide : required (blob .actionId) ∈ runs.columns) rfl rfl
  have hsecond : ∀ e ∈ second, e .runs ∈ tables .runs ∧ e .actions ∈ tables .actions ∧
      S.same (e .actions .id) (e .runs .actionId) = true := by
    intro e he
    obtain ⟨e', he', action, haction, rfl, hsame⟩ := Join.mem_apply he
    exact ⟨hfirst e' he', haction, hsame⟩
  -- and its action has one project
  have hone' : ∀ e ∈ second, (withProject.matching S.toEngine tables e).card = 1 := by
    intro e he
    refine Join.card_matching hprojects rfl rfl (by decide) ?_
    exact hactions.parent (hsecond e he).2.1 List.mem_cons_self
      (by decide : required (blob .projectId) ∈ actions.columns) rfl rfl
  constructor
  · calc (withProject.apply S.toEngine tables second).map (fun e => e .runs)
      _ = second.map fun e => e .runs := Join.map_apply (fun e row => rfl) hone'
      _ = first.map fun e => e .runs := Join.map_apply (fun e row => rfl) hone
      _ = tables .runs := by
        rw [Multiset.map_map]
        exact Multiset.map_id _
  · intro e he
    have hjoin : e ∈ withProject.apply S.toEngine tables second := he
    obtain ⟨e', he', project, hproject, rfl, hsame⟩ := Join.mem_apply hjoin
    obtain ⟨hrun, haction, hactionId⟩ := hsecond e' he'
    exact ⟨hrun, haction, hproject, hactionId, hsame⟩

/-- The rows of the runs in the ninth version. -/
def newRuns (tables : Tables Name Column Value) : Multiset (Row Column Value) :=
  (selectRuns.joined S.toEngine tables).map fun e =>
    newRow S.toEngine runsV9 runsV9Columns (selectRuns.columns.map (·.eval e))

/-- The row of a run with what it has from its action and its project. -/
structure Migrated (tables : Tables Name Column Value) (old new : Row Column Value) : Prop where
  id : new .id = old .id
  actionId : new .actionId = old .actionId
  status : new .status = old .status
  startedAtMs : new .startedAtMs = old .startedAtMs
  finishedAtMs : new .finishedAtMs = old .finishedAtMs
  exitCode : new .exitCode = old .exitCode
  remoteSessionRef : new .remoteSessionRef = old .remoteSessionRef
  outputBytes : new .outputBytes = old .outputBytes
  stdoutPreview : new .stdoutPreview = .text []
  stderrPreview : new .stderrPreview = .text []
  lastReconciledAtMs : new .lastReconciledAtMs = .null
  snapshots : ∃ action ∈ tables .actions, ∃ project ∈ tables .projects,
    S.same (action .id) (old .actionId) = true ∧ S.same (project .id) (action .projectId) = true ∧
      new .hostId = project .hostId ∧ new .projectId = action .projectId ∧ new .actionName = action .name ∧
      new .commandSnapshot = action .command ∧ new .mode = action .mode ∧ new .cwdSnapshot = action .cwd

theorem migrated_of_found {tables : Tables Name Column Value} {e : Joined Name Column Value} (h : Found S tables e)
    (hrun : Stored S.toEngine runs (e .runs)) (haction : Stored S.toEngine actions (e .actions))
    (hproject : Stored S.toEngine projects (e .projects)) :
    Migrated S tables (e .runs)
      (newRow S.toEngine runsV9 runsV9Columns (selectRuns.columns.map (·.eval e))) where
  id := hrun.convert (blob .id) (by decide)
  actionId := hrun.convert (required (blob .actionId)) (by decide)
  status := hrun.convert (required (text .status)) (by decide)
  startedAtMs := hrun.convert (integer .startedAtMs) (by decide)
  finishedAtMs := hrun.convert (integer .finishedAtMs) (by decide)
  exitCode := hrun.convert (integer .exitCode) (by decide)
  remoteSessionRef := hrun.convert (text .remoteSessionRef) (by decide)
  outputBytes := hrun.convert (required (integer .outputBytes)) (by decide)
  stdoutPreview := S.convert_text []
  stderrPreview := S.convert_text []
  lastReconciledAtMs := by
    have hnull := (S.convert_eq_null .integer S.null).mpr rfl
    rw [S.null_eq] at hnull
    exact hnull
  snapshots :=
    ⟨e .actions, h.action, e .projects, h.project, h.actionId, h.projectId,
      hproject.convert (required (blob .hostId)) (by decide),
      haction.convert (required (blob .projectId)) (by decide),
      haction.convert (required (text .name)) (by decide),
      haction.convert (required (text .command)) (by decide),
      haction.convert (required (text .mode)) (by decide),
      haction.convert (text .cwd) (by decide)⟩

/-- Every run has one row among the new ones. -/
theorem rel_newRuns {db : Db} (h : AtVersion S 8 db) :
    Multiset.Rel (Migrated S db.rows) (db.rows .runs) (newRuns S db.rows) := by
  have hruns : db.schema.definition .runs = some runs := by rw [h.schema]; decide
  have hactions : db.schema.definition .actions = some actions := by rw [h.schema]; decide
  have hprojects : db.schema.definition .projects = some projects := by rw [h.schema]; decide
  obtain ⟨hkept, hfound⟩ := joined_runs S (h.valid.meets hruns) (h.valid.meets hactions) (h.valid.meets hprojects)
  rw [← hkept, newRuns, Multiset.rel_map]
  refine Multiset.rel_refl_of_refl_on fun e he => ?_
  have hfound := hfound e he
  exact migrated_of_found S hfound (h.valid.stored hruns _ hfound.run) (h.valid.stored hactions _ hfound.action)
    (h.valid.stored hprojects _ hfound.project)

/-- The columns of a run that are never null. -/
theorem Migrated.notNull {tables : Tables Name Column Value} {old new : Row Column Value}
    (h : Migrated S tables old new) (hold : old ∈ tables .runs) (hruns : Meets S.toEngine tables runs (tables .runs))
    (hactions : Meets S.toEngine tables actions (tables .actions))
    (hprojects : Meets S.toEngine tables projects (tables .projects)) :
    ∀ column ∈ runsV9.columns, column.notNull = true → new column.name ≠ S.null := by
  obtain ⟨action, haction, project, hproject, -, -, hhostId, -, hname, hcommand, hmode, -⟩ := h.snapshots
  have hrequired : ∀ column ∈ runsV9.columns, column.notNull = true →
      column.name ∈ ([.hostId, .actionName, .commandSnapshot, .mode, .status, .stdoutPreview, .stderrPreview,
        .outputBytes] : List Column) := by decide
  intro column hcolumn hnotNull
  have hmem := hrequired column hcolumn hnotNull
  simp only [List.mem_cons, List.not_mem_nil, or_false] at hmem
  rcases hmem with hc | hc | hc | hc | hc | hc | hc | hc <;> rw [hc]
  · rw [hhostId]
    exact hprojects.notNull project hproject (required (blob .hostId)) (by decide) rfl
  · rw [hname]
    exact hactions.notNull action haction (required (text .name)) (by decide) rfl
  · rw [hcommand]
    exact hactions.notNull action haction (required (text .command)) (by decide) rfl
  · rw [hmode]
    exact hactions.notNull action haction (required (text .mode)) (by decide) rfl
  · rw [h.status]
    exact hruns.notNull old hold (required (text .status)) (by decide) rfl
  · rw [h.stdoutPreview]
    exact S.text_ne_null []
  · rw [h.stderrPreview]
    exact S.text_ne_null []
  · rw [h.outputBytes]
    exact hruns.notNull old hold (required (integer .outputBytes)) (by decide) rfl

/-- What a run refers to. -/
theorem Migrated.refers {tables : Tables Name Column Value} {old new : Row Column Value}
    (h : Migrated S tables old new) (hprojects : Meets S.toEngine tables projects (tables .projects)) :
    ∀ k ∈ runsV9.foreignKeys, ∃ parent ∈ tables k.table, S.same (parent k.key) (new k.column) = true := by
  obtain ⟨action, haction, project, hproject, hactionId, hprojectId, hhostId, hproject', -⟩ := h.snapshots
  intro k hk
  simp only [runsV9, List.mem_cons, List.not_mem_nil, or_false] at hk
  rcases hk with rfl | rfl | rfl
  · refine ⟨action, haction, ?_⟩
    show S.same (action .id) (new .actionId) = true
    rw [h.actionId]
    exact hactionId
  · show ∃ parent ∈ tables .hosts, S.same (parent .id) (new .hostId) = true
    rw [hhostId]
    exact hprojects.parent hproject List.mem_cons_self (by decide : required (blob .hostId) ∈ projects.columns) rfl rfl
  · refine ⟨project, hproject, ?_⟩
    show S.same (project .id) (new .projectId) = true
    rw [hproject']
    exact hprojectId

theorem meets_newRuns {db : Db} (h : AtVersion S 8 db) : Meets S.toEngine db.rows runsV9 (newRuns S db.rows) := by
  have hruns : Meets S.toEngine db.rows runs (db.rows .runs) :=
    h.valid.meets (by rw [h.schema]; decide)
  have hactions : Meets S.toEngine db.rows actions (db.rows .actions) :=
    h.valid.meets (by rw [h.schema]; decide)
  have hprojects : Meets S.toEngine db.rows projects (db.rows .projects) :=
    h.valid.meets (by rw [h.schema]; decide)
  have hrel := rel_newRuns S h
  have hold : ∀ new ∈ newRuns S db.rows, ∃ old ∈ db.rows .runs, Migrated S db.rows old new :=
    fun new hnew => Multiset.exists_mem_of_rel_of_mem (Multiset.rel_flip.mpr hrel) hnew
  refine ⟨fun new hnew => ?_, fun new _ => ?_, fun new hnew k hk => .inr ?_⟩
  · obtain ⟨old, hmem, hmigrated⟩ := hold new hnew
    exact hmigrated.notNull S hmem hruns hactions hprojects
  · have hids : (newRuns S db.rows).map (fun row => row .id) = (db.rows .runs).map fun row => row .id := by
      refine (Multiset.rel_eq.mp (Multiset.rel_map.mpr (hrel.mono fun old _ new _ hmigrated => ?_))).symm
      exact hmigrated.id.symm
    exact hruns.countP_sameKey rfl hids new
  · obtain ⟨old, -, hmigrated⟩ := hold new hnew
    exact hmigrated.refers S hprojects k hk

/-! ## The five migrations -/

/-- `durable_run_history`. -/
theorem applyOne_nine {db : Db} (h : AtVersion S 8 db) :
    ∃ db', applyOne S now db ⟨9, durableRunHistory⟩ = some db' ∧ AtVersion S 9 db' ∧
      db'.rows .runs = newRuns S db.rows := by
  have hmeets : Meets S.toEngine
      (Function.update (Function.update db.rows .runsV9 0) .runsV9 (0 + newRuns S db.rows)) runsV9
      (0 + newRuns S db.rows) := by
    have hnew : Meets S.toEngine (Function.update db.rows .runsV9 0) runsV9 (newRuns S db.rows) :=
      (meets_newRuns S h).update_of_ne (by decide) 0
    rw [zero_add]
    exact hnew.update_of_ne (by decide) _
  have hrows : rowsAll S.toEngine durableRunHistory (schemaAt 8) db.rows = _ :=
    (rowsAll_nine S db.rows).trans (congrArg (Option.bind · _) (if_pos hmeets))
  obtain ⟨db', hone, hversion, hrows⟩ := applyOne_ok S now (m := ⟨9, durableRunHistory⟩) h rfl
    (by decide) (by decide) hrows rfl
  refine ⟨db', hone, hversion, (hrows _ (by decide)).trans ?_⟩
  exact zero_add _

/-- `host_scoped_host_key_identities`. -/
theorem applyOne_ten {db : Db} (h : AtVersion S 9 db) :
    ∃ db', applyOne S now db ⟨10, hostScopedHostKeyIdentities⟩ = some db' ∧ AtVersion S 10 db' ∧
      db'.rows .hostKeyIdentities = 0 ∧ db'.rows .runs = db.rows .runs := by
  obtain ⟨db', hone, hversion, hrows⟩ := applyOne_ok S now (m := ⟨10, hostScopedHostKeyIdentities⟩) h rfl
    (by decide) (by decide) rfl rfl
  exact ⟨db', hone, hversion, hrows _ (by decide), hrows _ (by decide)⟩

/-- What the eleventh migration sets. -/
def noPreviews : List (Column × Value) := [(.stdoutPreview, .text []), (.stderrPreview, .text [])]

def clear (row : Row Column Value) : Row Column Value := setColumns S.toEngine runsV9 noPreviews row

theorem clear_preview {c : Column} (hc : c ∈ noPreviews.map Prod.fst) (row : Row Column Value) :
    clear S row c = .text [] := by
  simp only [noPreviews, List.map_cons, List.map_nil, List.mem_cons, List.not_mem_nil, or_false] at hc
  rcases hc with rfl | rfl <;> exact S.convert_text []

theorem clear_other {c : Column} (hc : c ∉ noPreviews.map Prod.fst) (row : Row Column Value) : clear S row c = row c :=
  setColumns_of_notMem runsV9 hc row

/-- A migrated run has nothing to clear. -/
theorem clear_migrated {tables : Tables Name Column Value} {old new : Row Column Value}
    (h : Migrated S tables old new) : clear S new = new := by
  funext c
  by_cases hc : c ∈ noPreviews.map Prod.fst
  · rw [clear_preview S hc]
    simp only [noPreviews, List.map_cons, List.map_nil, List.mem_cons, List.not_mem_nil, or_false] at hc
    rcases hc with rfl | rfl
    · exact h.stdoutPreview.symm
    · exact h.stderrPreview.symm
  · exact clear_other S hc new

/-- `remove_persisted_run_output_previews`. -/
theorem applyOne_eleven {db : Db} (h : AtVersion S 10 db) :
    ∃ db', applyOne S now db ⟨11, removePersistedRunOutputPreviews⟩ = some db' ∧ AtVersion S 11 db' ∧
      db'.rows .hostKeyIdentities = db.rows .hostKeyIdentities ∧
      db'.rows .runs = (db.rows .runs).map (clear S) := by
  have hruns : Meets S.toEngine db.rows runsV9 (db.rows .runs) := h.valid.meets (by rw [h.schema]; decide)
  have hmeets : Meets S.toEngine (Function.update db.rows .runs ((db.rows .runs).map (clear S))) runsV9
      ((db.rows .runs).map (clear S)) := by
    refine (hruns.map rfl rfl (fun row hrow column hcolumn hnotNull => ?_) fun row c hc => ?_).update_of_ne
      (by decide) _
    · by_cases hc : column.name ∈ noPreviews.map Prod.fst
      · rw [clear_preview S hc]
        exact S.text_ne_null []
      · rw [clear_other S hc]
        exact hruns.notNull row hrow column hcolumn hnotNull
    · have hother : ∀ c ∈ runsV9.primaryKey ++ runsV9.foreignKeys.map (·.column), c ∉ noPreviews.map Prod.fst := by
        decide
      exact clear_other S (hother c hc) row
  have hrows : rowsAll S.toEngine removePersistedRunOutputPreviews (schemaAt 10) db.rows = _ :=
    congrArg (Option.bind · _) (if_pos hmeets)
  obtain ⟨db', hone, hversion, hrows⟩ := applyOne_ok S now (m := ⟨11, removePersistedRunOutputPreviews⟩) h rfl
    (by decide) (by decide) hrows rfl
  exact ⟨db', hone, hversion, hrows _ (by decide), hrows _ (by decide)⟩

/-- What is copied of the identities: all of them. -/
theorem copied_identities {tables : Tables Name Column Value}
    (h : ∀ row ∈ tables .hostKeyIdentities, Stored S.toEngine hostKeyIdentities row) :
    ((selectIdentities.joined S.toEngine tables).map fun e =>
      newRow S.toEngine hostKeyIdentitiesV12 identityColumns (selectIdentities.columns.map (·.eval e))) =
      tables .hostKeyIdentities := by
  rw [selectIdentities, Select.joined, List.foldl_nil, Multiset.map_map]
  refine (Multiset.map_congr rfl fun row hrow => ?_).trans (Multiset.map_id _)
  exact newRow_copy (h row hrow) (by decide)

/-- The rows that the twelfth migration copies meet the constraints of the new table if
and only if none is of no host. -/
theorem meets_identities {tables : Tables Name Column Value}
    (h : Meets S.toEngine tables hostKeyIdentities (tables .hostKeyIdentities)) :
    Meets S.toEngine tables hostKeyIdentitiesV12 (tables .hostKeyIdentities) ↔
      ∀ row ∈ tables .hostKeyIdentities, row .hostId ≠ .null := by
  constructor
  · intro hmeets row hrow
    rw [← S.null_eq]
    exact hmeets.notNull row hrow (required (blob .hostId)) (by decide) rfl
  · intro hhost
    refine ⟨fun row hrow column hcolumn hnotNull => ?_, fun row hrow => ?_, h.refers⟩
    · cases hcolumn with
      | head =>
        rw [S.null_eq]
        exact hhost row hrow
      | tail _ hcolumn => exact h.notNull row hrow column (List.mem_cons_of_mem _ hcolumn) hnotNull
    · have hkeys : ∀ r, S.toEngine.sameKey hostKeyIdentitiesV12.primaryKey r row = true →
          S.toEngine.sameKey hostKeyIdentities.primaryKey r row = true :=
        fun r hr => List.all_eq_true.mpr fun c hc =>
          List.all_eq_true.mp hr c (List.mem_of_mem_head? (by rw [List.mem_singleton.mp hc]; rfl))
      have hle := h.key row hrow
      rw [Multiset.countP_eq_card_filter] at hle ⊢
      exact le_trans (Multiset.card_le_card (Multiset.monotone_filter_right _ hkeys)) hle

theorem rowsAll_twelve {tables : Tables Name Column Value}
    (h : ∀ row ∈ tables .hostKeyIdentities, Stored S.toEngine hostKeyIdentities row) :
    rowsAll S.toEngine hostKeyIdentitiesPerAlgorithm (schemaAt 11) tables =
      (putRows S.toEngine (Function.update tables .hostKeyIdentitiesV12 0) .hostKeyIdentitiesV12 hostKeyIdentitiesV12
        (tables .hostKeyIdentities)).bind fun tables =>
        some (Function.update (Function.update (Function.update tables .hostKeyIdentities 0) .hostKeyIdentitiesV12 0)
          .hostKeyIdentities (tables .hostKeyIdentitiesV12)) := by
  have hcopied : 0 + ((selectIdentities.joined S.toEngine (Function.update tables .hostKeyIdentitiesV12 0)).map fun e =>
      newRow S.toEngine hostKeyIdentitiesV12 identityColumns (selectIdentities.columns.map (·.eval e))) =
      tables .hostKeyIdentities := by
    have hstored : ∀ row ∈ Function.update tables .hostKeyIdentitiesV12 0 .hostKeyIdentities,
        Stored S.toEngine hostKeyIdentities row := h
    rw [zero_add]
    exact copied_identities S hstored
  rw [← hcopied]
  rfl

/-- `host_key_identities_per_algorithm` keeps every identity, or it fails. -/
theorem applyOne_twelve {db : Db} (h : AtVersion S 11 db) :
    ((∀ row ∈ db.rows .hostKeyIdentities, row .hostId ≠ .null) →
      ∃ db', applyOne S now db ⟨12, hostKeyIdentitiesPerAlgorithm⟩ = some db' ∧ AtVersion S 12 db' ∧
        db'.rows .hostKeyIdentities = db.rows .hostKeyIdentities ∧ db'.rows .runs = db.rows .runs) ∧
    ((∃ row ∈ db.rows .hostKeyIdentities, row .hostId = .null) →
      applyOne S now db ⟨12, hostKeyIdentitiesPerAlgorithm⟩ = none) := by
  have hd : db.schema.definition .hostKeyIdentities = some hostKeyIdentities := by rw [h.schema]; decide
  have hrows := rowsAll_twelve S (h.valid.stored hd)
  constructor
  · intro hhost
    have hmeets : Meets S.toEngine (Function.update (Function.update db.rows .hostKeyIdentitiesV12 0)
        .hostKeyIdentitiesV12 (db.rows .hostKeyIdentities)) hostKeyIdentitiesV12 (db.rows .hostKeyIdentities) :=
      (((meets_identities S (h.valid.meets hd)).mpr hhost).update_of_ne (by decide) _).update_of_ne (by decide) _
    obtain ⟨db', hone, hversion, hrows'⟩ := applyOne_ok S now (m := ⟨12, hostKeyIdentitiesPerAlgorithm⟩) h rfl
      (by decide) (by decide) (hrows.trans (congrArg (Option.bind · _) (if_pos hmeets))) rfl
    exact ⟨db', hone, hversion, hrows' _ (by decide), hrows' _ (by decide)⟩
  · intro ⟨row, hrow, hnull⟩
    have hnone : rowsAll S.toEngine hostKeyIdentitiesPerAlgorithm (schemaAt 11) db.rows = none := by
      refine hrows.trans (congrArg (Option.bind · _) (if_neg fun hmeets => ?_))
      exact hmeets.notNull row hrow (required (blob .hostId)) (by decide) rfl (hnull.trans S.null_eq.symm)
    have hallowed : AllowedAll hostKeyIdentitiesPerAlgorithm db.schema := by
      rw [h.schema]
      decide
    rw [applyOne, runAll_eq S.toEngine hallowed, h.schema, hnone]
    rfl

/-- `jump_host_independent_authentication`. -/
theorem applyOne_thirteen {db : Db} (h : AtVersion S 12 db) :
    ∃ db', applyOne S now db ⟨13, jumpHostIndependentAuthentication⟩ = some db' ∧ AtVersion S 13 db' ∧
      db'.rows .hostKeyIdentities = db.rows .hostKeyIdentities ∧ db'.rows .runs = db.rows .runs := by
  obtain ⟨db', hone, hversion, hrows⟩ := applyOne_ok S now (m := ⟨13, jumpHostIndependentAuthentication⟩) h rfl
    (by decide) (by decide) rfl rfl
  exact ⟨db', hone, hversion, hrows _ (by decide), hrows _ (by decide)⟩

/-! ## All of them -/

/-- From the eleventh version on. -/
theorem applyAll_eleven {db : Db} (h : AtVersion S 11 db) :
    ((∀ row ∈ db.rows .hostKeyIdentities, row .hostId ≠ .null) →
      ∃ db', applyAll S now (migrations.drop 11) db = some db' ∧ AtVersion S 13 db' ∧
        db'.rows .hostKeyIdentities = db.rows .hostKeyIdentities ∧ db'.rows .runs = db.rows .runs) ∧
    ((∃ row ∈ db.rows .hostKeyIdentities, row .hostId = .null) → applyAll S now (migrations.drop 11) db = none) := by
  have happly : applyAll S now (migrations.drop 11) db =
      (applyOne S now db ⟨12, hostKeyIdentitiesPerAlgorithm⟩).bind fun db =>
        (applyOne S now db ⟨13, jumpHostIndependentAuthentication⟩).bind some := rfl
  obtain ⟨hkeeps, hfails⟩ := applyOne_twelve S now h
  rw [happly]
  constructor
  · intro hhost
    obtain ⟨twelfth, hone, hversion, hidentities, hruns⟩ := hkeeps hhost
    obtain ⟨last, hone', hversion', hidentities', hruns'⟩ := applyOne_thirteen S now hversion
    rw [hone, Option.bind_some, hone', Option.bind_some]
    exact ⟨last, rfl, hversion', hidentities'.trans hidentities, hruns'.trans hruns⟩
  · intro hnull
    rw [hfails hnull]
    rfl

/-- From the tenth version on. -/
theorem applyAll_ten {db : Db} (h : AtVersion S 10 db) :
    ((∀ row ∈ db.rows .hostKeyIdentities, row .hostId ≠ .null) →
      ∃ db', applyAll S now (migrations.drop 10) db = some db' ∧ AtVersion S 13 db' ∧
        db'.rows .hostKeyIdentities = db.rows .hostKeyIdentities ∧ db'.rows .runs = (db.rows .runs).map (clear S)) ∧
    ((∃ row ∈ db.rows .hostKeyIdentities, row .hostId = .null) → applyAll S now (migrations.drop 10) db = none) := by
  obtain ⟨eleventh, hone, hversion, hidentities, hruns⟩ := applyOne_eleven S now h
  have happly : applyAll S now (migrations.drop 10) db = applyAll S now (migrations.drop 11) eleventh := by
    show (applyOne S now db ⟨11, removePersistedRunOutputPreviews⟩).bind _ = _
    rw [hone]
    rfl
  rw [happly, ← hidentities, ← hruns]
  exact applyAll_eleven S now hversion

/-- From the eighth version on. -/
theorem applyAll_eight {db : Db} (h : AtVersion S 8 db) :
    ∃ db', applyAll S now (migrations.drop 8) db = some db' ∧ AtVersion S 13 db' ∧
      Multiset.Rel (Migrated S db.rows) (db.rows .runs) (db'.rows .runs) := by
  obtain ⟨ninth, hone, hversion, hruns⟩ := applyOne_nine S now h
  obtain ⟨tenth, hone', hversion', hidentities', hruns'⟩ := applyOne_ten S now hversion
  have hhost : ∀ row ∈ tenth.rows .hostKeyIdentities, row .hostId ≠ .null := by
    intro row hrow
    rw [hidentities'] at hrow
    exact absurd hrow (Multiset.notMem_zero row)
  obtain ⟨last, hrest, hlast, -, hruns''⟩ := (applyAll_ten S now hversion').1 hhost
  refine ⟨last, ?_, hlast, ?_⟩
  · show (applyOne S now db ⟨9, durableRunHistory⟩).bind _ = _
    rw [hone, Option.bind_some]
    show (applyOne S now ninth ⟨10, hostScopedHostKeyIdentities⟩).bind _ = _
    rw [hone', Option.bind_some]
    exact hrest
  · have hrel := rel_newRuns S h
    have hclear : (newRuns S db.rows).map (clear S) = newRuns S db.rows := by
      refine (Multiset.map_congr rfl fun new hnew => ?_).trans (Multiset.map_id _)
      obtain ⟨old, -, hmigrated⟩ := Multiset.exists_mem_of_rel_of_mem (Multiset.rel_flip.mpr hrel) hnew
      exact clear_migrated S hmigrated
    rw [hruns'', hruns', hruns, hclear]
    exact hrel

/-- A database of the eighth version is migrated with one row for every run. Of the host
keys of a database of the tenth or eleventh version nothing is lost or changed; the
migration succeeds if and only if none of them is of no host. -/
theorem migrated :
    (∀ db, AtVersion S 8 db → ∃ db', (applyMigrations S now).exec (.idle db) = (.ok (), .idle db') ∧
      AtVersion S 13 db' ∧ Multiset.Rel (Migrated S db.rows) (db.rows .runs) (db'.rows .runs)) ∧
    ∀ n ∈ [10, 11], ∀ db, AtVersion S n db → ∃ result db',
      (applyMigrations S now).exec (.idle db) = (result, .idle db') ∧
      db'.rows .hostKeyIdentities = db.rows .hostKeyIdentities ∧
      (result = .ok () ↔ ∀ row ∈ db.rows .hostKeyIdentities, row .hostId ≠ .null) := by
  constructor
  · intro db h
    obtain ⟨db', hall, hversion, hrel⟩ := applyAll_eight S now h
    refine ⟨db', ?_, hversion, hrel⟩
    rw [exec_atVersion S now h (by decide), hall]
  · intro n hn db h
    have htables : ∀ n ∈ [10, 11], ((schemaAt n).definition .schemaMigrations).isSome := by decide
    have hall : ((∀ row ∈ db.rows .hostKeyIdentities, row .hostId ≠ .null) →
        ∃ db', applyAll S now (migrations.drop n) db = some db' ∧
          db'.rows .hostKeyIdentities = db.rows .hostKeyIdentities) ∧
        ((∃ row ∈ db.rows .hostKeyIdentities, row .hostId = .null) → applyAll S now (migrations.drop n) db = none) := by
      simp only [List.mem_cons, List.not_mem_nil, or_false] at hn
      rcases hn with rfl | rfl
      · obtain ⟨hkeeps, hfails⟩ := applyAll_ten S now h
        exact ⟨fun hhost => (hkeeps hhost).imp fun _ h => ⟨h.1, h.2.2.1⟩, hfails⟩
      · obtain ⟨hkeeps, hfails⟩ := applyAll_eleven S now h
        exact ⟨fun hhost => (hkeeps hhost).imp fun _ h => ⟨h.1, h.2.2.1⟩, hfails⟩
    rw [exec_atVersion S now h (htables n hn)]
    by_cases hhost : ∀ row ∈ db.rows .hostKeyIdentities, row .hostId ≠ .null
    · obtain ⟨db', hdb', hidentities⟩ := hall.1 hhost
      exact ⟨.ok (), db', by rw [hdb'], hidentities, iff_of_true rfl hhost⟩
    · have hnull : ∃ row ∈ db.rows .hostKeyIdentities, row .hostId = .null := by
        by_contra hnone
        exact hhost fun row hrow hnull => hnone ⟨row, hrow, hnull⟩
      exact ⟨.error .sqlite, db, by rw [hall.2 hnull], rfl, iff_of_false (fun h => by cases h) hhost⟩

/-- A row of these values. -/
def rowOf (entries : List (Column × Value)) : Row Column Value := fun c => (entries.lookup c).getD .null

def tablesOf (entries : Name → List (List (Column × Value))) : Tables Name Column Value :=
  fun name => (entries name).map rowOf

/-- Rows of columns of their tables that meet the constraints. -/
theorem valid_of_entries {n : Nat} {entries : Name → List (List (Column × Value))}
    (habsent : ∀ name, (((schemaAt n).definition name).isSome || (entries name).isEmpty) = true)
    (hnames : ∀ name, ((schemaAt n).definition name).all (fun d =>
      (entries name).all fun row => row.all fun e => decide (e.1 ∈ d.names)) = true)
    (hmeets : ∀ name, ((schemaAt n).definition name).all (fun d =>
      decide (Meets typed.toEngine (tablesOf entries) d (tablesOf entries name))) = true) :
    Valid typed.toEngine ⟨schemaAt n, tablesOf entries⟩ where
  absent := by
    intro name h
    have hnone := habsent name
    rw [show (schemaAt n).definition name = none from h, Option.isSome_none, Bool.false_or, List.isEmpty_iff] at hnone
    show tablesOf entries name = 0
    rw [tablesOf, hnone]
    rfl
  stored := by
    intro name d hd row hrow
    obtain ⟨row, hentries, rfl⟩ := List.mem_map.mp (Multiset.mem_coe.mp hrow)
    have hall := hnames name
    rw [show (schemaAt n).definition name = some d from hd, Option.all_some] at hall
    refine ⟨fun _ _ => rfl, fun c hc => ?_⟩
    have hlookup : row.lookup c = none := by
      rw [List.lookup_eq_none_iff]
      intro e he
      have hin := of_decide_eq_true (List.all_eq_true.mp (List.all_eq_true.mp hall row hentries) e he)
      simp only [bne_iff_ne, ne_eq]
      rintro rfl
      exact hc hin
    show (row.lookup c).getD .null = .null
    rw [hlookup]
    rfl
  meets := by
    intro name d hd
    have hall := hmeets name
    rw [show (schemaAt n).definition name = some d from hd, Option.all_some] at hall
    exact of_decide_eq_true hall

def runEntries : List (Column × Value) :=
  [(.id, .blob [4]), (.actionId, .blob [3]), (.status, .text "\"Succeeded\"".toList), (.exitCode, .integer 0),
    (.outputBytes, .integer 12)]

/-- What is stored in a database of the eighth version, with one run. -/
def storedEntries : Name → List (List (Column × Value))
  | .schemaMigrations =>
    (List.range 8).map fun n => [(.version, .integer (n + 1)), (.appliedAtMs, .integer 0)]
  | .hosts =>
    [[(.id, .blob [1]), (.label, .text "build".toList), (.username, .text "ada".toList), (.port, .integer 22),
      (.defaultRuntime, .text "\"Tmux\"".toList), (.authMode, .text "\"Password\"".toList),
      (.defaultRemotePath, .text "/".toList)]]
  | .projects =>
    [[(.id, .blob [2]), (.hostId, .blob [1]), (.name, .text "kodework".toList), (.remoteCwd, .text "/".toList),
      (.preferredRuntime, .text "\"Tmux\"".toList)]]
  | .actions =>
    [[(.id, .blob [3]), (.projectId, .blob [2]), (.name, .text "test".toList), (.command, .text "make test".toList),
      (.mode, .text "\"Quick\"".toList), (.dangerLevel, .text "\"Safe\"".toList),
      (.confirmation, .text "\"Never\"".toList), (.envJson, .text "\x7b\x7d".toList)]]
  | .runs => [runEntries]
  | _ => []

def storedDb : Db := ⟨schemaAt 8, tablesOf storedEntries⟩

theorem storedDb_version : AtVersion typed 8 storedDb where
  schema := rfl
  recorded := rfl
  valid := by
    refine valid_of_entries (by decide +kernel) (by decide +kernel) fun name => ?_
    cases name <;> decide +kernel

/-- The run is in the migrated database, once. -/
theorem storedDb_migrated :
    ∃ db, (applyMigrations typed fun _ => 0).exec (.idle storedDb) = (.ok (), .idle db) ∧ AtVersion typed 13 db ∧
      ∃ run, db.rows .runs = {run} ∧ run .id = .blob [4] ∧ run .stdoutPreview = .text [] := by
  obtain ⟨db, hexec, hversion, hruns⟩ := (migrated typed fun _ => 0).1 storedDb storedDb_version
  have hone : storedDb.rows .runs = rowOf runEntries ::ₘ 0 := rfl
  rw [hone] at hruns
  obtain ⟨run, rest, hrun, hrest, hrows⟩ := Multiset.rel_cons_left.mp hruns
  refine ⟨db, hexec, hversion, run, ?_, hrun.id, hrun.stdoutPreview⟩
  rw [hrows, Multiset.rel_zero_left.mp hrest]
  rfl

/-! ## A new database -/

/-- Every column that the statement adds can be filled. -/
def fillable : Statement Name Column Value → Bool
  | .addColumn _ ⟨_, affinity, notNull, some (.text _)⟩ => !notNull || affinity = .text
  | .addColumn _ column => !column.notNull
  | .insertValues _ _ _ => false
  | _ => true

theorem not_fills {s : Statement Name Column Value} (h : fillable s = true) : ¬s.Fills S.toEngine := by
  cases s with
  | addColumn table column =>
    rintro ⟨hnotNull, hnull⟩
    cases column with
    | mk _ affinity notNull default =>
      cases hnotNull
      cases default with
      | none => cases h
      | some v =>
        cases v with
        | text t =>
          have haffinity : affinity = .text := by simpa [fillable] using h
          rw [haffinity, Option.getD_some, S.convert_text] at hnull
          exact S.text_ne_null t hnull
        | null | integer n | real bits | blob bytes => cases h
  | insertValues table columns values => cases h
  | createTable | createIndex | dropTable | renameTable | insertSelect | update => exact id

/-- One migration of a database without rows. -/
theorem applyOne_empty {n : Nat} {m : Migration} {db : Db} {tables : Tables Name Column Value} (h : AtVersion S n db)
    (hm : migrations[n]? = some m) (hallowed : AllowedAll m.sql (schemaAt n))
    (hd : (schemaAt (n + 1)).definition .schemaMigrations = some schemaMigrations)
    (hrows : rowsAll S.toEngine m.sql (schemaAt n) db.rows = some tables)
    (hkept : tables .schemaMigrations = db.rows .schemaMigrations)
    (hempty : ∀ name ≠ .schemaMigrations, tables name = 0) :
    ∃ db', applyOne S now db m = some db' ∧ AtVersion S (n + 1) db' ∧ ∀ name ≠ .schemaMigrations, db'.rows name = 0 := by
  obtain ⟨db', hone, hversion, hrows'⟩ := applyOne_ok S now h hm hallowed hd hrows hkept
  exact ⟨db', hone, hversion, fun name hname => (hrows' name hname).trans (hempty name hname)⟩

/-- The rest of the migrations of a database without rows. -/
theorem applyAll_empty (rest : Nat) {n : Nat} {db : Db} (hn : n + rest = 13) (hfirst : 0 < n) (h : AtVersion S n db)
    (hempty : ∀ name ≠ .schemaMigrations, db.rows name = 0) :
    ∃ db', applyAll S now (migrations.drop n) db = some db' ∧ AtVersion S 13 db' ∧
      ∀ name ≠ .schemaMigrations, db'.rows name = 0 := by
  induction rest generalizing n db with
  | zero =>
    obtain rfl : n = 13 := hn
    exact ⟨db, rfl, h, hempty⟩
  | succ rest ih =>
    have hscripts : ∀ n < 13, ∀ m ∈ migrations[n]?, AllowedAll m.sql (schemaAt n) ∧
        (schemaAt (n + 1)).definition .schemaMigrations = some schemaMigrations := by decide +kernel
    have hstatements : ∀ m ∈ migrations.tail, ∀ s ∈ m.sql, fillable s = true ∧ Name.schemaMigrations ∉ s.tables := by
      decide
    have hlength : n < migrations.length := by
      show n < 13
      omega
    have hm : migrations[n]? = some migrations[n] := List.getElem?_eq_getElem hlength
    obtain ⟨hallowed, hd⟩ := hscripts n hlength _ hm
    have hmem : migrations[n] ∈ migrations.tail := by
      obtain ⟨k, rfl⟩ := Nat.exists_eq_succ_of_ne_zero (by omega : n ≠ 0)
      exact List.getElem_mem (l := migrations.tail) (by
        show k < 12
        omega)
    obtain ⟨tables, hrows, hsame, hnone⟩ := rowsAll_of_empty hallowed
      (fun s hs => not_fills S (hstatements _ hmem s hs).1) (fun s hs => (hstatements _ hmem s hs).2) hempty
    obtain ⟨next, hone, hversion, hnext⟩ := applyOne_empty S now h hm hallowed hd hrows hsame hnone
    obtain ⟨db', hrest, hlast, hlast'⟩ := ih (by omega) (by omega) hversion hnext
    refine ⟨db', ?_, hlast, hlast'⟩
    rw [List.drop_eq_getElem_cons hlength, applyAll, hone, Option.bind_some, hrest]

/-- A new database. -/
def newDatabase : Db := ⟨fun _ => none, fun _ => 0⟩

/-- A new database is migrated to one of the last version without rows of its own. -/
theorem migrated_new : ∃ db, (applyMigrations S now).exec (.idle newDatabase) = (.ok (), .idle db) ∧
    AtVersion S 13 db ∧ ∀ name ≠ .schemaMigrations, db.rows name = 0 := by
  have hversion : AtVersion S 0 newDatabase :=
    { schema := rfl
      valid := { absent := fun _ => rfl, stored := (fun hd => by cases hd), meets := (fun hd => by cases hd) }
      recorded := rfl }
  have hscript : ∃ tables, rowsAll S.toEngine initialDomainSchema (schemaAt 0) newDatabase.rows = some tables ∧
      ∀ name, tables name = 0 := by
    obtain ⟨tables, hrows, hsame, hnone⟩ :=
      @rowsAll_of_empty Name Column Value _ _ S.toEngine _ initialDomainSchema.tail
        ((initialDomainSchema.head (by decide)).effect (schemaAt 0)) (fun _ => 0) .schemaMigrations (by decide +kernel)
        (fun s hs => not_fills S ((by decide : ∀ s ∈ initialDomainSchema.tail, fillable s = true) s hs))
        (by decide) fun _ _ => rfl
    refine ⟨tables, ?_, fun name => ?_⟩
    · have hfirst : (initialDomainSchema.head (by decide)).rows S.toEngine (schemaAt 0) newDatabase.rows =
          some fun _ => 0 := congrArg some (Function.update_eq_self _ _)
      have hcons : initialDomainSchema = initialDomainSchema.head (by decide) :: initialDomainSchema.tail := rfl
      rw [hcons, rowsAll, hfirst, Option.bind_some]
      exact hrows
    · by_cases hname : name = .schemaMigrations
      · rw [hname, hsame]
      · exact hnone name hname
  obtain ⟨tables, hrows, hnone⟩ := hscript
  obtain ⟨first, hone, hfirst, hempty⟩ := applyOne_empty S now (m := ⟨1, initialDomainSchema⟩) hversion rfl
    (by decide +kernel) (by decide +kernel) hrows (hnone _) fun name _ => hnone name
  obtain ⟨db, hrest, hlast, hrows⟩ := applyAll_empty S now 12 rfl (by decide) hfirst hempty
  refine ⟨db, ?_, hlast, hrows⟩
  have happlied : readApplied newDatabase = .ok (0, newDatabase) := rfl
  have hall : applyMissing S now 0 migrations newDatabase = some db := by
    rw [applyMissing_eq S now fun m _ => Multiset.notMem_zero _]
    show (applyOne S now newDatabase ⟨1, initialDomainSchema⟩).bind _ = _
    rw [hone, Option.bind_some]
    exact hrest
  rw [applyMigrations_exec S now happlied, hall]

end KW.Migrations
