import KodeWork.Impl.Repositories
import KodeWork.Proof.Shell.Quoting
import KodeWork.Proof.Storage.Instances
import KodeWork.Proof.Storage.Migrations

/-!
# What the repositories keep

`Makes` lists the changes that a call of the repositories can make. What each of them keeps
every sequence of calls keeps, wherever they fail (`callAll_keeps`).

The database stays one of the last version (`calls_keep_version`).
-/

namespace KW.Repositories

open Sql
open Actions (ok_of_bind)
open Migrations (Name Column AtVersion)
open RunRows (Value StorageError RunReconciliationUpdate)

variable (S : Sqlite) (J : StoreJson)

/-! ## The changes of a call -/

/-- The call can make the change. -/
def Operation.Makes (change : Change) : Operation → Prop
  | .upsertHost host =>
    change = upsertHostChange J host ∨ change = deleteAddressesChange S host.id ∨
      ∃ address ∈ host.addresses, change = insertAddressChange J host.id address
  | .deleteHost id => change = deleteHostChange S id
  | .upsertProject project => change = upsertProjectChange J project
  | .deleteProject id => change = deleteProjectChange S id
  | .upsertAction action _ => upsertActionChange J action = .ok change
  | .deleteAction id => change = deleteActionChange S id
  | .createRun run => createRunChange J run = .ok change
  | .updateStatus id status exitCode finishedAtMs => updateStatusChange S J id status exitCode finishedAtMs = .ok change
  | .finish u reconciledAtMs => finishChange S J u reconciledAtMs = .ok change
  | .finishBatch updates => ∃ u ∈ updates, finishChange S J u (some u.reconciledAtMs) = .ok change
  | .recoverOrphanedQuickRuns => change = recoverChange S J
  | .createSession session => change = createSessionChange J session
  | .updateState id state => change = updateStateChange S J id state
  | .createTransfer transfer => createTransferChange J transfer = .ok change
  | .updateProgress id transferredBytes status => updateProgressChange S J id transferredBytes status = .ok change
  | .createTunnel tunnel => change = createTunnelChange tunnel
  | .deleteTunnel id => change = deleteTunnelChange S id
  | .upsertSnippet snippet => change = upsertSnippetChange snippet
  | .deleteSnippet id => change = deleteSnippetChange S id
  | .saveHostKey record => change = saveHostKeyChange record
  | .deleteHostKey hostname port => change = deleteHostKeyChange S hostname port
  | .saveForHost record => change = saveForHostChange record

/-- What a run of the change leaves is within. -/
def KeptBy (I : Tables → Prop) (change : Change) : Prop :=
  ∀ tables tables', I tables → change.run S.toEngine references tables = some tables' → I tables'

variable {S} {J} {I : Tables → Prop}

theorem keeps_execute {change : Change} (h : KeptBy S I change) (faults : Nat → Bool) (number : Nat) :
    Keeps I (execute S faults number change) := by
  refine Keeps.statement fun tables count tables' hI hstep => ?_
  split at hstep
  · cases hstep
  · split at hstep
    · case h_1 hrun =>
      cases hstep
      exact h tables tables' hI hrun
    · cases hstep

theorem keeps_executeWith {change : Except StorageError Change} (h : ∀ c, change = .ok c → KeptBy S I c)
    (faults : Nat → Bool) (number : Nat) : Keeps I (executeWith S faults number change) := by
  cases change with
  | error e => exact Keeps.throw e
  | ok c => exact keeps_execute (h c rfl) faults number

theorem keeps_discard {α : Type} {m : Storage α} (h : Keeps I m) : Keeps I (discard m) := by
  have hdiscard : (discard m : Storage Unit) = m >>= fun _ => pure () := by
    rw [← map_eq_pure_bind]
    rfl
  rw [hdiscard]
  exact h.bind fun _ => Keeps.pure ()

/-- What returns whether there was something to delete. -/
theorem keeps_deletes {change : Change} (h : KeptBy S I change) (faults : Nat → Bool) :
    Keeps I (execute S faults 0 change >>= fun changed => (pure (changed != 0) : Storage Bool)) :=
  (keeps_execute h faults 0).bind fun _ => Keeps.pure _

theorem keeps_currentStatus (faults : Nat → Bool) (number : Nat) (id : RunId) :
    Keeps I (RunRepository.currentStatus S J faults number id) := by
  refine Keeps.bind (Keeps.statement fun tables raw tables' hI hstep => ?_) fun raw => ?_
  · split at hstep
    · cases hstep
    · split at hstep
      · cases hstep
      · cases hstep
        exact hI
      · cases hstep
  · split
    · exact Keeps.pure _
    · exact Keeps.throw _

theorem keeps_finishAt {u : RunReconciliationUpdate} {reconciledAtMs : Option UInt64}
    (h : ∀ change, finishChange S J u reconciledAtMs = .ok change → KeptBy S I change) (faults : Nat → Bool)
    (number : Nat) : Keeps I (RunRepository.finishAt S J faults number u reconciledAtMs) :=
  (keeps_currentStatus faults number u.id).bind fun _ =>
    Keeps.ite (Keeps.throw _) (keeps_executeWith h faults _)

theorem keeps_finishEach {updates : List RunReconciliationUpdate}
    (h : ∀ u ∈ updates, ∀ change, finishChange S J u (some u.reconciledAtMs) = .ok change → KeptBy S I change)
    (faults : Nat → Bool) (number : Nat) : Keeps I (RunRepository.finishEach S J faults number updates) := by
  induction updates generalizing number with
  | nil => exact Keeps.pure ()
  | cons u updates ih =>
    exact (keeps_discard (keeps_finishAt (h u List.mem_cons_self) faults number)).bind fun _ =>
      ih (fun u hu => h u (List.mem_cons_of_mem _ hu)) _

theorem keeps_insertAddresses {hostId : HostId} {addresses : List HostRecord.Address}
    (h : ∀ address ∈ addresses, KeptBy S I (insertAddressChange J hostId address)) (faults : Nat → Bool)
    (number : Nat) : Keeps I (insertAddresses S J faults hostId number addresses) := by
  induction addresses generalizing number with
  | nil => exact Keeps.pure ()
  | cons address addresses ih =>
    exact (keeps_discard (keeps_execute (h address List.mem_cons_self) faults number)).bind fun _ =>
      ih (fun address haddress => h address (List.mem_cons_of_mem _ haddress)) _

theorem keeps_upsertHost {host : HostRecord.Host}
    (h : ∀ change, (Operation.upsertHost host).Makes S J change → KeptBy S I change) (faults : Nat → Bool) :
    Keeps I (upsertHost S J faults host) := by
  refine Keeps.transaction ?_ StorageError.sqlite
  refine (keeps_discard (keeps_execute (h _ (.inl rfl)) faults 0)).bind fun _ => ?_
  refine (keeps_discard (keeps_execute (h _ (.inr (.inl rfl))) faults 1)).bind fun _ => ?_
  refine (keeps_insertAddresses (fun address haddress => h _ (.inr (.inr ⟨address, haddress, rfl⟩))) faults 2).bind
    fun _ => ?_
  refine Keeps.statement fun tables a tables' hI hstep => ?_
  split at hstep
  · cases hstep
  · cases hstep
    exact hI

/-- What all changes of a call keep the call keeps. -/
theorem keeps_call {operation : Operation} (h : ∀ change, operation.Makes S J change → KeptBy S I change)
    (faults : Nat → Bool) : Keeps I (operation.call S J faults) := by
  cases operation with
  | upsertHost host => exact keeps_upsertHost h faults
  | deleteHost id => exact keeps_discard (keeps_deletes (h _ rfl) faults)
  | upsertProject project => exact keeps_discard (keeps_execute (h _ rfl) faults 0)
  | deleteProject id => exact keeps_discard (keeps_deletes (h _ rfl) faults)
  | upsertAction action hkeys => exact keeps_discard (keeps_executeWith h faults 0)
  | deleteAction id => exact keeps_discard (keeps_deletes (h _ rfl) faults)
  | createRun run => exact keeps_discard (keeps_executeWith h faults 0)
  | updateStatus id status exitCode finishedAtMs =>
    refine keeps_discard ((keeps_currentStatus faults 0 id).bind fun _ => ?_)
    exact Keeps.ite (Keeps.throw _) (keeps_executeWith h faults 1)
  | finish u reconciledAtMs => exact keeps_discard (keeps_finishAt h faults 0)
  | finishBatch updates =>
    refine Keeps.ite (Keeps.pure ()) (Keeps.transaction ?_ StorageError.sqlite)
    exact keeps_finishEach (fun u hu change hchange => h change ⟨u, hu, hchange⟩) faults 0
  | recoverOrphanedQuickRuns => exact keeps_discard (keeps_execute (h _ rfl) faults 0)
  | createSession session => exact keeps_discard (keeps_execute (h _ rfl) faults 0)
  | updateState id state => exact keeps_discard (keeps_execute (h _ rfl) faults 0)
  | createTransfer transfer => exact keeps_discard (keeps_executeWith h faults 0)
  | updateProgress id transferredBytes status => exact keeps_discard (keeps_executeWith h faults 0)
  | createTunnel tunnel => exact keeps_discard (keeps_execute (h _ rfl) faults 0)
  | deleteTunnel id => exact keeps_discard (keeps_deletes (h _ rfl) faults)
  | upsertSnippet snippet => exact keeps_discard (keeps_execute (h _ rfl) faults 0)
  | deleteSnippet id => exact keeps_discard (keeps_deletes (h _ rfl) faults)
  | saveHostKey record => exact keeps_discard (keeps_execute (h _ rfl) faults 0)
  | deleteHostKey hostname port => exact keeps_discard (keeps_deletes (h _ rfl) faults)
  | saveForHost record => exact keeps_discard (keeps_execute (h _ rfl) faults 0)

/-- What all changes of the calls keep a sequence of calls keeps. -/
theorem callAll_keeps {calls : List (Operation × (Nat → Bool))} {tables : Tables} (hI : I tables)
    (h : ∀ p ∈ calls, ∀ change, p.1.Makes S J change → KeptBy S I change) :
    ∃ tables', callAll S J calls (.idle tables) = .idle tables' ∧ I tables' := by
  induction calls generalizing tables with
  | nil => exact ⟨tables, rfl, hI⟩
  | cons p calls ih =>
    obtain ⟨next, hnext, hI'⟩ := (keeps_call (h p List.mem_cons_self) p.2).idle hI
    obtain ⟨tables', hrest, hI''⟩ := ih hI' fun p hp => h p (List.mem_cons_of_mem _ hp)
    refine ⟨tables', ?_, hI''⟩
    rw [← hrest, ← hnext]
    rfl

/-! ## The tables of a call -/

theorem upsertActionChange_ok {action : Actions.Action} {change : Change}
    (h : upsertActionChange J action = .ok change) : ∃ timeout, sqlTimeout action.timeoutMs = .ok timeout ∧
      change = .upsert .actions actionColumns (actionValues J action timeout) actionColumns.tail := by
  obtain ⟨timeout, htimeout, hchange⟩ := ok_of_bind h
  exact ⟨timeout, htimeout, (Except.ok.inj hchange).symm⟩

theorem createRunChange_ok {run : Run} {change : Change} (h : createRunChange J run = .ok change) :
    ∃ started finished bytes reconciled, RunRows.sqlOptionU64 run.startedAtMs = .ok started ∧
      RunRows.sqlOptionU64 run.finishedAtMs = .ok finished ∧ RunRows.sqlU64 run.outputBytes = .ok bytes ∧
      RunRows.sqlOptionU64 run.lastReconciledAtMs = .ok reconciled ∧
      change = .insert .runs runColumns (runValues J run started finished bytes reconciled) := by
  obtain ⟨started, hstarted, h⟩ := ok_of_bind h
  obtain ⟨finished, hfinished, h⟩ := ok_of_bind h
  obtain ⟨bytes, hbytes, h⟩ := ok_of_bind h
  obtain ⟨reconciled, hreconciled, h⟩ := ok_of_bind h
  exact ⟨started, finished, bytes, reconciled, hstarted, hfinished, hbytes, hreconciled, (Except.ok.inj h).symm⟩

theorem updateStatusChange_ok {id : RunId} {status : RunStatus} {exitCode : Option Int32} {finishedAtMs : Option UInt64}
    {change : Change} (h : updateStatusChange S J id status exitCode finishedAtMs = .ok change) :
    ∃ finished, RunRows.sqlOptionU64 finishedAtMs = .ok finished ∧
      change = .update .runs [(.status, .text (J.status.toText status)), (.exitCode, RunRows.sqlOptionI32 exitCode),
        (.finishedAtMs, finished)] (has S .id (idToBlob id.uuid)) := by
  obtain ⟨finished, hfinished, h⟩ := ok_of_bind h
  exact ⟨finished, hfinished, (Except.ok.inj h).symm⟩

theorem finishChange_ok {u : RunReconciliationUpdate} {reconciledAtMs : Option UInt64} {change : Change}
    (h : finishChange S J u reconciledAtMs = .ok change) :
    ∃ finished bytes reconciled, RunRows.sqlOptionU64 u.finishedAtMs = .ok finished ∧
      RunRows.sqlU64 u.outputBytes = .ok bytes ∧ RunRows.sqlOptionU64 reconciledAtMs = .ok reconciled ∧
      change = .update .runs [(.status, .text (J.status.toText u.status)), (.exitCode, RunRows.sqlOptionI32 u.exitCode),
        (.finishedAtMs, finished), (.remoteSessionRef, RunRows.sqlOptionText u.remoteSessionRef), (.outputBytes, bytes),
        (.stdoutPreview, .text []), (.stderrPreview, .text []), (.lastReconciledAtMs, reconciled)]
        (has S .id (idToBlob u.id.uuid)) := by
  obtain ⟨finished, hfinished, h⟩ := ok_of_bind h
  obtain ⟨bytes, hbytes, h⟩ := ok_of_bind h
  obtain ⟨reconciled, hreconciled, h⟩ := ok_of_bind h
  exact ⟨finished, bytes, reconciled, hfinished, hbytes, hreconciled, (Except.ok.inj h).symm⟩

theorem createTransferChange_ok {transfer : Transfer} {change : Change}
    (h : createTransferChange J transfer = .ok change) :
    ∃ values, change = .insert .transfers transferColumns values := by
  obtain ⟨total, -, h⟩ := ok_of_bind h
  obtain ⟨transferred, -, h⟩ := ok_of_bind h
  exact ⟨_, (Except.ok.inj h).symm⟩

theorem updateProgressChange_ok {id : TransferId} {transferredBytes : UInt64} {status : Transfer.TransferStatus}
    {change : Change} (h : updateProgressChange S J id transferredBytes status = .ok change) :
    ∃ transferred, change = .update .transfers [(.transferredBytes, transferred),
      (.status, .text (J.transferStatus.toText status))] (has S .id (idToBlob id.uuid)) := by
  obtain ⟨transferred, -, h⟩ := ok_of_bind h
  exact ⟨transferred, (Except.ok.inj h).symm⟩

/-- The columns of a run that are written after it is created, or cleared. -/
def runMutable : List Column :=
  [.actionId, .projectId, .status, .exitCode, .finishedAtMs, .remoteSessionRef, .outputBytes, .stdoutPreview,
    .stderrPreview, .lastReconciledAtMs]

/-- What the changes of a call can be. -/
inductive Effect (S : Sqlite) (J : StoreJson) : Operation → Change → Prop
  | createRun {run : Run} {change : Change} (hchange : createRunChange J run = .ok change) :
    Effect S J (.createRun run) change
  | updateRun {operation : Operation} (sets : List (Column × Value)) (chosen : Row → Bool)
    (hsets : sets.map Prod.fst ⊆ runMutable) : Effect S J operation (.update .runs sets chosen)
  | deleteHost (id : HostId) : Effect S J (.deleteHost id) (deleteHostChange S id)
  | delete {operation : Operation} (table : Name) (chosen : Row → Bool)
    (htable : table ∈ [.addresses, .projects, .actions, .tunnels, .snippets, .hostKeys]) :
    Effect S J operation (.delete table chosen)
  | put {operation : Operation} {change : Change}
    (htable : change.table ∈ [.hosts, .addresses, .projects, .actions, .sessions, .transfers, .tunnels, .snippets,
      .hostKeys, .hostKeyIdentities])
    (hputs : ∀ table chosen, change ≠ .delete table chosen) : Effect S J operation change

theorem Operation.Makes.effect {operation : Operation} {change : Change} (h : operation.Makes S J change) :
    Effect S J operation change := by
  have hput {table : Name} {columns : List Column} {values : List Value} (operation : Operation)
      (htable : table ∈ [.hosts, .addresses, .projects, .actions, .sessions, .transfers, .tunnels, .snippets,
        .hostKeys, .hostKeyIdentities]) : Effect S J operation (.insert table columns values) :=
    .put htable (by simp)
  have hupsert {table : Name} {columns sets : List Column} {values : List Value} (operation : Operation)
      (htable : table ∈ [.hosts, .addresses, .projects, .actions, .sessions, .transfers, .tunnels, .snippets,
        .hostKeys, .hostKeyIdentities]) : Effect S J operation (.upsert table columns values sets) :=
    .put htable (by simp)
  have hupdate {table : Name} {sets : List (Column × Value)} {chosen : Row → Bool} (operation : Operation)
      (htable : table ∈ [.hosts, .addresses, .projects, .actions, .sessions, .transfers, .tunnels, .snippets,
        .hostKeys, .hostKeyIdentities]) : Effect S J operation (.update table sets chosen) :=
    .put htable (by simp)
  cases operation with
  | upsertHost host =>
    rcases h with rfl | rfl | ⟨address, -, rfl⟩
    · exact hupsert _ (by decide)
    · exact .delete _ _ (by decide)
    · exact hput _ (by decide)
  | deleteHost id => exact (show change = _ from h) ▸ .deleteHost id
  | upsertProject project => exact (show change = _ from h) ▸ hupsert _ (by decide)
  | deleteProject id => exact (show change = _ from h) ▸ .delete _ _ (by decide)
  | upsertAction action hkeys =>
    obtain ⟨timeout, -, rfl⟩ := upsertActionChange_ok h
    exact hupsert _ (by decide)
  | deleteAction id => exact (show change = _ from h) ▸ .delete _ _ (by decide)
  | createRun run => exact .createRun h
  | updateStatus id status exitCode finishedAtMs =>
    obtain ⟨finished, -, rfl⟩ := updateStatusChange_ok h
    exact .updateRun _ _ (by simp [runMutable])
  | finish u reconciledAtMs =>
    obtain ⟨finished, bytes, reconciled, -, -, -, rfl⟩ := finishChange_ok h
    exact .updateRun _ _ (by simp [runMutable])
  | finishBatch updates =>
    obtain ⟨u, -, h⟩ := h
    obtain ⟨finished, bytes, reconciled, -, -, -, rfl⟩ := finishChange_ok h
    exact .updateRun _ _ (by simp [runMutable])
  | recoverOrphanedQuickRuns => exact (show change = _ from h) ▸ .updateRun _ _ (by simp [runMutable])
  | createSession session => exact (show change = _ from h) ▸ hput _ (by decide)
  | updateState id state => exact (show change = _ from h) ▸ hupdate _ (by decide)
  | createTransfer transfer =>
    obtain ⟨values, rfl⟩ := createTransferChange_ok h
    exact hput _ (by decide)
  | updateProgress id transferredBytes status =>
    obtain ⟨transferred, rfl⟩ := updateProgressChange_ok h
    exact hupdate _ (by decide)
  | createTunnel tunnel => exact (show change = _ from h) ▸ hput _ (by decide)
  | deleteTunnel id => exact (show change = _ from h) ▸ .delete _ _ (by decide)
  | upsertSnippet snippet => exact (show change = _ from h) ▸ hupsert _ (by decide)
  | deleteSnippet id => exact (show change = _ from h) ▸ .delete _ _ (by decide)
  | saveHostKey record => exact (show change = _ from h) ▸ hupsert _ (by decide)
  | deleteHostKey hostname port => exact (show change = _ from h) ▸ .delete _ _ (by decide)
  | saveForHost record => exact (show change = _ from h) ▸ hupsert _ (by decide)

/-! ## The version -/

/-- No call changes what is recorded of the migrations. -/
theorem Operation.Makes.keptBy_version {operation : Operation} {change : Change} (hmakes : operation.Makes S J change) :
    KeptBy S (fun tables => AtVersion S.toSqlite 13 ⟨schema, tables⟩) change := by
  intro tables tables' hversion hrun
  have hne : Name.schemaMigrations ≠ change.table := by
    cases hmakes.effect with
    | createRun hchange =>
      obtain ⟨_, _, _, _, -, -, -, -, rfl⟩ := createRunChange_ok hchange
      exact Name.noConfusion
    | updateRun sets chosen hsets => exact Name.noConfusion
    | deleteHost id => exact Name.noConfusion
    | delete table chosen htable => exact (ne_of_mem_of_not_mem htable (by decide)).symm
    | put htable hputs => exact (ne_of_mem_of_not_mem htable (by decide)).symm
  refine ⟨hversion.schema, Change.run_valid hversion.valid hrun, ?_⟩
  have hother : tables' .schemaMigrations = tables .schemaMigrations := Change.run_other hrun hne (by decide)
  show (tables' .schemaMigrations).map _ = _
  rw [hother]
  exact hversion.recorded

/-- A new database is migrated to the last version. A database of the last version stays one,
whatever is called and wherever it fails: every reference is met, every key is unique. To
open it again changes nothing. -/
theorem calls_keep_version (S : Sqlite) (J : StoreJson) (now : UInt32 → Int) :
    (∃ tables, (Migrations.applyMigrations S.toSqlite now).exec (.idle Migrations.newDatabase) =
        (.ok (), .idle ⟨schema, tables⟩) ∧ AtVersion S.toSqlite 13 ⟨schema, tables⟩) ∧
      ∀ tables, AtVersion S.toSqlite 13 ⟨schema, tables⟩ → ∀ calls, ∃ tables',
        callAll S J calls (.idle tables) = .idle tables' ∧ AtVersion S.toSqlite 13 ⟨schema, tables'⟩ ∧
          (Migrations.applyMigrations S.toSqlite now).exec (.idle ⟨schema, tables'⟩) =
            (.ok (), .idle ⟨schema, tables'⟩) := by
  constructor
  · obtain ⟨db, hexec, hversion, -⟩ := Migrations.migrated_new S.toSqlite now
    cases db with
    | mk schema' tables =>
      obtain rfl : schema' = schema := hversion.schema
      exact ⟨tables, hexec, hversion⟩
  · intro tables h calls
    obtain ⟨tables', hcalls, hversion⟩ :=
      callAll_keeps (J := J) h fun p _ change hmakes => hmakes.keptBy_version
    refine ⟨tables', hcalls, hversion, ?_⟩
    rw [Migrations.exec_atVersion S.toSqlite now hversion (by decide)]
    rfl

/-- A host without addresses. -/
def plainHost : HostRecord.Host :=
  { id := ⟨1⟩, label := "build".toList, username := "ada".toList, port := 22, authRef := none, authMode := .password
    privateKeyPath := none, defaultRemotePath := "/".toList, jump := none, addresses := [], tailscale := none
    defaultRuntime := .tmux }

/-- A host is stored twice and deleted, and the second call of the three fails. -/
def hostCalls : List (Operation × (Nat → Bool)) :=
  [(.upsertHost plainHost, fun _ => false), (.upsertHost plainHost, fun n => n = 1),
    (.deleteHost ⟨1⟩, fun _ => false)]

theorem hostCalls_keep_version :
    ∃ tables tables', (Migrations.applyMigrations typed.toSqlite fun _ => 0).exec (.idle Migrations.newDatabase) =
        (.ok (), .idle ⟨schema, tables⟩) ∧
      callAll typed serdeJson hostCalls (.idle tables) = .idle tables' ∧
      AtVersion typed.toSqlite 13 ⟨schema, tables'⟩ := by
  obtain ⟨⟨tables, hnew, hversion⟩, hkeeps⟩ := calls_keep_version typed serdeJson fun _ => 0
  obtain ⟨tables', hcalls, hversion', -⟩ := hkeeps tables hversion hostCalls
  exact ⟨tables, tables', hnew, hcalls, hversion'⟩

end KW.Repositories
