import KodeWork.Proof.History

/-!
# A reconciliation pass, and the runs that end during it

`run_reconcile` lists the runs of a host that are open, probes them, and writes what the
probes say in one transaction. A listed run may go from its status to any that a probe
gives (`open_transition`), but by then `run_action` may have persisted its end; if
the probe says something else, the transition is refused, and the whole transaction is
rolled back. `passes_persist` says of every pass of every run that it persists what
it probed if and only if no run ended so in between (`Pass.Fresh`);
`stale_run_drops_result` is a pass that loses the result of another run.
-/

namespace KW.History

open RunState

/-! ## The statuses that are written -/

/-- The statuses that `run_action` and `run_reconcile` write. -/
def written : RunStatus → Bool
  | .queued | .running | .unknown | .succeeded | .failed => true
  | _ => false

/-- The statuses that a probe gives. -/
def probed : RunStatus → Bool
  | .running | .unknown | .succeeded | .failed => true
  | _ => false

/-- What a probe says of the status. -/
def RemoteRunState.status : RemoteRunState → RunStatus
  | .running => .running
  | .completed exitCode _ _ => if exitCode = 0 then .succeeded else .failed
  | .unknown => .unknown

theorem reconcileUpdate_status (run : Run) (remote : RemoteRunState) (now : Nat) :
    (reconcileUpdate run remote now).status = remote.status := by
  cases remote <;> rfl

theorem probed_status (remote : RemoteRunState) : probed remote.status = true := by
  cases remote with
  | completed exitCode =>
    rw [RemoteRunState.status]
    split <;> rfl
  | running | unknown => rfl

theorem probed_written {status : RunStatus} (h : probed status = true) : written status = true := by
  cases status <;> first | rfl | cases h

/-- An open run may go to every status that a probe gives. -/
theorem open_transition {current target : RunStatus} (hc : written current = true) (ht : probed target = true)
    (hopen : current.terminal = false) : runTransition current target = true := by
  cases current with
  | queued | running | unknown => cases target <;> first | rfl | cases ht
  | succeeded | failed => cases hopen
  | created | confirming | cancelled | timedOut | interrupted => cases hc

/-- A run that has ended only to the one it has. -/
theorem transition_iff {current target : RunStatus} (hc : written current = true) (ht : probed target = true) :
    runTransition current target = true ↔ (current.terminal = true → current = target) := by
  constructor
  · exact fun h hterm => (runTransition_terminal h hterm).symm
  · intro h
    cases hterm : current.terminal with
    | false => exact open_transition hc ht hterm
    | true =>
      rw [h hterm]
      simp [runTransition]

theorem completedRunStatus_written (exitCode : Option Int32) : written (completedRunStatus exitCode) = true := by
  cases exitCode with
  | none => rfl
  | some code =>
    rw [completedRunStatus]
    split <;> rfl

theorem runUpdate_written (mode : ActionMode) (id : RunId) (now : Nat) (outcome : Except ActionRunError RunOutcome) :
    written (runUpdate mode id now outcome).status = true := by
  cases outcome with
  | error e =>
    rw [runUpdate]
    split <;> rfl
  | ok value =>
    rw [runUpdate]
    split
    · rfl
    · exact completedRunStatus_written _
    · rfl

/-! ## The table -/

/-- One row for each run, with a status that is written. -/
structure Rows (runs : Runs) : Prop where
  ids : (runs.map Run.id).Nodup
  written : ∀ r ∈ runs, written r.status = true

theorem rows_map {runs : Runs} (h : Rows runs) {f : Run → Run} (hid : ∀ r, (f r).id = r.id)
    (hf : ∀ r, History.written r.status = true → History.written (f r).status = true) : Rows (runs.map f) where
  ids := by
    rw [List.map_map, show Run.id ∘ f = Run.id from funext hid]
    exact h.ids
  written r hr := by
    obtain ⟨r', hr', rfl⟩ := List.mem_map.mp hr
    exact hf r' (h.written r' hr')

theorem finish_rows {runs runs' : Runs} {u : RunReconciliationUpdate} (h : Rows runs)
    (hu : History.written u.status = true) (hok : runs.finish u = .ok runs') : Rows runs' := by
  obtain ⟨-, -, -, rfl⟩ := finish_ok hok
  refine rows_map h (finish_id u) fun r hr => ?_
  split
  · exact hu
  · exact hr

theorem create_rows {runs runs' : Runs} {run : Run} (h : Rows runs) (hrun : History.written run.status = true)
    (hok : runs.create run = .ok runs') : Rows runs' := by
  unfold Runs.create at hok
  split at hok
  · cases hok
  · rename_i hnew
    split at hok <;> cases hok
    have hnone : runs.get run.id = none := Option.not_isSome_iff_eq_none.mp hnew
    refine ⟨?_, fun r hr => ?_⟩
    · rw [List.map_append]
      refine List.nodup_append.mpr ⟨h.ids, List.nodup_singleton _, fun x hx y hy e => ?_⟩
      obtain ⟨r, hr, rfl⟩ := List.mem_map.mp hx
      cases List.mem_singleton.mp hy
      exact absurd (decide_eq_true e) (List.find?_eq_none.mp hnone r hr)
    · rcases List.mem_append.mp hr with hr | hr
      · exact h.written r hr
      · obtain rfl := List.mem_singleton.mp hr
        exact hrun

theorem finishBatch_rows : ∀ {us : List RunReconciliationUpdate} {runs runs' : Runs}, Rows runs →
    (∀ u ∈ us, History.written u.status = true) → runs.finishBatch us = .ok runs' → Rows runs'
  | [], runs, runs', h, _, hok => by
    cases hok
    exact h
  | u :: us, runs, runs', h, hu, hok => by
    unfold Runs.finishBatch at hok
    split at hok
    · cases hok
    · exact finishBatch_rows (finish_rows h (hu u List.mem_cons_self) ‹_›)
        (fun x hx => hu x (List.mem_cons_of_mem u hx)) hok

theorem recover_rows {runs : Runs} (h : Rows runs) : Rows runs.recoverOrphanedQuickRuns := by
  refine rows_map h (fun r => ?_) fun r hr => ?_
  · split <;> rfl
  · split
    · rfl
    · exact hr

/-! ## A batch -/

/-- The values of an update fit into their columns. -/
def RunReconciliationUpdate.Fits (u : RunReconciliationUpdate) : Prop :=
  sqlOptionU64 u.finishedAtMs = true ∧ sqlU64 u.outputBytes = true ∧ sqlOptionU64 u.reconciledAtMs = true

/-- `finish` writes, if the row is there, the transition allowed and the values fit. -/
theorem finish_eq {runs : Runs} {u : RunReconciliationUpdate} {r : Run} (hr : runs.get u.id = some r)
    (ht : runTransition r.status u.status = true) (hfits : u.Fits) :
    runs.finish u = .ok (runs.map fun r => if r.id = u.id then r.update u else r) := by
  have hcurrent : runs.currentStatus u.id = .ok r.status := by rw [Runs.currentStatus, hr]
  rw [Runs.finish, hcurrent]
  simp only [ht, Bool.true_eq_false, if_false]
  exact if_pos hfits

/-- The row of another run. -/
theorem get_finish {runs : Runs} {u : RunReconciliationUpdate} (id : RunId) :
    Runs.get (runs.map fun r => if r.id = u.id then r.update u else r) id =
      (runs.get id).map fun r => if r.id = u.id then r.update u else r :=
  get_map runs (finish_id u) id

/-- A batch with one update for each run is written if and only if each transition is allowed
from the status the run has before; then each row has the values of its update. -/
theorem finishBatch_iff : ∀ {us : List RunReconciliationUpdate} {runs : Runs},
    (us.map RunReconciliationUpdate.id).Nodup → (∀ u ∈ us, u.Fits) → (∀ u ∈ us, (runs.get u.id).isSome) →
    ((∃ runs', runs.finishBatch us = .ok runs') ↔
      ∀ u ∈ us, ∀ r, runs.get u.id = some r → runTransition r.status u.status = true) ∧
    ∀ runs', runs.finishBatch us = .ok runs' →
      (∀ u ∈ us, ∃ r, runs'.get u.id = some (Run.update r u)) ∧
      ∀ id, id ∉ us.map RunReconciliationUpdate.id → runs'.get id = runs.get id
  | [], runs, _, _, _ => by
    refine ⟨⟨fun _ u hu => absurd hu List.not_mem_nil, fun _ => ⟨runs, rfl⟩⟩, ?_⟩
    rintro runs' ⟨⟩
    exact ⟨fun u hu => absurd hu List.not_mem_nil, fun _ _ => rfl⟩
  | u :: us, runs, hnodup, hfits, hmade => by
    obtain ⟨hnew, hrest⟩ := List.nodup_cons.mp hnodup
    obtain ⟨r, hr⟩ := Option.isSome_iff_exists.mp (hmade u List.mem_cons_self)
    have hother {id : RunId} (hid : id ≠ u.id) :
        Runs.get (runs.map fun r => if r.id = u.id then r.update u else r) id = runs.get id := by
      rw [get_finish]
      cases hx : runs.get id with
      | none => rfl
      | some x => rw [Option.map_some, if_neg (by rw [get_id hx]; exact hid)]
    have hne {v : RunReconciliationUpdate} (hv : v ∈ us) : v.id ≠ u.id := fun e =>
      hnew (e ▸ List.mem_map_of_mem hv)
    by_cases ht : runTransition r.status u.status = true
    · have hfinish := finish_eq hr ht (hfits u List.mem_cons_self)
      have hself : Runs.get (runs.map fun r => if r.id = u.id then r.update u else r) u.id = some (r.update u) := by
        rw [get_finish, hr, Option.map_some, if_pos (get_id hr)]
      obtain ⟨hiff, hwrites⟩ := @finishBatch_iff us (runs.map fun r => if r.id = u.id then r.update u else r)
        hrest (fun v hv => hfits v (List.mem_cons_of_mem u hv)) fun v hv => by
          rw [hother (hne hv)]
          exact hmade v (List.mem_cons_of_mem u hv)
      simp only [Runs.finishBatch, hfinish]
      refine ⟨hiff.trans ⟨fun h v hv r' hr' => ?_, fun h v hv r' hr' => ?_⟩, fun runs' hok => ?_⟩
      · rcases List.mem_cons.mp hv with rfl | hv
        · cases hr.symm.trans hr'
          exact ht
        · exact h v hv r' ((hother (hne hv)).trans hr')
      · exact h v (List.mem_cons_of_mem u hv) r' ((hother (hne hv)).symm.trans hr')
      · obtain ⟨hall, hkeep⟩ := hwrites runs' hok
        refine ⟨fun v hv => ?_, fun id hid => ?_⟩
        · rcases List.mem_cons.mp hv with rfl | hv
          · exact ⟨r, (hkeep v.id hnew).trans hself⟩
          · exact hall v hv
        · rw [List.map_cons, List.mem_cons, not_or] at hid
          exact (hkeep id hid.2).trans (hother hid.1)
    · have hfails : runs.finish u = .error (.invalidRunTransition r.status u.status) := by
        have hcurrent : runs.currentStatus u.id = .ok r.status := by rw [Runs.currentStatus, hr]
        rw [Runs.finish, hcurrent]
        exact if_pos (Bool.not_eq_true _ ▸ ht)
      simp only [Runs.finishBatch, hfails]
      refine ⟨⟨?_, fun h => absurd (h u List.mem_cons_self r hr) ht⟩, ?_⟩
      · rintro ⟨_, ⟨⟩⟩
      · rintro _ ⟨⟩

/-! ## The runs of a pass -/

/-- The runs that a pass has listed, and still works on. -/
def ReconcilePc.listed : ReconcilePc → List Run
  | .probe left probes => (probes.map Prod.fst) ++ left
  | .commit probes => probes.map Prod.fst
  | .acquire | .list | .cleanup _ | .release | .returned => []

/-- The status that `run_action` is about to write. -/
def ActionPc.writes : ActionPc → Option RunStatus
  | .finish update => some update.status
  | .start | .create | .dispatch | .returned => none

structure PassInv (s : RunState) : Prop where
  history : HistoryInv s
  rows : Rows s.runs
  actions : ∀ task ∈ s.actions, ∀ status, task.pc.writes = some status → written status = true
  ids : ∀ task ∈ s.reconciles, (task.pc.listed.map Run.id).Nodup
  made : ∀ task ∈ s.reconciles, ∀ r ∈ task.pc.listed, (s.runs.get r.id).isSome

theorem listed_ids {runs : Runs} (h : Rows runs) (host : HostId) (limit : Nat) :
    ((runs.listReconcilableByHost host limit).map Run.id).Nodup := by
  rw [Runs.listReconcilableByHost]
  refine List.Nodup.sublist ((List.take_sublist _ _).map Run.id) ?_
  refine ((List.perm_insertionSort _ _).map Run.id).nodup_iff.mpr ?_
  exact h.ids.sublist (List.filter_sublist.map Run.id)

theorem listed_made {runs : Runs} {host : HostId} {limit : Nat} {r : Run}
    (h : r ∈ runs.listReconcilableByHost host limit) : (runs.get r.id).isSome := by
  rw [Runs.listReconcilableByHost] at h
  have hmem := (List.perm_insertionSort _ _).mem_iff.mp (List.mem_of_mem_take h)
  refine List.find?_isSome.mpr ⟨r, (List.mem_filter.mp hmem).1, decide_eq_true rfl⟩

theorem reconcileRemoteRuns_fst (batch : List Run) (lines : List ProbeLine) :
    (reconcileRemoteRuns batch lines).map Prod.fst = batch := by
  rw [reconcileRemoteRuns, List.map_map]
  exact List.map_id batch

theorem isSome_of_evolves {runs runs' : Runs} (h : Evolves runs runs') {id : RunId} (hid : (runs.get id).isSome) :
    (runs'.get id).isSome := by
  obtain ⟨r, hr⟩ := Option.isSome_iff_exists.mp hid
  obtain ⟨r', hr', -⟩ := h id r hr
  exact Option.isSome_iff_exists.mpr ⟨r', hr'⟩

/-- A step of `run_action`. -/
theorem actionStep_rows {s t : RunState} {i : Nat} {task : ActionTask} {c : Choice} (hrows : Rows s.runs)
    (htask : ∀ status, task.pc.writes = some status → written status = true)
    (h : s.actionStep i task task.pc c = some t) :
    Rows t.runs ∧ t.reconciles = s.reconciles ∧
      ∃ pc, t.actions = s.actions.set i { task with pc := pc } ∧
        ∀ status, pc.writes = some status → written status = true := by
  cases hpc : task.pc with
  | start =>
    rw [hpc] at h
    cases c with
    | go =>
      simp only [actionStep] at h
      split at h <;> cases h <;> exact ⟨hrows, rfl, _, rfl, by rintro _ ⟨⟩⟩
    | fault =>
      cases h
      exact ⟨hrows, rfl, _, rfl, by rintro _ ⟨⟩⟩
    | time | times | remote | lines => cases h
  | create =>
    rw [hpc] at h
    cases c with
    | time now =>
      simp only [actionStep] at h
      split at h <;> cases h
      · exact ⟨create_rows hrows rfl ‹_›, rfl, _, rfl, by rintro _ ⟨⟩⟩
      · exact ⟨hrows, rfl, _, rfl, by rintro _ ⟨⟩⟩
    | fault =>
      cases h
      exact ⟨hrows, rfl, _, rfl, by rintro _ ⟨⟩⟩
    | go | times | remote | lines => cases h
  | dispatch =>
    rw [hpc] at h
    cases c with
    | remote result now =>
      cases h
      refine ⟨hrows, rfl, _, rfl, ?_⟩
      rintro _ ⟨⟩
      exact runUpdate_written ..
    | fault =>
      cases h
      exact ⟨hrows, rfl, _, rfl, by rintro _ ⟨⟩⟩
    | go | time | times | lines => cases h
  | finish update =>
    rw [hpc] at h htask
    cases c with
    | go =>
      simp only [actionStep] at h
      split at h <;> cases h
      · exact ⟨finish_rows hrows (htask _ rfl) ‹_›, rfl, _, rfl, by rintro _ ⟨⟩⟩
      · exact ⟨hrows, rfl, _, rfl, by rintro _ ⟨⟩⟩
    | fault =>
      cases h
      exact ⟨hrows, rfl, _, rfl, by rintro _ ⟨⟩⟩
    | time | times | remote | lines => cases h
  | returned =>
    rw [hpc] at h
    cases c <;> cases h

theorem updates_probed (probes : List (Run × RemoteRunState)) (now : List Nat) :
    ∀ u ∈ reconcileUpdates probes now, probed u.status = true := by
  intro u hu
  obtain ⟨i, hi, rfl⟩ := List.mem_mapIdx.mp hu
  rw [reconcileUpdate_status]
  exact probed_status _

/-- A step of `run_reconcile`. -/
theorem reconcileStep_rows {s t : RunState} {i : Nat} {task : ReconcileTask} {c : Choice} (hrows : Rows s.runs)
    (hids : (task.pc.listed.map Run.id).Nodup) (hmade : ∀ r ∈ task.pc.listed, (s.runs.get r.id).isSome)
    (h : s.reconcileStep i task task.pc c = some t) :
    Rows t.runs ∧ t.actions = s.actions ∧
      ∃ pc, t.reconciles = s.reconciles.set i { task with pc := pc } ∧ (pc.listed.map Run.id).Nodup ∧
        ∀ r ∈ pc.listed, (s.runs.get r.id).isSome := by
  have quiet {pc : ReconcilePc} (hp : pc.listed = []) :
      (pc.listed.map Run.id).Nodup ∧ ∀ r ∈ pc.listed, (s.runs.get r.id).isSome := by
    rw [hp]
    exact ⟨List.nodup_nil, fun r hr => absurd hr List.not_mem_nil⟩
  cases hpc : task.pc with
  | acquire =>
    rw [hpc] at h
    cases c with
    | go =>
      simp only [reconcileStep] at h
      split at h <;> cases h <;> exact ⟨hrows, rfl, _, rfl, quiet rfl⟩
    | fault =>
      cases h
      exact ⟨hrows, rfl, _, rfl, quiet rfl⟩
    | time | times | remote | lines => cases h
  | list =>
    rw [hpc] at h
    cases c with
    | go =>
      cases h
      exact ⟨hrows, rfl, _, rfl, listed_ids hrows .., fun r hr => listed_made hr⟩
    | fault =>
      cases h
      exact ⟨hrows, rfl, _, rfl, quiet rfl⟩
    | time | times | remote | lines => cases h
  | probe left probes =>
    rw [hpc] at h hids hmade
    cases left with
    | nil =>
      cases c <;> cases h
      rw [ReconcilePc.listed, List.append_nil] at hids hmade
      exact ⟨hrows, rfl, _, rfl, hids, hmade⟩
    | cons run left =>
      cases c with
      | lines lines =>
        cases h
        have hlisted : (ReconcilePc.probe ((run :: left).drop 32)
            (probes ++ reconcileRemoteRuns ((run :: left).take 32) lines)).listed =
              (ReconcilePc.probe (run :: left) probes).listed := by
          rw [ReconcilePc.listed, List.map_append, reconcileRemoteRuns_fst, List.append_assoc, List.take_append_drop]
          rfl
        exact ⟨hrows, rfl, _, rfl, by rw [hlisted]; exact hids, by rw [hlisted]; exact hmade⟩
      | fault =>
        cases h
        have hsub : (ReconcilePc.probe ((run :: left).drop 32) probes).listed.Sublist
            (ReconcilePc.probe (run :: left) probes).listed :=
          List.Sublist.append_left (List.drop_sublist _ _) _
        exact ⟨hrows, rfl, _, rfl, hids.sublist (hsub.map Run.id), fun r hr => hmade r (hsub.subset hr)⟩
      | go | time | times | remote => cases h
  | commit probes =>
    rw [hpc] at h
    cases c with
    | times now =>
      simp only [reconcileStep] at h
      split at h <;> cases h
      · exact ⟨finishBatch_rows hrows (fun u hu => probed_written (updates_probed probes now u hu)) ‹_›, rfl, _, rfl,
          quiet rfl⟩
      · exact ⟨hrows, rfl, _, rfl, quiet rfl⟩
    | fault =>
      cases h
      exact ⟨hrows, rfl, _, rfl, quiet rfl⟩
    | go | time | remote | lines => cases h
  | cleanup left =>
    rw [hpc] at h
    cases left with
    | nil =>
      cases c <;> cases h
      exact ⟨hrows, rfl, _, rfl, quiet rfl⟩
    | cons id left =>
      cases c <;> cases h
      exact ⟨hrows, rfl, _, rfl, quiet rfl⟩
  | release =>
    rw [hpc] at h
    cases c <;> cases h
    exact ⟨hrows, rfl, _, rfl, quiet rfl⟩
  | returned =>
    rw [hpc] at h
    cases c <;> cases h

theorem step_passInv {s t : RunState} {a : Action} (hi : PassInv s) (h : step s a = some t) : PassInv t := by
  obtain ⟨hevolves, hhistory⟩ := step_spec hi.history h
  have keep {r : Run} (hr : (s.runs.get r.id).isSome) : (t.runs.get r.id).isSome := isSome_of_evolves hevolves hr
  cases a with
  | runAction host mode id =>
    cases h
    refine ⟨hhistory, hi.rows, fun task ht => ?_, hi.ids, hi.made⟩
    rcases List.mem_append.mp ht with ht | ht
    · exact hi.actions task ht
    · obtain rfl := List.mem_singleton.mp ht
      rintro _ ⟨⟩
  | runReconcile host =>
    cases h
    refine ⟨hhistory, hi.rows, hi.actions, fun task ht => ?_, fun task ht => ?_⟩
    · rcases List.mem_append.mp ht with ht | ht
      · exact hi.ids task ht
      · obtain rfl := List.mem_singleton.mp ht
        exact List.nodup_nil
    · rcases List.mem_append.mp ht with ht | ht
      · exact hi.made task ht
      · obtain rfl := List.mem_singleton.mp ht
        exact fun r hr => absurd hr List.not_mem_nil
  | recover =>
    cases h
    exact ⟨hhistory, recover_rows hi.rows, hi.actions, hi.ids, fun task ht r hr => keep (hi.made task ht r hr)⟩
  | crash =>
    cases h
    exact ⟨hhistory, hi.rows, fun task ht => absurd ht List.not_mem_nil, fun task ht => absurd ht List.not_mem_nil,
      fun task ht => absurd ht List.not_mem_nil⟩
  | action i c =>
    simp only [step] at h
    split at h
    · rename_i task ht
      obtain ⟨hrows, hreconciles, pc, hactions, hpc⟩ :=
        actionStep_rows hi.rows (hi.actions task (List.mem_of_getElem? ht)) h
      refine ⟨hhistory, hrows, fun x hx => ?_, ?_, ?_⟩
      · rw [hactions] at hx
        rcases List.mem_or_eq_of_mem_set hx with hx | rfl
        · exact hi.actions x hx
        · exact hpc
      · rw [hreconciles]
        exact hi.ids
      · rw [hreconciles]
        exact fun x hx r hr => keep (hi.made x hx r hr)
    · cases h
  | reconcile i c =>
    simp only [step] at h
    split at h
    · rename_i task ht
      have hmem := List.mem_of_getElem? ht
      obtain ⟨hrows, hactions, pc, hreconciles, hids, hmade⟩ :=
        reconcileStep_rows hi.rows (hi.ids task hmem) (hi.made task hmem) h
      refine ⟨hhistory, hrows, ?_, fun x hx => ?_, fun x hx => ?_⟩
      · rw [hactions]
        exact hi.actions
      · rw [hreconciles] at hx
        rcases List.mem_or_eq_of_mem_set hx with hx | rfl
        · exact hi.ids x hx
        · exact hids
      · rw [hreconciles] at hx
        rcases List.mem_or_eq_of_mem_set hx with hx | rfl
        · exact fun r hr => keep (hi.made x hx r hr)
        · exact fun r hr => keep (hmade r hr)
    · cases h

theorem passInv_new : PassInv .new :=
  ⟨historyInv_new, ⟨List.nodup_nil, fun _ hr => absurd hr List.not_mem_nil⟩, fun _ ht => absurd ht List.not_mem_nil,
    fun _ ht => absurd ht List.not_mem_nil, fun _ ht => absurd ht List.not_mem_nil⟩

/-! ## Passes -/

/-- A `finish_batch` of a pass: what it probed, the table before and after it, and whether the pass
has failed. -/
structure Pass where
  probes : List (Run × RemoteRunState)
  now : List Nat
  before : Runs
  after : Runs
  failed : Bool

/-- The passes of a run, as it goes. -/
def recordPass (s : RunState) (passes : List Pass) (a : Action) (t : RunState) : List Pass :=
  match a with
  | .reconcile i (.times now) =>
    match (s.reconciles[i]?).map ReconcileTask.pc with
    | some (.commit probes) =>
      passes ++ [⟨probes, now, s.runs, t.runs, (t.reconciles[i]?).any fun task => task.pc = .release⟩]
    | _ => passes
  | _ => passes

namespace Pass

/-- The times and counters of its updates fit into their columns. -/
def Fits (p : Pass) : Prop := ∀ u ∈ reconcileUpdates p.probes p.now, u.Fits

/-- It has not failed, and each probed end of a run that was open is in the table. -/
def Persists (p : Pass) : Prop :=
  p.failed = false ∧ ∀ run exitCode started finished, (run, .completed exitCode started finished) ∈ p.probes →
    (∃ r, p.before.get run.id = some r ∧ r.status.terminal = false) →
    ∃ r, p.after.get run.id = some r ∧ r.status = (if exitCode = 0 then .succeeded else .failed) ∧
      r.exitCode = some exitCode

/-- A run that has ended has the status that the probe says. -/
def Fresh (p : Pass) : Prop :=
  ∀ q ∈ p.probes, ∀ r, p.before.get q.1.id = some r → r.status.terminal = true → r.status = q.2.status

end Pass

theorem updates_id (probes : List (Run × RemoteRunState)) (now : List Nat) :
    (reconcileUpdates probes now).map RunReconciliationUpdate.id = (probes.map Prod.fst).map Run.id := by
  refine List.ext_getElem (by simp [reconcileUpdates]) fun i h₁ h₂ => ?_
  simp [reconcileUpdates, reconcileUpdate]

/-- The update of a probed run. -/
theorem mem_updates {probes : List (Run × RemoteRunState)} {now : List Nat} {q : Run × RemoteRunState} (hq : q ∈ probes) :
    ∃ n, reconcileUpdate q.1 q.2 n ∈ reconcileUpdates probes now := by
  obtain ⟨i, hi, rfl⟩ := List.mem_iff_getElem.mp hq
  exact ⟨now.getD i 0, List.mem_mapIdx.mpr ⟨i, hi, rfl⟩⟩

/-- The transaction of a pass is written if and only if the pass is fresh. -/
theorem finishBatch_fresh {runs : Runs} (hrows : Rows runs) {probes : List (Run × RemoteRunState)} {now : List Nat}
    (hids : ((probes.map Prod.fst).map Run.id).Nodup) (hmade : ∀ r ∈ probes.map Prod.fst, (runs.get r.id).isSome)
    (hfits : ∀ u ∈ reconcileUpdates probes now, u.Fits) :
    ((∃ runs', runs.finishBatch (reconcileUpdates probes now) = .ok runs') ↔
      ∀ q ∈ probes, ∀ r, runs.get q.1.id = some r → r.status.terminal = true → r.status = q.2.status) ∧
    ∀ runs', runs.finishBatch (reconcileUpdates probes now) = .ok runs' →
      ∀ q ∈ probes, ∃ r n, runs'.get q.1.id = some (Run.update r (reconcileUpdate q.1 q.2 n)) := by
  obtain ⟨hiff, hwrites⟩ := @finishBatch_iff _ runs (by rw [updates_id]; exact hids) hfits fun u hu => by
    obtain ⟨i, hi, rfl⟩ := List.mem_mapIdx.mp hu
    exact hmade _ (List.mem_map_of_mem (List.getElem_mem hi))
  have htransition {q : Run × RemoteRunState} {r : Run} (n : Nat) (hr : runs.get q.1.id = some r) :
      runTransition r.status (reconcileUpdate q.1 q.2 n).status = true ↔
        (r.status.terminal = true → r.status = q.2.status) := by
    rw [reconcileUpdate_status]
    exact transition_iff (hrows.written r (mem_of_get hr)) (probed_status q.2)
  refine ⟨hiff.trans ⟨fun h q hq r hr => ?_, fun h u hu r hr => ?_⟩, fun runs' hok q hq => ?_⟩
  · obtain ⟨n, hu⟩ := @mem_updates probes now q hq
    exact (htransition n hr).mp (h _ hu r hr)
  · obtain ⟨i, hi, rfl⟩ := List.mem_mapIdx.mp hu
    exact (htransition _ hr).mpr (h _ (List.getElem_mem hi) r hr)
  · obtain ⟨n, hu⟩ := @mem_updates probes now q hq
    obtain ⟨r, hr⟩ := (hwrites runs' hok).1 _ hu
    exact ⟨r, n, hr⟩

def InitialPasses (s : RunState × List Pass) : Prop := Initial s.1 ∧ s.2 = []

/-- What is said of the passes of a run. -/
def PassesPersist (passes : List Pass) : Prop := ∀ p ∈ passes, p.Fits → (p.Persists ↔ p.Fresh)

/-- One `finish_batch`. -/
theorem commit_persists {s t : RunState} {i : Nat} {task : ReconcileTask} {probes : List (Run × RemoteRunState)}
    {now : List Nat} (hi : PassInv s) (htask : s.reconciles[i]? = some task) (hpc : task.pc = .commit probes)
    (h : s.reconcileStep i task task.pc (.times now) = some t)
    (hfits : ∀ u ∈ reconcileUpdates probes now, u.Fits) :
    (⟨probes, now, s.runs, t.runs, (t.reconciles[i]?).any fun task => task.pc = .release⟩ : Pass).Persists ↔
      (⟨probes, now, s.runs, t.runs, (t.reconciles[i]?).any fun task => task.pc = .release⟩ : Pass).Fresh := by
  have hmem := List.mem_of_getElem? htask
  have hids := hi.ids task hmem
  have hmade := hi.made task hmem
  rw [hpc] at h hids hmade
  have hlt : i < s.reconciles.length := (List.getElem?_eq_some_iff.mp htask).1
  obtain ⟨hiff, hwrites⟩ := finishBatch_fresh hi.rows hids hmade hfits
  simp only [reconcileStep] at h
  split at h
  · rename_i runs hok
    cases h
    refine ⟨fun _ => hiff.mp ⟨runs, hok⟩, fun _ => ⟨?_, fun run exitCode started finished hq _ => ?_⟩⟩
    · change ((s.reconciles.set i _)[i]?).any _ = false
      rw [List.getElem?_set_self hlt]
      rfl
    · obtain ⟨r, n, hr⟩ := hwrites runs hok _ hq
      exact ⟨_, hr, rfl, rfl⟩
  · rename_i e hfail
    cases h
    refine ⟨fun hpersists => ?_, fun hfresh => ?_⟩
    · have hfailed : ((s.reconciles.set i { task with pc := .release })[i]?).any (fun task => task.pc = .release) = false :=
        hpersists.1
      rw [List.getElem?_set_self hlt] at hfailed
      cases hfailed
    · obtain ⟨runs', hok⟩ := hiff.mpr hfresh
      cases hfail.symm.trans hok

/-- In every run, a pass persists what it has probed if and only if each run of its batches that
has ended by then has the status that the probe says. -/
theorem passes_persist {s : RunState × List Pass}
    (h : (machine.history recordPass).Reach Machine.free InitialPasses s) : PassesPersist s.2 := by
  have hboth : PassInv s.1 ∧ PassesPersist s.2 := by
    refine h.invariant (I := fun s => PassInv s.1 ∧ PassesPersist s.2) ?_ ?_
    · rintro ⟨s, passes⟩ ⟨rfl, rfl⟩
      exact ⟨passInv_new, fun p hp => absurd hp List.not_mem_nil⟩
    · rintro ⟨s, passes⟩ a ⟨t, passes'⟩ ⟨hi, hpasses⟩ - hboth
      obtain ⟨hstep, rfl⟩ : step s a = some t ∧ passes' = recordPass s passes a t := Machine.history_step hboth
      refine ⟨step_passInv hi hstep, ?_⟩
      simp only [recordPass]
      split
      · split
        · rename_i i now _ probes hcommit
          obtain ⟨task, htask, hpc⟩ := Option.map_eq_some_iff.mp hcommit
          have hcall : s.reconcileStep i task task.pc (.times now) = some t := by simpa [step, htask] using hstep
          intro p hp hfits
          rcases List.mem_append.mp hp with hp | hp
          · exact hpasses p hp hfits
          · obtain rfl := List.mem_singleton.mp hp
            exact commit_persists hi htask hpc hcall hfits
        · exact hpasses
      · exact hpasses
  exact hboth.2

/-- A Quick run in flight and a Background run that has ended, listed and probed by one pass. -/
def probedTrace : List Action :=
  [.runAction ⟨0⟩ .quick ⟨1⟩, .action 0 .go, .action 0 (.time 1000), .runAction ⟨0⟩ .background ⟨2⟩, .action 1 .go,
    .action 1 (.time 2000), .action 1 (.remote (.ok ⟨some 0, 0⟩) 2100), .action 1 .go, .runReconcile ⟨0⟩,
    .reconcile 0 .go, .reconcile 0 .go,
    .reconcile 0 (.lines [.completed ⟨2⟩ (some 0) (some 2000) (some 2500), .other ⟨1⟩]), .reconcile 0 .go]

/-- The end of the Background run is written while the Quick run is in flight. -/
theorem passes_persist_in_flight :
    ∃ s : RunState × List Pass, (machine.history recordPass).Reach Machine.free InitialPasses s ∧
      ∃ p ∈ s.2, p.probes ≠ [] ∧ p.Persists := by
  have hnew : InitialPasses (.new, []) := ⟨rfl, rfl⟩
  obtain ⟨s, hs, hp⟩ := Machine.Reach.of_run (machine.history recordPass) Machine.free hnew
    (List.flatten [probedTrace, [.reconcile 0 (.times [3100, 3100])]])
    (fun s => s.2.any fun p => decide (p.probes ≠ [] ∧
      (∀ u ∈ reconcileUpdates p.probes p.now, sqlOptionU64 u.finishedAtMs = true ∧ sqlU64 u.outputBytes = true ∧
        sqlOptionU64 u.reconciledAtMs = true) ∧
      ∀ q ∈ p.probes, ∀ r ∈ p.before.get q.1.id, r.status.terminal = true → r.status = q.2.status)) (by decide)
  obtain ⟨p, hmem, hp⟩ := List.any_eq_true.mp hp
  obtain ⟨hne, hfits, hfresh⟩ := of_decide_eq_true hp
  exact ⟨s, hs, p, hmem, hne, (passes_persist hs p hmem hfits).mpr hfresh⟩

/-- The Quick run ends after its probe. -/
def staleTrace : List Action :=
  List.flatten [probedTrace, [.action 0 (.remote (.ok ⟨some 0, 5⟩) 3000), .action 0 .go,
    .reconcile 0 (.times [3100, 3100])]]

/-- The probed end of the Background run, whose row is open, is not written. -/
theorem stale_run_drops_result :
    ∃ s : RunState × List Pass, (machine.history recordPass).Reach Machine.free InitialPasses s ∧
      ∃ p ∈ s.2, p.failed = true ∧
        (∃ q ∈ p.probes, q.1.id = ⟨2⟩ ∧ q.2 = .completed 0 (some 2000) (some 2500)) ∧
        (p.before.get ⟨2⟩).map Run.status = some .running ∧ p.after = p.before := by
  have hnew : InitialPasses (.new, []) := ⟨rfl, rfl⟩
  obtain ⟨s, hs, hp⟩ := Machine.Reach.of_run (machine.history recordPass) Machine.free hnew staleTrace
    (fun s => s.2.any fun p => decide (p.failed = true ∧
      (∃ q ∈ p.probes, q.1.id = ⟨2⟩ ∧ q.2 = .completed 0 (some 2000) (some 2500)) ∧
      (p.before.get ⟨2⟩).map Run.status = some .running ∧ p.after = p.before)) (by decide)
  obtain ⟨p, hmem, hp⟩ := List.any_eq_true.mp hp
  exact ⟨s, hs, p, hmem, of_decide_eq_true hp⟩

end KW.History
