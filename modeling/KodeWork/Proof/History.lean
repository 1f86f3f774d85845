import KodeWork.Impl.History.Commands

/-!
# The history of runs is truthful

Whatever the remote side answers and however `run_action`, `run_reconcile` and
the recovery at start-up interleave, a persisted run says only what is known:
its status, exit code and end agree (`Consistent`), a terminal status is final,
and the remote metadata of a run is removed only after its end is persisted
(`run_history_truthful`).

The writers race on stale reads; what keeps the table right is that each of them
writes fields that agree, and that `finish` checks the transition against the
row it writes to. `Evolves` is what every write of the table does to the rows
that are there.
-/

namespace KW.History

open RunState

/-- The exit code and the end of a run agree with its status. -/
structure Consistent (status : RunStatus) (exitCode : Option Int32) (finishedAtMs : Option Nat) :
    Prop where
  succeeded : status = .succeeded → exitCode = some 0
  failed : status = .failed → exitCode ≠ some 0
  active : status = .queued ∨ status = .running ∨ status = .unknown →
    exitCode = none ∧ finishedAtMs = none

def Run.Consistent (r : Run) : Prop := History.Consistent r.status r.exitCode r.finishedAtMs

def RunReconciliationUpdate.Consistent (u : RunReconciliationUpdate) : Prop :=
  History.Consistent u.status u.exitCode u.finishedAtMs

/-! ## The fields that are written -/

/-- A run that is not known to have ended. -/
theorem consistent_active {status : RunStatus} (hs : status ≠ .succeeded) (hf : status ≠ .failed) :
    Consistent status none none :=
  ⟨fun e => absurd e hs, fun e => absurd e hf, fun _ => ⟨rfl, rfl⟩⟩

/-- A run that ended with an exit code. -/
theorem consistent_exit (code : Int32) (finishedAtMs : Nat) :
    Consistent (if code = 0 then .succeeded else .failed) (some code) (some finishedAtMs) := by
  split
  · rename_i h
    exact ⟨fun _ => congrArg some h, nofun, nofun⟩
  · rename_i h
    exact ⟨nofun, fun _ e => h (Option.some.inj e), nofun⟩

theorem queuedRun_consistent (task : ActionTask) (now : Nat) : (queuedRun task now).Consistent :=
  consistent_active nofun nofun

theorem runUpdate_consistent {mode : ActionMode} (hm : mode ≠ .interactive) (id : RunId) (now : Nat)
    (remote : Except ActionRunError CommandOutput) :
    (runUpdate mode id now (runActionWithId mode id remote)).Consistent := by
  have completed : ∀ exitCode : Option Int32, Consistent (completedRunStatus exitCode) exitCode
      (if exitCode.isSome then some now else none) := by
    intro exitCode
    cases exitCode with
    | none => exact consistent_active nofun nofun
    | some code => exact consistent_exit code now
  cases remote with
  | error e =>
    simp only [runActionWithId, runUpdate]
    split
    · exact consistent_active nofun nofun
    · exact ⟨nofun, fun _ => nofun, nofun⟩
  | ok output =>
    cases mode with
    | interactive => exact absurd rfl hm
    | quick => exact completed output.exitCode
    | background =>
      simp only [runActionWithId]
      split
      · exact completed output.exitCode
      · exact consistent_active nofun nofun

theorem reconcileUpdate_consistent (run : Run) (remote : RemoteRunState) (now : Nat) :
    (reconcileUpdate run remote now).Consistent := by
  cases remote with
  | running | unknown => exact consistent_active nofun nofun
  | completed exitCode started finished => exact consistent_exit exitCode _

/-- A run that is reported as completed is persisted as such. -/
theorem reconcileUpdate_settles (run : Run) {remote : RemoteRunState} (h : remote.isCompleted = true)
    (now : Nat) : (reconcileUpdate run remote now).status = .succeeded ∨
      (reconcileUpdate run remote now).status = .failed := by
  cases remote with
  | running | unknown => cases h
  | completed exitCode started finished =>
    simp only [reconcileUpdate, reconciledRunFields]
    split
    · exact .inl rfl
    · exact .inr rfl

/-! ## The table -/

theorem get_id {runs : Runs} {id : RunId} {r : Run} (h : runs.get id = some r) : r.id = id := by
  simpa using List.find?_some h

theorem mem_of_get {runs : Runs} {id : RunId} {r : Run} (h : runs.get id = some r) : r ∈ runs :=
  List.mem_of_find?_eq_some h

/-- A write that keeps the ids. -/
theorem get_map (runs : Runs) {f : Run → Run} (hf : ∀ r, (f r).id = r.id) (id : RunId) :
    Runs.get (runs.map f) id = (runs.get id).map f := by
  have hp : ((fun r : Run => decide (r.id = id)) ∘ f) = fun r => decide (r.id = id) := by
    funext r
    simp [hf]
  rw [Runs.get, List.find?_map, hp]
  rfl

/-- Each row is the one its id names. -/
def Keyed (runs : Runs) : Prop := ∀ r ∈ runs, runs.get r.id = some r

theorem keyed_map {runs : Runs} (h : Keyed runs) {f : Run → Run} (hf : ∀ r, (f r).id = r.id) :
    Keyed (runs.map f) := by
  intro r hr
  obtain ⟨r', hr', rfl⟩ := List.mem_map.mp hr
  rw [get_map runs hf, hf, h r' hr']
  rfl

/-- The rows stay, and a terminal status with them. -/
def Evolves (runs runs' : Runs) : Prop :=
  ∀ id r, runs.get id = some r →
    ∃ r', runs'.get id = some r' ∧ (r.status.terminal = true → r'.status = r.status)

theorem Evolves.refl (runs : Runs) : Evolves runs runs := fun _ r h => ⟨r, h, fun _ => rfl⟩

theorem Evolves.trans {r₁ r₂ r₃ : Runs} (h₁ : Evolves r₁ r₂) (h₂ : Evolves r₂ r₃) : Evolves r₁ r₃ := by
  intro id r hr
  obtain ⟨r', hr', ht⟩ := h₁ id r hr
  obtain ⟨r'', hr'', ht'⟩ := h₂ id r' hr'
  refine ⟨r'', hr'', fun hterm => ?_⟩
  have e := ht hterm
  rw [ht' (e ▸ hterm), e]

/-- What a write of the table keeps. -/
structure Writes (runs runs' : Runs) : Prop where
  evolves : Evolves runs runs'
  keyed : Keyed runs → Keyed runs'
  consistent : (∀ r ∈ runs, r.Consistent) → ∀ r ∈ runs', r.Consistent

theorem Writes.refl (runs : Runs) : Writes runs runs := ⟨.refl runs, id, id⟩

theorem Writes.trans {r₁ r₂ r₃ : Runs} (h₁ : Writes r₁ r₂) (h₂ : Writes r₂ r₃) : Writes r₁ r₃ :=
  ⟨h₁.evolves.trans h₂.evolves, h₂.keyed ∘ h₁.keyed, h₂.consistent ∘ h₁.consistent⟩

/-- A write of the rows in place. -/
theorem writes_map (runs : Runs) {f : Run → Run} (hid : ∀ r, (f r).id = r.id)
    (hterm : ∀ r, runs.get r.id = some r → r.status.terminal = true → (f r).status = r.status)
    (hcons : ∀ r : Run, r.Consistent → (f r).Consistent) : Writes runs (runs.map f) where
  evolves := by
    intro id r hr
    refine ⟨f r, by rw [get_map runs hid, hr]; rfl, hterm r ?_⟩
    rw [get_id hr, hr]
  keyed := fun hk => keyed_map hk hid
  consistent := by
    intro hc r hr
    obtain ⟨r', hr', rfl⟩ := List.mem_map.mp hr
    exact hcons r' (hc r' hr')

theorem create_writes {runs runs' : Runs} {run : Run} (hrun : run.Consistent)
    (h : runs.create run = .ok runs') : Writes runs runs' := by
  unfold Runs.create at h
  split at h
  · cases h
  · rename_i hnew
    split at h <;> cases h
    have hnone : runs.get run.id = none := by simpa using hnew
    have hold : ∀ id r, runs.get id = some r → Runs.get (runs ++ [run]) id = some r := by
      intro id r hr
      rw [Runs.get, List.find?_append, show List.find? _ runs = some r from hr]
      rfl
    refine ⟨fun id r hr => ⟨r, hold id r hr, fun _ => rfl⟩, fun hk r hr => ?_, fun hc r hr => ?_⟩
    · rcases List.mem_append.mp hr with hr | hr
      · exact hold _ _ (hk r hr)
      · obtain rfl := List.mem_singleton.mp hr
        rw [Runs.get, List.find?_append, show List.find? _ runs = none from hnone]
        simp
    · rcases List.mem_append.mp hr with hr | hr
      · exact hc r hr
      · obtain rfl := List.mem_singleton.mp hr
        exact hrun

/-- `finish` writes to a row that may go to the new status. -/
theorem finish_ok {runs runs' : Runs} {u : RunReconciliationUpdate} (h : runs.finish u = .ok runs') :
    ∃ r, runs.get u.id = some r ∧ runTransition r.status u.status = true ∧
      runs' = runs.map fun r => if r.id = u.id then r.update u else r := by
  unfold Runs.finish Runs.currentStatus at h
  cases hr : runs.get u.id with
  | none => simp [hr] at h
  | some r =>
    simp only [hr] at h
    split at h
    · cases h
    · rename_i ht
      split at h <;> cases h
      exact ⟨r, rfl, by simpa using ht, rfl⟩

theorem finish_id (u : RunReconciliationUpdate) (r : Run) :
    (if r.id = u.id then r.update u else r).id = r.id := by
  split <;> rfl

theorem finish_writes {runs runs' : Runs} {u : RunReconciliationUpdate} (hu : u.Consistent)
    (h : runs.finish u = .ok runs') : Writes runs runs' := by
  obtain ⟨r, hr, ht, rfl⟩ := finish_ok h
  refine writes_map runs (finish_id u) (fun x hx hterm => ?_) fun x hx => ?_
  · split
    · -- the row that is written to: its status may not change
      rename_i e
      obtain rfl : r = x := by
        rw [e] at hx
        exact Option.some.inj (hr.symm.trans hx)
      exact runTransition_terminal ht hterm
    · rfl
  · split
    · exact hu
    · exact hx

/-- The end of the run is persisted. -/
def Settled (runs : Runs) (id : RunId) : Prop :=
  ∃ r, runs.get id = some r ∧ (r.status = .succeeded ∨ r.status = .failed)

theorem Settled.mono {runs runs' : Runs} (h : Evolves runs runs') {id : RunId} (hs : Settled runs id) :
    Settled runs' id := by
  obtain ⟨r, hr, hst⟩ := hs
  obtain ⟨r', hr', ht⟩ := h id r hr
  have hterm : r.status.terminal = true := by rcases hst with e | e <;> rw [e] <;> rfl
  exact ⟨r', hr', by rw [ht hterm]; exact hst⟩

/-- An update to `Succeeded` or `Failed`. -/
def RunReconciliationUpdate.settles (u : RunReconciliationUpdate) : Prop :=
  u.status = .succeeded ∨ u.status = .failed

theorem finish_settles {runs runs' : Runs} {u : RunReconciliationUpdate} (hu : u.settles)
    (h : runs.finish u = .ok runs') : Settled runs' u.id := by
  obtain ⟨r, hr, -, rfl⟩ := finish_ok h
  refine ⟨r.update u, ?_, hu⟩
  rw [get_map runs (finish_id u), hr, Option.map_some, if_pos (get_id hr)]

/-- A batch writes the updates one after the other. -/
theorem finishBatch_writes : ∀ {us : List RunReconciliationUpdate} {runs runs' : Runs},
    (∀ u ∈ us, u.Consistent) → runs.finishBatch us = .ok runs' →
    Writes runs runs' ∧ ∀ u ∈ us, u.settles → Settled runs' u.id
  | [], runs, runs', _, h => by
    cases h
    exact ⟨.refl runs, nofun⟩
  | u :: us, runs, runs', hc, h => by
    unfold Runs.finishBatch at h
    split at h
    · cases h
    · rename_i mid hmid
      have hw := finish_writes (hc u List.mem_cons_self) hmid
      obtain ⟨hrest, hset⟩ := finishBatch_writes (fun x hx => hc x (List.mem_cons_of_mem u hx)) h
      refine ⟨hw.trans hrest, fun x hx hs => ?_⟩
      rcases List.mem_cons.mp hx with rfl | hx
      · exact (finish_settles hs hmid).mono hrest.evolves
      · exact hset x hx hs

theorem recover_writes (runs : Runs) : Writes runs runs.recoverOrphanedQuickRuns := by
  refine writes_map runs (fun x => ?_) (fun x _ hterm => ?_) fun x hx => ?_
  · split <;> rfl
  · split
    · rename_i e
      rcases e.2 with e | e <;> rw [e] at hterm <;> cases hterm
    · rfl
  · split
    · -- the row was active, so it has no exit code
      rename_i e
      have hnone := (hx.active (e.2.imp_right .inl)).1
      exact ⟨nofun, nofun, fun _ => ⟨hnone, rfl⟩⟩
    · exact hx

/-! ## The invariant -/

/-- A `run_action` persists only Quick and Background runs, and writes fields
that agree. -/
def ActionTask.Sound (task : ActionTask) : Prop :=
  match task.pc with
  | .create | .dispatch => task.mode ≠ .interactive
  | .finish update => update.Consistent
  | _ => True

/-- The runs whose remote metadata is about to be removed. -/
def ReconcilePc.cleaning : ReconcilePc → List RunId
  | .cleanup left => left
  | _ => []

structure HistoryInv (s : RunState) : Prop where
  keyed : Keyed s.runs
  consistent : ∀ r ∈ s.runs, r.Consistent
  actions : ∀ task ∈ s.actions, task.Sound
  cleaning : ∀ task ∈ s.reconciles, ∀ id ∈ task.pc.cleaning, Settled s.runs id
  cleaned : ∀ c ∈ s.cleaned, c.2 = some .succeeded ∨ c.2 = some .failed

theorem historyInv_new : HistoryInv .new where
  keyed := fun _ h => absurd h List.not_mem_nil
  consistent := fun _ h => absurd h List.not_mem_nil
  actions := fun _ h => absurd h List.not_mem_nil
  cleaning := fun _ h => absurd h List.not_mem_nil
  cleaned := fun _ h => absurd h List.not_mem_nil

/-- A write of the table keeps the invariant. -/
theorem HistoryInv.write {s : RunState} (hi : HistoryInv s) {runs : Runs} (hw : Writes s.runs runs) :
    HistoryInv { s with runs := runs } :=
  ⟨hw.keyed hi.keyed, hw.consistent hi.consistent, hi.actions,
    fun task ht id hid => (hi.cleaning task ht id hid).mono hw.evolves, hi.cleaned⟩

theorem HistoryInv.goAction {s : RunState} (hi : HistoryInv s) (i : Nat) (task : ActionTask)
    {pc : ActionPc} (hs : ActionTask.Sound { task with pc := pc }) :
    HistoryInv (s.goAction i task pc) := by
  refine ⟨hi.keyed, hi.consistent, fun x hx => ?_, hi.cleaning, hi.cleaned⟩
  rcases List.mem_or_eq_of_mem_set hx with hx | rfl
  · exact hi.actions x hx
  · exact hs

theorem HistoryInv.goReconcile {s : RunState} (hi : HistoryInv s) (i : Nat) (task : ReconcileTask)
    {pc : ReconcilePc} (hs : ∀ id ∈ pc.cleaning, Settled s.runs id) :
    HistoryInv (s.goReconcile i task pc) := by
  refine ⟨hi.keyed, hi.consistent, hi.actions, fun x hx => ?_, hi.cleaned⟩
  rcases List.mem_or_eq_of_mem_set hx with hx | rfl
  · exact hi.cleaning x hx
  · exact hs

/-- What a step of a task keeps: the invariant, and the rows that are there. -/
structure StepSpec (s t : RunState) : Prop where
  evolves : Evolves s.runs t.runs
  inv : HistoryInv t

theorem actionStep_spec {s t : RunState} {i : Nat} {task : ActionTask} {c : Choice}
    (hi : HistoryInv s) (hs : task.Sound) (h : s.actionStep i task task.pc c = some t) :
    StepSpec s t := by
  have quiet : ∀ {pc}, ActionTask.Sound { task with pc := pc } → StepSpec s (s.goAction i task pc) :=
    fun hp => ⟨.refl _, hi.goAction i task hp⟩
  have writes : ∀ {runs pc}, Writes s.runs runs → ActionTask.Sound { task with pc := pc } →
      StepSpec s ({ s with runs := runs }.goAction i task pc) :=
    fun hw hp => ⟨hw.evolves, (hi.write hw).goAction i task hp⟩
  unfold ActionTask.Sound at hs
  cases hpc : task.pc with
  | start =>
    rw [hpc] at h
    cases c with
    | go =>
      simp only [actionStep] at h
      split at h <;> cases h
      · exact quiet trivial
      · exact quiet ‹_›
    | fault =>
      cases h
      exact quiet trivial
    | time _ | times _ | remote _ _ | lines _ => cases h
  | create =>
    rw [hpc] at h hs
    cases c with
    | time now =>
      simp only [actionStep] at h
      split at h <;> cases h
      · exact writes (create_writes (queuedRun_consistent task now) ‹_›) hs
      · exact quiet trivial
    | fault =>
      cases h
      exact quiet trivial
    | go | times _ | remote _ _ | lines _ => cases h
  | dispatch =>
    rw [hpc] at h hs
    cases c with
    | remote result now =>
      cases h
      exact quiet (runUpdate_consistent hs task.run now result)
    | fault =>
      cases h
      exact quiet trivial
    | go | time _ | times _ | lines _ => cases h
  | finish update =>
    rw [hpc] at h hs
    cases c with
    | go =>
      simp only [actionStep] at h
      split at h <;> cases h
      · exact writes (finish_writes hs ‹_›) trivial
      · exact quiet trivial
    | fault =>
      cases h
      exact quiet trivial
    | time _ | times _ | remote _ _ | lines _ => cases h
  | returned =>
    rw [hpc] at h
    cases c <;> cases h

/-- A commit persists the end of each run it is going to clean up. -/
theorem commit_writes {runs runs' : Runs} {probes : List (Run × RemoteRunState)} {now : List Nat}
    (h : runs.finishBatch (reconcileUpdates probes now) = .ok runs') :
    Writes runs runs' ∧ ∀ id ∈ cleanupRuns probes, Settled runs' id := by
  have hcons : ∀ u ∈ reconcileUpdates probes now, u.Consistent := by
    intro u hu
    obtain ⟨i, hi, rfl⟩ := List.mem_mapIdx.mp hu
    exact reconcileUpdate_consistent _ _ _
  obtain ⟨hw, hset⟩ := finishBatch_writes hcons h
  refine ⟨hw, fun id hid => ?_⟩
  obtain ⟨p, hp, rfl⟩ := List.mem_map.mp hid
  obtain ⟨hp, hcompleted⟩ := List.mem_filter.mp hp
  obtain ⟨i, hi, he⟩ := List.mem_iff_getElem.mp hp
  have hu : reconcileUpdate p.1 p.2 (now.getD i 0) ∈ reconcileUpdates probes now :=
    List.mem_mapIdx.mpr ⟨i, hi, by rw [he]⟩
  exact hset _ hu (reconcileUpdate_settles p.1 hcompleted _)

theorem reconcileStep_spec {s t : RunState} {i : Nat} {task : ReconcileTask} {c : Choice}
    (hi : HistoryInv s) (hs : ∀ id ∈ task.pc.cleaning, Settled s.runs id)
    (h : s.reconcileStep i task task.pc c = some t) : StepSpec s t := by
  have quiet : ∀ {pc : ReconcilePc}, pc.cleaning = [] → StepSpec s (s.goReconcile i task pc) := by
    intro pc hp
    exact ⟨.refl _, hi.goReconcile i task (by rw [hp]; nofun)⟩
  have guard : ∀ (hosts : List HostId), HistoryInv { s with reconciling := hosts } := fun _ =>
    ⟨hi.keyed, hi.consistent, hi.actions, hi.cleaning, hi.cleaned⟩
  cases hpc : task.pc with
  | acquire =>
    rw [hpc] at h
    cases c with
    | go =>
      simp only [reconcileStep] at h
      split at h <;> cases h
      · exact quiet rfl
      · exact ⟨.refl _, (guard _).goReconcile i task nofun⟩
    | fault =>
      cases h
      exact quiet rfl
    | time _ | times _ | remote _ _ | lines _ => cases h
  | list =>
    rw [hpc] at h
    cases c <;> cases h <;> exact quiet rfl
  | probe left probes =>
    rw [hpc] at h
    cases left with
    | nil =>
      cases c <;> cases h
      exact quiet rfl
    | cons run left => cases c <;> cases h <;> exact quiet rfl
  | commit probes =>
    rw [hpc] at h
    cases c with
    | times now =>
      simp only [reconcileStep] at h
      split at h <;> cases h
      · obtain ⟨hw, hset⟩ := commit_writes ‹_›
        exact ⟨hw.evolves, (hi.write hw).goReconcile i task hset⟩
      · exact quiet rfl
    | fault =>
      cases h
      exact quiet rfl
    | go | time _ | remote _ _ | lines _ => cases h
  | cleanup left =>
    rw [hpc] at h hs
    cases left with
    | nil =>
      cases c <;> cases h
      exact quiet rfl
    | cons id left =>
      cases c <;> cases h
      have hclean : HistoryInv { s with
          cleaned := s.cleaned ++ [(id, (s.runs.get id).map fun r => r.status)] } := by
        refine ⟨hi.keyed, hi.consistent, hi.actions, hi.cleaning, fun x hx => ?_⟩
        rcases List.mem_append.mp hx with hx | hx
        · exact hi.cleaned x hx
        · obtain rfl := List.mem_singleton.mp hx
          obtain ⟨r, hr, hst⟩ := hs id List.mem_cons_self
          rw [hr]
          exact hst.imp (congrArg some) (congrArg some)
      exact ⟨.refl _, hclean.goReconcile i task fun x hx => hs x (List.mem_cons_of_mem id hx)⟩
  | release =>
    rw [hpc] at h
    cases c <;> cases h
    exact ⟨.refl _, (guard _).goReconcile i task nofun⟩
  | returned =>
    rw [hpc] at h
    cases c <;> cases h

theorem step_spec {s t : RunState} {a : Action} (hi : HistoryInv s) (h : step s a = some t) :
    StepSpec s t := by
  cases a with
  | runAction host mode id =>
    cases h
    refine ⟨.refl _, hi.keyed, hi.consistent, fun x hx => ?_, hi.cleaning, hi.cleaned⟩
    rcases List.mem_append.mp hx with hx | hx
    · exact hi.actions x hx
    · obtain rfl := List.mem_singleton.mp hx
      trivial
  | runReconcile host =>
    cases h
    refine ⟨.refl _, hi.keyed, hi.consistent, hi.actions, fun x hx => ?_, hi.cleaned⟩
    rcases List.mem_append.mp hx with hx | hx
    · exact hi.cleaning x hx
    · obtain rfl := List.mem_singleton.mp hx
      nofun
  | recover =>
    cases h
    exact ⟨(recover_writes s.runs).evolves, hi.write (recover_writes s.runs)⟩
  | crash =>
    cases h
    exact ⟨.refl _, hi.keyed, hi.consistent, fun _ h => absurd h List.not_mem_nil,
      fun _ h => absurd h List.not_mem_nil, hi.cleaned⟩
  | action i c =>
    simp only [step] at h
    split at h
    · rename_i task ht
      exact actionStep_spec hi (hi.actions task (List.mem_of_getElem? ht)) h
    · cases h
  | reconcile i c =>
    simp only [step] at h
    split at h
    · rename_i task ht
      exact reconcileStep_spec hi (hi.cleaning task (List.mem_of_getElem? ht)) h
    · cases h

/-! ## Every run -/

theorem reach_historyInv {s : RunState} (h : machine.Reach Machine.free Initial s) : HistoryInv s :=
  h.invariant (I := HistoryInv) (by rintro _ rfl; exact historyInv_new)
    fun _ _ _ hi _ hs => (step_spec hi hs).inv

/-- The rows of a table stay for the rest of a run, and their terminal statuses. -/
theorem path_evolves {s t : RunState} (hi : HistoryInv s) (hp : machine.Path Machine.free s t) :
    Evolves s.runs t.runs := by
  have hboth : Evolves s.runs t.runs ∧ HistoryInv t :=
    hp.invariant (I := fun u => Evolves s.runs u.runs ∧ HistoryInv u)
      (fun _ _ _ hu _ hs => ⟨hu.1.trans (step_spec hu.2 hs).evolves, (step_spec hu.2 hs).inv⟩)
      ⟨.refl _, hi⟩
  exact hboth.1

/-- In every state of every run: the fields of each row agree with its status; a
row with a terminal status is there with that status ever after; and remote
metadata has been cleaned up only for runs that were persisted as `Succeeded` or
`Failed`. -/
theorem run_history_truthful {s : RunState} (h : machine.Reach Machine.free Initial s) :
    (∀ r ∈ s.runs, r.Consistent) ∧
    (∀ r ∈ s.runs, r.status.terminal = true → ∀ t, machine.Path Machine.free s t →
      ∃ r' ∈ t.runs, r'.id = r.id ∧ ∀ x ∈ t.runs, x.id = r.id → x.status = r.status) ∧
    ∀ c ∈ s.cleaned, c.2 = some .succeeded ∨ c.2 = some .failed := by
  have hi := reach_historyInv h
  refine ⟨hi.consistent, fun r hr hterm t hp => ?_, hi.cleaned⟩
  obtain ⟨r', hr', hst⟩ := path_evolves hi hp r.id r (hi.keyed r hr)
  refine ⟨r', mem_of_get hr', get_id hr', fun x hx hid => ?_⟩
  -- the row is the only one with its id
  have hx' := (reach_historyInv (h.path hp)).keyed x hx
  rw [hid] at hx'
  cases hr'.symm.trans hx'
  exact hst hterm

/-- A background run is started, found completed by a reconciliation, persisted
as `Succeeded`, and only then cleaned up. -/
theorem reconciled_run_cleaned :
    ∃ s, machine.Reach Machine.free Initial s ∧ s.cleaned = [(⟨7⟩, some .succeeded)] ∧
      ∀ r ∈ s.runs, r.Consistent := by
  obtain ⟨s, hs, hp⟩ := Machine.Reach.of_run machine Machine.free init_new
    [.runAction ⟨0⟩ .background ⟨7⟩, .action 0 .go, .action 0 (.time 1000),
      .action 0 (.remote (.ok ⟨some 0, 0⟩) 1200), .action 0 .go, .runReconcile ⟨0⟩, .reconcile 0 .go,
      .reconcile 0 .go, .reconcile 0 (.lines [.completed ⟨7⟩ (some 0) (some 5000) (some 9000)]),
      .reconcile 0 .go, .reconcile 0 (.times [20000]), .reconcile 0 .go]
    (fun s => s.cleaned = [(⟨7⟩, some .succeeded)]) (by decide)
  exact ⟨s, hs, of_decide_eq_true hp, (run_history_truthful hs).1⟩

end KW.History
