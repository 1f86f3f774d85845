import KodeWork.Framework.Lease
import KodeWork.Proof.Supervisor.Tasks

/-!
# Who holds the connect guards

A task that is inside a guarded call holds the guard of its host, and no two
tasks hold the same one: the guards are leases (`Lease.Exclusive`), which tasks
take when they enter a call and give back when it returns. `Guarded` says so,
together with what the guard protects in each session; every step of the program
keeps it (`guarded_step`). `step_cases` lists what a step can be for the
invariants that look at the tasks and the sessions only.
-/

namespace KW.Supervisor

open Session AppState

/-- The guard of a session: the kind of call that holds it. -/
def guardOf (session : Option ActiveSession) : Option Bool :=
  session.bind fun u => u.op.map Op.isDisconnect

def AppState.guards (s : AppState) (h : HostId) : Option Bool := guardOf (s.sessions h)

/-- The guard a task holds. -/
def AppState.holds (s : AppState) (i : Nat) : Option (HostId × Bool) :=
  s.tasks[i]?.bind fun task => task.pc.inside.map fun k => (task.host, k)

/-- The guards and the tasks agree, and each session keeps what its guard
protects. -/
structure Guarded (s : AppState) : Prop where
  exclusive : Lease.Exclusive s.guards s.holds
  guard : ∀ h u, s.sessions h = some u → GuardInv u

theorem guarded_new (eventBuffer : Nat) : Guarded (.new eventBuffer) where
  exclusive := ⟨nofun, nofun⟩
  guard := by simp [AppState.new]

namespace TaskSpec

variable {s t : AppState} {i : Nat} {task : Task} {pc' : TaskPc}

/-- A task after the step is the one that moved, or was there. -/
theorem moved (h : TaskSpec s t i task pc') {j : Nat} {y : Task}
    (hj : t.tasks[j]? = some y) : (j = i ∧ y = { task with pc := pc' }) ∨ (j ≠ i ∧ s.tasks[j]? = some y) := by
  rw [h.tasks] at hj
  exact entry_of_set hj

theorem holds_eq (h : TaskSpec s t i task pc') (hi : s.tasks[i]? = some task) :
    t.holds = Function.update s.holds i (pc'.inside.map fun k => (task.host, k)) := by
  obtain ⟨hlt, -⟩ := List.getElem?_eq_some_iff.mp hi
  funext j
  unfold AppState.holds
  rw [h.tasks]
  by_cases e : j = i
  · rw [e, Function.update_self, List.getElem?_set_self hlt]
    rfl
  · rw [Function.update_of_ne e, List.getElem?_set_ne (Ne.symm e)]

theorem holds_self (hi : s.tasks[i]? = some task) :
    s.holds i = task.pc.inside.map fun k => (task.host, k) := by
  rw [AppState.holds, hi]
  rfl

theorem guards_eq (h : TaskSpec s t i task pc') :
    t.guards = Function.update s.guards task.host (guardOf (t.sessions task.host)) := by
  funext g
  by_cases e : g = task.host
  · rw [e, Function.update_self]
    rfl
  · rw [Function.update_of_ne e, AppState.guards, h.frame g e]
    rfl

/-- The guard and what the task holds stay as they are. -/
theorem exclusive_of_eq (h : TaskSpec s t i task pc') (hi : s.tasks[i]? = some task) (hinv : Guarded s)
    (hg : guardOf (t.sessions task.host) = guardOf (s.sessions task.host))
    (hp : pc'.inside = task.pc.inside) : Lease.Exclusive t.guards t.holds := by
  have hguards : t.guards = s.guards := by
    rw [h.guards_eq, hg]
    exact Function.update_eq_self _ _
  have hholds : t.holds = s.holds := by
    rw [h.holds_eq hi, hp, ← holds_self hi, Function.update_eq_self]
  rw [hguards, hholds]
  exact hinv.exclusive

theorem exclusive (h : TaskSpec s t i task pc') (hi : s.tasks[i]? = some task) (hinv : Guarded s) :
    Lease.Exclusive t.guards t.holds := by
  have hself : s.holds i = task.pc.inside.map fun k => (task.host, k) := holds_self hi
  have hc := h.call
  generalize hb : s.sessions task.host = before at hc
  generalize ha : t.sessions task.host = after at hc
  cases hc with
  | touch hin hout hT =>
    refine h.exclusive_of_eq hi hinv ?_ (hout.trans hin.symm)
    rw [ha, hb]
    cases hT with
    | absent => rfl
    | created n => rfl
    | beside hbs => exact congrArg (Option.map Op.isDisconnect) hbs.op
  | take hin hout ho hn =>
    have hfree : s.guards task.host = none := by simp [AppState.guards, guardOf, hb, hn]
    rw [h.guards_eq, h.holds_eq hi, ha, hout]
    exact hinv.exclusive.take fun y o' => hinv.exclusive.not_held (o := true) (.inl hfree) y o'
  | next hpc hin hv =>
    refine h.exclusive_of_eq hi hinv ?_ (congrArg _ hpc)
    obtain ⟨op, hop⟩ := opStep_op hv
    rw [ha, hb]
    simp [guardOf, hop, (opStep_guard (hinv.guard _ _ hb) hop hv).kind _ rfl]
  | done hin hout hv hu =>
    obtain ⟨k, hk⟩ := Option.ne_none_iff_exists'.mp hin
    have hheld : s.holds i = some (task.host, k) := by rw [hself, hk]; rfl
    have hgive := hinv.exclusive.giveBack hheld
    rw [Lease.release, if_pos (hinv.exclusive.owned _ _ _ hheld)] at hgive
    rw [h.guards_eq, h.holds_eq hi, ha, hout]
    exact hgive

theorem guardInv (h : TaskSpec s t i task pc') (hinv : Guarded s) (g : HostId) (u : ActiveSession)
    (hu : t.sessions g = some u) : GuardInv u := by
  by_cases e : g = task.host
  · have hc := h.call
    rw [e] at hu
    rw [hu] at hc
    generalize hb : s.sessions task.host = before at hc
    cases hc with
    | touch hin hout hT =>
      cases hT with
      | created n => exact guardInv_new n
      | beside hbs => exact hbs.guardInv (hinv.guard _ _ hb)
    | take hin hout ho hn => exact (guardInv_acquire ho (if_pos hn)).2.2
    | next hpc hin hv =>
      obtain ⟨op, hop⟩ := opStep_op hv
      exact guardInv_op (hinv.guard _ _ hb) hop hv
    | done hin hout hv hu =>
      obtain ⟨op, hop⟩ := opStep_op hv
      exact guardInv_op (hinv.guard _ _ hb) hop hv
  · exact hinv.guard g u (h.frame g e ▸ hu)

theorem guarded (h : TaskSpec s t i task pc') (hi : s.tasks[i]? = some task) (hinv : Guarded s) :
    Guarded t := ⟨h.exclusive hi hinv, h.guardInv hinv⟩

end TaskSpec

/-! ## The other steps -/

/-- A step that only adds tasks, which hold nothing yet. -/
theorem Guarded.grow {s t : AppState} (hinv : Guarded s) {added : List Task}
    (hs : t.sessions = s.sessions) (ht : t.tasks = s.tasks ++ added)
    (hnew : ∀ x ∈ added, x.pc.inside = none) : Guarded t := by
  have hholds : t.holds = s.holds := by
    funext j
    unfold AppState.holds
    rw [ht, List.getElem?_append]
    split
    · rfl
    · rename_i hj
      rw [List.getElem?_eq_none (Nat.le_of_not_lt hj)]
      cases hx : added[j - s.tasks.length]? with
      | none => rfl
      | some x => simp [hnew x (List.mem_of_getElem? hx)]
  have hg : t.guards = s.guards := by
    funext h
    rw [AppState.guards, hs]
    rfl
  refine ⟨?_, ?_⟩
  · rw [hg, hholds]
    exact hinv.exclusive
  · rw [hs]
    exact hinv.guard

/-- The sessions after a step of one of them beside its guard. -/
theorem sessions_beside {s : AppState} {h g : HostId} {u v w : ActiveSession}
    (hu : s.sessions h = some u) (hb : Beside u v) (hw : (s.setSession h v).sessions g = some w) :
    ∃ w', s.sessions g = some w' ∧ Beside w' w := by
  by_cases e : g = h
  · rw [e, sessions_setSession] at hw
    cases hw
    exact ⟨u, e ▸ hu, hb⟩
  · exact ⟨w, (sessions_setSession_of_ne s v e).symm.trans hw, .refl w⟩

theorem Guarded.beside {s : AppState} (hinv : Guarded s) {h : HostId} {u v : ActiveSession}
    (hu : s.sessions h = some u) (hb : Beside u v) : Guarded (s.setSession h v) := by
  have hg : (s.setSession h v).guards = s.guards := by
    funext g
    by_cases e : g = h
    · rw [e, AppState.guards, AppState.guards, sessions_setSession, hu]
      exact congrArg (Option.map Op.isDisconnect) hb.op
    · rw [AppState.guards, AppState.guards, sessions_setSession_of_ne s v e]
  refine ⟨?_, fun g w hw => ?_⟩
  · rw [hg]
    exact hinv.exclusive
  · obtain ⟨w', hw', hbs⟩ := sessions_beside hu hb hw
    exact hbs.guardInv (hinv.guard g w' hw')

/-- The host the supervisor is about to insert into `reconnecting`. -/
def SupervisorPc.acquires : SupervisorPc → Option HostId
  | .acquire h _ => some h
  | _ => none

/-- What one round of the supervisor does: it goes on, or it starts an attempt. -/
theorem superviseStep_cases {s t : AppState} {due : Bool} (h : s.superviseStep due = some t) :
    (∃ pc, (∀ g ∈ s.supervisor.acquires, g ∈ s.reconnecting) ∧ t = { s with supervisor := pc }) ∨
    ∃ g pc, s.supervisor.acquires = some g ∧ g ∉ s.reconnecting ∧
      t = { s with supervisor := pc, reconnecting := g :: s.reconnecting,
                   tasks := s.tasks ++ [⟨g, .attemptLoad⟩] } := by
  simp only [superviseStep] at h
  split at h
  · cases h
  · rename_i hpc
    cases h
    exact .inl ⟨_, by simp [hpc, SupervisorPc.acquires], rfl⟩
  · rename_i g hosts hpc
    split at h <;> cases h <;> exact .inl ⟨_, by simp [hpc, SupervisorPc.acquires], rfl⟩
  · rename_i g hosts hpc
    split at h <;> cases h <;> exact .inl ⟨_, by simp [hpc, SupervisorPc.acquires], rfl⟩
  · rename_i g hosts hpc
    split at h <;> cases h
    · exact .inl ⟨_, by simpa [hpc, SupervisorPc.acquires] using ‹_›, rfl⟩
    · exact .inr ⟨g, _, by rw [hpc]; rfl, ‹_›, rfl⟩

/-- A task that was just started. -/
def TaskPc.fresh : TaskPc → Bool
  | .attemptLoad | .connectPrepare | .disconnectReconnecting => true
  | _ => false

/-- What a step does to the tasks and the sessions. -/
theorem step_cases {s t : AppState} {a : Action} (h : step s a = some t) :
    (∃ i task c pc', a = .task i c ∧ s.tasks[i]? = some task ∧ TaskSpec s t i task pc') ∨
    (∃ added : List Task, (∀ i c, a ≠ .task i c) ∧ t.sessions = s.sessions ∧
      t.tasks = s.tasks ++ added ∧ ∀ x ∈ added, x.pc.fresh = true) ∨
    (∃ g u v, (∀ i c, a ≠ .task i c) ∧ s.sessions g = some u ∧ Beside u v ∧ t = s.setSession g v) := by
  cases a with
  | snapshot hosts =>
    simp only [step] at h
    split at h <;> cases h
    exact .inr (.inl ⟨[], by simp, rfl, (List.append_nil _).symm, by simp⟩)
  | supervise due =>
    rcases superviseStep_cases h with ⟨pc, -, rfl⟩ | ⟨g, pc, -, -, rfl⟩
    · exact .inr (.inl ⟨[], by simp, rfl, (List.append_nil _).symm, by simp⟩)
    · exact .inr (.inl ⟨_, by simp, rfl, rfl, by simp [TaskPc.fresh]⟩)
  | connectHost g | disconnectHost g =>
    cases h
    exact .inr (.inl ⟨_, by simp, rfl, rfl, by simp [TaskPc.fresh]⟩)
  | task i c =>
    simp only [step] at h
    split at h
    · obtain ⟨pc', hspec⟩ := taskStep_spec ‹_› h
      exact .inl ⟨i, _, c, pc', rfl, ‹_›, hspec⟩
    · cases h
  | session g a =>
    simp only [step] at h
    split at h
    · rename_i hun
      obtain ⟨v, hv, rfl⟩ := Option.map_eq_some_iff.mp h
      obtain ⟨u, hu, hstep⟩ := Option.bind_eq_some_iff.mp hv
      refine .inr (.inr ⟨g, u, v, by simp, hu, beside_step hstep ?_ ?_ ?_, rfl⟩)
      · rintro c rfl
        cases hun
      · rintro rfl
        cases hun
      · rintro rfl
        cases hun
    · cases h

theorem TaskPc.inside_of_fresh {pc : TaskPc} (h : pc.fresh = true) : pc.inside = none := by
  cases pc <;> first | rfl | cases h

theorem guarded_step {s t : AppState} {a : Action} (hinv : Guarded s) (h : step s a = some t) :
    Guarded t := by
  rcases step_cases h with ⟨i, task, c, pc', -, hi, hspec⟩ | ⟨added, -, hs, ht, hnew⟩ |
    ⟨g, u, v, -, hu, hb, rfl⟩
  · exact hspec.guarded hi hinv
  · exact hinv.grow hs ht fun x hx => TaskPc.inside_of_fresh (hnew x hx)
  · exact hinv.beside hu hb

end KW.Supervisor
