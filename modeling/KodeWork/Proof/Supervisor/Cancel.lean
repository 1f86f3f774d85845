import KodeWork.Proof.Supervisor.Disconnect

/-!
# Which transport a cancelled attempt takes down

A reconnect attempt looks into `reconnecting` again after its connect call has
returned and let go of the guard, and disconnects the host if it does not find
itself there, or if the host is not ready. `SessionManager::disconnect` is told
the host and not the transport: when another connect call has got the guard in
between, the attempt takes down the transport of that call
(`cancelled_attempt_takes_other_transport`).

In every run in which no connect call stores a transport while an attempt of the
host stands between its connect call and its decision or its disconnect call
(`StoresAlone`), an attempt takes down its own transport only
(`cancellation_takes_own_transport`). Who established a transport is a history
variable.
-/

namespace KW.Supervisor

open Session AppState

/-- A task stores a transport of a host. -/
structure Storing where
  task : Nat
  host : HostId
  transport : Nat

/-- The transport the guarded call of a session is about to store. -/
def storedNext (u : ActiveSession) : Option Nat :=
  match u.op with
  | some (.connect (.store g)) => some g
  | _ => none

/-- What a step stores: it is the `store` step of the task's connect call. -/
def AppState.storing (s : AppState) : Action → Option Storing
  | .task i _ => s.tasks[i]?.bind fun task =>
    if task.pc.inside = none then none
    else ((s.sessions task.host).bind storedNext).map fun g => ⟨i, task.host, g⟩
  | _ => none

/-- The task that established each transport of each host. -/
abbrev Established := HostId → Nat → Option Nat

def recordStore (s : AppState) (e : Established) (a : Action) (_ : AppState) : Established :=
  match s.storing a with
  | some st => Function.update e st.host (Function.update (e st.host) st.transport (some st.task))
  | none => e

def establishedMachine : Machine (AppState × Established) Action := machine.history recordStore

def EstablishedInitial (s : AppState × Established) : Prop :=
  ∃ eventBuffer, s = (.new eventBuffer, fun _ _ => none)

/-- The transport that the attempt `i` takes down next: it stands before the
`connection.take()` of its disconnect call. -/
def AppState.takesDown (s : AppState) (i : Nat) : Option (HostId × Nat) :=
  s.tasks[i]?.bind fun task => (s.sessions task.host).bind fun u =>
    match task.pc, u.op with
    | .attemptDisconnecting, some (.disconnect (.take _)) => u.connection.map fun v => (task.host, v)
    | _, _ => none

/-- A transport is stored only while no attempt of the host has connected and
not yet decided or disconnected. -/
def StoresAlone (s : AppState × Established) (a : Action) : Prop :=
  ∀ st ∈ s.1.storing a, ∀ task ∈ s.1.tasks, task.host = st.host → task.pc.settling = false

instance (s : AppState × Established) (a : Action) : Decidable (StoresAlone s a) :=
  inferInstanceAs (Decidable (∀ st ∈ s.1.storing a, _))

/-! ## The transport in a guarded call -/

/-- A step of the guarded call `op` that stores no transport: it keeps the
transport or takes it away, and a call that has stored its transport after the
step has done so before. -/
structure Keeps (s : ActiveSession) (op : Op) (t : ActiveSession) (r : ActiveSession.Progress) :
    Prop where
  connection : t.connection = s.connection ∨ t.connection = none
  attached : ∀ op', r = .next op' → op'.attached = true → op.attached = true
  connected : ∀ g, r = .done (.connected g) → op.attached = true

theorem Keeps.goOn {s t : ActiveSession} {op op' : Op} (hk : t.connection = s.connection)
    (ha : op'.attached = true → op.attached = true) : Keeps s op t (.next op') where
  connection := .inl hk
  attached := by
    rintro _ ⟨⟩
    exact ha
  connected := by rintro _ ⟨⟩

theorem Keeps.setState {s t : ActiveSession} {op : Op} {target : ConnectionState}
    {p r : ActiveSession.Progress} (h : s.setStateThen target p = (t, r))
    (ha : ∀ op', p = .next op' → op'.attached = true → op.attached = true)
    (hc : ∀ g, p = .done (.connected g) → op.attached = true) : Keeps s op t r := by
  rcases setStateThen_cases s target p with e | e <;> rw [e] at h <;> cases h
  · exact ⟨.inl rfl, ha, hc⟩
  · exact ⟨.inl rfl, by rintro _ ⟨⟩, by rintro _ ⟨⟩⟩

theorem connectStep_keeps {s t : ActiveSession} {pc : ConnectPc} {c : ActiveSession.OpChoice}
    {r : ActiveSession.Progress} (h : s.connectStep pc c = some (t, r)) (hn : ∀ g, pc ≠ .store g) :
    Keeps s (.connect pc) t r := by
  cases pc with
  | store g => exact absurd rfl (hn g)
  | resolve | setReady g | setFailed kind =>
    cases c <;> simp only [ActiveSession.connectStep, reduceCtorEq, Option.some.injEq] at h
    exact .setState h (by rintro _ ⟨⟩ ⟨⟩) (by rintro _ ⟨⟩ <;> rfl)
  | candidates =>
    cases c <;> simp only [ActiveSession.connectStep, reduceCtorEq] at h
    split at h <;> cases h <;> exact .goOn rfl (by rintro ⟨⟩)
  | reserve n =>
    cases c <;> simp only [ActiveSession.connectStep, reduceCtorEq, Option.some.injEq] at h
    cases h
    exact .goOn rfl (by rintro ⟨⟩)
  | jump n g =>
    cases c <;> simp only [ActiveSession.connectStep, reduceCtorEq, Option.some.injEq] at h <;>
      cases h <;> exact .goOn rfl (by rintro ⟨⟩)
  | attempt n g e =>
    cases n <;> cases c <;>
      simp only [ActiveSession.connectStep, reduceCtorEq, Option.some.injEq] at h
    · cases h
      exact .goOn rfl (by rintro ⟨⟩)
    · exact .setState h (by rintro _ ⟨⟩ ⟨⟩) (by rintro _ ⟨⟩)
  | dial n g =>
    cases c <;> simp only [ActiveSession.connectStep, reduceCtorEq, Option.some.injEq] at h
    · cases h
      exact .goOn rfl (by rintro ⟨⟩)
    · split at h <;> cases h <;> exact .goOn rfl (by rintro ⟨⟩)
  | install g =>
    cases c <;> simp only [ActiveSession.connectStep, reduceCtorEq] at h
    split at h <;> cases h
    · exact .goOn rfl (by rintro ⟨⟩)
    · exact ⟨.inl rfl, by rintro _ ⟨⟩, by rintro _ ⟨⟩⟩
  | clearSftp g | clearPanes g | clearPending g | drainBridges g | clearTransfers g | spawnPump g =>
    cases c <;> simp only [ActiveSession.connectStep, reduceCtorEq, Option.some.injEq] at h
    cases h
    exact .goOn rfl fun _ => rfl

theorem disconnectStep_keeps {s t : ActiveSession} {pc : DisconnectPc} {r : ActiveSession.Progress}
    (h : s.disconnectStep pc = (t, r)) : Keeps s (.disconnect pc) t r := by
  cases pc with
  | take g =>
    cases h
    exact ⟨.inr rfl, by rintro _ ⟨⟩ ⟨⟩, by rintro _ ⟨⟩⟩
  | setDisconnected => exact .setState h (by rintro _ ⟨⟩) (by rintro _ ⟨⟩)
  | reserve | close g | clearPanes g | clearSftp g | takeTransfers g | drainBridges g
  | clearSubscribers g | clearPending g | closeTunnels =>
    cases h
    exact .goOn rfl (by rintro ⟨⟩)

/-- A step of the guarded call stores its transport, or keeps what is there. -/
theorem opStep_transport {s t : ActiveSession} {op : Op} {c : ActiveSession.OpChoice}
    {r : ActiveSession.Progress} (hop : s.op = some op) (h : s.opStep c = some (t, r)) :
    (∃ g, op = .connect (.store g) ∧ t.connection = some g ∧ ∀ g', r ≠ .done (.connected g')) ∨
      (∀ g, op ≠ .connect (.store g)) ∧ Keeps s op t r := by
  cases op with
  | disconnect pc =>
    simp only [ActiveSession.opStep, hop] at h
    split at h
    · exact .inr ⟨by rintro _ ⟨⟩, disconnectStep_keeps (Option.some.inj h)⟩
    · cases h
  | connect pc =>
    simp only [ActiveSession.opStep, hop] at h
    by_cases hs : ∃ g, pc = .store g
    · obtain ⟨g, rfl⟩ := hs
      cases c <;> simp only [ActiveSession.connectStep, reduceCtorEq, Option.some.injEq] at h
      cases h
      exact .inl ⟨g, rfl, rfl, by rintro _ ⟨⟩⟩
    · refine .inr ⟨?_, connectStep_keeps h fun g e => hs ⟨g, e⟩⟩
      rintro g ⟨⟩
      exact hs ⟨g, rfl⟩

/-! ## Every run -/

/-- The task has connected, and the transport of the session is its own. -/
def Owns (pc : TaskPc) (u : ActiveSession) : Prop :=
  pc.settling = true ∨ pc.inside = some false ∧ ∃ op, u.op = some op ∧ op.attached = true

structure OwnInv (s : AppState × Established) : Prop extends Guarded s.1 where
  own : ∀ (i : Nat) (task : Task) (u : ActiveSession) (v : Nat), s.1.tasks[i]? = some task →
    s.1.sessions task.host = some u → Owns task.pc u → u.connection = some v →
    s.2 task.host v = some i

section

variable {s : AppState} {i : Nat} {task : Task} {u : ActiveSession} {c : TaskChoice}

theorem storing_outside (hi : s.tasks[i]? = some task) (hin : task.pc.inside = none) :
    s.storing (.task i c) = none := by
  simp [storing, hi, hin]

theorem storing_inside (hi : s.tasks[i]? = some task) (hin : task.pc.inside ≠ none)
    (hu : s.sessions task.host = some u) :
    s.storing (.task i c) = (storedNext u).map fun g => ⟨i, task.host, g⟩ := by
  simp [storing, hi, hin, hu]

theorem storedNext_none {op : Op} (hop : u.op = some op) (h : ∀ g, op ≠ .connect (.store g)) :
    storedNext u = none := by
  unfold storedNext
  split
  · rename_i g hg
    exact absurd (Option.some.inj (hop.symm.trans hg)) (h g)
  · rfl

theorem recordStore_none {e : Established} {a : Action} {t : AppState} (h : s.storing a = none) :
    recordStore s e a t = e := by
  simp only [recordStore, h]

/-- A step of a task records nothing of another host. -/
theorem recordStore_of_ne {e : Established} {t : AppState} {h : HostId} (hi : s.tasks[i]? = some task)
    (hne : h ≠ task.host) : recordStore s e (.task i c) t h = e h := by
  cases hst : s.storing (.task i c) with
  | none => rw [recordStore_none hst]
  | some st =>
    have hh : st.host = task.host := by
      simp only [storing, hi, Option.bind_some] at hst
      split at hst
      · cases hst
      · obtain ⟨g, -, rfl⟩ := Option.map_eq_some_iff.mp hst
        rfl
    simp only [recordStore, hst]
    exact Function.update_of_ne (fun e => hne (e.trans hh)) _ _

/-- Two tasks of one host are not both inside a guarded call. -/
theorem Guarded.alone (hinv : Guarded s) (hi : s.tasks[i]? = some task) (hin : task.pc.inside ≠ none)
    {j : Nat} {y : Task} (hj : s.tasks[j]? = some y) (hh : y.host = task.host) (hne : j ≠ i) :
    y.pc.inside = none := by
  obtain ⟨k, hk⟩ := Option.ne_none_iff_exists'.mp hin
  cases hy : y.pc.inside with
  | none => rfl
  | some k' =>
    have hheld : s.holds i = some (task.host, k) := by rw [TaskSpec.holds_self hi, hk]; rfl
    have hheld' : s.holds j = some (task.host, k') := by rw [TaskSpec.holds_self hj, hy, hh]; rfl
    exact absurd (hinv.exclusive.unique j i _ _ _ hheld' hheld) hne

end

/-- A task that does not move keeps its transport. -/
theorem own_other {s t : AppState} {e : Established} {i : Nat} {task : Task} {c : TaskChoice}
    {pc' : TaskPc} (hinv : OwnInv (s, e)) (hok : StoresAlone (s, e) (.task i c))
    (hi : s.tasks[i]? = some task) (hspec : TaskSpec s t i task pc') {j : Nat} {y : Task}
    {u : ActiveSession} {v : Nat} (hne : j ≠ i) (hj : s.tasks[j]? = some y)
    (hu : t.sessions y.host = some u) (hy : Owns y.pc u) (hv : u.connection = some v) :
    recordStore s e (.task i c) t y.host v = some j := by
  by_cases hh : y.host = task.host
  · have hc := hspec.call
    rw [← hh, hu] at hc
    generalize hb : s.sessions y.host = before at hc
    -- a step of the guarded call of the task that moves
    have guarded : ∀ {w x : ActiveSession} {ch : ActiveSession.OpChoice} {r : ActiveSession.Progress},
        before = some w → task.pc.inside ≠ none → w.opStep ch = some (x, r) → x.connection = some v →
        recordStore s e (.task i c) t y.host v = some j := by
      rintro w x ch r rfl hin hx hxv
      have hset : y.pc.settling = true := by
        rcases hy with hs | ⟨hy', -⟩
        · exact hs
        · rw [hinv.alone hi hin hj hh hne] at hy'
          cases hy'
      have hsto := storing_inside (c := c) hi hin (hh ▸ hb)
      obtain ⟨op, hop⟩ := opStep_op hx
      rcases opStep_transport hop hx with ⟨g, rfl, -⟩ | ⟨hn, hk⟩
      · -- it would store its transport beside an attempt
        simp only [storedNext, hop, Option.map_some] at hsto
        have hf := hok _ hsto y (List.mem_of_getElem? hj) hh
        exact absurd hset (Bool.eq_false_iff.mp hf)
      · rw [storedNext_none hop hn] at hsto
        rw [recordStore_none hsto]
        have hw : w.connection = some v := by
          rcases hk.connection with e' | e' <;> rw [e'] at hxv
          · exact hxv
          · cases hxv
        exact hinv.own j y w v hj hb (.inl hset) hw
    cases hc with
    | touch hin hout hT =>
      rw [recordStore_none (storing_outside hi hin)]
      cases hT with
      | created n => cases hv
      | beside hbs =>
        refine hinv.own j y _ v hj hb ?_ (hbs.connection ▸ hv)
        rw [Owns, ← hbs.op]
        exact hy
    | @take w op hin hout ho hn =>
      rw [recordStore_none (storing_outside hi hin)]
      refine hinv.own j y _ v hj hb (.inl ?_) hv
      rcases hy with hs | ⟨-, op', hop', ha⟩
      · exact hs
      · cases hop'
        rcases ho with rfl | rfl <;> cases ha
    | next hpc hin hv' => exact guarded rfl hin hv' hv
    | done hin hout hv' hu' => exact guarded rfl hin hv' hv
  · rw [recordStore_of_ne hi hh]
    exact hinv.own j y u v hj (hspec.frame _ hh ▸ hu) hy hv

/-- A task that moves has its own transport from its connect call on. -/
theorem own_self {s t : AppState} {e : Established} {i : Nat} {task : Task} {c : TaskChoice}
    {pc' : TaskPc} (hinv : OwnInv (s, e)) (hok : StoresAlone (s, e) (.task i c))
    (hi : s.tasks[i]? = some task) (hspec : TaskSpec s t i task pc') {u : ActiveSession} {v : Nat}
    (hu : t.sessions task.host = some u) (hy : Owns pc' u) (hv : u.connection = some v) :
    recordStore s e (.task i c) t task.host v = some i := by
  have hc := hspec.call
  rw [hu] at hc
  generalize hb : s.sessions task.host = before at hc
  -- outside a guarded call the task has connected before
  have outside : task.pc.inside = none → pc'.settling = true → task.pc.settling = true := by
    intro hin hs
    rcases hspec.follows.settling hs with hs' | e'
    · exact hs'
    · rw [e'] at hin
      cases hin
  -- the task is inside its guarded call, and has stored its transport before this step
  have guarded : ∀ {w x : ActiveSession} {op : Op} {r : ActiveSession.Progress}, before = some w →
      task.pc.inside ≠ none → w.op = some op → (∀ g, op ≠ .connect (.store g)) → Keeps w op x r →
      x.connection = some v → Owns task.pc w → recordStore s e (.task i c) t task.host v = some i := by
    rintro w x op r rfl hin hop hn hk hxv how
    have hsto := storing_inside (c := c) hi hin hb
    rw [storedNext_none hop hn] at hsto
    rw [recordStore_none hsto]
    have hw : w.connection = some v := by
      rcases hk.connection with e' | e' <;> rw [e'] at hxv
      · exact hxv
      · cases hxv
    exact hinv.own i task w v hi hb how hw
  cases hc with
  | touch hin hout hT =>
    rw [recordStore_none (storing_outside hi hin)]
    cases hT with
    | created n => cases hv
    | beside hbs =>
      refine hinv.own i task _ v hi hb (.inl ?_) (hbs.connection ▸ hv)
      rcases hy with hs | ⟨hy', -⟩
      · exact outside hin hs
      · rw [hout] at hy'
        cases hy'
  | @take w op hin hout ho hn =>
    rw [recordStore_none (storing_outside hi hin)]
    refine hinv.own i task _ v hi hb (.inl ?_) hv
    rcases hy with hs | ⟨-, op', hop', ha⟩
    · exact outside hin hs
    · cases hop'
      rcases ho with rfl | rfl <;> cases ha
  | @next w x op' ch hpc hin hx =>
    obtain ⟨op, hop⟩ := opStep_op hx
    rcases opStep_transport hop hx with ⟨g, rfl, hg, -⟩ | ⟨hn, hk⟩
    · have hsto := storing_inside (c := c) hi hin hb
      simp only [storedNext, hop, Option.map_some] at hsto
      obtain rfl : g = v := Option.some.inj (hg.symm.trans hv)
      simp only [recordStore, hsto, Function.update_self]
    · refine guarded rfl hin hop hn hk hv ?_
      rcases hy with hs | ⟨hy', _, ⟨⟩, ha⟩
      · exact .inl (hpc ▸ hs)
      · exact .inr ⟨hpc ▸ hy', op, hop, hk.attached op' rfl ha⟩
  | @done w x r ch hin hout hx hund hconn =>
    obtain ⟨op, hop⟩ := opStep_op hx
    have hs : pc'.settling = true := by
      rcases hy with hs | ⟨hy', -⟩
      · exact hs
      · rw [hout] at hy'
        cases hy'
    rcases opStep_transport hop hx with ⟨g, rfl, -, hr⟩ | ⟨hn, hk⟩
    · -- the step stores the transport, so the call does not return from it connected
      rcases hspec.follows.settling hs with hs' | e'
      · have hsto := storing_inside (c := c) hi hin hb
        simp only [storedNext, hop, Option.map_some] at hsto
        have hf := hok _ hsto task (List.mem_of_getElem? hi) rfl
        exact absurd hs' (Bool.eq_false_iff.mp hf)
      · obtain ⟨g', rfl⟩ := hconn e' hs
        exact absurd rfl (hr g')
    · refine guarded rfl hin hop hn hk hv ?_
      rcases hspec.follows.settling hs with hs' | e'
      · exact .inl hs'
      · obtain ⟨g, rfl⟩ := hconn e' hs
        exact .inr ⟨by rw [e']; rfl, op, hop, hk.connected g rfl⟩

theorem TaskPc.not_owns_of_fresh {pc : TaskPc} (h : pc.fresh = true) (u : ActiveSession) : ¬ Owns pc u := by
  rintro (hs | ⟨hi, -⟩)
  · cases pc <;> cases h <;> cases hs
  · rw [TaskPc.inside_of_fresh h] at hi
    cases hi

theorem ownInv_step {s t : AppState × Established} {a : Action} (hinv : OwnInv s)
    (hok : StoresAlone s a) (h : establishedMachine.step s a = some t) : OwnInv t := by
  obtain ⟨s, e⟩ := s
  obtain ⟨t, e'⟩ := t
  obtain ⟨hs, hrec⟩ := Machine.history_step h
  have hstep : step s a = some t := hs
  obtain rfl : e' = recordStore s e a t := hrec
  refine ⟨guarded_step hinv.toGuarded hstep, fun j y u v hj hu hy hv => ?_⟩
  have quiet : (∀ i c, a ≠ .task i c) → recordStore s e a t = e := by
    intro ha
    refine recordStore_none ?_
    cases a with
    | task i c => exact absurd rfl (ha i c)
    | snapshot | supervise | connectHost | disconnectHost | session => rfl
  rcases step_cases hstep with ⟨i, task, c, pc', rfl, hi, hspec⟩ | ⟨added, ha, hs, ht, hnew⟩ |
    ⟨g, w, x, ha, hw, hb, rfl⟩
  · rcases hspec.moved hj with ⟨rfl, rfl⟩ | ⟨hne, hj'⟩
    · exact own_self hinv hok hi hspec hu hy hv
    · exact own_other hinv hok hi hspec hne hj' hu hy hv
  · simp only [quiet ha]
    rcases entry_of_append (ht ▸ hj) with hj' | ⟨-, hm⟩
    · exact hinv.own j y u v hj' (hs ▸ hu) hy hv
    · exact absurd hy (TaskPc.not_owns_of_fresh (hnew y hm) u)
  · simp only [quiet ha]
    obtain ⟨w', hw', hbs⟩ := sessions_beside hw hb hu
    refine hinv.own j y w' v hj hw' ?_ (hbs.connection ▸ hv)
    rw [Owns, ← hbs.op]
    exact hy

theorem reach_ownInv {s : AppState × Established}
    (h : establishedMachine.Reach StoresAlone EstablishedInitial s) : OwnInv s := by
  refine h.invariant ?_ fun _ _ _ hinv hok hs => ownInv_step hinv hok hs
  rintro _ ⟨n, rfl⟩
  refine ⟨guarded_new n, fun i task u v hi => ?_⟩
  simp [AppState.new] at hi

theorem takesDown_cases {s : AppState} {i v : Nat} {h : HostId} (ht : s.takesDown i = some (h, v)) :
    ∃ task u, s.tasks[i]? = some task ∧ task.host = h ∧ task.pc.settling = true ∧
      s.sessions h = some u ∧ u.connection = some v := by
  obtain ⟨task, hi, ht⟩ := Option.bind_eq_some_iff.mp ht
  obtain ⟨u, hu, ht⟩ := Option.bind_eq_some_iff.mp ht
  split at ht
  · rename_i hpc hop
    obtain ⟨v', hv, he⟩ := Option.map_eq_some_iff.mp ht
    obtain ⟨rfl, rfl⟩ := Prod.mk.inj he
    exact ⟨task, u, hi, rfl, by rw [hpc]; rfl, hu, hv⟩
  · cases ht

/-- In every run in which no transport is stored beside an attempt that has
connected: the transport an attempt takes down is the one it established. -/
theorem cancellation_takes_own_transport {s : AppState × Established}
    (hr : establishedMachine.Reach StoresAlone EstablishedInitial s) {i v : Nat} {h : HostId}
    (ht : s.1.takesDown i = some (h, v)) : s.2 h v = some i := by
  obtain ⟨task, u, hi, rfl, hs, hu, hv⟩ := takesDown_cases ht
  exact (reach_ownInv hr).own i task u v hi hu (.inl hs) hv

/-! ## Traces -/

theorem init_established (eventBuffer : Nat) :
    EstablishedInitial (.new eventBuffer, fun _ _ => none) := ⟨eventBuffer, rfl⟩

/-- The attempt 1 has reconnected the host; its connect call has returned. -/
def reconnectedTrace : List Action :=
  List.flatten [connectTrace, lossTrace, scanTrace, [.supervise true], attemptTrace 1]

/-- The attempt looks into `reconnecting`, does not find itself, and takes the
guard to disconnect. -/
def cancelTrace : List Action := [.task 1 .go, .task 1 .go, .task 1 (.op .go)]

/-- A `disconnect_host` beside the attempt: the attempt takes down the transport
it has just established. -/
theorem cancelled_attempt_takes_own_transport :
    ∃ s, establishedMachine.Reach StoresAlone EstablishedInitial s ∧
      s.1.takesDown 1 = some (workstation, 2) ∧ s.2 workstation 2 = some 1 := by
  obtain ⟨s, hs, hp⟩ := Machine.Reach.of_run establishedMachine StoresAlone (init_established 8)
    (List.flatten [reconnectedTrace, [.disconnectHost workstation, .task 2 .go], cancelTrace])
    (fun s => s.1.takesDown 1 = some (workstation, 2)) (by decide)
  exact ⟨s, hs, of_decide_eq_true hp, cancellation_takes_own_transport hs (of_decide_eq_true hp)⟩

/-- Between the return of the connect call of the attempt 1 and its look into
`reconnecting`, a `disconnect_host` and a `connect_host` (task 3) run to their
ends; the attempt takes down the transport of the `connect_host`. -/
theorem cancelled_attempt_takes_other_transport :
    ∃ s, establishedMachine.Reach Machine.free EstablishedInitial s ∧
      s.1.takesDown 1 = some (workstation, 4) ∧ s.2 workstation 4 = some 3 := by
  obtain ⟨s, hs, hp⟩ := Machine.Reach.of_run establishedMachine Machine.free (init_established 8)
    (List.flatten [reconnectedTrace, [.disconnectHost workstation, .task 2 .go, .task 2 .go],
      hangUpTrace 2, [.connectHost workstation, .task 3 .go, .task 3 .go], dialTrace 3, [.task 3 .go],
      cancelTrace])
    (fun s => s.1.takesDown 1 = some (workstation, 4) ∧ s.2 workstation 4 = some 3) (by decide)
  exact ⟨s, hs, of_decide_eq_true hp⟩

end KW.Supervisor
