import KodeWork.Impl.Supervisor
import KodeWork.Proof.Session.Guard

/-!
# What the tasks around the sessions can do

`TaskSpec` says what one step of a reconnect attempt, of `connect_host` or of
`disconnect_host` does: to the set of profiles, to `reconnecting`, and to the
session of its host (`Call`), which it enters through the connect guard only.
`taskStep_spec` proves it for every place a task can stand at, so that the
invariants do not look into `taskStep` again.
-/

namespace KW.Supervisor

open Session AppState

/-- The guarded call the task is in, `true` for a disconnect. -/
def TaskPc.inside : TaskPc → Option Bool
  | .attemptConnecting | .connecting => some false
  | .attemptDisconnecting | .disconnecting _ => some true
  | _ => none

theorem TaskPc.inside_connect {pc : TaskPc} (h : pc.inside = some false) :
    pc = .attemptConnecting ∨ pc = .connecting := by
  cases pc <;> first | exact .inl rfl | exact .inr rfl | cases h

/-- The mark of a `disconnect_host` that is past its first removal. -/
def TaskPc.mark : TaskPc → Option Nat
  | .disconnectProfile mark | .disconnectWait mark | .disconnecting mark => mark
  | _ => none

/-- A `disconnect_host` that is past its second removal. -/
def TaskPc.removed : TaskPc → Bool
  | .disconnectWait _ | .disconnecting _ => true
  | _ => false

/-- The attempt has connected, and disconnects unless it finds the host in
`reconnecting`. -/
def TaskPc.undoing : TaskPc → Bool
  | .attemptRecheck | .attemptDisconnect | .attemptDisconnecting => true
  | _ => false

theorem TaskPc.attempting_of_undoing {pc : TaskPc} (h : pc.undoing = true) : pc.attempting = true := by
  cases pc <;> first | rfl | cases h

/-- An attempt that has not taken its host out of `reconnecting`. -/
def TaskPc.owning : TaskPc → Bool
  | .attemptProfile _ | .attemptMark _ => false
  | pc => pc.attempting

theorem TaskPc.attempting_of_owning {pc : TaskPc} (h : pc.owning = true) : pc.attempting = true := by
  cases pc <;> first | rfl | cases h

/-- The attempt has connected, and has not decided to keep the transport or not
yet disconnected it. -/
def TaskPc.settling : TaskPc → Bool
  | .attemptRecheck | .attemptState | .attemptDisconnect | .attemptDisconnecting => true
  | _ => false

/-- What a task that gets from `pc` to `pc'` was before. -/
structure Follows (pc pc' : TaskPc) : Prop where
  opening : pc'.opening = true → pc.opening = true
  attempting : pc'.attempting = true → pc.attempting = true
  settling : pc'.settling = true → pc.settling = true ∨ pc = .attemptConnecting

theorem Follows.refl (pc : TaskPc) : Follows pc pc := ⟨id, id, .inl⟩

/-- What a task outside its guarded call does to the session of its host. -/
inductive Touch : Option ActiveSession → Option ActiveSession → Prop
  | absent : Touch none none
  | created (eventBuffer : Nat) : Touch none (some (.new eventBuffer))
  | beside {u v : ActiveSession} : Beside u v → Touch (some u) (some v)

theorem Touch.refl : ∀ o, Touch o o
  | none => .absent
  | some u => .beside (.refl u)

/-- What a step of a task from `pc` to `pc'` does to the session of its host. -/
inductive Call (pc pc' : TaskPc) : Option ActiveSession → Option ActiveSession → Prop
  | touch {before after : Option ActiveSession} : pc.inside = none → pc'.inside = none →
      Touch before after → Call pc pc' before after
  | take {u : ActiveSession} {op : Op} : pc.inside = none → pc'.inside = some op.isDisconnect →
      op = .connect .resolve ∨ op = .disconnect .reserve → u.op = none →
      Call pc pc' (some u) (some { u with op := some op })
  | next {u v : ActiveSession} {op : Op} {c : ActiveSession.OpChoice} : pc' = pc → pc.inside ≠ none →
      u.opStep c = some (v, .next op) → Call pc pc' (some u) (some { v with op := some op })
  | done {u v : ActiveSession} {r : OpResult} {c : ActiveSession.OpChoice} : pc.inside ≠ none →
      pc'.inside = none → u.opStep c = some (v, .done r) →
      (∀ g, r = .connected g → pc = .attemptConnecting → pc'.undoing = true) →
      (pc = .attemptConnecting → pc'.settling = true → ∃ g, r = .connected g) →
      Call pc pc' (some u) (some { v with op := none })

/-- What one step of the task numbered `i` does: it gets from `task.pc` to `pc'`. -/
structure TaskSpec (s t : AppState) (i : Nat) (task : Task) (pc' : TaskPc) : Prop where
  tasks : t.tasks = s.tasks.set i { task with pc := pc' }
  connects : t.connects = s.connects
  frame : ∀ h, h ≠ task.host → t.sessions h = s.sessions h
  call : Call task.pc pc' (s.sessions task.host) (t.sessions task.host)
  follows : Follows task.pc pc'
  owning : task.pc.owning = true → pc'.owning = true ∨ task.host ∉ t.reconnecting
  reconnecting : ∀ h ∈ t.reconnecting, h ∈ s.reconnecting
  profiles : ∀ h ∈ t.reconnectProfiles,
    h ∈ s.reconnectProfiles ∨ h = task.host ∧ task.pc.opening = true
  mark : ∀ n, pc'.mark = some n → task.pc.mark = some n ∨ n = s.connects task.host ∧
    s.opening task.host = false ∧ task.host ∉ t.reconnecting ∧ pc'.removed = false
  removed : pc'.removed = true → task.pc.removed = true ∨ task.host ∉ t.reconnectProfiles
  undo : task.host ∉ s.reconnecting → task.pc.undoing = true →
    pc'.undoing = true ∨ task.pc = .attemptDisconnecting
  closed : t.closed = s.closed ∨ task.pc.removed = true ∧ task.pc.mark = some (s.connects task.host) ∧
    t.closed = Function.update s.closed task.host (some (s.connects task.host)) ∧
    (t.sessions task.host = none ∨ task.pc.inside = some true ∧ pc'.inside = none)

/-- A step of an attempt or of `connect_host` that does not touch the profiles. -/
theorem TaskSpec.ofCall {s t : AppState} {i : Nat} {task : Task} {pc' : TaskPc}
    (ht : t = { s with sessions := t.sessions, tasks := s.tasks.set i { task with pc := pc' } })
    (hf : ∀ h, h ≠ task.host → t.sessions h = s.sessions h)
    (hc : Call task.pc pc' (s.sessions task.host) (t.sessions task.host))
    (ho : Follows task.pc pc') (hw : task.pc.owning = true → pc'.owning = true)
    (hm : pc'.mark = task.pc.mark) (hr : pc'.removed = task.pc.removed)
    (hu : task.host ∉ s.reconnecting → task.pc.undoing = true →
      pc'.undoing = true ∨ task.pc = .attemptDisconnecting) : TaskSpec s t i task pc' where
  tasks := by rw [ht]
  connects := by rw [ht]
  frame := hf
  call := hc
  follows := ho
  owning := fun h => .inl (hw h)
  reconnecting := by
    rw [ht]
    exact fun _ => id
  profiles := by
    rw [ht]
    exact fun _ => .inl
  mark := fun n h => .inl (hm ▸ h)
  removed := fun h => .inl (hr ▸ h)
  undo := hu
  closed := .inl (by rw [ht])

/-- A step that changes nothing but the place of its task. -/
theorem TaskSpec.go (s : AppState) (i : Nat) (task : Task) {pc' : TaskPc}
    (hin : task.pc.inside = none) (hout : pc'.inside = none)
    (ho : Follows task.pc pc') (hw : task.pc.owning = true → pc'.owning = true)
    (hm : pc'.mark = task.pc.mark) (hr : pc'.removed = task.pc.removed)
    (hu : task.host ∉ s.reconnecting → task.pc.undoing = true → pc'.undoing = true) :
    TaskSpec s (s.goTask i task pc') i task pc' :=
  .ofCall rfl (fun _ _ => rfl) (.touch hin hout (.refl _)) ho hw hm hr fun h hp => .inl (hu h hp)

@[simp] theorem sessions_setSession (s : AppState) (h : HostId) (u : ActiveSession) :
    (s.setSession h u).sessions h = some u := Function.update_self _ _ _

theorem sessions_setSession_of_ne (s : AppState) {h h' : HostId} (u : ActiveSession) (hn : h' ≠ h) :
    (s.setSession h u).sessions h' = s.sessions h' := Function.update_of_ne hn _ _

theorem touch_ensureSession (s : AppState) (h : HostId) :
    Touch (s.sessions h) ((s.ensureSession h).sessions h) := by
  rw [ensureSession, sessions_setSession]
  cases s.sessions h with
  | none => exact .created _
  | some u => exact .beside (.refl u)

/-- The task takes the guard. -/
theorem takeGuard_spec {s t : AppState} {i : Nat} {task : Task} {op : Op} {pc' : TaskPc}
    (h : s.takeGuard i task op pc' = some t) (ho : op = .connect .resolve ∨ op = .disconnect .reserve)
    (hin : task.pc.inside = none) (hout : pc'.inside = some op.isDisconnect)
    (hp : Follows task.pc pc') (hw : task.pc.owning = true → pc'.owning = true)
    (hm : pc'.mark = task.pc.mark) (hr : pc'.removed = task.pc.removed)
    (hu : task.pc.undoing = true → pc'.undoing = true) :
    TaskSpec s t i task pc' := by
  obtain ⟨v, hv, rfl⟩ := Option.map_eq_some_iff.mp h
  obtain ⟨u, hs, hv⟩ := Option.bind_eq_some_iff.mp hv
  obtain ⟨hn, rfl, -⟩ := guardInv_acquire ho hv
  have hc : Call task.pc pc' (s.sessions task.host) (some { u with op := some op }) := by
    rw [hs]
    exact .take hin hout ho hn
  refine .ofCall rfl (fun h' hne => sessions_setSession_of_ne s _ hne) ?_ hp hw hm hr
    fun _ e => .inl (hu e)
  change Call task.pc pc' _ ((s.setSession _ _).sessions _)
  rwa [sessions_setSession]

/-- The guarded call of the task takes a step. -/
theorem opStep_cases {s t : AppState} {h : HostId} {c : ActiveSession.OpChoice}
    {finish : OpResult → AppState → AppState} (he : s.opStep h c finish = some t) :
    ∃ u v, s.sessions h = some u ∧
      ((∃ op, u.opStep c = some (v, .next op) ∧ t = s.setSession h { v with op := some op }) ∨
       ∃ r, u.opStep c = some (v, .done r) ∧ t = finish r (s.setSession h { v with op := none })) := by
  simp only [AppState.opStep] at he
  split at he
  · cases he
  · rename_i u hu
    split at he <;> cases he
    · exact ⟨u, _, hu, .inl ⟨_, ‹_›, rfl⟩⟩
    · exact ⟨u, _, hu, .inr ⟨_, ‹_›, rfl⟩⟩

/-- The guarded call of the task goes on. -/
theorem TaskSpec.next {s : AppState} {i : Nat} {task : Task} {c : ActiveSession.OpChoice}
    {u v : ActiveSession} {op : Op} (hi : s.tasks[i]? = some task) (hin : task.pc.inside ≠ none)
    (hs : s.sessions task.host = some u) (hv : u.opStep c = some (v, .next op)) :
    TaskSpec s (s.setSession task.host { v with op := some op }) i task task.pc := by
  refine .ofCall ?_ (fun h' hne => sessions_setSession_of_ne s _ hne) ?_ (.refl _) id rfl rfl fun _ => .inl
  · rw [set_self_of_getElem? hi]
    rfl
  · rw [sessions_setSession, hs]
    exact .next rfl hin hv

/-- A `disconnect_host` ends; the guarded call left the state `u`. -/
theorem TaskSpec.close {s u : AppState} (i : Nat) (task : Task) {mark : Option Nat}
    (hu : u = { s with sessions := u.sessions })
    (hf : ∀ h, h ≠ task.host → u.sessions h = s.sessions h)
    (hc : Call task.pc .disconnectEnded (s.sessions task.host) (u.sessions task.host))
    (hr : task.pc.removed = true) (hm : task.pc.mark = mark) (hn : task.pc.undoing = false)
    (hw : task.pc.owning = false) (hs : u.sessions task.host = none ∨ task.pc.inside = some true) :
    TaskSpec s ((u.close task.host mark).goTask i task .disconnectEnded) i task .disconnectEnded := by
  have hundo : task.pc.undoing ≠ true := by rw [hn]; nofun
  have hown : task.pc.owning ≠ true := by rw [hw]; nofun
  rw [hu] at hf hc hs ⊢
  by_cases e : mark = some (s.connects task.host)
  · rw [AppState.close, if_pos e]
    exact ⟨rfl, rfl, hf, hc, ⟨nofun, nofun, nofun⟩, fun h => absurd h hown, fun _ => id, fun _ => .inl, nofun,
      nofun, fun _ h => absurd h hundo,
      .inr ⟨hr, hm.trans e, by rw [e]; rfl, hs.imp_right fun h => ⟨h, rfl⟩⟩⟩
  · rw [AppState.close, if_neg e]
    exact ⟨rfl, rfl, hf, hc, ⟨nofun, nofun, nofun⟩, fun h => absurd h hown, fun _ => id, fun _ => .inl, nofun,
      nofun, fun _ h => absurd h hundo,
      .inl rfl⟩

theorem touch_mark (kind : ConnectErrorKind) (o : Option ActiveSession) :
    Touch o (o.map fun u =>
      if kind = .credentialRequired ∨ kind = .authentication then u.markWaitingForCredential
      else if kind.retryable then u.markReconnecting
      else u) := by
  cases o with
  | none => exact .absent
  | some u =>
    refine .beside ?_
    split
    · exact beside_mark u nofun rfl nofun
    · split
      · exact beside_mark u nofun rfl nofun
      · exact .refl u

/-- A step of the guarded call of the task, when it goes on at `place r` on
return. -/
theorem opStep_spec {s t : AppState} {i : Nat} {task : Task} {c : ActiveSession.OpChoice}
    {place : OpResult → TaskPc} (hi : s.tasks[i]? = some task)
    (h : s.opStep task.host c (fun r t => t.goTask i task (place r)) = some t)
    (hin : task.pc.inside ≠ none) (hout : ∀ r, (place r).inside = none)
    (hp : ∀ r, Follows task.pc (place r)) (hw : ∀ r, task.pc.owning = true → (place r).owning = true)
    (hm : ∀ r, (place r).mark = task.pc.mark) (hr : ∀ r, (place r).removed = task.pc.removed)
    (hu : task.pc.undoing = true → task.pc = .attemptDisconnecting)
    (hd : ∀ g, task.pc = .attemptConnecting → (place (.connected g)).undoing = true)
    (hs : ∀ r, task.pc = .attemptConnecting → (place r).settling = true → ∃ g, r = .connected g) :
    ∃ pc', TaskSpec s t i task pc' := by
  obtain ⟨u, v, hses, ⟨op, hv, rfl⟩ | ⟨r, hv, rfl⟩⟩ := opStep_cases h
  · exact ⟨task.pc, .next hi hin hses hv⟩
  · refine ⟨place r, .ofCall rfl (fun h' hne => sessions_setSession_of_ne s _ hne) ?_ (hp r) (hw r) (hm r)
      (hr r) fun _ e => .inr (hu e)⟩
    change Call task.pc (place r) _ ((s.setSession _ _).sessions _)
    rw [sessions_setSession, hses]
    refine .done hin (hout r) hv ?_ (hs r)
    rintro g rfl
    exact hd g

theorem taskStep_spec {s t : AppState} {i : Nat} {task : Task} {c : TaskChoice}
    (hi : s.tasks[i]? = some task) (h : s.taskStep i task task.pc c = some t) :
    ∃ pc', TaskSpec s t i task pc' := by
  obtain ⟨host, pc⟩ := task
  cases pc with
  | attemptLoad =>
    cases c <;> simp only [taskStep, reduceCtorEq, Option.some.injEq] at h <;> subst h <;>
      exact ⟨_, .go s i _ rfl rfl ⟨nofun, fun _ => rfl, nofun⟩ (fun _ => rfl) rfl rfl nofun⟩
  | attemptActive =>
    cases c <;> simp only [taskStep, reduceCtorEq] at h
    split at h <;> cases h <;>
      exact ⟨_, .go s i _ rfl rfl ⟨nofun, fun _ => rfl, nofun⟩ (fun _ => rfl) rfl rfl nofun⟩
  | attemptPrepare =>
    cases c <;> simp only [taskStep, reduceCtorEq, Option.some.injEq] at h <;> subst h
    · exact ⟨_, .ofCall rfl (fun h' hne => sessions_setSession_of_ne s _ hne)
        (.touch rfl rfl (touch_ensureSession s host)) ⟨nofun, fun _ => rfl, nofun⟩ (fun _ => rfl) rfl rfl
        nofun⟩
    · exact ⟨_, .go s i _ rfl rfl ⟨nofun, fun _ => rfl, nofun⟩ (fun _ => rfl) rfl rfl nofun⟩
  | attemptConnect =>
    cases c <;> simp only [taskStep, reduceCtorEq] at h
    exact ⟨_, takeGuard_spec h (.inl rfl) rfl rfl ⟨nofun, fun _ => rfl, nofun⟩ (fun _ => rfl) rfl rfl nofun⟩
  | attemptConnecting =>
    cases c <;> simp only [taskStep, reduceCtorEq] at h
    refine opStep_spec hi h nofun ?_ ?_ ?_ ?_ ?_ nofun (fun g _ => rfl) ?_
    all_goals
      intro r
      cases r <;> first
        | rfl | exact ⟨nofun, fun _ => rfl, fun _ => .inr rfl⟩ | exact fun _ => rfl
        | exact fun _ _ => ⟨_, rfl⟩ | nofun
  | attemptRecheck =>
    cases c <;> simp only [taskStep, reduceCtorEq] at h
    split at h <;> cases h
    · exact ⟨_, .go s i _ rfl rfl ⟨nofun, fun _ => rfl, fun _ => .inl rfl⟩ (fun _ => rfl) rfl rfl
        fun hn => absurd ‹_› hn⟩
    · exact ⟨_, .go s i _ rfl rfl ⟨nofun, fun _ => rfl, fun _ => .inl rfl⟩ (fun _ => rfl) rfl rfl
        fun _ _ => rfl⟩
  | attemptState =>
    cases c <;> simp only [taskStep, reduceCtorEq] at h
    split at h <;> cases h <;>
      exact ⟨_, .go s i _ rfl rfl ⟨nofun, fun _ => rfl, fun _ => .inl rfl⟩ (fun _ => rfl) rfl rfl nofun⟩
  | attemptDisconnect =>
    cases c <;> simp only [taskStep, reduceCtorEq] at h
    exact ⟨_, takeGuard_spec h (.inr rfl) rfl rfl ⟨nofun, fun _ => rfl, fun _ => .inl rfl⟩ (fun _ => rfl)
      rfl rfl fun _ => rfl⟩
  | attemptDisconnecting =>
    cases c <;> simp only [taskStep, reduceCtorEq] at h
    exact opStep_spec hi h nofun (fun _ => rfl) (fun _ => ⟨nofun, fun _ => rfl, nofun⟩) (fun _ _ => rfl)
      (fun _ => rfl) (fun _ => rfl) (fun _ => rfl) nofun nofun
  | attemptRelease error =>
    have hout : host ∉ s.reconnecting.filter (· ≠ host) := fun hm => by simpa using (List.mem_filter.mp hm).2
    cases error <;> cases c <;> simp only [taskStep, reduceCtorEq, Option.some.injEq] at h <;> subst h <;>
      exact ⟨_, rfl, rfl, fun _ _ => rfl, .touch rfl rfl (.refl _), ⟨nofun, fun _ => rfl, nofun⟩,
        fun _ => .inr hout, fun _ hm => (List.mem_filter.mp hm).1, fun _ => .inl, nofun, nofun, nofun,
        .inl rfl⟩
  | attemptProfile kind =>
    cases c <;> simp only [taskStep, reduceCtorEq] at h
    split at h <;> cases h <;>
      exact ⟨_, .go s i _ rfl rfl ⟨nofun, fun _ => rfl, nofun⟩ nofun rfl rfl nofun⟩
  | attemptMark kind =>
    cases c <;> simp only [taskStep, reduceCtorEq, Option.some.injEq] at h
    subst h
    refine ⟨_, .ofCall rfl (fun h' hne => Function.update_of_ne hne _ _) (.touch rfl rfl ?_)
      ⟨nofun, fun _ => rfl, nofun⟩ nofun rfl rfl nofun⟩
    change Touch (s.sessions host) (Function.update s.sessions host _ host)
    rw [Function.update_self]
    exact touch_mark kind (s.sessions host)
  | connectPrepare =>
    cases c <;> simp only [taskStep, reduceCtorEq, Option.some.injEq] at h <;> subst h
    · exact ⟨_, .ofCall rfl (fun h' hne => sessions_setSession_of_ne s _ hne)
        (.touch rfl rfl (touch_ensureSession s host)) ⟨fun _ => rfl, nofun, nofun⟩ nofun rfl rfl nofun⟩
    · exact ⟨_, .go s i _ rfl rfl ⟨nofun, nofun, nofun⟩ nofun rfl rfl nofun⟩
  | connectWait =>
    cases c <;> simp only [taskStep, reduceCtorEq] at h
    exact ⟨_, takeGuard_spec h (.inl rfl) rfl rfl ⟨fun _ => rfl, nofun, nofun⟩ nofun rfl rfl nofun⟩
  | connecting =>
    cases c <;> simp only [taskStep, reduceCtorEq] at h
    refine opStep_spec hi h nofun ?_ ?_ nofun ?_ ?_ nofun nofun nofun
    all_goals
      intro r
      cases r <;> first | rfl | exact ⟨fun _ => rfl, nofun, nofun⟩
  | connectRegister =>
    cases c <;> simp only [taskStep, reduceCtorEq, Option.some.injEq] at h
    subst h
    refine ⟨_, rfl, rfl, fun _ _ => rfl, .touch rfl rfl (.refl _), ⟨nofun, nofun, nofun⟩, nofun, fun _ => id,
      fun h' hm => ?_, nofun, nofun, nofun, .inl rfl⟩
    rcases List.mem_insert_iff.mp hm with rfl | hm
    · exact .inr ⟨rfl, rfl⟩
    · exact .inl hm
  | disconnectReconnecting =>
    cases c <;> simp only [taskStep, reduceCtorEq, Option.some.injEq] at h
    subst h
    refine ⟨_, rfl, rfl, fun _ _ => rfl, .touch rfl rfl (.refl _), ⟨nofun, nofun, nofun⟩, nofun,
      fun _ hm => (List.mem_filter.mp hm).1, fun _ => .inl, fun n hn => .inr ?_, nofun, nofun, .inl rfl⟩
    have hout : host ∉ s.reconnecting.filter (· ≠ host) := fun hm => by simpa using (List.mem_filter.mp hm).2
    simp only [TaskPc.mark] at hn
    split at hn <;> cases hn
    rename_i hno
    exact ⟨rfl, Bool.eq_false_iff.mpr hno, hout, rfl⟩
  | disconnectProfile mark =>
    cases c <;> simp only [taskStep, reduceCtorEq, Option.some.injEq] at h
    subst h
    exact ⟨_, rfl, rfl, fun _ _ => rfl, .touch rfl rfl (.refl _), ⟨nofun, nofun, nofun⟩, nofun, fun _ => id,
      fun _ hm => .inl (List.mem_filter.mp hm).1, fun n => .inl,
      fun _ => .inr fun hm => by simpa using (List.mem_filter.mp hm).2, nofun, .inl rfl⟩
  | disconnectWait mark =>
    cases c <;> simp only [taskStep, reduceCtorEq] at h
    split at h
    · rename_i hs
      cases h
      exact ⟨_, .close i ⟨host, .disconnectWait mark⟩ rfl (fun _ _ => rfl) (.touch rfl rfl (.refl _)) rfl rfl
        rfl rfl (.inl hs)⟩
    · exact ⟨_, takeGuard_spec h (.inr rfl) rfl rfl ⟨nofun, nofun, nofun⟩ nofun rfl rfl nofun⟩
  | disconnecting mark =>
    cases c <;> simp only [taskStep, reduceCtorEq] at h
    obtain ⟨u, v, hs, ⟨op, hv, rfl⟩ | ⟨r, hv, rfl⟩⟩ := opStep_cases h
    · exact ⟨_, .next hi nofun hs hv⟩
    · refine ⟨_, .close i ⟨host, .disconnecting mark⟩ rfl
        (fun h' hne => sessions_setSession_of_ne s _ hne) ?_ rfl rfl rfl rfl (.inr rfl)⟩
      rw [sessions_setSession, hs]
      exact .done nofun rfl hv nofun nofun
  | attemptEnded | connectEnded | disconnectEnded => cases c <;> simp only [taskStep, reduceCtorEq] at h

end KW.Supervisor
