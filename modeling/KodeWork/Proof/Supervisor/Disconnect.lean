import KodeWork.Proof.Supervisor.Guards

/-!
# A disconnected host stays disconnected

`disconnect_host` takes the host out of `reconnecting` and out of
`reconnect_profiles`, and then disconnects. A reconnect attempt that is running
finds itself out of `reconnecting` after its connect, and disconnects again.
The supervisor however inserts a host into `reconnecting` on the word of a
snapshot of the profiles it took before: a host that was disconnected since is
reconnected (`disconnected_host_reconnected`).

In every run in which the supervisor inserts a host only while it is in
`reconnect_profiles`, and not between the two removals of a `disconnect_host`
(`FreshProfile`), a host stays disconnected until the next `connect_host`
(`disconnected_host_stays`). The tasks that hold the connect guard are counted
with `Lease.Exclusive`.
-/

namespace KW.Supervisor

open Session AppState

/-! ## The invariant -/

/-- No `connect_host` of the host is running, and no attempt is wanted. -/
structure Shut (s : AppState) (h : HostId) : Prop where
  opening : ∀ task ∈ s.tasks, task.host = h → task.pc.opening = false
  reconnecting : h ∉ s.reconnecting

/-- An attempt is going to disconnect the session `u` again. -/
def Debt (s : AppState) (h : HostId) (u : ActiveSession) : Prop :=
  ∃ task ∈ s.tasks, task.host = h ∧ (task.pc.undoing = true ∨
    task.pc = .attemptConnecting ∧ ∃ op, u.op = some op ∧ op.attached = true)

structure Inv (s : AppState) : Prop extends Guarded s where
  marked : ∀ task ∈ s.tasks, ∀ n, task.pc.mark = some n → n ≤ s.connects task.host ∧
    (n = s.connects task.host → Shut s task.host ∧
      (task.pc.removed = true → task.host ∉ s.reconnectProfiles))
  closed : ∀ h n, s.closed h = some n → n ≤ s.connects h ∧
    (n = s.connects h → Shut s h ∧ h ∉ s.reconnectProfiles ∧
      ∀ u, s.sessions h = some u → live u → Debt s h u)

theorem inv_new (eventBuffer : Nat) : Inv (.new eventBuffer) where
  toGuarded := guarded_new eventBuffer
  marked := nofun
  closed := nofun

namespace TaskSpec

variable {s t : AppState} {i : Nat} {task : Task} {pc' : TaskPc}

theorem mem (h : TaskSpec s t i task pc') {x : Task} (hx : x ∈ t.tasks) :
    x ∈ s.tasks ∨ x = { task with pc := pc' } :=
  List.mem_or_eq_of_mem_set (h.tasks ▸ hx)

theorem mem_self (h : TaskSpec s t i task pc') (hi : s.tasks[i]? = some task) :
    { task with pc := pc' } ∈ t.tasks := by
  obtain ⟨hlt, -⟩ := List.getElem?_eq_some_iff.mp hi
  rw [h.tasks]
  exact List.mem_set hlt _

/-- A task that is not the one that moves is still there. -/
theorem kept (h : TaskSpec s t i task pc') (hi : s.tasks[i]? = some task) {x : Task}
    (hx : x ∈ s.tasks) : x = task ∨ x ∈ t.tasks := by
  obtain ⟨j, hj⟩ := List.mem_iff_getElem?.mp hx
  by_cases e : j = i
  · rw [e, hi] at hj
    exact .inl (Option.some.inj hj).symm
  · refine .inr (List.mem_iff_getElem?.mpr ⟨j, ?_⟩)
    rw [h.tasks, List.getElem?_set_ne (Ne.symm e), hj]

theorem shut (h : TaskSpec s t i task pc') (hi : s.tasks[i]? = some task) {g : HostId}
    (hs : Shut s g) : Shut t g := by
  refine ⟨fun x hx hg => ?_, fun hm => hs.reconnecting (h.reconnecting g hm)⟩
  rcases h.mem hx with hx | rfl
  · exact hs.opening x hx hg
  · have hold := hs.opening task (List.mem_of_getElem? hi) hg
    exact Bool.eq_false_iff.mpr fun e => Bool.eq_false_iff.mp hold (h.follows.opening e)

/-- No profile is added while no `connect_host` runs. -/
theorem profiles_shut (h : TaskSpec s t i task pc') (hi : s.tasks[i]? = some task) {g : HostId}
    (hs : Shut s g) (hg : g ∉ s.reconnectProfiles) : g ∉ t.reconnectProfiles := by
  intro hm
  rcases h.profiles g hm with hm | ⟨rfl, ho⟩
  · exact hg hm
  · exact Bool.eq_false_iff.mp (hs.opening task (List.mem_of_getElem? hi) rfl) ho

theorem marked (h : TaskSpec s t i task pc') (hi : s.tasks[i]? = some task) (hinv : Inv s) (x : Task)
    (hx : x ∈ t.tasks) (n : Nat) (hn : x.pc.mark = some n) : n ≤ t.connects x.host ∧
      (n = t.connects x.host → Shut t x.host ∧ (x.pc.removed = true → x.host ∉ t.reconnectProfiles)) := by
  rw [h.connects]
  rcases h.mem hx with hx | rfl
  · obtain ⟨hle, hshut⟩ := hinv.marked x hx n hn
    refine ⟨hle, fun e => ?_⟩
    obtain ⟨hs, hr⟩ := hshut e
    exact ⟨h.shut hi hs, fun hr' => h.profiles_shut hi hs (hr hr')⟩
  · rcases h.mark n hn with hn | ⟨rfl, ho, hrec, hnr⟩
    · obtain ⟨hle, hshut⟩ := hinv.marked task (List.mem_of_getElem? hi) n hn
      refine ⟨hle, fun e => ?_⟩
      obtain ⟨hs, hr⟩ := hshut e
      refine ⟨h.shut hi hs, fun hr' => ?_⟩
      rcases h.removed hr' with hold | hout
      · exact h.profiles_shut hi hs (hr hold)
      · exact hout
    · -- the first removal of a `disconnect_host`, with no `connect_host` running
      have hopen : ∀ x ∈ s.tasks, x.host = task.host → x.pc.opening = false := by
        intro x hx hh
        simpa [hh] using List.any_eq_false.mp ho x hx
      refine ⟨Nat.le_refl _, fun _ => ⟨⟨fun x hx hh => ?_, hrec⟩, fun hr' => ?_⟩⟩
      · rcases h.mem hx with hx | rfl
        · exact hopen x hx hh
        · exact Bool.eq_false_iff.mpr fun e =>
            Bool.eq_false_iff.mp (hopen task (List.mem_of_getElem? hi) rfl) (h.follows.opening e)
      · rw [hnr] at hr'
        cases hr'

/-- The task inside a connect call is an attempt, when no `connect_host` runs. -/
theorem attempt_of_connect (hi : s.tasks[i]? = some task) (hinv : Inv s) (hs : Shut s task.host)
    {u : ActiveSession} {op : Op} (hu : s.sessions task.host = some u) (hop : u.op = some op)
    (hin : task.pc.inside ≠ none) (hk : op.isDisconnect = false) : task.pc = .attemptConnecting := by
  obtain ⟨k, hk'⟩ := Option.ne_none_iff_exists'.mp hin
  have hheld : s.holds i = some (task.host, k) := by rw [holds_self hi, hk']; rfl
  have howned := hinv.exclusive.owned _ _ _ hheld
  simp only [AppState.guards, guardOf, hu, Option.bind_some, hop, Option.map_some, hk] at howned
  cases howned
  rcases TaskPc.inside_connect hk' with e | e
  · exact e
  · have hopen := hs.opening task (List.mem_of_getElem? hi) rfl
    rw [e] at hopen
    cases hopen

/-- The attempt that is undoing its connect is still there. -/
theorem debt_undoing (h : TaskSpec s t i task pc') (hi : s.tasks[i]? = some task) {x : Task}
    (hx : x ∈ s.tasks) (hs : x.host ∉ s.reconnecting) (hu : x.pc.undoing = true)
    (hn : task.pc = .attemptDisconnecting → pc' = task.pc) (v : ActiveSession) : Debt t x.host v := by
  rcases h.kept hi hx with rfl | hx'
  · refine ⟨_, h.mem_self hi, rfl, .inl ?_⟩
    rcases h.undo hs hu with hu' | e
    · exact hu'
    · exact (hn e).symm ▸ hu
  · exact ⟨x, hx', rfl, .inl hu⟩

/-- The session of a host is live only while an attempt is going to disconnect
it again. -/
theorem debt (h : TaskSpec s t i task pc') (hi : s.tasks[i]? = some task) (hinv : Inv s) {g : HostId}
    (hs : Shut s g) (hd : ∀ u, s.sessions g = some u → live u → Debt s g u) (v : ActiveSession)
    (hv : t.sessions g = some v) (hl : live v) : Debt t g v := by
  by_cases e : g = task.host
  · subst e
    have hc := h.call
    rw [hv] at hc
    generalize hb : s.sessions task.host = before at hc
    cases hc with
    | touch hin hout hT =>
      have hnd : task.pc = .attemptDisconnecting → pc' = task.pc := by
        intro e
        rw [e] at hin
        cases hin
      cases hT with
      | created n => exact absurd hl (by rintro (hl | hl) <;> contradiction)
      | beside hbs =>
        obtain ⟨x, hx, hxg, hu | ⟨hxc, hatt⟩⟩ := hd _ hb (hbs.live hl)
        · exact hxg ▸ h.debt_undoing hi hx (hxg ▸ hs.reconnecting) hu hnd v
        · rcases h.kept hi hx with rfl | hx'
          · rw [hxc] at hin
            cases hin
          · exact ⟨x, hx', hxg, .inr ⟨hxc, hbs.op ▸ hatt⟩⟩
    | take hin hout ho hn =>
      obtain ⟨x, hx, hxg, hu | ⟨hxc, op, hop, -⟩⟩ := hd _ hb hl
      · refine hxg ▸ h.debt_undoing hi hx (hxg ▸ hs.reconnecting) hu (fun e => ?_) _
        rw [e] at hin
        cases hin
      · rw [hn] at hop
        cases hop
    | @next u v' op' c hpc hin hv' =>
      obtain ⟨op, hop⟩ := opStep_op hv'
      have hspec := opStep_guard (hinv.guard _ _ hb) hop hv'
      -- a call that has stored its transport is that of an attempt
      have hself : op'.attached = true → Debt t task.host { v' with op := some op' } := by
        intro ha
        have hk : op.isDisconnect = false := hspec.kind _ rfl ▸ Op.attached_connect ha
        have hat := attempt_of_connect hi hinv hs hb hop hin hk
        exact ⟨_, h.mem_self hi, rfl, .inr ⟨hpc.trans hat, op', rfl, ha⟩⟩
      cases ha : op.attached with
      | true =>
        rcases hspec.attached ha with ⟨_, ⟨⟩, ha'⟩ | ⟨_, ⟨⟩⟩
        exact hself ha'
      | false =>
        rcases hspec.alive ha hl with hlive | ⟨_, ⟨⟩, ha'⟩
        · obtain ⟨x, hx, hxg, hu | ⟨hxc, o, ho, hatt⟩⟩ := hd _ hb hlive
          · exact hxg ▸ h.debt_undoing hi hx (hxg ▸ hs.reconnecting) hu (fun _ => hpc) _
          · rw [hop] at ho
            cases ho
            rw [ha] at hatt
            cases hatt
        · exact hself ha'
    | @done u v' r c hin hout hv' hu _ =>
      obtain ⟨op, hop⟩ := opStep_op hv'
      have hspec := opStep_guard (hinv.guard _ _ hb) hop hv'
      have hk : op.isDisconnect = false := by
        cases hk : op.isDisconnect with
        | true => exact absurd hl (hspec.done hk r rfl)
        | false => rfl
      have hat := attempt_of_connect hi hinv hs hb hop hin hk
      cases ha : op.attached with
      | true =>
        rcases hspec.attached ha with ⟨_, ⟨⟩, -⟩ | ⟨k, ⟨⟩⟩
        exact ⟨_, h.mem_self hi, rfl, .inl (hu k rfl hat)⟩
      | false =>
        rcases hspec.alive ha hl with hlive | ⟨_, ⟨⟩, -⟩
        obtain ⟨x, hx, hxg, hun | ⟨hxc, o, ho, hatt⟩⟩ := hd _ hb hlive
        · refine hxg ▸ h.debt_undoing hi hx (hxg ▸ hs.reconnecting) hun (fun e => ?_) _
          rw [hat] at e
          cases e
        · rw [hop] at ho
          cases ho
          rw [ha] at hatt
          cases hatt
  · -- the task that moves is not one of this host
    obtain ⟨x, hx, hxg, hp⟩ := hd v (h.frame g e ▸ hv) hl
    rcases h.kept hi hx with rfl | hx'
    · exact absurd hxg.symm e
    · exact ⟨x, hx', hxg, hp⟩

/-- A `disconnect_host` leaves no transport behind. -/
theorem not_live (h : TaskSpec s t i task pc') (hi : s.tasks[i]? = some task) (hinv : Inv s)
    (hc : t.sessions task.host = none ∨ task.pc.inside = some true ∧ pc'.inside = none)
    {u : ActiveSession} (hu : t.sessions task.host = some u) : ¬ live u := by
  rcases hc with hc | ⟨hin, hout⟩
  · rw [hc] at hu
    cases hu
  · have hcall := h.call
    have hheld : s.holds i = some (task.host, true) := by rw [holds_self hi, hin]; rfl
    have howned := hinv.exclusive.owned _ _ _ hheld
    rw [hu] at hcall
    generalize hb : s.sessions task.host = before at hcall
    cases hcall with
    | touch hin' => rw [hin] at hin'; cases hin'
    | take hin' => rw [hin] at hin'; cases hin'
    | next hpc => rw [hpc, hin] at hout; cases hout
    | @done u' v r c _ _ hv _ _ =>
      obtain ⟨op, hop⟩ := opStep_op hv
      simp only [AppState.guards, guardOf, hb, Option.bind_some, hop, Option.map_some,
        Option.some.injEq] at howned
      exact (opStep_guard (hinv.guard _ _ hb) hop hv).done howned r rfl

theorem inv (h : TaskSpec s t i task pc') (hi : s.tasks[i]? = some task) (hinv : Inv s) : Inv t where
  toGuarded := h.guarded hi hinv.toGuarded
  marked := h.marked hi hinv
  closed := by
    intro g n hn
    rw [h.connects]
    -- what is closed already stays closed
    have hold : s.closed g = some n → n ≤ s.connects g ∧ (n = s.connects g → Shut t g ∧
        g ∉ t.reconnectProfiles ∧ ∀ u, t.sessions g = some u → live u → Debt t g u) := by
      intro hc
      obtain ⟨hle, hcl⟩ := hinv.closed g n hc
      refine ⟨hle, fun e => ?_⟩
      obtain ⟨hs, hp, hd⟩ := hcl e
      exact ⟨h.shut hi hs, h.profiles_shut hi hs hp, h.debt hi hinv hs hd⟩
    rcases h.closed with e | ⟨hr, hm, e, hcall⟩
    · exact hold (e ▸ hn)
    · by_cases hg : g = task.host
      · subst hg
        rw [e, Function.update_self] at hn
        cases hn
        obtain ⟨hs, hp⟩ := (hinv.marked task (List.mem_of_getElem? hi) _ hm).2 rfl
        refine ⟨Nat.le_refl _, fun _ => ⟨h.shut hi hs, h.profiles_shut hi hs (hp hr), fun u hu hl => ?_⟩⟩
        exact absurd hl (h.not_live hi hinv hcall hu)
      · rw [e, Function.update_of_ne hg] at hn
        exact hold hn

end TaskSpec

/-! ## The other steps -/

/-- A `disconnect_host` of the host is past its first removal or has ended, and
no `connect_host` came since. -/
def Watched (s : AppState) (h : HostId) : Prop :=
  (∃ task ∈ s.tasks, task.host = h ∧ task.pc.mark = some (s.connects h)) ∨
    s.closed h = some (s.connects h)

theorem Inv.shut {s : AppState} (hinv : Inv s) {h : HostId} (hw : Watched s h) : Shut s h := by
  rcases hw with ⟨task, hm, rfl, hn⟩ | hc
  · exact ((hinv.marked task hm _ hn).2 rfl).1
  · exact ((hinv.closed h _ hc).2 rfl).1

/-- A step that only adds tasks, which hold nothing and carry no mark yet,
keeps the invariant if the watched hosts stay shut. -/
theorem inv_grow {s t : AppState} (hinv : Inv s) (added : List Task)
    (ht : t = { s with supervisor := t.supervisor, reconnecting := t.reconnecting,
                       tasks := s.tasks ++ added, connects := t.connects })
    (hnew : ∀ x ∈ added, x.pc.inside = none ∧ x.pc.mark = none)
    (hle : ∀ h, s.connects h ≤ t.connects h)
    (hshut : ∀ h, t.connects h = s.connects h → Watched s h → Shut t h) : Inv t := by
  have hmem : ∀ x ∈ t.tasks, x.pc.mark ≠ none → x ∈ s.tasks := by
    intro x hx hn
    rw [ht] at hx
    rcases List.mem_append.mp hx with hx | hx
    · exact hx
    · exact absurd (hnew x hx).2 hn
  have hkept : ∀ x ∈ s.tasks, x ∈ t.tasks := by
    intro x hx
    rw [ht]
    exact List.mem_append_left _ hx
  have hs : t.sessions = s.sessions := by rw [ht]
  have hp : t.reconnectProfiles = s.reconnectProfiles := by rw [ht]
  have hc : t.closed = s.closed := by rw [ht]
  refine ⟨hinv.grow hs (by rw [ht]) fun x hx => (hnew x hx).1, fun x hx n hn => ?_, fun h n hn => ?_⟩
  · have hx' := hmem x hx (by rw [hn]; nofun)
    obtain ⟨hn', hcl⟩ := hinv.marked x hx' n hn
    refine ⟨Nat.le_trans hn' (hle _), fun e => ?_⟩
    have he : n = s.connects x.host := Nat.le_antisymm hn' (e ▸ hle _)
    rw [hp]
    exact ⟨hshut _ (e.symm.trans he) (.inl ⟨x, hx', rfl, he ▸ hn⟩), (hcl he).2⟩
  · rw [hc] at hn
    obtain ⟨hn', hcl⟩ := hinv.closed h n hn
    refine ⟨Nat.le_trans hn' (hle _), fun e => ?_⟩
    have he : n = s.connects h := Nat.le_antisymm hn' (e ▸ hle _)
    obtain ⟨-, hprof, hd⟩ := hcl he
    rw [hp, hs]
    refine ⟨hshut _ (e.symm.trans he) (.inr (he ▸ hn)), hprof, fun u hu hl => ?_⟩
    obtain ⟨x, hx, hdebt⟩ := hd u hu hl
    exact ⟨x, hkept x hx, hdebt⟩

/-- A step of a session beside the guard. -/
theorem inv_beside {s : AppState} (hinv : Inv s) {h : HostId} {u v : ActiveSession}
    (hu : s.sessions h = some u) (hb : Beside u v) : Inv (s.setSession h v) := by
  have hshut : ∀ {g}, Shut s g → Shut (s.setSession h v) g := fun hs => ⟨hs.opening, hs.reconnecting⟩
  refine ⟨hinv.beside hu hb, fun x hx n hn => ?_, fun g n hn => ?_⟩
  · obtain ⟨hle, hcl⟩ := hinv.marked x hx n hn
    exact ⟨hle, fun e => ⟨hshut (hcl e).1, (hcl e).2⟩⟩
  · obtain ⟨hle, hcl⟩ := hinv.closed g n hn
    refine ⟨hle, fun e => ⟨hshut (hcl e).1, (hcl e).2.1, fun w hw hl => ?_⟩⟩
    obtain ⟨w', hw', hbs⟩ := sessions_beside hu hb hw
    obtain ⟨x, hx, hxg, hd⟩ := (hcl e).2.2 w' hw' (hbs.live hl)
    exact ⟨x, hx, hxg, hd.imp_right fun ⟨hc, ho⟩ => ⟨hc, hbs.op ▸ ho⟩⟩

/-! ## Every run -/

/-- A `disconnect_host` between its two removals. -/
def TaskPc.halfRemoved : TaskPc → Bool
  | .disconnectProfile _ => true
  | _ => false

theorem TaskPc.halfRemoved_or_removed {pc : TaskPc} {n : Nat} (h : pc.mark = some n) :
    pc.halfRemoved = true ∨ pc.removed = true := by
  cases pc <;> first | exact .inl rfl | exact .inr rfl | cases h

/-- The supervisor inserts a host only while it is in `reconnect_profiles`, and
no `disconnect_host` has removed it from one set and not yet from the other. -/
def FreshProfile (s : AppState) : Action → Prop
  | .supervise _ => ∀ h ∈ s.supervisor.acquires, h ∉ s.reconnecting → h ∈ s.reconnectProfiles ∧
      ∀ task ∈ s.tasks, task.host = h → task.pc.halfRemoved = false
  | _ => True

instance (s : AppState) : ∀ a, Decidable (FreshProfile s a)
  | .supervise _ => inferInstanceAs
      (Decidable (∀ h ∈ s.supervisor.acquires, h ∉ s.reconnecting → h ∈ s.reconnectProfiles ∧
        ∀ task ∈ s.tasks, task.host = h → task.pc.halfRemoved = false))
  | .snapshot _ | .connectHost _ | .disconnectHost _ | .task .. | .session .. => .isTrue trivial

/-- A host with a profile that no `disconnect_host` is about to remove is not
watched. -/
theorem not_watched {s : AppState} (hinv : Inv s) {g : HostId} (hp : g ∈ s.reconnectProfiles)
    (hh : ∀ task ∈ s.tasks, task.host = g → task.pc.halfRemoved = false) : ¬ Watched s g := by
  rintro (⟨task, hm, rfl, hn⟩ | hc)
  · have hr := ((hinv.marked task hm _ hn).2 rfl).2
    rcases TaskPc.halfRemoved_or_removed hn with e | e
    · exact Bool.eq_false_iff.mp (hh task hm rfl) e
    · exact hr e hp
  · exact ((hinv.closed g _ hc).2 rfl).2.1 hp

theorem inv_step {s t : AppState} {a : Action} (hinv : Inv s) (hok : FreshProfile s a)
    (h : step s a = some t) : Inv t := by
  -- a step that changes neither the tasks nor `reconnecting`
  have quiet : ∀ pc, Inv { s with supervisor := pc } := by
    intro pc
    refine inv_grow hinv [] (by simp) nofun (fun _ => Nat.le_refl _) fun g _ hw => ?_
    exact ⟨(hinv.shut hw).opening, (hinv.shut hw).reconnecting⟩
  -- the tasks of a host after a new task of another kind
  have opened : ∀ {g : HostId} {x : Task}, (x.host = g → x.pc.opening = false) → Watched s g →
      ∀ y ∈ s.tasks ++ [x], y.host = g → y.pc.opening = false := by
    intro g x hx hw y hy hyg
    rcases List.mem_append.mp hy with hy | hy
    · exact (hinv.shut hw).opening y hy hyg
    · obtain rfl := List.mem_singleton.mp hy
      exact hx hyg
  cases a with
  | snapshot hosts =>
    simp only [step] at h
    split at h <;> cases h
    exact quiet _
  | supervise due =>
    rcases superviseStep_cases h with ⟨pc, -, rfl⟩ | ⟨g, pc, hg, hn, rfl⟩
    · exact quiet pc
    · obtain ⟨hp, hhalf⟩ := hok g hg hn
      refine inv_grow hinv [⟨g, .attemptLoad⟩] rfl (by simp [TaskPc.inside, TaskPc.mark])
        (fun _ => Nat.le_refl _) fun k _ hw => ⟨opened (fun _ => rfl) hw, fun hm => ?_⟩
      rcases List.mem_cons.mp hm with rfl | hm
      · exact not_watched hinv hp hhalf hw
      · exact (hinv.shut hw).reconnecting hm
  | connectHost g =>
    cases h
    have hself : Function.update s.connects g (s.connects g + 1) g = s.connects g + 1 :=
      Function.update_self _ _ _
    refine inv_grow hinv [⟨g, .connectPrepare⟩] rfl (by simp [TaskPc.inside, TaskPc.mark]) (fun k => ?_)
      fun k hk hw => ⟨opened (fun e => ?_) hw, (hinv.shut hw).reconnecting⟩
    · show s.connects k ≤ Function.update s.connects g (s.connects g + 1) k
      by_cases e : k = g
      · rw [e, hself]
        exact Nat.le_succ _
      · exact Nat.le_of_eq (Function.update_of_ne e _ _).symm
    · -- the count of the host has changed, so nothing of it is watched
      obtain rfl : g = k := e
      exact absurd (hself.symm.trans hk) (Nat.succ_ne_self _)
  | disconnectHost g =>
    cases h
    exact inv_grow hinv [⟨g, .disconnectReconnecting⟩] rfl (by simp [TaskPc.inside, TaskPc.mark])
      (fun _ => Nat.le_refl _) fun k _ hw => ⟨opened (fun _ => rfl) hw, (hinv.shut hw).reconnecting⟩
  | task i c =>
    simp only [step] at h
    split at h
    · obtain ⟨pc', hspec⟩ := taskStep_spec ‹_› h
      exact hspec.inv ‹_› hinv
    · cases h
  | session g a =>
    simp only [step] at h
    split at h
    · rename_i hun
      obtain ⟨v, hv, rfl⟩ := Option.map_eq_some_iff.mp h
      obtain ⟨u, hu, hstep⟩ := Option.bind_eq_some_iff.mp hv
      refine inv_beside hinv hu (beside_step hstep ?_ ?_ ?_)
      · rintro c rfl
        cases hun
      · rintro rfl
        cases hun
      · rintro rfl
        cases hun
    · cases h

theorem reach_inv {s : AppState} (h : machine.Reach FreshProfile Initial s) : Inv s :=
  h.invariant (by rintro _ ⟨n, rfl⟩; exact inv_new n) fun _ _ _ hinv hok hs => inv_step hinv hok hs

/-- A `disconnect_host` of the host has ended, and no `connect_host` of it ran
beside it or was called since. -/
def Disconnected (s : AppState) (h : HostId) : Prop := s.closed h = some (s.connects h)

instance (s : AppState) (h : HostId) : Decidable (Disconnected s h) :=
  inferInstanceAs (Decidable (s.closed h = some (s.connects h)))

/-- Whether an attempt for the host is running. -/
def AppState.attempts (s : AppState) (h : HostId) : Bool :=
  s.tasks.any fun task => task.host == h && task.pc.attempting

/-- Only the supervisor starts an attempt, when it inserts the host. -/
theorem step_starts {s t : AppState} {a : Action} {g : HostId} (h : step s a = some t)
    (ht : t.tasks = s.tasks ++ [⟨g, .attemptLoad⟩]) :
    ∃ due, a = .supervise due ∧ s.supervisor.acquires = some g ∧ g ∉ s.reconnecting := by
  have hlen : t.tasks.length = s.tasks.length + 1 := by simp [ht]
  cases a with
  | snapshot hosts =>
    simp only [step] at h
    split at h <;> cases h
    exact absurd hlen (Nat.ne_of_lt (Nat.lt_succ_self _))
  | supervise due =>
    rcases superviseStep_cases h with ⟨pc, -, rfl⟩ | ⟨g', pc, hg, hn, rfl⟩
    · exact absurd hlen (Nat.ne_of_lt (Nat.lt_succ_self _))
    · obtain rfl : g' = g := by simpa using ht
      exact ⟨due, rfl, hg, hn⟩
  | connectHost g' => cases h; simp at ht
  | disconnectHost g' => cases h; simp at ht
  | task i c =>
    simp only [step] at h
    split at h
    · obtain ⟨pc', hspec⟩ := taskStep_spec ‹_› h
      rw [hspec.tasks, List.length_set] at hlen
      omega
    · cases h
  | session g' a =>
    simp only [step] at h
    split at h
    · obtain ⟨v, -, rfl⟩ := Option.map_eq_some_iff.mp h
      exact absurd hlen (Nat.ne_of_lt (Nat.lt_succ_self _))
    · cases h

/-- In every run in which the supervisor inserts hosts with a fresh profile
only: a disconnected host has no transport and is not ready once its attempts
have ended, and no step starts another attempt for it. -/
theorem disconnected_host_stays {s : AppState} (hr : machine.Reach FreshProfile Initial s) {h : HostId}
    (hd : Disconnected s h) :
    (s.attempts h = false →
      (∀ u, s.sessions h = some u → u.connection = none) ∧ s.state h ≠ .ready) ∧
    ∀ a t, FreshProfile s a → step s a = some t → t.tasks ≠ s.tasks ++ [⟨h, .attemptLoad⟩] := by
  have hinv := reach_inv hr
  obtain ⟨-, hprof, hdebt⟩ := (hinv.closed h _ hd).2 rfl
  refine ⟨fun hend => ?_, fun a t hok hs hstart => ?_⟩
  · have hnot : ∀ u, s.sessions h = some u → ¬ live u := by
      intro u hu hl
      obtain ⟨x, hx, rfl, hp⟩ := hdebt u hu hl
      have hat : x.pc.attempting = false := by simpa using List.any_eq_false.mp hend x hx
      rcases hp with hp | ⟨hp, -⟩
      · exact Bool.eq_false_iff.mp hat (TaskPc.attempting_of_undoing hp)
      · rw [hp] at hat
        cases hat
    refine ⟨fun u hu => ?_, fun hready => ?_⟩
    · by_contra hc
      exact hnot u hu (.inl hc)
    · cases hu : s.sessions h with
      | none => simp [AppState.state, hu] at hready
      | some u => exact hnot u hu (.inr (by simpa [AppState.state, hu] using hready))
  · obtain ⟨due, rfl, hg, hn⟩ := step_starts hs hstart
    exact hprof (hok h hg hn).1

/-! ## Traces -/

def workstation : HostId := ⟨0⟩

/-- The task numbered `i` holds the guard and connects to the only candidate. -/
def dialTrace (i : Nat) : List Action :=
  .task i (.op .go) :: .task i (.op (.candidates 1)) :: .task i (.op .go) :: .task i (.op .go) ::
    .task i (.op .go) :: .task i (.op .dialed) :: List.replicate 9 (.task i (.op .go))

/-- A `connect_host`, numbered 0, that gets its profile. -/
def connectTrace : List Action :=
  List.flatten [[.connectHost workstation, .task 0 .go, .task 0 .go], dialTrace 0, [.task 0 .go]]

/-- The transport is lost, and the pump says so. -/
def lossTrace : List Action :=
  .session workstation (.pump 1 (.event (.disconnected "reset"))) ::
    List.replicate 8 (.session workstation (.pump 1 .go))

/-- The supervisor finds the host to reconnect, and is about to insert it. -/
def scanTrace : List Action := [.snapshot [workstation], .supervise true, .supervise true]

/-- The task numbered `i` waits for the guard, disconnects and lets go. -/
def hangUpTrace (i : Nat) : List Action := .task i .go :: List.replicate 11 (.task i (.op .go))

/-- The attempt `i` gets to its connect call and connects. -/
def attemptTrace (i : Nat) : List Action :=
  List.flatten [List.replicate 4 (.task i .go), dialTrace i]

/-- The attempt is connecting when `disconnect_host` removes the host; it
disconnects again, and so does `disconnect_host`. -/
theorem cancelled_attempt_disconnects :
    ∃ s, machine.Reach FreshProfile Initial s ∧ Disconnected s workstation ∧
      s.attempts workstation = false ∧
      (∀ u, s.sessions workstation = some u → u.connection = none) ∧ s.state workstation ≠ .ready := by
  obtain ⟨s, hs, hp⟩ := Machine.Reach.of_run machine FreshProfile (init_new 8)
    (List.flatten [connectTrace, lossTrace, scanTrace, [.supervise true],
      List.replicate 4 (.task 1 .go), [.disconnectHost workstation, .task 2 .go, .task 2 .go],
      dialTrace 1, [.task 1 .go], hangUpTrace 1, [.task 1 .go, .task 1 .go], hangUpTrace 2])
    (fun s => Disconnected s workstation && !s.attempts workstation) (by decide)
  simp only [Bool.and_eq_true, decide_eq_true_eq, Bool.not_eq_true'] at hp
  obtain ⟨hd, ha⟩ := hp
  exact ⟨s, hs, hd, ha, (disconnected_host_stays hs hd).1 ha⟩

/-- The supervisor takes its snapshot and finds a retry due; `disconnect_host`
runs to its end; then the supervisor inserts the host and reconnects it. -/
theorem disconnected_host_reconnected :
    ∃ s, machine.Reach Machine.free Initial s ∧ Disconnected s workstation ∧
      s.attempts workstation = false ∧ s.state workstation = .ready := by
  obtain ⟨s, hs, hp⟩ := Machine.Reach.of_run machine Machine.free (init_new 8)
    (List.flatten [connectTrace, lossTrace, scanTrace,
      [.disconnectHost workstation, .task 1 .go, .task 1 .go], hangUpTrace 1, [.supervise true],
      attemptTrace 2, List.replicate 3 (.task 2 .go)])
    (fun s => Disconnected s workstation && !s.attempts workstation && s.state workstation = .ready)
    (by decide)
  simp only [Bool.and_eq_true, decide_eq_true_eq, Bool.not_eq_true'] at hp
  exact ⟨s, hs, hp.1.1, hp.1.2, hp.2⟩

end KW.Supervisor
