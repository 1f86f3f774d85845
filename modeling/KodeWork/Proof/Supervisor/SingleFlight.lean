import KodeWork.Proof.Supervisor.Disconnect

/-!
# One attempt for a host

The supervisor starts an attempt when it inserts the host into `reconnecting`,
and the attempt takes the host out again when it completes. The entry does not
say whose it is: a `disconnect_host` takes it out while the attempt still runs,
the supervisor inserts it once more for a second attempt, and the first one
takes that entry out in turn (`second_attempt_started`).

`single_flight_iff` says when this happens: in any run, at most one attempt of a
host is alive and no attempt takes out the entry of another, if and only if the
supervisor never inserts a host while an attempt of it that has lost its entry
is still running. Who owns an entry is a history variable (`ownedMachine`).
-/

namespace KW.Supervisor

open Session AppState

/-- The attempt that was started with each entry of `reconnecting`. -/
abbrev Owners := HostId → Option Nat

/-- An entry belongs to the task that was spawned in the step that inserted it. -/
def recordOwner (s : AppState) (owner : Owners) (_ : Action) (t : AppState) : Owners := fun h =>
  if h ∈ t.reconnecting then if h ∈ s.reconnecting then owner h else some s.tasks.length else none

def ownedMachine : Machine (AppState × Owners) Action := machine.history recordOwner

def ownedNew (eventBuffer : Nat) : AppState × Owners := (.new eventBuffer, fun _ => none)

def OwnedInitial (s : AppState × Owners) : Prop := ∃ eventBuffer, s = ownedNew eventBuffer

theorem init_ownedNew (eventBuffer : Nat) : OwnedInitial (ownedNew eventBuffer) := ⟨eventBuffer, rfl⟩

/-- No two attempts of one host are alive. -/
def OneAttempt (s : AppState) : Prop :=
  ∀ (i j : Nat) (x y : Task), s.tasks[i]? = some x → s.tasks[j]? = some y →
    x.pc.attempting = true → y.pc.attempting = true → x.host = y.host → i = j

/-- What is to hold of every step: at most one attempt of a host is alive after
it, and if it is the completion of an attempt, the entry it takes out is the
attempt's own. -/
def SingleFlight (s : AppState × Owners) (a : Action) (t : AppState × Owners) : Prop :=
  OneAttempt t.1 ∧
  ∀ (i : Nat) (c : TaskChoice) (x : Task) (error : Option ConnectErrorKind), a = .task i c →
    s.1.tasks[i]? = some x → x.pc = .attemptRelease error → x.host ∈ s.1.reconnecting →
    s.2 x.host = some i

/-- The supervisor inserts a host that is not in `reconnecting` only when every
attempt of it that lost its entry has ended. -/
def AttemptsEnded (s : AppState) : Action → Prop
  | .supervise _ => ∀ h ∈ s.supervisor.acquires, h ∉ s.reconnecting →
      ∀ task ∈ s.tasks, task.host = h → task.pc.attempting = false
  | _ => True

/-! ## Every run -/

/-- Every entry is owned by an attempt of its host that has not taken it out. -/
def EntriesOwned (s : AppState × Owners) : Prop :=
  ∀ h ∈ s.1.reconnecting, ∃ (j : Nat) (x : Task), s.2 h = some j ∧ s.1.tasks[j]? = some x ∧
    x.host = h ∧ x.pc.owning = true

/-- What a step does to the tasks and to `reconnecting`. -/
theorem step_entries {s t : AppState} {a : Action} (h : step s a = some t) :
    (∃ i task c pc', a = .task i c ∧ s.tasks[i]? = some task ∧ TaskSpec s t i task pc') ∨
    (∃ due g, a = .supervise due ∧ s.supervisor.acquires = some g ∧ g ∉ s.reconnecting ∧
      t.reconnecting = g :: s.reconnecting ∧ t.tasks = s.tasks ++ [⟨g, .attemptLoad⟩]) ∨
    (AttemptsEnded s a ∧ t.reconnecting = s.reconnecting ∧
      ∃ added : List Task, t.tasks = s.tasks ++ added ∧ ∀ x ∈ added, x.pc.attempting = false) := by
  cases a with
  | snapshot hosts =>
    simp only [step] at h
    split at h <;> cases h
    exact .inr (.inr ⟨trivial, rfl, [], (List.append_nil _).symm, by simp⟩)
  | supervise due =>
    rcases superviseStep_cases h with ⟨pc, hend, rfl⟩ | ⟨g, pc, hg, hn, rfl⟩
    · exact .inr (.inr ⟨fun g hg hn => absurd (hend g hg) hn, rfl, [], (List.append_nil _).symm, by simp⟩)
    · exact .inr (.inl ⟨due, g, rfl, hg, hn, rfl, rfl⟩)
  | connectHost g =>
    cases h
    exact .inr (.inr ⟨trivial, rfl, _, rfl, by simp [TaskPc.attempting]⟩)
  | disconnectHost g =>
    cases h
    exact .inr (.inr ⟨trivial, rfl, _, rfl, by simp [TaskPc.attempting]⟩)
  | task i c =>
    simp only [step] at h
    split at h
    · obtain ⟨pc', hspec⟩ := taskStep_spec ‹_› h
      exact .inl ⟨i, _, c, pc', rfl, ‹_›, hspec⟩
    · cases h
  | session g a =>
    simp only [step] at h
    split at h
    · obtain ⟨v, -, rfl⟩ := Option.map_eq_some_iff.mp h
      exact .inr (.inr ⟨trivial, rfl, [], (List.append_nil _).symm, by simp⟩)
    · cases h

theorem getElem?_kept {s added : List Task} {j : Nat} {y : Task} (h : s[j]? = some y) :
    (s ++ added)[j]? = some y := by
  obtain ⟨hj, -⟩ := List.getElem?_eq_some_iff.mp h
  rw [List.getElem?_append_left hj, h]

/-- A task that is alive after a step was alive before it, or the step is the
one in which the supervisor started it. -/
theorem step_attempting {s t : AppState} {a : Action} (h : step s a = some t) {j : Nat} {y : Task}
    (hj : t.tasks[j]? = some y) (hy : y.pc.attempting = true) :
    (∃ x, s.tasks[j]? = some x ∧ x.host = y.host ∧ x.pc.attempting = true) ∨
    j = s.tasks.length ∧ y.host ∉ s.reconnecting ∧ s.supervisor.acquires = some y.host ∧
      ∃ due, a = .supervise due := by
  rcases step_entries h with ⟨i, task, c, pc', -, hi, hspec⟩ | ⟨due, g, ha, hg, hn, -, ht⟩ |
    ⟨-, -, added, ht, hnew⟩
  · rcases hspec.moved hj with ⟨rfl, rfl⟩ | ⟨-, hj'⟩
    · exact .inl ⟨task, hi, rfl, hspec.follows.attempting hy⟩
    · exact .inl ⟨y, hj', rfl, hy⟩
  · rw [ht] at hj
    rcases entry_of_append hj with hj' | ⟨hle, hm⟩
    · exact .inl ⟨y, hj', rfl, hy⟩
    · obtain rfl := List.mem_singleton.mp hm
      obtain ⟨hlt, -⟩ := List.getElem?_eq_some_iff.mp hj
      rw [List.length_append] at hlt
      exact .inr ⟨Nat.le_antisymm (Nat.le_of_lt_succ hlt) hle, hn, hg, due, ha⟩
  · rw [ht] at hj
    rcases entry_of_append hj with hj' | ⟨-, hm⟩
    · exact .inl ⟨y, hj', rfl, hy⟩
    · exact absurd hy (Bool.eq_false_iff.mp (hnew y hm))

/-- A step that starts no attempt beside a living one leaves one at most. -/
theorem oneAttempt_step {s t : AppState} {a : Action} (h : step s a = some t) (hone : OneAttempt s)
    (hend : AttemptsEnded s a) : OneAttempt t := by
  -- an attempt that was started by this step is the only one of its host
  have hfirst : ∀ {j : Nat} {x y : Task}, s.tasks[j]? = some x → x.host = y.host →
      x.pc.attempting = true → y.host ∉ s.reconnecting → s.supervisor.acquires = some y.host →
      (∃ due, a = .supervise due) → False := by
    rintro j x y hj hh hx hn hg ⟨due, rfl⟩
    exact Bool.eq_false_iff.mp (hend _ hg hn x (List.mem_of_getElem? hj) hh) hx
  intro i j x y hi hj hx hy hh
  rcases step_attempting h hi hx with ⟨x', hi', hxh, hx'⟩ | ⟨ei, hnx, hgx, hax⟩ <;>
    rcases step_attempting h hj hy with ⟨y', hj', hyh, hy'⟩ | ⟨ej, hny, hgy, hay⟩
  · exact hone i j x' y' hi' hj' hx' hy' (hxh.trans (hh.trans hyh.symm))
  · exact (hfirst hi' (hxh.trans hh) hx' hny hgy hay).elim
  · exact (hfirst hj' (hyh.trans hh.symm) hy' hnx hgx hax).elim
  · exact ei.trans ej.symm

/-- The attempt that owns an entry keeps it, until it takes it out. -/
theorem entriesOwned_step {s t : AppState × Owners} {a : Action} (h : ownedMachine.step s a = some t)
    (howned : EntriesOwned s) : EntriesOwned t := by
  obtain ⟨hstep, hrec⟩ := Machine.history_step h
  intro g hg
  have howner : t.2 g = if g ∈ s.1.reconnecting then s.2 g else some s.1.tasks.length := by
    rw [hrec]
    exact if_pos hg
  rcases step_entries hstep with ⟨i, task, c, pc', -, hi, hspec⟩ | ⟨due, g', -, hacq, hn, hr, ht⟩ |
    ⟨-, hr, added, ht, -⟩
  · have hold : g ∈ s.1.reconnecting := hspec.reconnecting g hg
    obtain ⟨j, x, hj, hx, hh, hp⟩ := howned g hold
    rw [howner, if_pos hold, hspec.tasks]
    by_cases e : i = j
    · subst e
      obtain ⟨hlt, -⟩ := List.getElem?_eq_some_iff.mp hi
      obtain rfl : task = x := Option.some.inj (hi.symm.trans hx)
      rcases hspec.owning hp with hp' | hout
      · exact ⟨i, { task with pc := pc' }, hj, List.getElem?_set_self hlt, hh, hp'⟩
      · exact absurd (hh ▸ hg) hout
    · exact ⟨j, x, hj, by rw [List.getElem?_set_ne e, hx], hh, hp⟩
  · rw [howner, ht]
    by_cases hold : g ∈ s.1.reconnecting
    · obtain ⟨j, x, hj, hx, hh, hp⟩ := howned g hold
      exact ⟨j, x, by rw [if_pos hold, hj], getElem?_kept hx, hh, hp⟩
    · obtain rfl : g = g' := by
        rw [hr] at hg
        exact (List.mem_cons.mp hg).resolve_right hold
      exact ⟨_, ⟨g, .attemptLoad⟩, if_neg hold, List.getElem?_concat_length, rfl, rfl⟩
  · have hold : g ∈ s.1.reconnecting := hr ▸ hg
    obtain ⟨j, x, hj, hx, hh, hp⟩ := howned g hold
    rw [howner, if_pos hold, ht]
    exact ⟨j, x, hj, getElem?_kept hx, hh, hp⟩

theorem singleFlight_step_iff {s t : AppState × Owners} {a : Action}
    (hI : OneAttempt s.1 ∧ EntriesOwned s) (h : ownedMachine.step s a = some t) :
    SingleFlight s a t ↔ AttemptsEnded s.1 a := by
  obtain ⟨hone, howned⟩ := hI
  obtain ⟨hstep, -⟩ := Machine.history_step h
  constructor
  · rintro ⟨hone', -⟩
    rcases step_entries hstep with ⟨i, task, c, pc', rfl, -⟩ | ⟨due, g, rfl, hg, hn, -, ht⟩ | ⟨hend, -⟩
    · trivial
    · -- the new attempt has the last number, so none of the others is alive
      intro k hk hnk x hx hxk
      obtain rfl : g = k := Option.some.inj (hg.symm.trans hk)
      obtain ⟨j, hj⟩ := List.mem_iff_getElem?.mp hx
      refine Bool.eq_false_iff.mpr fun halive => ?_
      have hlast : t.1.tasks[s.1.tasks.length]? = some ⟨g, .attemptLoad⟩ := by
        rw [ht]
        exact List.getElem?_concat_length
      have hj' : t.1.tasks[j]? = some x := by
        rw [ht]
        exact getElem?_kept hj
      have he : j = s.1.tasks.length := hone' j _ x _ hj' hlast halive rfl hxk
      exact absurd (List.getElem?_eq_some_iff.mp hj).1 (Nat.not_lt.mpr (Nat.le_of_eq he.symm))
    · exact hend
  · intro hend
    refine ⟨oneAttempt_step hstep hone hend, fun i c x error ha hi hx hm => ?_⟩
    -- the owner of the entry is an attempt of the host, and there is only one
    obtain ⟨j, y, hj, hy, hh, hp⟩ := howned x.host hm
    have hxa : x.pc.attempting = true := by rw [hx]; rfl
    rw [hone i j x y hi hy hxa (TaskPc.attempting_of_owning hp) hh.symm, hj]

/-- A run of the program keeps to one attempt per host, and to completions that
take out their own entries, if and only if the supervisor inserts a host only
when all attempts of it that lost their entry have ended. -/
theorem single_flight_iff (eventBuffer : Nat) (as : List Action) :
    ownedMachine.Along SingleFlight (ownedNew eventBuffer) as ↔
      ownedMachine.Along (fun s a _ => AttemptsEnded s.1 a) (ownedNew eventBuffer) as := by
  refine Machine.along_congr (I := fun s => OneAttempt s.1 ∧ EntriesOwned s)
    (fun s a t hI h => singleFlight_step_iff hI h) (fun s a t hI h hp => ?_) as ⟨?_, ?_⟩
  · exact ⟨hp.1, entriesOwned_step h hI.2⟩
  · intro i j x y hi
    simp [ownedNew, AppState.new] at hi
  · intro h hm
    simp [ownedNew, AppState.new] at hm

/-! ## Traces -/

/-- The attempt 1 is waiting for its network when `disconnect_host` takes out its
entry; the host is connected again and its transport lost again, and the
supervisor starts the attempt 4. The attempt 1 fails and takes out the entry of
the attempt 4. -/
def secondAttemptTrace : List Action :=
  List.flatten [connectTrace, lossTrace, scanTrace, [.supervise true, .supervise true],
    List.replicate 2 (.task 1 .go), [.disconnectHost workstation, .task 2 .go, .task 2 .go], hangUpTrace 2,
    [.connectHost workstation, .task 3 .go, .task 3 .go], dialTrace 3, [.task 3 .go],
    .session workstation (.pump 3 (.event (.disconnected "reset"))) ::
      List.replicate 8 (.session workstation (.pump 3 .go)),
    scanTrace, [.supervise true, .task 1 (.fail .network)]]

theorem second_attempt_started : ∃ s t,
    ownedMachine.Reach Machine.free OwnedInitial s ∧ ¬ OneAttempt s.1 ∧
    ownedMachine.step s (.task 1 .go) = some t ∧ ¬ SingleFlight s (.task 1 .go) t ∧
    s.2 workstation = some 4 ∧ workstation ∈ s.1.reconnecting ∧ workstation ∉ t.1.reconnecting := by
  obtain ⟨s, hs, hp⟩ := Machine.Reach.of_run ownedMachine Machine.free (init_ownedNew 8)
    secondAttemptTrace
    (fun s => s.1.tasks[1]? = some ⟨workstation, .attemptRelease (some .network)⟩ ∧
      s.1.tasks[4]? = some ⟨workstation, .attemptLoad⟩ ∧ s.2 workstation = some 4 ∧
      workstation ∈ s.1.reconnecting) (by decide)
  obtain ⟨h1, h4, howner, hm⟩ := of_decide_eq_true hp
  have hnot : ¬ OneAttempt s.1 := fun hone => absurd (hone 1 4 _ _ h1 h4 rfl rfl rfl) (by decide)
  obtain ⟨t, hstep, hout⟩ : ∃ t, step s.1 (.task 1 .go) = some t ∧ workstation ∉ t.reconnecting := by
    simp [step, h1, taskStep, goTask]
  refine ⟨s, _, hs, hnot, Option.map_eq_some_iff.mpr ⟨t, hstep, rfl⟩, fun hp => ?_, howner, hm, hout⟩
  have he := hp.2 1 .go _ _ rfl h1 rfl hm
  rw [howner] at he
  exact absurd he (by decide)

end KW.Supervisor
