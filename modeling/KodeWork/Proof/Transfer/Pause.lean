import KodeWork.Impl.Transfer.Pause

/-!
# Which paused workers wake up

A worker that waits is to go on when the transfer is resumed or cancelled, or
when nobody drains its events any more. It looks at `paused` alone before it
registers, and the notification is not stored, so three things can leave it
asleep for good (`worker_left_asleep`): a `resume` that runs between its look and
its registration, a `cancel` of a paused transfer, after which it goes back to
sleep, and a stopped pump, of which nobody notifies it.

`workers_released_iff` is exact: in any run no worker is left asleep if and only
if a worker registers only while nothing releases it or a notification is still
to come, and the pump stops only while no worker sleeps without one to come.
-/

namespace KW.Transfer.Pause

open PauseState

/-- The transfer is resumed or cancelled, or its pump has stopped. -/
def PauseState.released (s : PauseState) : Bool := !s.paused || s.cancelled || !s.pumpAlive

/-- A call is about to notify the waiters. -/
def PauseState.notifying (s : PauseState) : Bool := s.calls.contains .notify

/-- A worker sleeps although it is released, and no wake-up is pending. -/
def PauseState.leftAsleep (s : PauseState) : Bool :=
  s.released && !s.notifying && s.workers.contains (.parked false)

/-- A worker registers only while nothing releases it or a notification is to
come, and the pump stops only while no sleeping worker is without one. -/
def ParksInTime (s : PauseState) : Action → Prop
  | .worker i => s.workers[i]? = some .register → s.released = false ∨ s.notifying = true
  | .eventPumpStopped => .parked false ∈ s.workers → s.notifying = true
  | _ => True

theorem leftAsleep_eq_false {s : PauseState} : s.leftAsleep = false ↔
    (s.released = true → s.notifying = false → .parked false ∉ s.workers) := by
  simp only [leftAsleep, Bool.and_eq_false_iff, Bool.not_eq_false', List.contains_eq_mem,
    decide_eq_false_iff_not]
  cases s.released <;> cases s.notifying <;> simp

/-- A step that puts no worker to sleep and takes away no notification leaves no
worker asleep, if it releases none or announces a notification. -/
theorem awake_of_quiet {s t : PauseState} (hs : s.leftAsleep = false)
    (hr : t.released = true → t.notifying = false → s.released = true ∧ s.notifying = false)
    (hw : .parked false ∈ t.workers → .parked false ∈ s.workers) : t.leftAsleep = false := by
  refine leftAsleep_eq_false.mpr fun hrel hnot hm => ?_
  obtain ⟨hrel', hnot'⟩ := hr hrel hnot
  exact leftAsleep_eq_false.mp hs hrel' hnot' (hw hm)

/-- A worker that moves to another place than to sleep. -/
theorem mem_set_of_ne {ws : List WaitPc} {i : Nat} {pc : WaitPc} (hne : pc ≠ .parked false)
    (h : .parked false ∈ ws.set i pc) : .parked false ∈ ws :=
  (List.mem_or_eq_of_mem_set h).resolve_right (Ne.symm hne)

theorem notifying_set {s t : PauseState} {c : Nat} {pc : ControlPc} (hc : s.calls[c]? = some pc)
    (ht : t.calls = s.calls.set c .notify) : t.notifying = true := by
  obtain ⟨hlt, -⟩ := List.getElem?_eq_some_iff.mp hc
  simp only [notifying, ht, List.contains_eq_mem, decide_eq_true_eq]
  exact List.mem_set hlt _

/-- No worker sleeps on right after a notification. -/
theorem parked_not_mem_wake (ws : List WaitPc) : .parked false ∉ ws.map WaitPc.wake := by
  intro h
  obtain ⟨pc, -, hpc⟩ := List.mem_map.mp h
  cases pc <;> cases hpc

theorem call_awake {s t : PauseState} {c : Nat} (h : step s (.call c) = some t) : t.leftAsleep = false := by
  obtain ⟨pc, hc, h⟩ := Option.bind_eq_some_iff.mp h
  refine leftAsleep_eq_false.mpr fun _ hnot => ?_
  cases pc with
  | storeResumed | storeCancelled =>
    cases h
    rw [notifying_set hc rfl] at hnot
    cases hnot
  | notify =>
    cases h
    exact parked_not_mem_wake s.workers
  | returned => cases h

/-- A worker is left asleep by its own step only when it registers too late. -/
theorem worker_awake_iff {s t : PauseState} {i : Nat} (hs : s.leftAsleep = false)
    (h : step s (.worker i) = some t) : t.leftAsleep = false ↔ ParksInTime s (.worker i) := by
  obtain ⟨pc, hi, h⟩ := Option.bind_eq_some_iff.mp h
  obtain ⟨pc', hnext, rfl⟩ := Option.map_eq_some_iff.mp h
  obtain ⟨hlt, -⟩ := List.getElem?_eq_some_iff.mp hi
  by_cases hreg : pc = .register
  · subst hreg
    cases hnext
    have hm : WaitPc.parked false ∈ s.workers.set i (.parked false) := List.mem_set hlt _
    rw [leftAsleep_eq_false]
    constructor
    · intro ht _
      cases hrel : s.released with
      | false => exact .inl rfl
      | true =>
        cases hnot : s.notifying with
        | true => exact .inr rfl
        | false => exact absurd hm (ht hrel hnot)
    · intro hok hrel hnot
      rcases hok hi with e | e
      · exact absurd (e.symm.trans hrel) Bool.noConfusion
      · exact absurd (e.symm.trans hnot) Bool.noConfusion
  · have hne : pc' ≠ .parked false := by
      rintro rfl
      cases pc with
      | parked woken => cases woken <;> cases hnext
      | load | checkCancelled | checkPump =>
        simp only [workerNext] at hnext
        split at hnext <;> cases hnext
      | register => exact hreg rfl
      | transferring | stopped => cases hnext
    refine iff_of_true (awake_of_quiet hs (fun hrel hnot => ⟨hrel, hnot⟩) (mem_set_of_ne hne)) fun e => ?_
    rw [hi] at e
    exact absurd (Option.some.inj e) hreg

theorem step_awake_iff {s t : PauseState} {a : Action} (hs : s.leftAsleep = false)
    (h : step s a = some t) : t.leftAsleep = false ↔ ParksInTime s a := by
  cases a with
  | start =>
    cases h
    refine iff_of_true (awake_of_quiet hs (fun hrel hnot => ⟨hrel, hnot⟩) fun hm => ?_) trivial
    simpa using hm
  | pause =>
    cases h
    refine iff_of_true (awake_of_quiet hs (fun hrel hnot => ⟨?_, hnot⟩) id) trivial
    simp only [released, Bool.not_true, Bool.false_or] at hrel
    simp [released, Bool.or_assoc, hrel]
  | resume | cancel =>
    cases h
    refine iff_of_true (awake_of_quiet hs (fun hrel hnot => ⟨hrel, ?_⟩) id) trivial
    simpa [notifying] using hnot
  | eventPumpStopped =>
    cases h
    rw [leftAsleep_eq_false]
    constructor
    · intro ht hm
      by_contra hnot
      exact ht (by simp [released]) (Bool.eq_false_iff.mpr hnot) hm
    · intro hok _ hnot hm
      exact absurd ((hok hm).symm.trans hnot) Bool.noConfusion
  | call c => exact iff_of_true (call_awake h) trivial
  | worker i => exact worker_awake_iff hs h
  | finish i =>
    simp only [step] at h
    split at h <;> cases h
    exact iff_of_true (awake_of_quiet hs (fun hrel hnot => ⟨hrel, hnot⟩) (mem_set_of_ne (by rintro ⟨⟩))) trivial

/-- In any run, no worker is left asleep if and only if every worker registers in
time and no pump stops above a sleeping one. -/
theorem workers_released_iff (as : List Action) :
    machine.Along (fun _ _ t => t.leftAsleep = false) .new as ↔
      machine.Along (fun s a _ => ParksInTime s a) .new as :=
  Machine.along_congr (I := fun s => s.leftAsleep = false) (fun _ _ _ hs h => step_awake_iff hs h)
    (fun _ _ _ _ _ ht => ht) as rfl

/-! ## Traces -/

/-- A worker has seen `paused`, and registers next. -/
def pausedTrace : List Action := [.start, .pause, .worker 0]

/-- Three runs that leave the worker asleep: a `resume` before it registers, a
`cancel` of the paused transfer, and a pump that stops. -/
theorem worker_left_asleep :
    (∃ s, machine.Reach Machine.free Initial s ∧ s.paused = false ∧ s.leftAsleep = true) ∧
    (∃ s, machine.Reach Machine.free Initial s ∧ s.cancelled = true ∧ s.leftAsleep = true) ∧
    ∃ s, machine.Reach Machine.free Initial s ∧ s.pumpAlive = false ∧ s.leftAsleep = true := by
  have hrun : ∀ (as : List Action) (p : PauseState → Bool),
      (machine.run Machine.free .new as).any (fun s => p s && s.leftAsleep) = true →
      ∃ s, machine.Reach Machine.free Initial s ∧ p s = true ∧ s.leftAsleep = true := by
    intro as p h
    obtain ⟨s, hs, hp⟩ := Machine.Reach.of_run machine Machine.free init_new as _ h
    exact ⟨s, hs, by simpa using hp⟩
  refine ⟨?_, ?_, ?_⟩
  · obtain ⟨s, hs, hp⟩ := hrun (List.flatten [pausedTrace, [.resume, .call 0, .call 0, .worker 0]])
      (fun s => !s.paused) (by decide)
    exact ⟨s, hs, by simpa using hp⟩
  · exact hrun (List.flatten [pausedTrace, [.worker 0, .cancel, .call 0, .call 0, .worker 0, .worker 0,
      .worker 0]]) (fun s => s.cancelled) (by decide)
  · obtain ⟨s, hs, hp⟩ := hrun (List.flatten [pausedTrace, [.worker 0, .eventPumpStopped]])
      (fun s => !s.pumpAlive) (by decide)
    exact ⟨s, hs, by simpa using hp⟩

end KW.Transfer.Pause
