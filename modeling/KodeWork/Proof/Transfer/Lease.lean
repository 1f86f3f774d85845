import KodeWork.Impl.Transfer.Manager

/-!
# One worker for each destination

A transfer holds the lease on its destination from the section of
`enqueue_internal` or `retry` that takes it to the release by its worker
(`TransferState.holds`). `retry` only looks at the owner of the lease and at
`running`, which a worker sets after it got its permit: a retry of a transfer
whose worker is still queued is admitted, and both workers run
(`two_workers_of_one_transfer`). A finished worker's reaper releases by owner as
well, also when a retry has taken the lease since its checks.

In every run in which a retry takes its lease, and a reaper releases it, only
when no task of that transfer holds it (`IdleRetry`), at most one worker is in
`run_transfer` for a key, and no `enqueue` on the key is admitted meanwhile
(`one_worker_per_lease`). The invariant is `Lease.Exclusive`.
-/

namespace KW.Transfer

open TransferState

/-! ## Who holds a lease -/

/-- A call or a worker, by its number. -/
inductive Task
  | call (c : Nat)
  | worker (i : Nat)
deriving DecidableEq

theorem Task.worker_ne_call (i c : Nat) : Task.worker i ≠ Task.call c := nofun

/-- The lease a call has taken and not handed to a worker yet. -/
def CallPc.key : CallPc → Option Text
  | .insertControls _ _ k | .insertRequest _ k | .rollbackControls k | .rollbackLease k
  | .spawn _ k => some k
  | _ => none

def Call.holds (c : Call) : Option (Text × TransferId) := c.pc.key.map fun k => (k, c.id)

/-- The worker has not released its lease yet. -/
def WorkerPc.holding : WorkerPc → Bool
  | .queued | .start | .attempt | .failed _ | .loadRetries _ | .storeRetries _ | .finish _
  | .release => true
  | _ => false

def Worker.holds (w : Worker) : Option (Text × TransferId) :=
  if w.pc.holding then some (w.key, w.id) else none

def TransferState.holds (s : TransferState) : Task → Option (Text × TransferId)
  | .call c => s.calls[c]?.bind Call.holds
  | .worker i => s.workers[i]?.bind Worker.holds

/-- Whether some task holds the key for this transfer. -/
def TransferState.held (s : TransferState) (k : Text) (id : TransferId) : Bool :=
  s.calls.any (fun c => c.holds == some (k, id)) || s.workers.any fun w => w.holds == some (k, id)

theorem not_held_iff (s : TransferState) (k : Text) (id : TransferId) :
    s.held k id = false ↔ ∀ x, s.holds x ≠ some (k, id) := by
  simp only [held, Bool.or_eq_false_iff, List.any_eq_false, beq_iff_eq]
  constructor
  · rintro ⟨hc, hw⟩ (c | i) h
    · obtain ⟨call, hcall, h⟩ := Option.bind_eq_some_iff.mp h
      exact hc call (List.mem_of_getElem? hcall) h
    · obtain ⟨w, hwi, h⟩ := Option.bind_eq_some_iff.mp h
      exact hw w (List.mem_of_getElem? hwi) h
  · intro h
    refine ⟨fun call hcall e => ?_, fun w hw e => ?_⟩
    · obtain ⟨c, hc⟩ := List.mem_iff_getElem?.mp hcall
      exact h (.call c) (by rw [holds, hc]; exact e)
    · obtain ⟨i, hi⟩ := List.mem_iff_getElem?.mp hw
      exact h (.worker i) (by rw [holds, hi]; exact e)

/-- The key a retry is about to take. -/
def CallPc.retakes : CallPc → Option Text
  | .retryLease _ k => some k
  | _ => none

/-- The reaper is about to release. -/
def WorkerPc.reaps : WorkerPc → Bool
  | .reapRelease => true
  | _ => false

/-- A retry takes its lease, and a reaper releases it, only when no task of
the transfer holds the key. -/
def IdleRetry (s : TransferState) : Action → Prop
  | .call c _ => ∀ call ∈ s.calls[c]?, ∀ k ∈ call.pc.retakes, s.held k call.id = false
  | .worker i _ => ∀ w ∈ s.workers[i]?, w.pc.reaps = true → s.held w.key w.id = false
  | _ => True

instance (s : TransferState) : ∀ a, Decidable (IdleRetry s a)
  | .call c _ => inferInstanceAs
      (Decidable (∀ call ∈ s.calls[c]?, ∀ k ∈ call.pc.retakes, s.held k call.id = false))
  | .worker i _ => inferInstanceAs
      (Decidable (∀ w ∈ s.workers[i]?, w.pc.reaps = true → s.held w.key w.id = false))
  | .enqueue .. | .retry .. | .pause .. | .resume .. | .cancel .. | .eventPumpStopped _ =>
    .isTrue trivial

/-! ## What a step changes -/

theorem holds_goCall {s : TransferState} {c : Nat} {call : Call} (hc : s.calls[c]? = some call)
    (pc : CallPc) :
    (s.goCall c call pc).holds =
      Function.update s.holds (.call c) (pc.key.map fun k => (k, call.id)) := by
  funext x
  cases x with
  | call c' =>
    by_cases e : c' = c
    · have hlt : c < s.calls.length := (List.getElem?_eq_some_iff.mp hc).1
      rw [e, Function.update_self]
      simp [holds, goCall, hlt, Call.holds]
    · rw [Function.update_of_ne fun h => e (Task.call.inj h)]
      simp [holds, goCall, List.getElem?_set_ne (Ne.symm e)]
  | worker i =>
    rw [Function.update_of_ne (Task.worker_ne_call i c)]
    rfl

theorem holds_goWorker {s : TransferState} {i : Nat} {w : Worker} (hw : s.workers[i]? = some w)
    (pc : WorkerPc) :
    (s.goWorker i w pc).holds =
      Function.update s.holds (.worker i) (if pc.holding then some (w.key, w.id) else none) := by
  funext x
  cases x with
  | call c =>
    rw [Function.update_of_ne (Task.worker_ne_call i c).symm]
    rfl
  | worker i' =>
    by_cases e : i' = i
    · have hlt : i < s.workers.length := (List.getElem?_eq_some_iff.mp hw).1
      rw [e, Function.update_self]
      simp [holds, goWorker, hlt, Worker.holds]
    · rw [Function.update_of_ne fun h => e (Task.worker.inj h)]
      simp [holds, goWorker, List.getElem?_set_ne (Ne.symm e)]

theorem holds_call {s : TransferState} {c : Nat} {call : Call} (hc : s.calls[c]? = some call) :
    s.holds (.call c) = call.pc.key.map fun k => (k, call.id) := by
  rw [holds, hc]
  rfl

theorem holds_worker {s : TransferState} {i : Nat} {w : Worker} (hw : s.workers[i]? = some w) :
    s.holds (.worker i) = if w.pc.holding then some (w.key, w.id) else none := by
  rw [holds, hw]
  rfl

/-- A new call holds nothing. -/
theorem holds_newCall (s : TransferState) (call : Call) (n : Nat) (h : call.pc.key = none) :
    ({ s with calls := s.calls ++ [call], nextId := n } : TransferState).holds = s.holds := by
  funext x
  cases x with
  | call c =>
    rcases Nat.lt_trichotomy c s.calls.length with hc | rfl | hc
    · simp [holds, List.getElem?_append_left hc]
    · simp [holds, Call.holds, h]
    · simp [holds, List.getElem?_eq_none (show (s.calls ++ [call]).length ≤ c by simp; omega),
        List.getElem?_eq_none (Nat.le_of_lt hc)]
  | worker i => rfl

theorem holds_spawnWorker (s : TransferState) (call : Call) (k : Text) :
    (s.spawnWorker call k).holds =
      Function.update s.holds (.worker s.workers.length) (some (k, call.id)) := by
  funext x
  cases x with
  | call c =>
    rw [Function.update_of_ne (Task.worker_ne_call _ c).symm]
    rfl
  | worker i =>
    by_cases e : i = s.workers.length
    · rw [e, Function.update_self]
      simp [holds, spawnWorker, setControls, Worker.holds, WorkerPc.holding]
    · rw [Function.update_of_ne fun h => e (Task.worker.inj h)]
      rcases Nat.lt_or_gt_of_ne e with hi | hi
      · simp [holds, spawnWorker, setControls, List.getElem?_append_left hi]
      · simp only [holds, spawnWorker, setControls]
        rw [List.getElem?_eq_none (by simp; omega), List.getElem?_eq_none (Nat.le_of_lt hi)]

/-! ## The invariant -/

/-- The registry and the tasks agree, and no key is held twice. -/
def LeaseInv (s : TransferState) : Prop := Lease.Exclusive s.leases s.holds

theorem leaseInv_new (maxConcurrency : Nat → Nat) : LeaseInv (.new maxConcurrency) :=
  ⟨by rintro (_ | _) _ _ h <;> simp [holds, TransferState.new] at h,
    by rintro (_ | _) _ _ _ _ h <;> simp [holds, TransferState.new] at h⟩

/-- A call goes on without taking or losing a lease. -/
theorem leaseInv_goCall {s u : TransferState} {c : Nat} {call : Call} (hi : LeaseInv s)
    (hc : u.calls[c]? = some call) (hl : u.leases = s.leases) (hh : u.holds = s.holds) {pc : CallPc}
    (hk : pc.key = call.pc.key) : LeaseInv (u.goCall c call pc) := by
  have e : (u.goCall c call pc).holds = s.holds := by
    rw [holds_goCall hc, hk, ← holds_call hc, Function.update_eq_self, hh]
  rw [LeaseInv, e]
  exact hl ▸ hi

/-- A worker goes on without losing its lease. -/
theorem leaseInv_goWorker {s u : TransferState} {i : Nat} {w : Worker} (hi : LeaseInv s)
    (hw : u.workers[i]? = some w) (hl : u.leases = s.leases) (hh : u.holds = s.holds) {pc : WorkerPc}
    (hk : pc.holding = w.pc.holding) : LeaseInv (u.goWorker i w pc) := by
  have e : (u.goWorker i w pc).holds = s.holds := by
    rw [holds_goWorker hw, hk, ← holds_worker hw, Function.update_eq_self, hh]
  rw [LeaseInv, e]
  exact hl ▸ hi

/-- A call takes the lease on a key that no task holds. -/
theorem leaseInv_takeLease {s : TransferState} {c : Nat} {call : Call} (hi : LeaseInv s)
    (hc : s.calls[c]? = some call) {k : Text}
    (hk : s.leases k = none ∨ s.leases k = some call.id ∧ ∀ x, s.holds x ≠ some (k, call.id))
    {pc : CallPc} (hpc : pc.key = some k) : LeaseInv ((s.takeLease k call.id).goCall c call pc) := by
  have e : ((s.takeLease k call.id).goCall c call pc).holds =
      Function.update s.holds (.call c) (some (k, call.id)) := by
    rw [holds_goCall (s := s.takeLease k call.id) hc, hpc]
    rfl
  rw [LeaseInv, e]
  exact Lease.Exclusive.take hi (Lease.Exclusive.not_held hi hk)

theorem leaseInv_call {s t : TransferState} {c : Nat} {call : Call} {choice : CallChoice}
    (hi : LeaseInv s) (hc : s.calls[c]? = some call) (hok : IdleRetry s (.call c choice))
    (h : s.callStep c call call.pc choice = some t) : LeaseInv t := by
  have quiet : ∀ {u : TransferState} {pc : CallPc}, u.calls = s.calls → u.leases = s.leases →
      u.holds = s.holds → pc.key = call.pc.key → LeaseInv (u.goCall c call pc) :=
    fun hcs hl hh hk => leaseInv_goCall hi (hcs ▸ hc) hl hh hk
  cases hpc : call.pc with
  | enqueueKey request retries | retryKey request =>
    rw [hpc] at h
    cases choice <;> simp only [callStep, reduceCtorEq, Option.some.injEq] at h <;> cases h <;>
      exact quiet rfl rfl rfl (by rw [hpc]; rfl)
  | enqueueLease request retries k =>
    rw [hpc] at h
    cases choice <;> simp only [callStep, reduceCtorEq] at h
    split at h <;> cases h
    · exact quiet rfl rfl rfl (by rw [hpc]; rfl)
    · rename_i hk
      exact leaseInv_takeLease hi hc (.inl (by simpa using hk)) rfl
  | insertControls request retries k | insertRequest request k =>
    rw [hpc] at h
    cases choice <;> simp only [callStep, reduceCtorEq, Option.some.injEq] at h <;> cases h <;>
      exact quiet rfl rfl rfl (by rw [hpc]; rfl)
  | rollbackControls k =>
    rw [hpc] at h
    cases choice <;> simp only [callStep, reduceCtorEq, Option.some.injEq] at h
    cases h
    exact quiet rfl rfl rfl (by rw [hpc]; rfl)
  | rollbackLease k =>
    rw [hpc] at h
    cases choice <;> simp only [callStep, reduceCtorEq, Option.some.injEq] at h
    cases h
    have hk : s.holds (.call c) = some (k, call.id) := by rw [holds_call hc, hpc]; rfl
    have e : ((s.releaseLease k call.id).failCall c call lockError).holds =
        Function.update s.holds (.call c) none := holds_goCall (s := s.releaseLease k call.id) hc _
    rw [LeaseInv, e]
    exact Lease.Exclusive.giveBack hi hk
  | retryRequest =>
    rw [hpc] at h
    cases choice <;> simp only [callStep, reduceCtorEq] at h
    split at h <;> cases h <;> exact quiet rfl rfl rfl (by rw [hpc]; rfl)
  | retryControls request | poll request n | lastCheck request =>
    rw [hpc] at h
    cases choice <;> simp only [callStep, reduceCtorEq] at h
    split at h <;> cases h <;> exact quiet rfl rfl rfl (by rw [hpc]; rfl)
  | resetCancelled request | resetPaused request | resetRetries request | resetTransferred request =>
    rw [hpc] at h
    cases choice <;> simp only [callStep, reduceCtorEq, Option.some.injEq] at h
    cases h
    exact quiet rfl rfl rfl (by rw [hpc]; rfl)
  | retryLease request k =>
    rw [hpc] at h
    cases choice <;> simp only [callStep, reduceCtorEq] at h
    split at h <;> cases h
    · exact quiet rfl rfl rfl (by rw [hpc]; rfl)
    · rename_i hk
      -- the key is free, or leased to this transfer, of which no task holds it
      have hidle := (not_held_iff s k call.id).mp (hok call hc k (by rw [hpc]; rfl))
      refine leaseInv_takeLease hi hc ?_ rfl
      cases ho : s.leases k with
      | none => exact .inl rfl
      | some owner =>
        simp only [ho, Option.any_some, decide_eq_true_eq, not_not] at hk
        exact .inr ⟨by rw [hk], hidle⟩
  | spawn request k =>
    rw [hpc] at h
    cases choice <;> simp only [callStep, reduceCtorEq, Option.some.injEq] at h
    cases h
    have hk : s.holds (.call c) = some (k, call.id) := by rw [holds_call hc, hpc]; rfl
    have e : ((s.spawnWorker call k).goCall c call (.returned (.ok call.id))).holds =
        Function.update (Function.update s.holds (.call c) none) (.worker s.workers.length)
          (s.holds (.call c)) := by
      rw [holds_goCall (s := s.spawnWorker call k) hc, holds_spawnWorker, hk,
        Function.update_comm (Task.worker_ne_call _ c)]
      rfl
    rw [LeaseInv, e]
    exact Lease.Exclusive.pass hi _ _
  | returned result =>
    rw [hpc] at h
    cases choice <;> simp only [callStep, reduceCtorEq] at h

theorem leaseInv_worker {s t : TransferState} {i : Nat} {w : Worker} {choice : WorkerChoice}
    (hi : LeaseInv s) (hw : s.workers[i]? = some w) (hok : IdleRetry s (.worker i choice))
    (h : s.workerStep i w w.pc choice = some t) : LeaseInv t := by
  have quiet : ∀ {u : TransferState} {pc : WorkerPc}, u.workers = s.workers → u.leases = s.leases →
      u.holds = s.holds → pc.holding = w.pc.holding → LeaseInv (u.goWorker i w pc) :=
    fun hws hl hh hk => leaseInv_goWorker hi (hws ▸ hw) hl hh hk
  cases hpc : w.pc with
  | queued =>
    rw [hpc] at h
    cases choice <;> simp only [workerStep, reduceCtorEq] at h
    split at h <;> cases h
    exact quiet rfl rfl rfl (by rw [hpc]; rfl)
  | attempt =>
    rw [hpc] at h
    cases choice with
    | go => simp only [workerStep, reduceCtorEq] at h
    | outcome r =>
      cases r <;> simp only [workerStep, Option.some.injEq] at h <;> cases h <;>
        exact quiet rfl rfl rfl (by rw [hpc]; rfl)
  | failed e =>
    rw [hpc] at h
    cases choice <;> simp only [workerStep, reduceCtorEq] at h
    split at h
    · cases h
      exact quiet rfl rfl rfl (by rw [hpc]; rfl)
    · split at h <;> cases h <;> exact quiet rfl rfl rfl (by rw [hpc]; rfl)
  | loadRetries e | reapGeneration | reapRunning =>
    rw [hpc] at h
    cases choice <;> simp only [workerStep, reduceCtorEq] at h
    split at h <;> cases h <;> exact quiet rfl rfl rfl (by rw [hpc]; rfl)
  | start | storeRetries n | finish outcome | dropPermit | reapControls | reapRequests =>
    rw [hpc] at h
    cases choice <;> simp only [workerStep, reduceCtorEq, Option.some.injEq] at h
    cases h
    exact quiet rfl rfl rfl (by rw [hpc]; rfl)
  | release =>
    rw [hpc] at h
    cases choice <;> simp only [workerStep, reduceCtorEq, Option.some.injEq] at h
    cases h
    have hk : s.holds (.worker i) = some (w.key, w.id) := by rw [holds_worker hw, hpc]; rfl
    have e : ((s.releaseLease w.key w.id).goWorker i w .dropPermit).holds =
        Function.update s.holds (.worker i) none := holds_goWorker (s := s.releaseLease w.key w.id) hw _
    rw [LeaseInv, e]
    exact Lease.Exclusive.giveBack hi hk
  | reapRelease =>
    rw [hpc] at h
    cases choice <;> simp only [workerStep, reduceCtorEq, Option.some.injEq] at h
    cases h
    have hidle := (not_held_iff s w.key w.id).mp (hok w hw (by rw [hpc]; rfl))
    have hk : s.holds (.worker i) = none := by rw [holds_worker hw, hpc]; rfl
    have e : ((s.releaseLease w.key w.id).goWorker i w .ended).holds = s.holds := by
      rw [holds_goWorker (s := s.releaseLease w.key w.id) hw]
      exact Function.update_eq_self_iff.mpr hk.symm
    rw [LeaseInv, e]
    exact Lease.Exclusive.release_idle hi hidle
  | ended =>
    rw [hpc] at h
    cases choice <;> simp only [workerStep, reduceCtorEq] at h

/-! ## Every run -/

theorem leaseInv_step {s t : TransferState} {a : Action} (hi : LeaseInv s) (hok : IdleRetry s a)
    (h : step s a = some t) : LeaseInv t := by
  cases a with
  | enqueue m request retries =>
    obtain rfl := Option.some.inj h
    unfold enqueue LeaseInv
    split
    · rw [holds_newCall s _ s.nextId rfl]
      exact hi
    · rw [holds_newCall s _ (s.nextId + 1) rfl]
      exact hi
  | retry m id =>
    obtain rfl := Option.some.inj h
    unfold LeaseInv
    rw [holds_newCall s _ s.nextId rfl]
    exact hi
  | pause m id | resume m id | cancel m id =>
    obtain rfl := Option.some.inj h
    unfold TransferState.control
    split <;> exact hi
  | eventPumpStopped m =>
    obtain rfl := Option.some.inj h
    exact hi
  | call c choice =>
    simp only [step] at h
    split at h
    · exact leaseInv_call hi ‹_› hok h
    · cases h
  | worker i choice =>
    simp only [step] at h
    split at h
    · exact leaseInv_worker hi ‹_› hok h
    · cases h

theorem Worker.active_holding {w : Worker} (h : w.active = true) : w.pc.holding = true := by
  cases hpc : w.pc <;> simp_all [active, WorkerPc.holding]

/-- In every run in which retries and reapers touch a lease only when no task
of their transfer holds it: no two workers are in `run_transfer` for one key,
and an `enqueue` that reaches its lease section on the key of such a worker is
refused with `DestinationBusy`. -/
theorem one_worker_per_lease {s : TransferState} (h : machine.Reach IdleRetry Initial s) :
    (∀ (i j : Nat) (v w : Worker), s.workers[i]? = some v → s.workers[j]? = some w → v.active = true →
      w.active = true → v.key = w.key → i = j) ∧
    (∀ (i : Nat) (w : Worker), s.workers[i]? = some w → w.active = true →
      ∀ (c : Nat) (call : Call) request retries choice t, s.calls[c]? = some call →
      call.pc = .enqueueLease request retries w.key → step s (.call c choice) = some t →
      t = s.failCall c call .destinationBusy) := by
  have hi : LeaseInv s := h.invariant
    (by rintro s ⟨n, rfl⟩; exact leaseInv_new n) (fun _ _ _ hi hok hs => leaseInv_step hi hok hs)
  have held : ∀ (i : Nat) (w : Worker), s.workers[i]? = some w → w.active = true →
      s.holds (.worker i) = some (w.key, w.id) := by
    intro i w hw ha
    rw [holds_worker hw, if_pos (Worker.active_holding ha)]
  refine ⟨fun i j v w hv hw hav haw hk => ?_,
    fun i w hw ha c call request retries choice t hc hpc hs => ?_⟩
  · have hj := held j w hw haw
    rw [← hk] at hj
    exact Task.worker.inj (hi.unique _ _ v.key v.id w.id (held i v hv hav) hj)
  · have hl : s.leases w.key = some w.id := hi.owned _ _ _ (held i w hw ha)
    simp only [step, hc, hpc] at hs
    cases choice <;> simp only [callStep, hl, Option.isSome_some, ite_true, reduceCtorEq,
      Option.some.injEq] at hs
    exact hs.symm

/-- An upload of `/a` to `/b`. -/
def sampleRequest : TransferRequest := ⟨['/', 'a'], ['/', 'b'], .upload, true⟩

def sampleKey : Text := ['r', ':', '/', 'b']

/-- `enqueue` of the sample request, up to its queued worker. -/
def enqueueTrace : List Action :=
  .enqueue 0 sampleRequest 1 :: .call 0 (.key sampleKey) :: List.replicate 4 (.call 0 .go)

/-- `retry` of the sample transfer, up to its queued worker. -/
def retryTrace : List Action :=
  List.flatten [[.retry 0 ⟨0⟩], List.replicate 8 (.call 1 .go),
    [.call 1 (.key sampleKey), .call 1 .go, .call 1 .go]]

/-- The worker is in `run_transfer` for the sample key. -/
def TransferState.busy (s : TransferState) (i : Nat) : Bool :=
  s.workers[i]?.any fun w => w.active && decide (w.key = sampleKey)

theorem busy_iff {s : TransferState} {i : Nat} :
    s.busy i = true ↔ ∃ w, s.workers[i]? = some w ∧ w.active = true ∧ w.key = sampleKey := by
  simp [busy, Option.any_eq_true]

/-- The third call stands at the lease section with the sample key. -/
def TransferState.contends (s : TransferState) : Bool :=
  s.calls[2]?.any fun call => match call.pc with
    | .enqueueLease _ _ k => decide (k = sampleKey)
    | _ => false

/-- A cancelled transfer is retried after its worker released the lease; the
new worker runs, and an `enqueue` on its destination is refused. -/
theorem retried_transfer_excludes_enqueue :
    ∃ s, machine.Reach IdleRetry Initial s ∧ s.busy 1 = true ∧
      ∃ call, s.calls[2]? = some call ∧
        step s (.call 2 .go) = some (s.failCall 2 call .destinationBusy) := by
  obtain ⟨s, hs, hp⟩ := Machine.Reach.of_run machine IdleRetry (init_new fun _ => 2)
    (List.flatten [enqueueTrace,
      [.worker 0 .go, .worker 0 .go, .worker 0 (.outcome (.error .cancelled)), .worker 0 .go,
        .worker 0 .go, .worker 0 .go, .worker 0 .go], retryTrace,
      [.worker 1 .go, .worker 1 .go, .enqueue 0 sampleRequest 1, .call 2 (.key sampleKey)]])
    (fun s => s.busy 1 && s.contends) (by decide)
  obtain ⟨hb, hcon⟩ := Bool.and_eq_true_iff.mp hp
  obtain ⟨w, hw, ha, hk⟩ := busy_iff.mp hb
  simp only [contends, Option.any_eq_true] at hcon
  obtain ⟨call, hcall, hpc⟩ := hcon
  split at hpc
  · rename_i request retries k hpc'
    have hkey : k = w.key := (of_decide_eq_true hpc).trans hk.symm
    have hen : ∃ t, step s (.call 2 .go) = some t := by
      simp only [step, hcall, hpc', callStep]
      split <;> exact ⟨_, rfl⟩
    obtain ⟨t, ht⟩ := hen
    have e := (one_worker_per_lease hs).2 1 w hw ha 2 call request retries .go t hcall
      (hkey ▸ hpc') ht
    exact ⟨s, hs, hb, call, hcall, e ▸ ht⟩
  · cases hpc

/-- A retry while the first worker waits for its permit: two workers are in
`run_transfer` for one key. -/
theorem two_workers_of_one_transfer :
    ∃ s, machine.Reach Machine.free Initial s ∧ ∃ v w : Worker, s.workers[0]? = some v ∧
      s.workers[1]? = some w ∧ v.active = true ∧ w.active = true ∧ v.key = w.key := by
  obtain ⟨s, hs, hp⟩ := Machine.Reach.of_run machine Machine.free (init_new fun _ => 2)
    (List.flatten [enqueueTrace, retryTrace,
      [.worker 0 .go, .worker 0 .go, .worker 1 .go, .worker 1 .go]])
    (fun s => s.busy 0 && s.busy 1) (by decide)
  obtain ⟨h0, h1⟩ := Bool.and_eq_true_iff.mp hp
  obtain ⟨v, hv, hav, hkv⟩ := busy_iff.mp h0
  obtain ⟨w, hw, haw, hkw⟩ := busy_iff.mp h1
  exact ⟨s, hs, v, w, hv, hw, hav, haw, hkv.trans hkw.symm⟩

end KW.Transfer
