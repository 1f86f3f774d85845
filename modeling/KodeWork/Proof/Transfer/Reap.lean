import KodeWork.Proof.Transfer.Lease

/-!
# Which workers the maps reach

`pause`, `resume`, `cancel` and `retry` find a transfer through the maps
`controls` and `requests`. A finished worker removes its transfer from both after
a grace window, if the generation is still its own and nothing is running.
`retry` looks into both maps first and bumps the generation last, in
`spawn_worker`: a reaper that runs in between removes the entries, and the new
worker can be reached by no call (`live_worker_unreachable`). The same happens
when the reaper is past its checks as the new worker is spawned.

In every run in which a reaper removes an entry only while no worker of the
transfer is live and no call relies on that entry (`ReapsIdle`), every live
worker is in both maps (`live_worker_reachable`).
-/

namespace KW.Transfer

open TransferState

/-- The worker has not returned from `run_transfer`. -/
def WorkerPc.live : WorkerPc → Bool
  | .queued | .start | .attempt | .failed _ | .loadRetries _ | .storeRetries _ | .finish _ => true
  | _ => false

/-- The call has put its transfer into `controls` or found it there, and goes on
to spawn a worker. -/
def CallPc.reliesOnControls : CallPc → Bool
  | .insertRequest .. | .poll .. | .lastCheck _ | .resetCancelled _ | .resetPaused _ | .resetRetries _
  | .resetTransferred _ | .retryKey _ | .retryLease .. | .spawn .. => true
  | _ => false

/-- The same of `requests`. -/
def CallPc.reliesOnRequest : CallPc → Bool
  | .retryControls _ | .poll .. | .lastCheck _ | .resetCancelled _ | .resetPaused _ | .resetRetries _
  | .resetTransferred _ | .retryKey _ | .retryLease .. | .spawn .. => true
  | _ => false

/-- An `enqueue_internal` that has not put its request into `requests`. -/
def CallPc.entering : CallPc → Bool
  | .enqueueKey .. | .enqueueLease .. | .insertControls .. | .insertRequest .. | .rollbackControls _ => true
  | _ => false

namespace TransferState

def hasControls (s : TransferState) (m : Nat) (id : TransferId) : Bool := (s.managers m).controls id

def hasRequest (s : TransferState) (m : Nat) (id : TransferId) : Bool := ((s.managers m).requests id).isSome

/-- No worker of the transfer is live. -/
def idle (s : TransferState) (m : Nat) (id : TransferId) : Bool :=
  s.workers.all fun w => !(w.manager == m && w.id == id && w.pc.live)

/-- No call on the transfer stands at a place with `p`. -/
def noCall (s : TransferState) (m : Nat) (id : TransferId) (p : CallPc → Bool) : Bool :=
  s.calls.all fun call => !(call.manager == m && call.id == id && p call.pc)

end TransferState

/-- The worker is not about to remove an entry, or its transfer is idle and no
call relies on that entry. -/
def TransferState.reapsIdle (s : TransferState) (w : Worker) : Bool :=
  match w.pc with
  | .reapControls => s.idle w.manager w.id && s.noCall w.manager w.id CallPc.reliesOnControls
  | .reapRequests => s.idle w.manager w.id && s.noCall w.manager w.id CallPc.reliesOnRequest
  | _ => true

/-- A reaper removes an entry only when no worker of the transfer is live and no
call relies on the entry. -/
def ReapsIdle (s : TransferState) : Action → Prop
  | .worker i _ => ∀ w ∈ s.workers[i]?, s.reapsIdle w = true
  | _ => True

instance (s : TransferState) : ∀ a, Decidable (ReapsIdle s a)
  | .worker i _ => inferInstanceAs (Decidable (∀ w ∈ s.workers[i]?, s.reapsIdle w = true))
  | .enqueue .. | .retry .. | .pause .. | .resume .. | .cancel .. | .eventPumpStopped _ | .call .. =>
    .isTrue trivial

/-! ## What a step does to the maps -/

/-- What a step of the call numbered `c` does: it gets from `call.pc` to `pc'`. -/
structure CallSpec (s t : TransferState) (c : Nat) (call : Call) (pc' : CallPc) : Prop where
  calls : t.calls = s.calls.set c { call with pc := pc' }
  nextId : t.nextId = s.nextId
  workers : t.workers = s.workers ∨
    (call.pc.reliesOnControls = true ∧ call.pc.reliesOnRequest = true) ∧
      ∃ k g, t.workers = s.workers ++ [⟨call.manager, call.id, k, g, .queued⟩]
  controls : ∀ m id, t.hasControls m id = s.hasControls m id ∨
    (m = call.manager ∧ id = call.id) ∧ (t.hasControls m id = true ∨ call.pc.entering = true ∧
      pc'.reliesOnControls = false)
  requests : ∀ m id, t.hasRequest m id = s.hasRequest m id ∨
    (m = call.manager ∧ id = call.id) ∧ t.hasRequest m id = true ∧ call.pc.entering = true ∧
      pc'.entering = false
  relyControls : pc'.reliesOnControls = true →
    call.pc.reliesOnControls = true ∨ t.hasControls call.manager call.id = true
  relyRequest : pc'.reliesOnRequest = true →
    call.pc.reliesOnRequest = true ∨ t.hasRequest call.manager call.id = true
  entering : pc'.entering = true → call.pc.entering = true

/-- A step that leaves the maps and the workers as they are. -/
theorem CallSpec.go {s u : TransferState} (c : Nat) (call : Call) {pc' : CallPc}
    (hc : u.calls = s.calls) (hn : u.nextId = s.nextId) (hw : u.workers = s.workers)
    (hm : u.managers = s.managers)
    (hcontrols : pc'.reliesOnControls = true →
      call.pc.reliesOnControls = true ∨ s.hasControls call.manager call.id = true)
    (hrequest : pc'.reliesOnRequest = true →
      call.pc.reliesOnRequest = true ∨ s.hasRequest call.manager call.id = true)
    (he : pc'.entering = true → call.pc.entering = true) :
    CallSpec s (u.goCall c call pc') c call pc' where
  calls := by rw [goCall, hc]
  nextId := hn
  workers := .inl hw
  controls := fun m id => .inl (by simp only [hasControls, goCall, hm])
  requests := fun m id => .inl (by simp only [hasRequest, goCall, hm])
  relyControls := by simpa only [hasControls, goCall, hm] using hcontrols
  relyRequest := by simpa only [hasRequest, goCall, hm] using hrequest
  entering := he

section

variable (s : TransferState) (m : Nat) (f : TransferManager → TransferManager)

@[simp] theorem setManager_self : (s.setManager m f).managers m = f (s.managers m) :=
  Function.update_self _ _ _

theorem setManager_of_ne {m' : Nat} (h : m' ≠ m) : (s.setManager m f).managers m' = s.managers m' :=
  Function.update_of_ne h _ _

theorem hasControls_keep (hf : ∀ k, (f k).controls = k.controls) (m' : Nat) (id' : TransferId) :
    (s.setManager m f).hasControls m' id' = s.hasControls m' id' := by
  by_cases hm : m' = m
  · rw [hasControls, hm, setManager_self, hf]
    rfl
  · rw [hasControls, setManager_of_ne s m f hm]
    rfl

theorem hasRequest_keep (hf : ∀ k, (f k).requests = k.requests) (m' : Nat) (id' : TransferId) :
    (s.setManager m f).hasRequest m' id' = s.hasRequest m' id' := by
  by_cases hm : m' = m
  · rw [hasRequest, hm, setManager_self, hf]
    rfl
  · rw [hasRequest, setManager_of_ne s m f hm]
    rfl

/-- One entry of `controls` is set or removed. -/
theorem hasControls_update (id : TransferId) (b : Bool) (m' : Nat) (id' : TransferId) :
    (s.setManager m fun k => { k with controls := Function.update k.controls id b }).hasControls m' id' =
      s.hasControls m' id' ∨ m' = m ∧ id' = id := by
  by_cases hm : m' = m
  · by_cases hid : id' = id
    · exact .inr ⟨hm, hid⟩
    · refine .inl ?_
      rw [hasControls, hm, setManager_self]
      exact Function.update_of_ne hid _ _
  · exact .inl (by rw [hasControls, setManager_of_ne s m _ hm]; rfl)

theorem hasRequest_update (id : TransferId) (r : Option TransferRequest) (m' : Nat) (id' : TransferId) :
    (s.setManager m fun k => { k with requests := Function.update k.requests id r }).hasRequest m' id' =
      s.hasRequest m' id' ∨ m' = m ∧ id' = id := by
  by_cases hm : m' = m
  · by_cases hid : id' = id
    · exact .inr ⟨hm, hid⟩
    · refine .inl ?_
      rw [hasRequest, hm, setManager_self]
      exact congrArg Option.isSome (Function.update_of_ne hid _ _)
  · exact .inl (by rw [hasRequest, setManager_of_ne s m _ hm]; rfl)

end

theorem callStep_spec {s t : TransferState} {c : Nat} {call : Call} {choice : CallChoice}
    (h : s.callStep c call call.pc choice = some t) : ∃ pc', CallSpec s t c call pc' := by
  obtain ⟨m, id, pc⟩ := call
  cases pc with
  | enqueueKey request retries =>
    cases choice <;> simp only [callStep, reduceCtorEq, Option.some.injEq] at h <;> subst h
    · exact ⟨_, .go c _ rfl rfl rfl rfl (by rintro ⟨⟩) (by rintro ⟨⟩) fun _ => rfl⟩
    · exact ⟨_, .go c _ rfl rfl rfl rfl (by rintro ⟨⟩) (by rintro ⟨⟩) (by rintro ⟨⟩)⟩
  | enqueueLease request retries k =>
    cases choice <;> simp only [callStep, reduceCtorEq] at h
    split at h <;> cases h
    · exact ⟨_, .go c _ rfl rfl rfl rfl (by rintro ⟨⟩) (by rintro ⟨⟩) (by rintro ⟨⟩)⟩
    · exact ⟨_, .go c _ rfl rfl rfl rfl (by rintro ⟨⟩) (by rintro ⟨⟩) fun _ => rfl⟩
  | insertControls request retries k =>
    cases choice <;> simp only [callStep, reduceCtorEq, Option.some.injEq] at h <;> subst h
    · have hself : (((s.setControls id fun _ => .new retries).setManager m fun k =>
          { k with controls := Function.update k.controls id true }).hasControls m id) = true := by
        simp [hasControls]
      refine ⟨.insertRequest request k, rfl, rfl, .inl rfl, fun m' id' => ?_, fun m' id' => .inl ?_,
        fun _ => .inr hself, by rintro ⟨⟩, fun _ => rfl⟩
      · rcases hasControls_update (s.setControls id fun _ => .new retries) m id true m' id' with e | ⟨rfl, rfl⟩
        · exact .inl e
        · exact .inr ⟨⟨rfl, rfl⟩, .inl hself⟩
      · exact hasRequest_keep (s.setControls id fun _ => .new retries) m
          (fun k => { k with controls := Function.update k.controls id true }) (fun _ => rfl) m' id'
    · exact ⟨_, .go c _ rfl rfl rfl rfl (by rintro ⟨⟩) (by rintro ⟨⟩) (by rintro ⟨⟩)⟩
  | insertRequest request k =>
    cases choice <;> simp only [callStep, reduceCtorEq, Option.some.injEq] at h <;> subst h
    · have hself : (s.setManager m fun k =>
          { k with requests := Function.update k.requests id (some request) }).hasRequest m id = true := by
        simp [hasRequest]
      refine ⟨.spawn request k, rfl, rfl, .inl rfl, fun m' id' => .inl ?_, fun m' id' => ?_,
        fun _ => .inl rfl, fun _ => .inr hself, by rintro ⟨⟩⟩
      · exact hasControls_keep s m
          (fun k => { k with requests := Function.update k.requests id (some request) }) (fun _ => rfl) m' id'
      · rcases hasRequest_update s m id (some request) m' id' with e | ⟨rfl, rfl⟩
        · exact .inl e
        · exact .inr ⟨⟨rfl, rfl⟩, hself, rfl, rfl⟩
    · exact ⟨_, .go c _ rfl rfl rfl rfl (by rintro ⟨⟩) (by rintro ⟨⟩) fun _ => rfl⟩
  | rollbackControls k =>
    cases choice <;> simp only [callStep, reduceCtorEq, Option.some.injEq] at h
    subst h
    refine ⟨.rollbackLease k, rfl, rfl, .inl rfl, fun m' id' => ?_, fun m' id' => .inl ?_, by rintro ⟨⟩,
      by rintro ⟨⟩, by rintro ⟨⟩⟩
    · rcases hasControls_update s m id false m' id' with e | he
      · exact .inl e
      · exact .inr ⟨he, .inr ⟨rfl, rfl⟩⟩
    · exact hasRequest_keep s m (fun k => { k with controls := Function.update k.controls id false })
        (fun _ => rfl) m' id'
  | rollbackLease k =>
    cases choice <;> simp only [callStep, reduceCtorEq, Option.some.injEq] at h
    subst h
    exact ⟨_, .go c _ rfl rfl rfl rfl (by rintro ⟨⟩) (by rintro ⟨⟩) (by rintro ⟨⟩)⟩
  | retryRequest =>
    cases choice <;> simp only [callStep, reduceCtorEq] at h
    split at h <;> cases h
    · rename_i request hr
      exact ⟨_, .go c _ rfl rfl rfl rfl (by rintro ⟨⟩) (fun _ => .inr (by simp [hasRequest, hr])) (by rintro ⟨⟩)⟩
    · exact ⟨_, .go c _ rfl rfl rfl rfl (by rintro ⟨⟩) (by rintro ⟨⟩) (by rintro ⟨⟩)⟩
  | retryControls request =>
    cases choice <;> simp only [callStep, reduceCtorEq] at h
    split at h <;> cases h
    · rename_i hk
      exact ⟨_, .go c _ rfl rfl rfl rfl (fun _ => .inr hk) (fun _ => .inl rfl) (by rintro ⟨⟩)⟩
    · exact ⟨_, .go c _ rfl rfl rfl rfl (by rintro ⟨⟩) (by rintro ⟨⟩) (by rintro ⟨⟩)⟩
  | poll request n =>
    cases choice <;> simp only [callStep, reduceCtorEq] at h
    split at h <;> cases h <;>
      exact ⟨_, .go c _ rfl rfl rfl rfl (fun _ => .inl rfl) (fun _ => .inl rfl) (by rintro ⟨⟩)⟩
  | lastCheck request =>
    cases choice <;> simp only [callStep, reduceCtorEq] at h
    split at h <;> cases h
    · exact ⟨_, .go c _ rfl rfl rfl rfl (by rintro ⟨⟩) (by rintro ⟨⟩) (by rintro ⟨⟩)⟩
    · exact ⟨_, .go c _ rfl rfl rfl rfl (fun _ => .inl rfl) (fun _ => .inl rfl) (by rintro ⟨⟩)⟩
  | resetCancelled request | resetPaused request | resetRetries request | resetTransferred request =>
    cases choice <;> simp only [callStep, reduceCtorEq, Option.some.injEq] at h
    subst h
    exact ⟨_, .go c _ rfl rfl rfl rfl (fun _ => .inl rfl) (fun _ => .inl rfl) (by rintro ⟨⟩)⟩
  | retryKey request =>
    cases choice <;> simp only [callStep, reduceCtorEq, Option.some.injEq] at h <;> subst h
    · exact ⟨_, .go c _ rfl rfl rfl rfl (fun _ => .inl rfl) (fun _ => .inl rfl) (by rintro ⟨⟩)⟩
    · exact ⟨_, .go c _ rfl rfl rfl rfl (by rintro ⟨⟩) (by rintro ⟨⟩) (by rintro ⟨⟩)⟩
  | retryLease request k =>
    cases choice <;> simp only [callStep, reduceCtorEq] at h
    split at h <;> cases h
    · exact ⟨_, .go c _ rfl rfl rfl rfl (by rintro ⟨⟩) (by rintro ⟨⟩) (by rintro ⟨⟩)⟩
    · exact ⟨_, .go c _ rfl rfl rfl rfl (fun _ => .inl rfl) (fun _ => .inl rfl) (by rintro ⟨⟩)⟩
  | spawn request k =>
    cases choice <;> simp only [callStep, reduceCtorEq, Option.some.injEq] at h
    subst h
    exact ⟨_, rfl, rfl, .inr ⟨⟨rfl, rfl⟩, k, _, rfl⟩, fun _ _ => .inl rfl, fun _ _ => .inl rfl,
      by rintro ⟨⟩, by rintro ⟨⟩, by rintro ⟨⟩⟩
  | returned result => cases choice <;> simp only [callStep, reduceCtorEq] at h

/-- What a step of the worker numbered `i` does: it gets from `w.pc` to `pc'`. -/
structure WorkerSpec (s t : TransferState) (i : Nat) (w : Worker) (pc' : WorkerPc) : Prop where
  workers : t.workers = s.workers.set i { w with pc := pc' }
  calls : t.calls = s.calls
  nextId : t.nextId = s.nextId
  live : pc'.live = true → w.pc.live = true
  controls : ∀ m id, t.hasControls m id = s.hasControls m id ∨
    (m = w.manager ∧ id = w.id) ∧ w.pc = .reapControls
  requests : ∀ m id, t.hasRequest m id = s.hasRequest m id ∨
    (m = w.manager ∧ id = w.id) ∧ w.pc = .reapRequests ∧ t.hasRequest m id = false

/-- A step that leaves the maps as they are. -/
theorem WorkerSpec.go {s u : TransferState} (i : Nat) (w : Worker) {pc' : WorkerPc}
    (hw : u.workers = s.workers) (hc : u.calls = s.calls) (hn : u.nextId = s.nextId)
    (hcontrols : ∀ m id, u.hasControls m id = s.hasControls m id)
    (hrequests : ∀ m id, u.hasRequest m id = s.hasRequest m id)
    (hl : pc'.live = true → w.pc.live = true) : WorkerSpec s (u.goWorker i w pc') i w pc' where
  workers := by rw [goWorker, hw]
  calls := hc
  nextId := hn
  live := hl
  controls := fun m id => .inl (hcontrols m id)
  requests := fun m id => .inl (hrequests m id)

theorem workerStep_spec {s t : TransferState} {i : Nat} {w : Worker} {choice : WorkerChoice}
    (h : s.workerStep i w w.pc choice = some t) : ∃ pc', WorkerSpec s t i w pc' := by
  obtain ⟨m, id, key, g, pc⟩ := w
  cases pc with
  | queued =>
    cases choice <;> simp only [workerStep, reduceCtorEq] at h
    split at h <;> cases h
    exact ⟨_, .go i _ rfl rfl rfl (hasControls_keep s m _ fun _ => rfl) (hasRequest_keep s m _ fun _ => rfl)
      fun _ => rfl⟩
  | dropPermit =>
    cases choice <;> simp only [workerStep, reduceCtorEq, Option.some.injEq] at h
    subst h
    exact ⟨_, .go i _ rfl rfl rfl (hasControls_keep s m _ fun _ => rfl) (hasRequest_keep s m _ fun _ => rfl)
      (by rintro ⟨⟩)⟩
  | attempt =>
    cases choice with
    | go => simp only [workerStep, reduceCtorEq] at h
    | outcome r =>
      cases r <;> simp only [workerStep, Option.some.injEq] at h <;> subst h <;>
        exact ⟨_, .go i _ rfl rfl rfl (fun _ _ => rfl) (fun _ _ => rfl) fun _ => rfl⟩
  | failed e =>
    cases choice <;> simp only [workerStep, reduceCtorEq] at h
    split at h
    · cases h
      exact ⟨_, .go i _ rfl rfl rfl (fun _ _ => rfl) (fun _ _ => rfl) fun _ => rfl⟩
    · split at h <;> cases h <;>
        exact ⟨_, .go i _ rfl rfl rfl (fun _ _ => rfl) (fun _ _ => rfl) fun _ => rfl⟩
  | loadRetries e =>
    cases choice <;> simp only [workerStep, reduceCtorEq] at h
    split at h <;> cases h <;>
      exact ⟨_, .go i _ rfl rfl rfl (fun _ _ => rfl) (fun _ _ => rfl) fun _ => rfl⟩
  | start | storeRetries n =>
    cases choice <;> simp only [workerStep, reduceCtorEq, Option.some.injEq] at h
    subst h
    exact ⟨_, .go i _ rfl rfl rfl (fun _ _ => rfl) (fun _ _ => rfl) fun _ => rfl⟩
  | finish outcome | release | reapRelease =>
    cases choice <;> simp only [workerStep, reduceCtorEq, Option.some.injEq] at h
    subst h
    exact ⟨_, .go i _ rfl rfl rfl (fun _ _ => rfl) (fun _ _ => rfl) (by rintro ⟨⟩)⟩
  | reapGeneration | reapRunning =>
    cases choice <;> simp only [workerStep, reduceCtorEq] at h
    split at h <;> cases h <;>
      exact ⟨_, .go i _ rfl rfl rfl (fun _ _ => rfl) (fun _ _ => rfl) (by rintro ⟨⟩)⟩
  | reapControls =>
    cases choice <;> simp only [workerStep, reduceCtorEq, Option.some.injEq] at h
    subst h
    refine ⟨.reapRequests, rfl, rfl, rfl, by rintro ⟨⟩, fun m' id' => ?_, fun m' id' => .inl ?_⟩
    · exact (hasControls_update s m id false m' id').imp_right fun he => ⟨he, rfl⟩
    · exact hasRequest_keep s m (fun k => { k with controls := Function.update k.controls id false })
        (fun _ => rfl) m' id'
  | reapRequests =>
    cases choice <;> simp only [workerStep, reduceCtorEq, Option.some.injEq] at h
    subst h
    have hself : (s.setManager m fun k =>
        { k with requests := Function.update k.requests id none }).hasRequest m id = false := by
      simp [hasRequest]
    refine ⟨.reapRelease, rfl, rfl, rfl, by rintro ⟨⟩, fun m' id' => .inl ?_, fun m' id' => ?_⟩
    · exact hasControls_keep s m (fun k => { k with requests := Function.update k.requests id none })
        (fun _ => rfl) m' id'
    · rcases hasRequest_update s m id none m' id' with e | ⟨rfl, rfl⟩
      · exact .inl e
      · exact .inr ⟨⟨rfl, rfl⟩, rfl, hself⟩
  | ended => cases choice <;> simp only [workerStep, reduceCtorEq] at h

/-! ## The invariant -/

/-- Live workers, and calls that go on to spawn one, are in the maps. An id
belongs to one `enqueue_internal` until its request is in the map. -/
structure EntryInv (s : TransferState) : Prop where
  live : ∀ w ∈ s.workers, w.pc.live = true →
    s.hasControls w.manager w.id = true ∧ s.hasRequest w.manager w.id = true
  callControls : ∀ call ∈ s.calls, call.pc.reliesOnControls = true →
    s.hasControls call.manager call.id = true
  callRequest : ∀ call ∈ s.calls, call.pc.reliesOnRequest = true →
    s.hasRequest call.manager call.id = true
  drawnRequest : ∀ m id, s.hasRequest m id = true → id.uuid < s.nextId
  drawnWorker : ∀ w ∈ s.workers, w.id.uuid < s.nextId
  drawnCall : ∀ call ∈ s.calls, call.pc.entering = true → call.id.uuid < s.nextId
  unentered : ∀ call ∈ s.calls, call.pc.entering = true →
    (∀ m, s.hasRequest m call.id = false) ∧ ∀ w ∈ s.workers, w.id ≠ call.id
  alone : ∀ (c c' : Nat) (call call' : Call), s.calls[c]? = some call → s.calls[c']? = some call' →
    call.pc.entering = true → call'.pc.entering = true → call.id = call'.id → c = c'

theorem entryInv_new (maxConcurrency : Nat → Nat) : EntryInv (.new maxConcurrency) where
  live := by simp [TransferState.new]
  callControls := by simp [TransferState.new]
  callRequest := by simp [TransferState.new]
  drawnRequest := by simp [TransferState.new, TransferManager.new, hasRequest]
  drawnWorker := by simp [TransferState.new]
  drawnCall := by simp [TransferState.new]
  unentered := by simp [TransferState.new]
  alone := by simp [TransferState.new]

theorem idle_iff {s : TransferState} {m : Nat} {id : TransferId} : s.idle m id = true ↔
    ∀ w ∈ s.workers, w.manager = m → w.id = id → w.pc.live = false := by
  simp [idle, or_iff_not_imp_left]

theorem noCall_iff {s : TransferState} {m : Nat} {id : TransferId} {p : CallPc → Bool} :
    s.noCall m id p = true ↔ ∀ call ∈ s.calls, call.manager = m → call.id = id → p call.pc = false := by
  simp [noCall, or_iff_not_imp_left]

/-- A call that has found or put an entry in a map is past the entering, or it is
about to put its request in. -/
theorem CallPc.entering_or_relies {pc : CallPc} (h : pc.reliesOnControls = true) :
    pc.entering = true ∨ pc.reliesOnRequest = true := by
  cases pc <;> first | exact .inl rfl | exact .inr rfl | cases h

theorem EntryInv.not_entering {s : TransferState} (hinv : EntryInv s) {x : Call} {m : Nat}
    (hx : x ∈ s.calls) (he : x.pc.entering = true) (hr : s.hasRequest m x.id = true) : False := by
  rw [(hinv.unentered x hx he).1 m] at hr
  cases hr

namespace CallSpec

variable {s t : TransferState} {c : Nat} {call : Call} {pc' : CallPc}

/-- A call after the step is the one that moved, or was there. -/
theorem moved (h : CallSpec s t c call pc') {j : Nat} {x : Call}
    (hj : t.calls[j]? = some x) : (j = c ∧ x = { call with pc := pc' }) ∨ (j ≠ c ∧ s.calls[j]? = some x) := by
  rw [h.calls] at hj
  exact entry_of_set hj

theorem keepsRequest (h : CallSpec s t c call pc') {m : Nat} {id : TransferId}
    (hr : s.hasRequest m id = true) : t.hasRequest m id = true := by
  rcases h.requests m id with e | ⟨-, e, -⟩
  · rw [e, hr]
  · exact e

/-- An entry of `controls` is removed only while its transfer is not entered. -/
theorem keepsControls (h : CallSpec s t c call pc') {m : Nat} {id : TransferId}
    (hk : s.hasControls m id = true) (hn : id = call.id → call.pc.entering = true →
      pc'.reliesOnControls = true) : t.hasControls m id = true := by
  rcases h.controls m id with e | ⟨⟨-, rfl⟩, e | ⟨he, hr⟩⟩
  · rw [e, hk]
  · exact e
  · rw [hn rfl he] at hr
    cases hr

/-- A worker after the step was there, or the call has spawned it. -/
theorem spawned (h : CallSpec s t c call pc') {w : Worker} (hw : w ∈ t.workers) :
    w ∈ s.workers ∨ (w.manager = call.manager ∧ w.id = call.id) ∧
      call.pc.reliesOnControls = true ∧ call.pc.reliesOnRequest = true := by
  rcases h.workers with e | ⟨hrely, k, g, e⟩ <;> rw [e] at hw
  · exact .inl hw
  · rcases List.mem_append.mp hw with hw | hw
    · exact .inl hw
    · obtain rfl := List.mem_singleton.mp hw
      exact .inr ⟨⟨rfl, rfl⟩, hrely⟩

/-- A call that is entering after the step was entering before it. -/
theorem entering_before (h : CallSpec s t c call pc') (hc : s.calls[c]? = some call) {j : Nat} {x : Call}
    (hj : t.calls[j]? = some x) (he : x.pc.entering = true) :
    ∃ y, s.calls[j]? = some y ∧ y.pc.entering = true ∧ y.id = x.id := by
  rcases h.moved hj with ⟨rfl, rfl⟩ | ⟨-, hj'⟩
  · exact ⟨call, hc, h.entering he, rfl⟩
  · exact ⟨x, hj', he, rfl⟩

theorem live (h : CallSpec s t c call pc') (hc : s.calls[c]? = some call) (hinv : EntryInv s) {w : Worker}
    (hw : w ∈ t.workers) (hl : w.pc.live = true) :
    t.hasControls w.manager w.id = true ∧ t.hasRequest w.manager w.id = true := by
  have hcall : call ∈ s.calls := List.mem_of_getElem? hc
  rcases h.spawned hw with hw' | ⟨⟨hm, hid⟩, hrc, hrr⟩
  · obtain ⟨hcontrols, hrequest⟩ := hinv.live w hw' hl
    refine ⟨h.keepsControls hcontrols fun hid he => ?_, h.keepsRequest hrequest⟩
    exact absurd hid ((hinv.unentered call hcall he).2 w hw')
  · rw [hm, hid]
    refine ⟨h.keepsControls (hinv.callControls call hcall hrc) fun _ he => ?_,
      h.keepsRequest (hinv.callRequest call hcall hrr)⟩
    exact (hinv.not_entering hcall he (hinv.callRequest call hcall hrr)).elim

theorem callControls (h : CallSpec s t c call pc') (hc : s.calls[c]? = some call) (hinv : EntryInv s)
    {x : Call} (hx : x ∈ t.calls) (hrel : x.pc.reliesOnControls = true) :
    t.hasControls x.manager x.id = true := by
  have hcall : call ∈ s.calls := List.mem_of_getElem? hc
  obtain ⟨j, hj⟩ := List.mem_iff_getElem?.mp hx
  rcases h.moved hj with ⟨-, rfl⟩ | ⟨hne, hj'⟩
  · rcases h.relyControls hrel with hold | hnew
    · exact h.keepsControls (hinv.callControls call hcall hold) fun _ _ => hrel
    · exact hnew
  · have hx' := List.mem_of_getElem? hj'
    refine h.keepsControls (hinv.callControls x hx' hrel) fun hid he => ?_
    -- the call that moves rolls back its entry, so no other call knows the id
    rcases CallPc.entering_or_relies hrel with hex | hrr
    · exact absurd (hinv.alone j c x call hj' hc hex he hid) hne
    · exact (hinv.not_entering hcall he (hid ▸ hinv.callRequest x hx' hrr)).elim

theorem callRequest (h : CallSpec s t c call pc') (hc : s.calls[c]? = some call) (hinv : EntryInv s)
    {x : Call} (hx : x ∈ t.calls) (hrel : x.pc.reliesOnRequest = true) :
    t.hasRequest x.manager x.id = true := by
  obtain ⟨j, hj⟩ := List.mem_iff_getElem?.mp hx
  rcases h.moved hj with ⟨-, rfl⟩ | ⟨-, hj'⟩
  · rcases h.relyRequest hrel with hold | hnew
    · exact h.keepsRequest (hinv.callRequest call (List.mem_of_getElem? hc) hold)
    · exact hnew
  · exact h.keepsRequest (hinv.callRequest x (List.mem_of_getElem? hj') hrel)

theorem unentered (h : CallSpec s t c call pc') (hc : s.calls[c]? = some call) (hinv : EntryInv s)
    {x : Call} (hx : x ∈ t.calls) (he : x.pc.entering = true) :
    (∀ m, t.hasRequest m x.id = false) ∧ ∀ w ∈ t.workers, w.id ≠ x.id := by
  have hcall : call ∈ s.calls := List.mem_of_getElem? hc
  obtain ⟨j, hj⟩ := List.mem_iff_getElem?.mp hx
  obtain ⟨y, hy, hye, hyid⟩ := h.entering_before hc hj he
  obtain ⟨hreq, hwork⟩ := hinv.unentered y (List.mem_of_getElem? hy) hye
  rw [hyid] at hreq hwork
  refine ⟨fun m => ?_, fun w hw hid => ?_⟩
  · rcases h.requests m x.id with e | ⟨⟨-, hid⟩, -, hce, hout⟩
    · exact e.trans (hreq m)
    · -- the request goes into the map in this step, so the call is past the entering
      obtain rfl := hinv.alone j c y call hy hc hye hce (hyid.trans hid)
      rcases h.moved hj with ⟨-, rfl⟩ | ⟨hne, -⟩
      · exact absurd (hout.symm.trans he) Bool.noConfusion
      · exact absurd rfl hne
  · rcases h.spawned hw with hw' | ⟨⟨-, hwid⟩, -, hrr⟩
    · exact hwork w hw' hid
    · have hpresent := hinv.callRequest call hcall hrr
      rw [← hwid, hid, hreq] at hpresent
      cases hpresent

theorem entryInv (h : CallSpec s t c call pc') (hc : s.calls[c]? = some call) (hinv : EntryInv s) :
    EntryInv t where
  live := fun w hw hl => h.live hc hinv hw hl
  callControls := fun x hx hrel => h.callControls hc hinv hx hrel
  callRequest := fun x hx hrel => h.callRequest hc hinv hx hrel
  drawnRequest := by
    intro m id hr
    rw [h.nextId]
    rcases h.requests m id with e | ⟨⟨-, rfl⟩, -, he, -⟩
    · exact hinv.drawnRequest m id (e ▸ hr)
    · exact hinv.drawnCall call (List.mem_of_getElem? hc) he
  drawnWorker := by
    intro w hw
    rw [h.nextId]
    rcases h.spawned hw with hw' | ⟨⟨-, hid⟩, -, hrr⟩
    · exact hinv.drawnWorker w hw'
    · rw [hid]
      exact hinv.drawnRequest _ _ (hinv.callRequest call (List.mem_of_getElem? hc) hrr)
  drawnCall := by
    intro x hx he
    rw [h.nextId]
    obtain ⟨j, hj⟩ := List.mem_iff_getElem?.mp hx
    obtain ⟨y, hy, hye, hyid⟩ := h.entering_before hc hj he
    exact hyid ▸ hinv.drawnCall y (List.mem_of_getElem? hy) hye
  unentered := fun x hx he => h.unentered hc hinv hx he
  alone := by
    intro j j' x x' hj hj' he he' hid
    obtain ⟨y, hy, hye, hyid⟩ := h.entering_before hc hj he
    obtain ⟨y', hy', hye', hyid'⟩ := h.entering_before hc hj' he'
    exact hinv.alone j j' y y' hy hy' hye hye' (hyid.trans (hid.trans hyid'.symm))

end CallSpec

namespace WorkerSpec

variable {s t : TransferState} {i : Nat} {w : Worker} {pc' : WorkerPc}

/-- A worker after the step was there, at a place that was live if this one is. -/
theorem before (h : WorkerSpec s t i w pc') (hi : s.workers[i]? = some w) {x : Worker} (hx : x ∈ t.workers) :
    ∃ y ∈ s.workers, (y.manager = x.manager ∧ y.id = x.id) ∧ (x.pc.live = true → y.pc.live = true) := by
  rcases List.mem_or_eq_of_mem_set (h.workers ▸ hx) with hx' | rfl
  · exact ⟨x, hx', ⟨rfl, rfl⟩, id⟩
  · exact ⟨w, List.mem_of_getElem? hi, ⟨rfl, rfl⟩, h.live⟩

theorem entryInv (h : WorkerSpec s t i w pc') (hi : s.workers[i]? = some w) (hinv : EntryInv s)
    {choice : WorkerChoice} (hok : ReapsIdle s (.worker i choice)) : EntryInv t := by
  have hreap : w.pc = .reapControls → s.idle w.manager w.id = true ∧
      s.noCall w.manager w.id CallPc.reliesOnControls = true := by
    intro hpc
    simpa [reapsIdle, hpc] using hok w hi
  have hreap' : w.pc = .reapRequests → s.idle w.manager w.id = true ∧
      s.noCall w.manager w.id CallPc.reliesOnRequest = true := by
    intro hpc
    simpa [reapsIdle, hpc] using hok w hi
  have hless : ∀ {m id}, t.hasRequest m id = true → s.hasRequest m id = true := by
    intro m id hr
    rcases h.requests m id with e | ⟨-, -, e⟩ <;> rw [e] at hr
    · exact hr
    · cases hr
  refine ⟨fun x hx hl => ?_, fun x hx hrel => ?_, fun x hx hrel => ?_, fun m id hr => ?_, fun x hx => ?_,
    ?_, fun x hx he => ⟨fun m => ?_, fun y hy => ?_⟩, ?_⟩
  · obtain ⟨y, hy, ⟨hm, hid⟩, hlive⟩ := h.before hi hx
    obtain ⟨hcontrols, hrequest⟩ := hinv.live y hy (hlive hl)
    rw [hm, hid] at hcontrols hrequest
    constructor
    · rcases h.controls x.manager x.id with e | ⟨⟨hm', hid'⟩, hpc⟩
      · rw [e, hcontrols]
      · have hf := idle_iff.mp (hreap hpc).1 y hy (hm.trans hm') (hid.trans hid')
        exact absurd (hf.symm.trans (hlive hl)) Bool.noConfusion
    · rcases h.requests x.manager x.id with e | ⟨⟨hm', hid'⟩, hpc, -⟩
      · rw [e, hrequest]
      · have hf := idle_iff.mp (hreap' hpc).1 y hy (hm.trans hm') (hid.trans hid')
        exact absurd (hf.symm.trans (hlive hl)) Bool.noConfusion
  · rw [h.calls] at hx
    rcases h.controls x.manager x.id with e | ⟨⟨hm', hid'⟩, hpc⟩
    · rw [e, hinv.callControls x hx hrel]
    · exact absurd ((noCall_iff.mp (hreap hpc).2 x hx hm' hid').symm.trans hrel) Bool.noConfusion
  · rw [h.calls] at hx
    rcases h.requests x.manager x.id with e | ⟨⟨hm', hid'⟩, hpc, -⟩
    · rw [e, hinv.callRequest x hx hrel]
    · exact absurd ((noCall_iff.mp (hreap' hpc).2 x hx hm' hid').symm.trans hrel) Bool.noConfusion
  · rw [h.nextId]
    exact hinv.drawnRequest m id (hless hr)
  · rw [h.nextId]
    obtain ⟨y, hy, ⟨-, hid⟩, -⟩ := h.before hi hx
    exact hid ▸ hinv.drawnWorker y hy
  · rw [h.nextId, h.calls]
    exact hinv.drawnCall
  · rw [h.calls] at hx
    by_contra hr
    exact hinv.not_entering hx he (hless (eq_true_of_ne_false hr))
  · rw [h.calls] at hx
    obtain ⟨z, hz, ⟨-, hid⟩, -⟩ := h.before hi hy
    exact hid ▸ (hinv.unentered x hx he).2 z hz
  · rw [h.calls]
    exact hinv.alone

end WorkerSpec

/-- A step that changes neither the tasks nor the maps. -/
theorem EntryInv.congr {s t : TransferState} (hinv : EntryInv s) (hw : t.workers = s.workers)
    (hc : t.calls = s.calls) (hn : t.nextId = s.nextId)
    (hcontrols : ∀ m id, t.hasControls m id = s.hasControls m id)
    (hrequests : ∀ m id, t.hasRequest m id = s.hasRequest m id) : EntryInv t := by
  obtain ⟨h₁, h₂, h₃, h₄, h₅, h₆, h₇, h₈⟩ := hinv
  constructor <;> simp only [hw, hc, hn, hcontrols, hrequests] <;> assumption

/-- A new call that relies on nothing; if it is entering, its id was just drawn. -/
theorem EntryInv.newCall {s : TransferState} (hinv : EntryInv s) (call : Call) {n : Nat}
    (hn : s.nextId ≤ n) (hc : call.pc.reliesOnControls = false) (hr : call.pc.reliesOnRequest = false)
    (he : call.pc.entering = true → call.id.uuid = s.nextId ∧ s.nextId < n) :
    EntryInv { s with calls := s.calls ++ [call], nextId := n } := by
  have hmem : ∀ {x}, x ∈ s.calls ++ [call] → x ∈ s.calls ∨ x = call := by
    intro x hx
    rcases List.mem_append.mp hx with hx | hx
    · exact .inl hx
    · exact .inr (List.mem_singleton.mp hx)
  refine ⟨hinv.live, fun x hx hrel => ?_, fun x hx hrel => ?_,
    fun m id h => Nat.lt_of_lt_of_le (hinv.drawnRequest m id h) hn,
    fun w hw => Nat.lt_of_lt_of_le (hinv.drawnWorker w hw) hn, fun x hx hxe => ?_, fun x hx hxe => ?_, ?_⟩
  · rcases hmem hx with hx | rfl
    · exact hinv.callControls x hx hrel
    · exact absurd (hc.symm.trans hrel) Bool.noConfusion
  · rcases hmem hx with hx | rfl
    · exact hinv.callRequest x hx hrel
    · exact absurd (hr.symm.trans hrel) Bool.noConfusion
  · rcases hmem hx with hx | rfl
    · exact Nat.lt_of_lt_of_le (hinv.drawnCall x hx hxe) hn
    · rw [(he hxe).1]
      exact (he hxe).2
  · rcases hmem hx with hx | rfl
    · exact hinv.unentered x hx hxe
    · -- no task and no map knows the id
      obtain ⟨hid, -⟩ := he hxe
      refine ⟨fun m => ?_, fun w hw e => ?_⟩
      · by_contra h
        have hlt := hinv.drawnRequest m x.id (eq_true_of_ne_false h)
        omega
      · have hlt := hinv.drawnWorker w hw
        rw [e] at hlt
        omega
  · intro j j' x x' hj hj' hxe hxe' hid
    have old : ∀ {j : Nat} {x : Call}, (s.calls ++ [call])[j]? = some x → s.calls[j]? = some x ∨
        j = s.calls.length ∧ x = call := by
      intro j x hj
      rw [List.getElem?_append] at hj
      split at hj
      · exact .inl hj
      · obtain ⟨hlt, hx⟩ := List.getElem?_eq_some_iff.mp hj
        simp only [List.length_singleton] at hlt
        refine .inr ⟨by omega, ?_⟩
        rw [← hx]
        simp
    have fresh : ∀ {j : Nat} {x : Call}, s.calls[j]? = some x → x.pc.entering = true → call.pc.entering = true →
        x.id ≠ call.id := by
      intro j x hj hxe hce e
      have hlt := hinv.drawnCall x (List.mem_of_getElem? hj) hxe
      rw [e, (he hce).1] at hlt
      exact Nat.lt_irrefl _ hlt
    rcases old hj with hk | ⟨rfl, rfl⟩ <;> rcases old hj' with hk' | ⟨rfl, rfl⟩
    · exact hinv.alone j j' x x' hk hk' hxe hxe' hid
    · exact absurd hid (fresh hk hxe hxe')
    · exact absurd hid.symm (fresh hk' hxe' hxe)
    · rfl

theorem entryInv_control {s : TransferState} (hinv : EntryInv s) (m : Nat) (id : TransferId)
    (f : TransferControls → TransferControls) : EntryInv (s.control m id f) := by
  unfold TransferState.control
  split
  · exact hinv.congr rfl rfl rfl (fun _ _ => rfl) fun _ _ => rfl
  · exact hinv

theorem entryInv_step {s t : TransferState} {a : Action} (hinv : EntryInv s) (hok : ReapsIdle s a)
    (h : step s a = some t) : EntryInv t := by
  cases a with
  | enqueue m request retries =>
    cases h
    unfold TransferState.enqueue
    split
    · exact hinv.newCall ⟨m, ⟨s.nextId⟩, _⟩ (Nat.le_refl _) rfl rfl (by rintro ⟨⟩)
    · exact hinv.newCall ⟨m, ⟨s.nextId⟩, _⟩ (Nat.le_succ _) rfl rfl fun _ => ⟨rfl, Nat.lt_succ_self _⟩
  | retry m id =>
    cases h
    exact hinv.newCall ⟨m, id, .retryRequest⟩ (Nat.le_refl _) rfl rfl (by rintro ⟨⟩)
  | pause m id | resume m id | cancel m id =>
    cases h
    exact entryInv_control hinv m id _
  | eventPumpStopped m =>
    cases h
    exact hinv.congr rfl rfl rfl (hasControls_keep s m _ fun _ => rfl) (hasRequest_keep s m _ fun _ => rfl)
  | call c choice =>
    simp only [step] at h
    split at h
    · obtain ⟨pc', hspec⟩ := callStep_spec h
      exact hspec.entryInv ‹_› hinv
    · cases h
  | worker i choice =>
    simp only [step] at h
    split at h
    · obtain ⟨pc', hspec⟩ := workerStep_spec h
      exact hspec.entryInv ‹_› hinv hok
    · cases h

/-- In every run in which reapers remove entries of idle transfers only, every
live worker is in both maps of its manager. -/
theorem live_worker_reachable {s : TransferState} (hr : machine.Reach ReapsIdle Initial s) {w : Worker}
    (hw : w ∈ s.workers) (hl : w.pc.live = true) :
    (s.managers w.manager).controls w.id = true ∧
      ((s.managers w.manager).requests w.id).isSome = true := by
  have hinv : EntryInv s := by
    refine hr.invariant ?_ fun _ _ _ hinv hok hs => entryInv_step hinv hok hs
    rintro _ ⟨n, rfl⟩
    exact entryInv_new n
  exact hinv.live w hw hl

/-! ## Traces -/

/-- The worker of the sample transfer is cancelled and sleeps before it reaps. -/
def finishedTrace : List Action :=
  List.flatten [enqueueTrace, [.worker 0 .go, .worker 0 .go, .worker 0 (.outcome (.error .cancelled))],
    List.replicate 4 (.worker 0 .go)]

/-- The worker numbered `i` is live and belongs to the sample transfer. -/
def TransferState.liveSample (s : TransferState) (i : Nat) : Bool :=
  s.workers[i]?.any fun w => w.pc.live && (w.manager == 0 && w.id == ⟨0⟩)

theorem liveSample_iff {s : TransferState} {i : Nat} : s.liveSample i = true ↔
    ∃ w, s.workers[i]? = some w ∧ w.pc.live = true ∧ w.manager = 0 ∧ w.id = ⟨0⟩ := by
  simp [liveSample, Option.any_eq_true]

/-- A retry within the grace window: the reaper of the first worker finds the
generation bumped, and the second worker can be reached. -/
theorem retried_worker_reachable :
    ∃ s, machine.Reach ReapsIdle Initial s ∧ s.liveSample 1 = true ∧
      (s.managers 0).controls ⟨0⟩ = true ∧ ((s.managers 0).requests ⟨0⟩).isSome = true := by
  obtain ⟨s, hs, hp⟩ := Machine.Reach.of_run machine ReapsIdle (init_new fun _ => 2)
    (List.flatten [finishedTrace, retryTrace, [.worker 0 .go, .worker 1 .go, .worker 1 .go]])
    (fun s => s.liveSample 1) (by decide)
  obtain ⟨w, hw, hl, hm, hid⟩ := liveSample_iff.mp hp
  have hreach := live_worker_reachable hs (List.mem_of_getElem? hw) hl
  rw [hm, hid] at hreach
  exact ⟨s, hs, hp, hreach⟩

/-- The reaper of the first worker runs after the retry has looked into the
maps, and before it spawns the second worker. -/
theorem live_worker_unreachable :
    ∃ s, machine.Reach Machine.free Initial s ∧ (∃ w ∈ s.workers, w.pc.live = true ∧ w.manager = 0 ∧
      w.id = ⟨0⟩) ∧ (s.managers 0).controls ⟨0⟩ = false ∧ (s.managers 0).requests ⟨0⟩ = none := by
  obtain ⟨s, hs, hp⟩ := Machine.Reach.of_run machine Machine.free (init_new fun _ => 2)
    (List.flatten [finishedTrace, retryTrace.take 3, List.replicate 5 (.worker 0 .go), retryTrace.drop 3])
    (fun s => s.liveSample 1 && (!(s.managers 0).controls ⟨0⟩ && ((s.managers 0).requests ⟨0⟩).isNone))
    (by decide)
  simp only [Bool.and_eq_true, Bool.not_eq_true', Option.isNone_iff_eq_none] at hp
  obtain ⟨w, hw, hl, hm, hid⟩ := liveSample_iff.mp hp.1
  exact ⟨s, hs, ⟨w, List.mem_of_getElem? hw, hl, hm, hid⟩, hp.2⟩

end KW.Transfer
