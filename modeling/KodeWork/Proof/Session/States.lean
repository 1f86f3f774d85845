import KodeWork.Proof.Session.Guard

/-!
# The states a guarded call goes through

Beside the guard the state changes only between the states a session rests in
(`mark_resting`, `pump_resting`): a connect call that has set `ResolvingAddress`
keeps its state until it sets the next one. `Expected` says which states the
session can be in at each place of a guarded call; from it every `set_state` of
the call works (`sets_ok`), and the call ends in the state that its result says
(`guarded_calls_end_as_returned`).
-/

namespace KW.Session

open ActiveSession

/-- The states a session rests in when no connect call has set one of its own. -/
def resting : ConnectionState → Bool
  | .disconnected | .waitingForCredential | .ready | .reconnecting | .failed => true
  | .resolvingAddress | .connecting | .verifyingHostKey | .authenticating => false

/-- The states the session can be in while the guarded call, if there is one,
stands at its next step. -/
def Expected (op : Option Op) (state : ConnectionState) : Prop :=
  match op with
  | none | some (.connect .resolve) | some (.disconnect _) => resting state = true
  | some (.connect .candidates) | some (.connect (.reserve _)) | some (.connect (.jump ..)) =>
    state = .resolvingAddress
  | some (.connect (.attempt ..)) | some (.connect (.setFailed _)) =>
    state = .resolvingAddress ∨ state = .connecting
  | some (.connect _) => state = .connecting

/-- The state that the next step of a guarded call sets. -/
def Op.sets : Op → Option ConnectionState
  | .connect .resolve => some .resolvingAddress
  | .connect (.attempt (_ + 1) _ _) => some .connecting
  | .connect (.setReady _) => some .ready
  | .connect (.setFailed _) => some .failed
  | .disconnect .setDisconnected => some .disconnected
  | _ => none

/-- The state a guarded call with this result ends in. -/
def OpResult.final : OpResult → ConnectionState
  | .connected _ => .ready
  | .failed _ => .failed
  | .disconnected => .disconnected

/-! ## Beside the guard -/

/-- The states that tasks without the guard set follow resting states only. -/
theorem resting_of_transition {source target : ConnectionState}
    (ht : target = .waitingForCredential ∨ target = .reconnecting)
    (h : connectionTransition source target = true) : resting source = true := by
  rcases ht with rfl | rfl <;> cases source <;> first | rfl | cases h

/-- Where a resting state is expected, every resting state is. -/
theorem Expected.rest {op : Option Op} {state target : ConnectionState} (he : Expected op state)
    (hs : resting state = true) (ht : resting target = true) : Expected op target := by
  have hresolving : state ≠ .resolvingAddress := by
    rintro rfl
    cases hs
  have hconnecting : state ≠ .connecting := by
    rintro rfl
    cases hs
  unfold Expected at he ⊢
  split at he
  case h_1 | h_2 | h_3 => exact ht
  case h_4 | h_5 | h_6 => exact absurd he hresolving
  case h_7 | h_8 => exact absurd he (not_or.mpr ⟨hresolving, hconnecting⟩)
  case h_9 => exact absurd he hconnecting

/-- A state that is set beside the guard keeps what the guarded call expects. -/
theorem Expected.set {op : Option Op} {c c' : ConnectionStateController} {target : ConnectionState}
    (he : Expected op c.state) (ht : target = .waitingForCredential ∨ target = .reconnecting)
    (h : c.transition target = .ok c') : Expected op c'.state := by
  rw [transition_ok h]
  simp only [ConnectionStateController.transition] at h
  split at h
  · cases h
  · rename_i hn
    by_cases hsame : c.state = target
    · exact hsame ▸ he
    · have hallowed : connectionTransition c.state target = true :=
        eq_true_of_ne_false fun e => hn ⟨hsame, e⟩
      exact he.rest (resting_of_transition ht hallowed) (by rcases ht with rfl | rfl <;> rfl)

theorem expected_mark {op : Option Op} {s : ActiveSession} {target : ConnectionState}
    (he : Expected op s.controller.state)
    (ht : target = .waitingForCredential ∨ target = .reconnecting) :
    Expected op (s.mark target).controller.state := by
  unfold mark
  cases h : s.controller.transition target with
  | ok c => exact he.set ht h
  | error e => exact he

/-- A pump sets `Reconnecting` or leaves the controller alone. -/
theorem pumpStep_controller {s t : ActiveSession} {g : Nat} {p : Pump} {c : PumpChoice}
    (h : s.pumpStep g p p.pc c = some t) :
    t.controller = s.controller ∨ s.controller.transition .reconnecting = .ok t.controller := by
  cases pumpStep_moves h with
  | quiet q | publish e => exact .inl rfl
  | deliver hpc hd =>
    obtain ⟨-, -, e⟩ := deliverOne_spec hd
    exact .inl (by rw [e]; rfl)
  | flip hpc hs =>
    rw [hpc] at h
    cases c <;> simp only [pumpStep, reduceCtorEq] at h
    split at h
    · rename_i c hc
      rw [hc, transition_ok hc]
      exact .inr rfl
    · rename_i c hc
      rw [← Option.some.inj h]
      exact .inl rfl

/-! ## The guarded calls -/

/-- The next `set_state` of a guarded call is allowed. -/
theorem sets_ok {c : ConnectionStateController} {op : Op} {target : ConnectionState}
    (he : Expected (some op) c.state) (ht : op.sets = some target) :
    c.transition target = .ok { c with state := target } := by
  obtain ⟨state, generation⟩ := c
  unfold Op.sets at ht
  split at ht <;> cases ht
  · -- a connect call begins: from every resting state
    cases state <;> first | rfl | cases he
  · rcases he with e | e <;> cases e <;> rfl
  · cases he
    rfl
  · rcases he with e | e <;> cases e <;> rfl
  · exact transition_disconnected _

theorem setStateThen_ok {s : ActiveSession} {target : ConnectionState}
    {c : ConnectionStateController} (h : s.controller.transition target = .ok c) (p : Progress) :
    s.setStateThen target p = ({ s with controller := c }, p) := by
  rw [setStateThen, h]

/-- What one step of a guarded call does to the state. -/
structure StateSpec (op : Op) (t : ActiveSession) (r : Progress) : Prop where
  expected : Expected r.op t.controller.state
  /-- The state is the one the step sets. -/
  set : ∀ target, op.sets = some target → t.controller.state = target
  final : ∀ result, r.result = some result → t.controller.state = result.final

/-- A step that sets no state. -/
theorem StateSpec.keep {s t : ActiveSession} {op op' : Op} (hc : t.controller.state = s.controller.state)
    (he : Expected (some op') s.controller.state) (hn : op.sets = none) : StateSpec op t (.next op') where
  expected := by
    rw [hc]
    exact he
  set := by
    intro target ht
    rw [hn] at ht
    cases ht
  final := nofun

/-- A step that sets a state. -/
theorem StateSpec.setState {s t : ActiveSession} {op : Op} {target : ConnectionState} {p r : Progress}
    (he : Expected (some op) s.controller.state) (hop : op.sets = some target)
    (h : s.setStateThen target p = (t, r)) (hp : Expected p.op target)
    (hf : ∀ result, p.result = some result → result.final = target) : StateSpec op t r := by
  rw [setStateThen_ok (sets_ok he hop)] at h
  cases h
  refine ⟨hp, fun target' ht => ?_, fun result hr => (hf result hr).symm⟩
  exact Option.some.inj (hop.symm.trans ht)

theorem connectStep_state {s t : ActiveSession} {pc : ConnectPc} {c : OpChoice} {r : Progress}
    (he : Expected (some (.connect pc)) s.controller.state) (ho : OpOwns s (.connect pc))
    (h : s.connectStep pc c = some (t, r)) : StateSpec (.connect pc) t r := by
  cases pc with
  | resolve =>
    cases c <;> simp only [connectStep, reduceCtorEq, Option.some.injEq] at h
    exact .setState he rfl h rfl (by rintro _ ⟨⟩)
  | candidates =>
    cases c <;> simp only [connectStep, reduceCtorEq] at h
    split at h <;> cases h
    · exact .keep rfl (.inl he) rfl
    · exact .keep rfl he rfl
  | reserve n =>
    cases c <;> simp only [connectStep, reduceCtorEq, Option.some.injEq] at h
    cases h
    exact .keep rfl he rfl
  | jump n g =>
    cases c <;> simp only [connectStep, reduceCtorEq, Option.some.injEq] at h <;> cases h <;>
      exact .keep rfl (.inl he) rfl
  | attempt n g e =>
    cases n <;> cases c <;> simp only [connectStep, reduceCtorEq, Option.some.injEq] at h
    · cases h
      exact .keep rfl he rfl
    · exact .setState he rfl h rfl (by rintro _ ⟨⟩)
  | dial n g =>
    cases c <;> simp only [connectStep, reduceCtorEq, Option.some.injEq] at h
    · cases h
      exact .keep rfl he rfl
    · split at h <;> cases h <;> exact .keep rfl (.inr he) rfl
  | install g =>
    cases c <;> simp only [connectStep, reduceCtorEq] at h
    -- the call owns the generation, so that it can be installed
    have hg : s.controller.generation = g := ho g rfl
    simp only [ConnectionStateController.installGeneration, hg, Nat.lt_irrefl, ite_false,
      Option.some.injEq] at h
    cases h
    exact .keep rfl he rfl
  | store g | clearSftp g | clearPanes g | clearPending g | drainBridges g | clearTransfers g
  | spawnPump g =>
    cases c <;> simp only [connectStep, reduceCtorEq, Option.some.injEq] at h
    cases h
    exact .keep rfl he rfl
  | setReady g | setFailed kind =>
    cases c <;> simp only [connectStep, reduceCtorEq, Option.some.injEq] at h
    exact .setState he rfl h rfl (by rintro _ ⟨⟩; rfl)

theorem disconnectStep_state {s t : ActiveSession} {pc : DisconnectPc} {r : Progress}
    (he : Expected (some (.disconnect pc)) s.controller.state) (h : s.disconnectStep pc = (t, r)) :
    StateSpec (.disconnect pc) t r := by
  cases pc with
  | setDisconnected => exact .setState he rfl h rfl (by rintro _ ⟨⟩; rfl)
  | reserve | take g | close g | clearPanes g | clearSftp g | takeTransfers g | drainBridges g
  | clearSubscribers g | clearPending g | closeTunnels =>
    cases h
    exact .keep rfl he rfl

theorem opStep_state {s t : ActiveSession} {op : Op} {c : OpChoice} {r : Progress}
    (hop : s.op = some op) (he : Expected (some op) s.controller.state) (ho : OpOwns s op)
    (h : s.opStep c = some (t, r)) : StateSpec op t r := by
  cases op with
  | connect pc =>
    simp only [opStep, hop] at h
    exact connectStep_state he ho h
  | disconnect pc =>
    simp only [opStep, hop] at h
    split at h
    · exact disconnectStep_state he (Option.some.inj h)
    · cases h

/-! ## The invariant -/

structure StateInv (s : ActiveSession) : Prop where
  guard : GuardInv s
  expected : Expected s.op s.controller.state

theorem stateInv_new (eventBuffer : Nat) : StateInv (.new eventBuffer) := ⟨guardInv_new eventBuffer, rfl⟩

/-- A new guarded call finds the session at rest. -/
theorem stateInv_acquire {s t : ActiveSession} {op : Op} (hi : StateInv s)
    (ho : op = .connect .resolve ∨ op = .disconnect .reserve) (h : s.acquireGuard op = some t) :
    StateInv t := by
  obtain ⟨hn, rfl, hg⟩ := guardInv_acquire ho h
  have hrest := hi.expected
  rw [hn] at hrest
  exact ⟨hg, by rcases ho with rfl | rfl <;> exact hrest⟩

/-- A step beside the guard. -/
theorem StateInv.beside {s t : ActiveSession} (hi : StateInv s) (hb : Beside s t)
    (he : Expected s.op t.controller.state) : StateInv t where
  guard := hb.guardInv hi.guard
  expected := by
    rw [hb.op]
    exact he

theorem stateInv_step {s t : ActiveSession} {a : Action} (hi : StateInv s) (h : step s a = some t) :
    StateInv t := by
  cases a with
  | connect => exact stateInv_acquire hi (.inl rfl) h
  | disconnect => exact stateInv_acquire hi (.inr rfl) h
  | op c =>
    obtain ⟨⟨u, r⟩, hr, rfl⟩ := Option.map_eq_some_iff.mp h
    obtain ⟨op, ho⟩ := opStep_op hr
    have hspec := opStep_state ho (ho ▸ hi.expected) (hi.guard.owns op ho) hr
    exact ⟨guardInv_op hi.guard ho hr, hspec.expected⟩
  | pump g c =>
    have hb := beside_step h (by rintro _ ⟨⟩) (by rintro ⟨⟩) (by rintro ⟨⟩)
    simp only [step] at h
    split at h
    · refine hi.beside hb ?_
      rcases pumpStep_controller h with e | e
      · exact e ▸ hi.expected
      · exact hi.expected.set (.inr rfl) e
    · cases h
  | subscribe channel =>
    have hb := beside_step h (by rintro _ ⟨⟩) (by rintro ⟨⟩) (by rintro ⟨⟩)
    cases h
    exact hi.beside hb hi.expected
  | receive m =>
    have hb := beside_step h (by rintro _ ⟨⟩) (by rintro ⟨⟩) (by rintro ⟨⟩)
    obtain ⟨b, q, -, rfl⟩ := receive_spec h
    exact hi.beside hb hi.expected
  | dropReceiver m =>
    have hb := beside_step h (by rintro _ ⟨⟩) (by rintro ⟨⟩) (by rintro ⟨⟩)
    obtain ⟨b, -, rfl⟩ := dropReceiver_spec h
    exact hi.beside hb hi.expected
  | markWaitingForCredential =>
    have hb := beside_step h (by rintro _ ⟨⟩) (by rintro ⟨⟩) (by rintro ⟨⟩)
    cases h
    exact hi.beside hb (expected_mark hi.expected (.inl rfl))
  | markReconnecting =>
    have hb := beside_step h (by rintro _ ⟨⟩) (by rintro ⟨⟩) (by rintro ⟨⟩)
    cases h
    exact hi.beside hb (expected_mark hi.expected (.inr rfl))

/-- In every run, the `set_state` that a guarded call stands at is allowed and
sets its state, and a call that returns leaves the state its result says:
`Ready` after `Connected`, `Failed` after an error, `Disconnected` after a
disconnect. -/
theorem guarded_calls_end_as_returned {s : ActiveSession}
    (hr : machine.Reach Machine.free Initial s) {op : Op} (ho : s.op = some op) :
    (∀ target, op.sets = some target → ∃ c, s.controller.transition target = .ok c) ∧
      ∀ c t r, s.opStep c = some (t, r) →
        (∀ target, op.sets = some target → t.controller.state = target) ∧
        ∀ result, r.result = some result → t.controller.state = result.final := by
  have hi : StateInv s := by
    refine hr.invariant (I := StateInv) ?_ fun s a t hi _ h => stateInv_step hi h
    rintro _ ⟨n, rfl⟩
    exact stateInv_new n
  have he : Expected (some op) s.controller.state := ho ▸ hi.expected
  refine ⟨fun target ht => ⟨_, sets_ok he ht⟩, fun c t r h => ?_⟩
  have hspec := opStep_state ho he (hi.guard.owns op ho) h
  exact ⟨hspec.set, hspec.final⟩

/-- Beside a connect call that dials for the second time, the session is marked
for its credentials and for a reconnect; the call returns `Connected` and the
session is ready. -/
theorem marked_connect_ends_ready :
    ∃ s t, machine.Reach Machine.free Initial s ∧ s.op = some (.connect (.setReady 2)) ∧
      s.opStep .go = some (t, .done (.connected 2)) ∧ t.controller.state = .ready := by
  obtain ⟨s, hs, hp⟩ := Machine.Reach.of_run machine Machine.free (init_new 8)
    (List.flatten [attachTrace, [.op .go, .pump 1 (.event (.disconnected "reset"))],
      List.replicate 4 (.pump 1 .go), [.pump 1 .go, .connect, .op .go, .markReconnecting,
      .op (.candidates 2), .op .go, .op .go, .op .go, .pump 1 .go, .markWaitingForCredential,
      .op (.dialError .timeout), .op .go, .markReconnecting, .op .dialed], List.replicate 8 (.op .go)])
    (fun s => decide (s.op = some (.connect (.setReady 2))) && (s.opStep .go).any
      fun x : ActiveSession × Progress => decide (x.2 = .done (.connected 2))) (by decide)
  simp only [Bool.and_eq_true, Option.any_eq_true, decide_eq_true_eq, Prod.exists] at hp
  obtain ⟨ho, t, r, hstep, rfl⟩ := hp
  exact ⟨s, t, hs, ho, hstep, ((guarded_calls_end_as_returned hs ho).2 .go t _ hstep).2 _ rfl⟩

end KW.Session
