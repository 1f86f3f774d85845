import KodeWork.Proof.Session.Guard

/-!
# The stored transport and the current generation

A connect call reserves its generation before it tries the first candidate,
and replaces the stored transport only when a candidate answers. When it gives
up in between, the old transport stays in `connection` while its generation is
over: its pump drops everything from then on (`failed_reconnect_mutes_transport`).

In every run in which a connect call gives up after its reservation only while
no transport is stored (`GivesUpUnconnected`), a transport stored between two
guarded calls is the one of the current generation, and its pump passes its
generation check (`stored_transport_current`).
-/

namespace KW.Session

open ActiveSession

/-- The step in which a connect call that has reserved its generation gives
up: the jump host has no credentials, no candidate is left, the state does not
allow `Connecting`, or an error forbids the next candidate. -/
def givesUp (s : ActiveSession) : ConnectPc → OpChoice → Bool
  | .jump _ _, .jumpMissing => true
  | .attempt 0 _ _, .go => true
  | .attempt (_ + 1) _ _, .go => s.controller.state != .connecting &&
      !connectionTransition s.controller.state .connecting
  | .dial _ _, .dialError error => !addressFallbackIsRetryable error
  | _, _ => false

/-- Whether the guarded call is a connect call that gives up in this step. -/
def connectGivesUp (s : ActiveSession) (c : OpChoice) : Bool :=
  match s.op with
  | some (.connect pc) => givesUp s pc c
  | _ => false

/-- A connect call gives up after its reservation only while no transport is
stored. -/
def GivesUpUnconnected (s : ActiveSession) : Action → Prop
  | .op c => connectGivesUp s c = true → s.connection = none
  | _ => True

instance (s : ActiveSession) : ∀ a, Decidable (GivesUpUnconnected s a)
  | .op c => inferInstanceAs (Decidable (connectGivesUp s c = true → s.connection = none))
  | .connect | .disconnect | .pump _ _ | .subscribe _ | .receive _ | .dropReceiver _
  | .markWaitingForCredential | .markReconnecting => .isTrue trivial

/-! ## The guarded calls -/

/-- The call has reserved a generation, and the stored transport is still the
one before it. -/
def Op.replacing : Op → Bool
  | .connect (.jump ..) | .connect (.attempt ..) | .connect (.dial ..) | .connect (.install _)
  | .connect (.store _) | .disconnect (.take _) => true
  | _ => false

/-- The connect call has stored its transport and not yet spawned its pump. -/
def Op.unpumped : Op → Bool
  | .connect (.setReady _) => false
  | op => op.attached

theorem Op.unpumped_of_attached {op : Op} (h : op.attached = false) : op.unpumped = false := by
  cases op with
  | connect pc => cases pc <;> first | rfl | exact h
  | disconnect pc => rfl

/-- What a step of the guarded call `op` does to the stored transport. -/
structure TransportSpec (s : ActiveSession) (op : Op) (t : ActiveSession) (r : Progress) :
    Prop where
  attached : ∀ op', r = .next op' → op'.attached = true → t.connection = op'.generation
  current : (∀ op', r = .next op' → op'.replacing = false) → t.connection = none ∨
    t.connection = some t.controller.generation ∨
    (op.replacing = false ∧ t.connection = s.connection ∧
      t.controller.generation = s.controller.generation)
  pumped : (∀ op', r = .next op' → op'.unpumped = false) → t.connection = none ∨
    (∃ g p, t.connection = some g ∧ t.pumps g = some p) ∨
    (op.unpumped = false ∧ t.connection = s.connection ∧ t.pumps = s.pumps)

/-- The call goes on beside the transport. -/
theorem TransportSpec.keep {s t : ActiveSession} {op : Op} {r : Progress}
    (hk : t.connection = s.connection) (hg : t.controller.generation = s.controller.generation)
    (hp : t.pumps = s.pumps) (ho : op.attached = false) (hr : op.replacing = false)
    (ha : ∀ op', r = .next op' → op'.attached = false) : TransportSpec s op t r where
  attached := fun op' h h' => absurd ((ha op' h).symm.trans h') Bool.noConfusion
  current := fun _ => .inr (.inr ⟨hr, hk, hg⟩)
  pumped := fun _ => .inr (.inr ⟨Op.unpumped_of_attached ho, hk, hp⟩)

/-- The call has reserved its generation and goes on towards its transport. -/
theorem TransportSpec.replace {s t : ActiveSession} {op op' : Op}
    (hk : t.connection = s.connection) (hp : t.pumps = s.pumps) (ho : op.attached = false)
    (hr : op'.replacing = true) (ha : op'.attached = false) : TransportSpec s op t (.next op') where
  attached := by
    rintro _ ⟨⟩ h
    exact absurd (ha.symm.trans h) Bool.noConfusion
  current := fun h => absurd ((h op' rfl).symm.trans hr) Bool.noConfusion
  pumped := fun _ => .inr (.inr ⟨Op.unpumped_of_attached ho, hk, hp⟩)

/-- The call goes on, or returns, without a stored transport. -/
theorem TransportSpec.unconnected {s t : ActiveSession} {op : Op} {r : Progress}
    (hn : t.connection = none) (ha : ∀ op', r = .next op' → op'.attached = false) :
    TransportSpec s op t r where
  attached := fun op' h h' => absurd ((ha op' h).symm.trans h') Bool.noConfusion
  current := fun _ => .inl hn
  pumped := fun _ => .inl hn

/-- The call has stored its transport of the current generation. -/
theorem TransportSpec.store {s t : ActiveSession} {op op' : Op} {g : Nat}
    (hk : t.connection = some g) (hg : t.controller.generation = g) (ho : op'.generation = some g)
    (hp : op'.unpumped = true ∨ ∃ p, t.pumps g = some p) : TransportSpec s op t (.next op') where
  attached := by
    rintro _ ⟨⟩ -
    rw [hk, ho]
  current := fun _ => .inr (.inl (by rw [hk, hg]))
  pumped := by
    intro h
    rcases hp with hu | ⟨p, hp⟩
    · exact absurd ((h op' rfl).symm.trans hu) Bool.noConfusion
    · exact .inr (.inl ⟨g, p, hk, hp⟩)

/-- A `set_state` to `Connecting` of a call that goes on, or gives up. -/
theorem setConnecting_cases {s t : ActiveSession} {op : Op} {r : Progress}
    (h : s.setStateThen .connecting (.next op) = (t, r)) :
    (t = { s with controller := { s.controller with state := .connecting } } ∧ r = .next op) ∨
    (t = s ∧ r = .done (.failed .internal) ∧
      (s.controller.state != .connecting &&
        !connectionTransition s.controller.state .connecting) = true) := by
  simp only [setStateThen, ConnectionStateController.transition] at h
  split at h
  · rename_i hc
    split at hc <;> cases hc
    cases h
    exact .inl ⟨rfl, rfl⟩
  · rename_i hc
    split at hc <;> cases hc
    rename_i hne
    cases h
    exact .inr ⟨rfl, rfl, by simp [hne.1, hne.2]⟩

theorem connectStep_transport {s t : ActiveSession} {pc : ConnectPc} {c : OpChoice} {r : Progress}
    (ho : OpOwns s (.connect pc))
    (ha : (Op.connect pc).attached = true → s.connection = (Op.connect pc).generation)
    (hok : givesUp s pc c = true → s.connection = none)
    (h : s.connectStep pc c = some (t, r)) : TransportSpec s (.connect pc) t r := by
  cases pc with
  | resolve =>
    cases c <;> simp only [connectStep, reduceCtorEq, Option.some.injEq] at h
    rcases setStateThen_cases s .resolvingAddress (.next (.connect .candidates)) with e | e <;>
      rw [e] at h <;> cases h
    · exact .keep rfl rfl rfl rfl rfl (by rintro _ ⟨⟩; rfl)
    · exact .keep rfl rfl rfl rfl rfl (by rintro _ ⟨⟩)
  | candidates =>
    cases c <;> simp only [connectStep, reduceCtorEq] at h
    split at h <;> cases h <;> exact .keep rfl rfl rfl rfl rfl (by rintro _ ⟨⟩; rfl)
  | reserve n =>
    cases c <;> simp only [connectStep, reduceCtorEq, Option.some.injEq] at h
    cases h
    exact .replace rfl rfl rfl rfl rfl
  | jump n g =>
    cases c <;> simp only [connectStep, reduceCtorEq, Option.some.injEq] at h <;> cases h
    · exact .replace rfl rfl rfl rfl rfl
    · exact .unconnected (hok rfl) (by rintro _ ⟨⟩; rfl)
  | attempt n g e =>
    cases n <;> cases c <;> simp only [connectStep, reduceCtorEq, Option.some.injEq] at h
    · cases h
      exact .unconnected (hok rfl) (by rintro _ ⟨⟩; rfl)
    · rcases setConnecting_cases h with ⟨rfl, rfl⟩ | ⟨rfl, rfl, hg⟩
      · exact .replace rfl rfl rfl rfl rfl
      · exact .unconnected (hok hg) (by rintro _ ⟨⟩)
  | dial n g =>
    cases c <;> simp only [connectStep, reduceCtorEq, Option.some.injEq] at h
    · cases h
      exact .replace rfl rfl rfl rfl rfl
    · split at h <;> cases h
      · exact .replace rfl rfl rfl rfl rfl
      · rename_i error hr
        exact .unconnected (hok (by simpa [givesUp] using hr)) (by rintro _ ⟨⟩; rfl)
  | install g =>
    cases c <;> simp only [connectStep, reduceCtorEq] at h
    have hg : s.controller.generation = g := ho g rfl
    simp only [ConnectionStateController.installGeneration, hg, Nat.lt_irrefl, ite_false,
      Option.some.injEq] at h
    cases h
    exact .replace rfl rfl rfl rfl rfl
  | store g =>
    cases c <;> simp only [connectStep, reduceCtorEq, Option.some.injEq] at h
    cases h
    exact .store rfl (ho g rfl) rfl (.inl rfl)
  | clearSftp g | clearPanes g | clearPending g | drainBridges g | clearTransfers g =>
    cases c <;> simp only [connectStep, reduceCtorEq, Option.some.injEq] at h
    cases h
    exact .store (ha rfl) (ho g rfl) rfl (.inl rfl)
  | spawnPump g =>
    cases c <;> simp only [connectStep, reduceCtorEq, Option.some.injEq] at h
    cases h
    exact .store (ha rfl) (ho g rfl) rfl (.inr ⟨_, Function.update_self g _ _⟩)
  | setReady g =>
    cases c <;> simp only [connectStep, reduceCtorEq, Option.some.injEq] at h
    have hk : s.connection = some s.controller.generation := by
      rw [ha rfl, ho g rfl]
      rfl
    rcases setStateThen_cases s .ready (.done (.connected g)) with e | e <;> rw [e] at h <;> cases h
    · exact ⟨by rintro _ ⟨⟩, fun _ => .inr (.inl hk), fun _ => .inr (.inr ⟨rfl, rfl, rfl⟩)⟩
    · exact ⟨by rintro _ ⟨⟩, fun _ => .inr (.inl hk), fun _ => .inr (.inr ⟨rfl, rfl, rfl⟩)⟩
  | setFailed kind =>
    cases c <;> simp only [connectStep, reduceCtorEq, Option.some.injEq] at h
    rcases setStateThen_cases s .failed (.done (.failed kind)) with e | e <;> rw [e] at h <;> cases h
    · exact .keep rfl rfl rfl rfl rfl (by rintro _ ⟨⟩)
    · exact .keep rfl rfl rfl rfl rfl (by rintro _ ⟨⟩)

theorem disconnectStep_transport {s t : ActiveSession} {pc : DisconnectPc} {r : Progress}
    (hs : (Op.disconnect pc).taken = true → s.connection = none)
    (h : s.disconnectStep pc = (t, r)) : TransportSpec s (.disconnect pc) t r := by
  cases pc with
  | reserve =>
    cases h
    exact .replace rfl rfl rfl rfl rfl
  | take g =>
    cases h
    exact .unconnected rfl (by rintro _ ⟨⟩; rfl)
  | setDisconnected =>
    rcases setStateThen_cases s .disconnected (.done .disconnected) with e | e <;>
      simp only [disconnectStep, e] at h <;> cases h
    · exact .unconnected (hs rfl) (by rintro _ ⟨⟩)
    · exact .unconnected (hs rfl) (by rintro _ ⟨⟩)
  | close g | clearPanes g | clearSftp g | takeTransfers g | drainBridges g | clearSubscribers g
  | clearPending g | closeTunnels =>
    cases h
    exact .unconnected (hs rfl) (by rintro _ ⟨⟩; rfl)

/-! ## Every run -/

structure TransportInv (s : ActiveSession) : Prop where
  guard : GuardInv s
  attached : ∀ op, s.op = some op → op.attached = true → s.connection = op.generation
  current : (∀ op, s.op = some op → op.replacing = false) →
    ∀ h, s.connection = some h → s.controller.generation = h
  pumped : (∀ op, s.op = some op → op.unpumped = false) →
    ∀ h, s.connection = some h → ∃ p, s.pumps h = some p

theorem transportInv_new (eventBuffer : Nat) : TransportInv (.new eventBuffer) where
  guard := guardInv_new eventBuffer
  attached := by rintro _ ⟨⟩
  current := by rintro - _ ⟨⟩
  pumped := by rintro - _ ⟨⟩

theorem transportInv_op {s t : ActiveSession} {op : Op} {c : OpChoice} {r : Progress}
    (hi : TransportInv s) (hok : GivesUpUnconnected s (.op c)) (ho : s.op = some op)
    (h : s.opStep c = some (t, r)) : TransportInv { t with op := r.op } := by
  have hspec : TransportSpec s op t r := by
    cases op with
    | connect pc =>
      have hgive : givesUp s pc c = true → s.connection = none := by
        simpa only [GivesUpUnconnected, connectGivesUp, ho] using hok
      simp only [opStep, ho] at h
      exact connectStep_transport (hi.guard.owns _ ho) (hi.attached _ ho) hgive h
    | disconnect pc =>
      simp only [opStep, ho] at h
      split at h
      · exact disconnectStep_transport (hi.guard.taken _ ho) (Option.some.inj h)
      · cases h
  have howner : ∀ {p : Op → Bool} {b : Bool}, p op = b → ∀ op', s.op = some op' → p op' = b := by
    intro p b hp op' ho'
    rw [ho] at ho'
    cases ho'
    exact hp
  refine ⟨guardInv_op hi.guard ho h, fun op' h' => hspec.attached op' (Progress.eq_next h'),
    fun hr k hk => ?_, fun hu k hk => ?_⟩
  · rcases hspec.current fun op' h' => hr op' (by rw [h']; rfl) with hn | hc | ⟨hr', hc, hg⟩
    · rw [show t.connection = some k from hk] at hn
      cases hn
    · rw [show t.connection = some k from hk] at hc
      exact (Option.some.inj hc).symm
    · exact hg.trans (hi.current (howner hr') k (hc ▸ hk))
  · rcases hspec.pumped fun op' h' => hu op' (by rw [h']; rfl) with hn | ⟨g, p, hg, hp⟩ | ⟨hu', hc, hp⟩
    · rw [show t.connection = some k from hk] at hn
      cases hn
    · rw [show t.connection = some k from hk] at hg
      cases hg
      exact ⟨p, hp⟩
    · obtain ⟨p, hp'⟩ := hi.pumped (howner hu') k (hc ▸ hk)
      exact ⟨p, by rw [← hp']; exact congrFun hp k⟩

/-- A step beside the guard keeps the transport, its generation and its pump. -/
theorem transportInv_beside {s t : ActiveSession} (hi : TransportInv s) (hb : Beside s t)
    (hp : ∀ g p, s.pumps g = some p → ∃ q, t.pumps g = some q) : TransportInv t where
  guard := hb.guardInv hi.guard
  attached := by
    rw [hb.op, hb.connection]
    exact hi.attached
  current := by
    rw [hb.op, hb.connection, hb.generation]
    exact hi.current
  pumped := by
    rw [hb.op, hb.connection]
    intro hu k hk
    obtain ⟨p, hk'⟩ := hi.pumped hu k hk
    exact hp k p hk'

theorem transportInv_acquire {s t : ActiveSession} {op : Op} (hi : TransportInv s)
    (ho : op = .connect .resolve ∨ op = .disconnect .reserve) (h : s.acquireGuard op = some t) :
    TransportInv t := by
  obtain ⟨hn, rfl, hg⟩ := guardInv_acquire ho h
  have hfree : ∀ {p : Op → Bool} {b : Bool}, ∀ op', s.op = some op' → p op' = b := by
    intro p b op' ho'
    rw [hn] at ho'
    cases ho'
  refine ⟨hg, ?_, fun _ => hi.current hfree, fun _ => hi.pumped hfree⟩
  rintro _ ⟨⟩ ha
  rcases ho with rfl | rfl <;> cases ha

theorem transportInv_step {s t : ActiveSession} {a : Action} (hi : TransportInv s)
    (hok : GivesUpUnconnected s a) (h : step s a = some t) : TransportInv t := by
  cases a with
  | connect => exact transportInv_acquire hi (.inl rfl) h
  | disconnect => exact transportInv_acquire hi (.inr rfl) h
  | op c =>
    obtain ⟨⟨u, r⟩, hr, rfl⟩ := Option.map_eq_some_iff.mp h
    obtain ⟨op, ho⟩ := opStep_op hr
    exact transportInv_op hi hok ho hr
  | pump g c =>
    have hb := beside_step h (by rintro _ ⟨⟩) (by rintro ⟨⟩) (by rintro ⟨⟩)
    simp only [step] at h
    split at h
    · obtain ⟨q, hq⟩ := (pumpStep_moves h).spec.pumps
      refine transportInv_beside hi hb fun k p hk => ?_
      rw [hq]
      by_cases e : k = g
      · exact ⟨q, by rw [e, Function.update_self]⟩
      · exact ⟨p, by rw [Function.update_of_ne e, hk]⟩
    · cases h
  | subscribe channel =>
    have hb := beside_step h (by rintro _ ⟨⟩) (by rintro ⟨⟩) (by rintro ⟨⟩)
    cases h
    exact transportInv_beside hi hb fun k p hk => ⟨p, hk⟩
  | receive m =>
    have hb := beside_step h (by rintro _ ⟨⟩) (by rintro ⟨⟩) (by rintro ⟨⟩)
    obtain ⟨b, q, -, rfl⟩ := receive_spec h
    exact transportInv_beside hi hb fun k p hk => ⟨p, hk⟩
  | dropReceiver m =>
    have hb := beside_step h (by rintro _ ⟨⟩) (by rintro ⟨⟩) (by rintro ⟨⟩)
    obtain ⟨b, -, rfl⟩ := dropReceiver_spec h
    exact transportInv_beside hi hb fun k p hk => ⟨p, hk⟩
  | markWaitingForCredential | markReconnecting =>
    have hb := beside_step h (by rintro _ ⟨⟩) (by rintro ⟨⟩) (by rintro ⟨⟩)
    cases h
    refine transportInv_beside hi hb fun k p hk => ⟨p, ?_⟩
    rw [← hk]
    simp only [ActiveSession.markWaitingForCredential, ActiveSession.markReconnecting]
    rcases mark_cases s _ with e | e <;> rw [e]

/-- In every run in which a connect call gives up after its reservation only
while no transport is stored: a transport stored between two guarded calls is
the one of the current generation, and its pump takes every event past its
generation check. -/
theorem stored_transport_current {s : ActiveSession}
    (h : machine.Reach GivesUpUnconnected Initial s) (hop : s.op = none) {g : Nat}
    (hg : s.connection = some g) :
    s.controller.generation = g ∧ ∃ p, s.pumps g = some p ∧
      ∀ e, p.pc = .check e → step s (.pump g .go) = some (s.setPump g { p with pc := .publish e }) := by
  have hi : TransportInv s := h.invariant (by rintro s ⟨b, rfl⟩; exact transportInv_new b)
    (fun _ _ _ hi hok hs => transportInv_step hi hok hs)
  have hfree : ∀ {q : Op → Bool}, ∀ op, s.op = some op → q op = false := by
    intro q op ho
    rw [hop] at ho
    cases ho
  have hcur : s.controller.generation = g := hi.current hfree g hg
  obtain ⟨p, hp⟩ := hi.pumped hfree g hg
  refine ⟨hcur, p, hp, fun e he => ?_⟩
  simp only [step, hp, he, pumpStep, hcur, ne_eq, not_true_eq_false, if_false]

/-- A connect call to `Ready`, then a second one that stores its transport too. -/
def reconnectTrace : List Action :=
  List.flatten [attachTrace, [.op .go], attachTrace, [.op .go]]

/-- A connect call to `Ready`, then a second one whose only candidate times out. -/
def failedReconnectTrace : List Action :=
  List.flatten [attachTrace, [.op .go], [.connect, .op .go, .op (.candidates 1), .op .go, .op .go,
    .op .go, .op (.dialError .timeout), .op .go, .op .go]]

/-- Whether no guarded call runs, with this transport stored in this generation. -/
def storedIn (transport generation : Nat) (s : ActiveSession) : Bool :=
  s.op == none && s.connection == some transport && s.controller.generation == generation

theorem storedIn_iff {transport generation : Nat} {s : ActiveSession} :
    storedIn transport generation s = true ↔
      s.op = none ∧ s.connection = some transport ∧ s.controller.generation = generation := by
  simp [storedIn, and_assoc]

theorem reconnected_transport_current :
    ∃ s, machine.Reach GivesUpUnconnected Initial s ∧ s.op = none ∧ s.connection = some 2 ∧
      s.controller.generation = 2 ∧ ∃ p, s.pumps 2 = some p := by
  obtain ⟨s, hs, hp⟩ := Machine.Reach.of_run machine GivesUpUnconnected (init_new 512) reconnectTrace
    (storedIn 2 2) (by decide)
  obtain ⟨ho, hc, -⟩ := storedIn_iff.mp hp
  obtain ⟨hg, p, hp, -⟩ := stored_transport_current hs ho hc
  exact ⟨s, hs, ho, hc, hg, p, hp⟩

/-- A reconnect started from `Ready` fails: the old transport of generation 1
stays stored, and generation 2 is the current one. -/
theorem failed_reconnect_mutes_transport :
    ∃ s, machine.Reach Machine.free Initial s ∧ s.op = none ∧ s.connection = some 1 ∧
      s.controller.generation = 2 := by
  obtain ⟨s, hs, hp⟩ := Machine.Reach.of_run machine Machine.free (init_new 512)
    failedReconnectTrace (storedIn 1 2) (by decide)
  exact ⟨s, hs, storedIn_iff.mp hp⟩

end KW.Session
