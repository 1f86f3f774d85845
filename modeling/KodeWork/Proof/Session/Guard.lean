import KodeWork.Proof.Session.Steps

/-!
# What the guard protects

While a connect call stands between its last `set_state(Connecting)` and its
`set_state(Ready)`, nothing else changes the state, so that `set_state` works: a
connect call that has stored its transport returns `Connected`
(`ConnectSpec.attached`). While a disconnect call stands after its
`connection.take()`, no transport is stored, so it ends without one
(`DisconnectSpec.done`). `GuardInv` is the invariant behind both; the tasks
that do not hold the guard keep it (`Beside.guardInv`).
-/

namespace KW.Session

open ActiveSession

/-- The connect call has set `Connecting` and not yet `Ready`. -/
def Op.dialing : Op → Bool
  | .connect (.dial ..) | .connect (.install _) | .connect (.store _) | .connect (.clearSftp _)
  | .connect (.clearPanes _) | .connect (.clearPending _) | .connect (.drainBridges _)
  | .connect (.clearTransfers _) | .connect (.spawnPump _) | .connect (.setReady _) => true
  | _ => false

/-- The connect call has stored its transport. -/
def Op.attached : Op → Bool
  | .connect (.clearSftp _) | .connect (.clearPanes _) | .connect (.clearPending _)
  | .connect (.drainBridges _) | .connect (.clearTransfers _) | .connect (.spawnPump _)
  | .connect (.setReady _) => true
  | _ => false

/-- The disconnect call has taken the transport. -/
def Op.taken : Op → Bool
  | .disconnect .reserve | .disconnect (.take _) => false
  | .disconnect _ => true
  | _ => false

/-- Whether the call is a `disconnect`. -/
def Op.isDisconnect : Op → Bool
  | .disconnect _ => true
  | .connect _ => false

structure GuardInv (s : ActiveSession) : Prop where
  owns : ∀ op, s.op = some op → OpOwns s op
  dialing : ∀ op, s.op = some op → op.dialing = true → s.controller.state = .connecting
  taken : ∀ op, s.op = some op → op.taken = true → s.connection = none

theorem guardInv_new (eventBuffer : Nat) : GuardInv (.new eventBuffer) := ⟨nofun, nofun, nofun⟩

/-- A transport is stored, or the session says that it is ready. -/
def live (s : ActiveSession) : Prop := s.connection ≠ none ∨ s.controller.state = .ready

/-! ## The guarded calls -/

/-- What a step of a connect call does to the transport. -/
structure ConnectSpec (s : ActiveSession) (pc : ConnectPc) (t : ActiveSession) (r : Progress) :
    Prop where
  dialing : ∀ op, r = .next op → op.dialing = true → t.controller.state = .connecting
  kind : ∀ op, r = .next op → op.isDisconnect = false
  attached : (Op.connect pc).attached = true →
    (∃ op, r = .next op ∧ op.attached = true) ∨ ∃ g, r = .done (.connected g)
  /-- The session is not made live, or the transport has just been stored. -/
  live : (Op.connect pc).attached = false → (∃ op, r = .next op ∧ op.attached = true) ∨
    (t.connection = s.connection ∧ (t.controller.state = .ready → s.controller.state = .ready))

/-- The call goes on, with the transport as it was or just stored. -/
theorem ConnectSpec.goOn {s t : ActiveSession} {pc : ConnectPc} {op : Op}
    (hk : op.isDisconnect = false) (hd : op.dialing = true → t.controller.state = .connecting)
    (ha : (Op.connect pc).attached = true → op.attached = true)
    (hl : op.attached = true ∨ (t.connection = s.connection ∧
      (t.controller.state = .ready → s.controller.state = .ready))) :
    ConnectSpec s pc t (.next op) where
  dialing := by
    rintro _ ⟨⟩
    exact hd
  kind := by
    rintro _ ⟨⟩
    exact hk
  attached := fun h => .inl ⟨op, rfl, ha h⟩
  live := fun _ => hl.imp_left fun h => ⟨op, rfl, h⟩

/-- The call returns before it has stored a transport. -/
theorem ConnectSpec.fails {s t : ActiveSession} {pc : ConnectPc} {result : OpResult}
    (ha : (Op.connect pc).attached = false) (hc : t.connection = s.connection)
    (hr : t.controller.state = .ready → s.controller.state = .ready) :
    ConnectSpec s pc t (.done result) where
  dialing := nofun
  kind := nofun
  attached := fun h => absurd (h.symm.trans ha) Bool.noConfusion
  live := fun _ => .inr ⟨hc, hr⟩

/-- A `set_state` to another state than `Ready`, before a transport is stored. -/
theorem ConnectSpec.setState {s t : ActiveSession} {pc : ConnectPc} {target : ConnectionState}
    {op : Op} {r : Progress} (h : s.setStateThen target (.next op) = (t, r))
    (ha : (Op.connect pc).attached = false) (ht : target ≠ .ready) (hk : op.isDisconnect = false)
    (hd : op.dialing = true → target = .connecting) : ConnectSpec s pc t r := by
  rcases setStateThen_cases s target (.next op) with e | e <;> rw [e] at h <;> cases h
  · exact .goOn hk hd (fun h => absurd (h.symm.trans ha) Bool.noConfusion)
      (.inr ⟨rfl, fun e => absurd e ht⟩)
  · exact .fails ha rfl id

theorem connectStep_guard {s t : ActiveSession} {pc : ConnectPc} {c : OpChoice} {r : Progress}
    (hs : (Op.connect pc).dialing = true → s.controller.state = .connecting)
    (ho : OpOwns s (.connect pc)) (h : s.connectStep pc c = some (t, r)) : ConnectSpec s pc t r := by
  cases pc with
  | resolve =>
    cases c <;> simp only [connectStep, reduceCtorEq, Option.some.injEq] at h
    exact .setState h rfl (by decide) rfl (by rintro ⟨⟩)
  | candidates =>
    cases c <;> simp only [connectStep, reduceCtorEq] at h
    split at h <;> cases h <;> exact .goOn rfl (by rintro ⟨⟩) (by rintro ⟨⟩) (.inr ⟨rfl, id⟩)
  | reserve n =>
    cases c <;> simp only [connectStep, reduceCtorEq, Option.some.injEq] at h
    cases h
    exact .goOn rfl (by rintro ⟨⟩) (by rintro ⟨⟩) (.inr ⟨rfl, id⟩)
  | jump n g =>
    cases c <;> simp only [connectStep, reduceCtorEq, Option.some.injEq] at h <;> cases h <;>
      exact .goOn rfl (by rintro ⟨⟩) (by rintro ⟨⟩) (.inr ⟨rfl, id⟩)
  | attempt n g e =>
    cases n <;> cases c <;> simp only [connectStep, reduceCtorEq, Option.some.injEq] at h
    · cases h
      exact .goOn rfl (by rintro ⟨⟩) (by rintro ⟨⟩) (.inr ⟨rfl, id⟩)
    · exact .setState h rfl (by decide) rfl fun _ => rfl
  | dial n g =>
    cases c <;> simp only [connectStep, reduceCtorEq, Option.some.injEq] at h
    · cases h
      exact .goOn rfl (fun _ => hs rfl) (by rintro ⟨⟩) (.inr ⟨rfl, id⟩)
    · split at h <;> cases h <;>
        exact .goOn rfl (fun _ => hs rfl) (by rintro ⟨⟩) (.inr ⟨rfl, id⟩)
  | install g =>
    cases c <;> simp only [connectStep, reduceCtorEq] at h
    have hg : s.controller.generation = g := ho g rfl
    simp only [ConnectionStateController.installGeneration, hg, Nat.lt_irrefl, ite_false,
      Option.some.injEq] at h
    cases h
    exact .goOn rfl (fun _ => hs rfl) (by rintro ⟨⟩) (.inr ⟨rfl, id⟩)
  | store g | clearSftp g | clearPanes g | clearPending g | drainBridges g | clearTransfers g
  | spawnPump g =>
    cases c <;> simp only [connectStep, reduceCtorEq, Option.some.injEq] at h
    cases h
    exact .goOn rfl (fun _ => hs rfl) (fun _ => rfl) (.inl rfl)
  | setReady g =>
    cases c <;> simp only [connectStep, reduceCtorEq, Option.some.injEq] at h
    -- the state is `Connecting`, from which `Ready` may follow
    have hst : s.controller.state = .connecting := hs rfl
    simp only [setStateThen, ConnectionStateController.transition, hst, connectionTransition,
      Bool.true_eq_false, and_false, ite_false] at h
    cases h
    exact ⟨by rintro _ ⟨⟩, by rintro _ ⟨⟩, fun _ => .inr ⟨g, rfl⟩, by rintro ⟨⟩⟩
  | setFailed kind =>
    cases c <;> simp only [connectStep, reduceCtorEq, Option.some.injEq] at h
    rcases setStateThen_cases s .failed (.done (.failed kind)) with e | e <;> rw [e] at h <;> cases h
    · exact .fails rfl rfl (by rintro ⟨⟩)
    · exact .fails rfl rfl id

/-- Every state may be left for `Disconnected`. -/
theorem transition_disconnected (c : ConnectionStateController) :
    c.transition .disconnected = .ok { c with state := .disconnected } := by
  obtain ⟨state, g⟩ := c
  cases state <;> rfl

/-- What a step of a disconnect call does to the transport. -/
structure DisconnectSpec (s : ActiveSession) (pc : DisconnectPc) (t : ActiveSession) (r : Progress) :
    Prop where
  kind : ∀ op, r = .next op → op.isDisconnect = true
  taken : ∀ op, r = .next op → op.taken = true → t.connection = none
  live : (t.connection = s.connection ∨ t.connection = none) ∧
    (t.controller.state = .ready → s.controller.state = .ready)
  done : ∀ result, r = .done result → t.connection = none ∧ t.controller.state = .disconnected

theorem disconnectStep_guard {s t : ActiveSession} {pc : DisconnectPc} {r : Progress}
    (hs : (Op.disconnect pc).taken = true → s.connection = none)
    (h : s.disconnectStep pc = (t, r)) : DisconnectSpec s pc t r := by
  cases pc with
  | reserve =>
    cases h
    exact ⟨by rintro _ ⟨⟩; rfl, by rintro _ ⟨⟩ ⟨⟩, ⟨.inl rfl, id⟩, by rintro _ ⟨⟩⟩
  | take g =>
    cases h
    exact ⟨by rintro _ ⟨⟩; rfl, fun _ _ _ => rfl, ⟨.inr rfl, id⟩, by rintro _ ⟨⟩⟩
  | setDisconnected =>
    simp only [disconnectStep, setStateThen, transition_disconnected] at h
    cases h
    exact ⟨by rintro _ ⟨⟩, by rintro _ ⟨⟩, ⟨.inl rfl, by rintro ⟨⟩⟩, fun _ _ => ⟨hs rfl, rfl⟩⟩
  | close g | clearPanes g | clearSftp g | takeTransfers g | drainBridges g | clearSubscribers g
  | clearPending g | closeTunnels =>
    cases h
    exact ⟨by rintro _ ⟨⟩; rfl, fun _ _ _ => hs rfl, ⟨.inl rfl, id⟩, by rintro _ ⟨⟩⟩

/-- A step of the guarded call keeps the invariant. -/
theorem guardInv_op {s t : ActiveSession} {op : Op} {c : OpChoice} {r : Progress} (hi : GuardInv s)
    (hop : s.op = some op) (h : s.opStep c = some (t, r)) : GuardInv { t with op := r.op } := by
  have hspec := opStep_spec hop (hi.owns op hop) h
  cases op with
  | connect pc =>
    simp only [opStep, hop] at h
    have hc := connectStep_guard (hi.dialing _ hop) (hi.owns _ hop) h
    refine ⟨fun op' ho => hspec.owns op' (Progress.eq_next ho),
      fun op' ho => hc.dialing op' (Progress.eq_next ho), fun op' ho ht => ?_⟩
    have hk := hc.kind op' (Progress.eq_next ho)
    cases op' with
    | connect _ => cases ht
    | disconnect _ => cases hk
  | disconnect pc =>
    simp only [opStep, hop] at h
    split at h
    · have hd := disconnectStep_guard (hi.taken _ hop) (Option.some.inj h)
      refine ⟨fun op' ho => hspec.owns op' (Progress.eq_next ho), fun op' ho ht => ?_,
        fun op' ho => hd.taken op' (Progress.eq_next ho)⟩
      have hk := hd.kind op' (Progress.eq_next ho)
      cases op' with
      | connect _ => cases hk
      | disconnect _ => cases ht
    · cases h

/-- What a step of the guarded call `op` does to the transport. -/
structure GuardedSpec (s : ActiveSession) (op : Op) (t : ActiveSession) (r : Progress) : Prop where
  kind : ∀ op', r = .next op' → op'.isDisconnect = op.isDisconnect
  attached : op.attached = true →
    (∃ op', r = .next op' ∧ op'.attached = true) ∨ ∃ g, r = .done (.connected g)
  alive : op.attached = false → live t → live s ∨ ∃ op', r = .next op' ∧ op'.attached = true
  done : op.isDisconnect = true → ∀ result, r = .done result → ¬ live t

theorem opStep_guard {s t : ActiveSession} {op : Op} {c : OpChoice} {r : Progress} (hi : GuardInv s)
    (hop : s.op = some op) (h : s.opStep c = some (t, r)) : GuardedSpec s op t r := by
  cases op with
  | connect pc =>
    simp only [opStep, hop] at h
    have hc := connectStep_guard (hi.dialing _ hop) (hi.owns _ hop) h
    refine ⟨hc.kind, hc.attached, fun ha hl => ?_, by rintro ⟨⟩⟩
    rcases hc.live ha with hnext | ⟨hconn, hready⟩
    · exact .inr hnext
    · exact .inl (hl.imp (fun e => hconn ▸ e) hready)
  | disconnect pc =>
    simp only [opStep, hop] at h
    split at h
    · have hd := disconnectStep_guard (hi.taken _ hop) (Option.some.inj h)
      refine ⟨hd.kind, by rintro ⟨⟩, fun _ hl => .inl ?_, fun _ result e hl => ?_⟩
      · rcases hl with hconn | hready
        · rcases hd.live.1 with e | e
          · exact .inl (e ▸ hconn)
          · exact absurd e hconn
        · exact .inr (hd.live.2 hready)
      · obtain ⟨hconn, hstate⟩ := hd.done result e
        rcases hl with hl | hl
        · exact hl hconn
        · rw [hstate] at hl
          cases hl
    · cases h

theorem opStep_op {s : ActiveSession} {c : OpChoice} {p : ActiveSession × Progress}
    (h : s.opStep c = some p) : ∃ op, s.op = some op := by
  cases ho : s.op with
  | none => simp [opStep, ho] at h
  | some op => exact ⟨op, rfl⟩

theorem Op.attached_connect {op : Op} (h : op.attached = true) : op.isDisconnect = false := by
  cases op with
  | connect _ => rfl
  | disconnect _ => cases h

/-! ## The other steps -/

/-- A new guarded call stands at its first step. -/
theorem guardInv_acquire {s t : ActiveSession} {op : Op}
    (ho : op = .connect .resolve ∨ op = .disconnect .reserve) (h : s.acquireGuard op = some t) :
    s.op = none ∧ t = { s with op := some op } ∧ GuardInv t := by
  simp only [acquireGuard] at h
  split at h <;> cases h
  refine ⟨‹_›, rfl, ?_⟩
  rcases ho with rfl | rfl
  · exact ⟨by rintro _ ⟨⟩ _ ⟨⟩, by rintro _ ⟨⟩ ⟨⟩, by rintro _ ⟨⟩ ⟨⟩⟩
  · exact ⟨by rintro _ ⟨⟩ _ ⟨⟩, by rintro _ ⟨⟩ ⟨⟩, by rintro _ ⟨⟩ ⟨⟩⟩

/-- A step beside the guard leaves the guarded call and the transport alone,
and does not make the session ready. -/
structure Beside (s t : ActiveSession) : Prop where
  op : t.op = s.op
  connection : t.connection = s.connection
  generation : t.controller.generation = s.controller.generation
  ready : t.controller.state = .ready → s.controller.state = .ready
  connecting : s.controller.state = .connecting → t.controller.state = .connecting

theorem Beside.refl (s : ActiveSession) : Beside s s := ⟨rfl, rfl, rfl, id, id⟩

theorem Beside.guardInv {s t : ActiveSession} (h : Beside s t) (hi : GuardInv s) : GuardInv t where
  owns := by
    intro op ho g hg
    rw [h.generation]
    exact hi.owns op (h.op ▸ ho) g hg
  dialing := fun op ho hd => h.connecting (hi.dialing op (h.op ▸ ho) hd)
  taken := by
    intro op ho ht
    rw [h.connection]
    exact hi.taken op (h.op ▸ ho) ht

theorem Beside.live {s t : ActiveSession} (h : Beside s t) (hl : live t) : live s := by
  rcases hl with hc | hr
  · exact .inl (h.connection ▸ hc)
  · exact .inr (h.ready hr)

/-- `mark_waiting_for_credential` and `mark_reconnecting` do not touch a session
that is connecting. -/
theorem beside_mark (s : ActiveSession) {target : ConnectionState} (hr : target ≠ .ready)
    (ht : connectionTransition .connecting target = false) (hc : target ≠ .connecting) :
    Beside s (s.mark target) := by
  unfold mark
  cases h : s.controller.transition target with
  | error e => exact ⟨rfl, rfl, rfl, id, id⟩
  | ok c =>
    rw [transition_ok h]
    refine ⟨rfl, rfl, rfl, fun e => absurd e hr, fun e => ?_⟩
    simp [ConnectionStateController.transition, e, ht, Ne.symm hc] at h

theorem beside_pump {s t : ActiveSession} {g : Nat} {p : Pump} {c : PumpChoice}
    (h : s.pumpStep g p p.pc c = some t) : Beside s t := by
  have hs := (pumpStep_moves h).spec
  refine ⟨hs.op, hs.connection, hs.generation, fun hr => ?_, fun hc => ?_⟩
  · rcases hs.state with e | ⟨e, -⟩
    · exact e ▸ hr
    · rw [e] at hr
      cases hr
  · rcases hs.state with e | ⟨-, hne⟩
    · rw [e, hc]
    · exact absurd hc hne

/-- The steps of a session that belong to no guarded call. -/
theorem beside_step {s t : ActiveSession} {a : Action} (h : step s a = some t)
    (ha : ∀ c, a ≠ .op c) (hc : a ≠ .connect) (hd : a ≠ .disconnect) : Beside s t := by
  cases a with
  | connect => exact absurd rfl hc
  | disconnect => exact absurd rfl hd
  | op c => exact absurd rfl (ha c)
  | pump g c =>
    simp only [step] at h
    split at h
    · exact beside_pump h
    · cases h
  | subscribe channel =>
    cases h
    exact ⟨rfl, rfl, rfl, id, id⟩
  | receive m =>
    obtain ⟨b, q, -, rfl⟩ := receive_spec h
    exact ⟨rfl, rfl, rfl, id, id⟩
  | dropReceiver m =>
    obtain ⟨b, -, rfl⟩ := dropReceiver_spec h
    exact ⟨rfl, rfl, rfl, id, id⟩
  | markWaitingForCredential =>
    cases h
    exact beside_mark s (by decide) rfl (by decide)
  | markReconnecting =>
    cases h
    exact beside_mark s (by decide) rfl (by decide)

end KW.Session
