import KodeWork.Impl.Resources
import KodeWork.Proof.Session.Guard

/-!
# What outlives its transport

`attach` and `disconnect` put a new transport in `connection` (or none), and
then clear the panes, the SFTP session, the transfer manager and the bridges of
the old one. A call that read the old transport before and enters its registry
after the clear leaves an entry that belongs to no stored transport
(`pane_outlives_disconnect`).

In every run in which each call inserts what it opened while the transport is
still the stored one, or the guarded call that replaced it has yet to clear the
registry (`InsertsCurrent`), every entry of a registry that is not about to be
cleared was opened on the stored transport (`registries_current`).
-/

namespace KW.Session

open ActiveSession

inductive Registry
  | panes
  | sftp
  | transfers
  | bridges
deriving DecidableEq, Repr

/-- The registry has an entry that was opened on transport `g`. -/
def ActiveSession.holds (s : ActiveSession) : Registry → Nat → Prop
  | .panes, g => ∃ pane p, s.panes pane = some p ∧ p.transport = g
  | .sftp, g => s.sftp = some g
  | .transfers, g => s.transfers = some g
  | .bridges, g => ∃ bridge, s.herdrBridges bridge = some g

/-- The guarded call has replaced the transport and has yet to clear the
registry. -/
def Op.willClear : Op → Registry → Bool
  | .connect (.clearSftp _), _ => true
  | .connect (.clearPanes _), r => r != .sftp
  | .connect (.clearPending _), r | .connect (.drainBridges _), r => r == .bridges || r == .transfers
  | .connect (.clearTransfers _), r => r == .transfers
  | .disconnect (.close _), _ | .disconnect (.clearPanes _), _ => true
  | .disconnect (.clearSftp _), r => r != .panes
  | .disconnect (.takeTransfers _), r => r == .transfers || r == .bridges
  | .disconnect (.drainBridges _), r => r == .bridges
  | _, _ => false

/-- Whether the holder of the guard, if any, is about to clear the registry. -/
def willClear (op : Option Op) (r : Registry) : Bool := op.any (·.willClear r)

/-- The entry a call makes in its next step. -/
def inserts (s : Resources) : ResourceCall → Option (Registry × Nat)
  | .insertPane g _ _ => if maxPanesPerHost ≤ s.paneCount then none else some (.panes, g)
  | .insertSftp _ g => if s.session.sftp.isSome then none else some (.sftp, g)
  | .insertTransfers g => if s.session.transfers.isSome then none else some (.transfers, g)
  | .insertBridge loop _ => some (.bridges, loop.transport)
  | _ => none

/-- A call inserts what it opened on `g` while `g` is stored, or while the
guarded call that replaced it has yet to clear the registry. -/
def InsertsCurrent (s : Resources) : ResourceAction → Prop
  | .step i _ => ∀ e ∈ (s.calls i).bind (inserts s),
      s.session.connection = some e.2 ∨ willClear s.session.op e.1 = true
  | _ => True

instance (s : Resources) : ∀ a, Decidable (InsertsCurrent s a)
  | .step i _ => inferInstanceAs (Decidable (∀ e ∈ (s.calls i).bind (inserts s),
      s.session.connection = some e.2 ∨ willClear s.session.op e.1 = true))
  | .session _ | .call _ _ => .isTrue trivial

/-! ## The session's own steps -/

/-- What a step of the session does to the registries: it only empties them,
and one that is not about to be cleared any more is empty, or was not about to
be cleared before and has the transport it had. -/
structure RegistrySpec (s : ActiveSession) (op : Option Op) (t : ActiveSession) (op' : Option Op) :
    Prop where
  shrinks : ∀ r g, t.holds r g → s.holds r g
  settled : ∀ r, willClear op' r = false → (∀ g, ¬ t.holds r g) ∨
    (willClear op r = false ∧ t.connection = s.connection)

/-- A step that leaves the registries and the transport alone. -/
theorem RegistrySpec.keep {s t : ActiveSession} {op op' : Option Op}
    (hk : t.connection = s.connection) (hp : t.panes = s.panes) (hs : t.sftp = s.sftp)
    (ht : t.transfers = s.transfers) (hb : t.herdrBridges = s.herdrBridges)
    (ho : ∀ r, willClear op' r = false → willClear op r = false) : RegistrySpec s op t op' where
  shrinks := by
    intro r g h
    cases r <;> simpa only [holds, hp, hs, ht, hb] using h
  settled := fun r hr => .inr ⟨ho r hr, hk⟩

/-- The registry is emptied. -/
def ActiveSession.clearRegistry (s : ActiveSession) : Registry → ActiveSession
  | .panes => { s with panes := fun _ => none }
  | .sftp => { s with sftp := none }
  | .transfers => { s with transfers := none }
  | .bridges => { s with herdrBridges := fun _ => none }

theorem holds_clearRegistry (s : ActiveSession) (q r : Registry) (g : Nat) :
    (s.clearRegistry q).holds r g ↔ r ≠ q ∧ s.holds r g := by
  cases q <;> cases r <;> simp [clearRegistry, holds]

/-- A step that empties the registry `q` and leaves the others as they are. -/
theorem RegistrySpec.clear {s : ActiveSession} {op op' : Option Op} (q : Registry)
    (ho : ∀ r, r ≠ q → willClear op' r = false → willClear op r = false) :
    RegistrySpec s op (s.clearRegistry q) op' where
  shrinks := fun r g h => ((holds_clearRegistry s q r g).mp h).2
  settled := by
    intro r hr
    by_cases e : r = q
    · exact .inl fun g h => ((holds_clearRegistry s q r g).mp h).1 e
    · exact .inr ⟨ho r e hr, by cases q <;> rfl⟩

/-- A `set_state` touches no registry. -/
theorem RegistrySpec.setState {s t : ActiveSession} {op : Option Op} {target : ConnectionState}
    {p r : Progress} (h : s.setStateThen target p = (t, r))
    (ho : ∀ x, willClear op x = false) : RegistrySpec s op t r.op := by
  rcases setStateThen_cases s target p with e | e <;> rw [e] at h <;> cases h
  · exact .keep rfl rfl rfl rfl rfl fun x _ => ho x
  · exact .keep rfl rfl rfl rfl rfl fun x _ => ho x

theorem connectStep_registry {s t : ActiveSession} {pc : ConnectPc} {c : OpChoice} {r : Progress}
    (h : s.connectStep pc c = some (t, r)) : RegistrySpec s (some (.connect pc)) t r.op := by
  cases pc with
  | resolve | setReady _ | setFailed _ =>
    cases c <;> simp only [connectStep, reduceCtorEq, Option.some.injEq] at h
    exact .setState h fun _ => rfl
  | candidates =>
    cases c <;> simp only [connectStep, reduceCtorEq] at h
    split at h <;> cases h <;> exact .keep rfl rfl rfl rfl rfl fun _ _ => rfl
  | reserve n | spawnPump g =>
    cases c <;> simp only [connectStep, reduceCtorEq, Option.some.injEq] at h
    cases h
    exact .keep rfl rfl rfl rfl rfl fun _ _ => rfl
  | jump n g =>
    cases c <;> simp only [connectStep, reduceCtorEq, Option.some.injEq] at h <;> cases h <;>
      exact .keep rfl rfl rfl rfl rfl fun _ _ => rfl
  | attempt n g e =>
    cases n <;> cases c <;> simp only [connectStep, reduceCtorEq, Option.some.injEq] at h
    · cases h
      exact .keep rfl rfl rfl rfl rfl fun _ _ => rfl
    · exact .setState h fun _ => rfl
  | dial n g =>
    cases c <;> simp only [connectStep, reduceCtorEq, Option.some.injEq] at h
    · cases h
      exact .keep rfl rfl rfl rfl rfl fun _ _ => rfl
    · split at h <;> cases h <;> exact .keep rfl rfl rfl rfl rfl fun _ _ => rfl
  | install g =>
    cases c <;> simp only [connectStep, reduceCtorEq] at h
    split at h <;> cases h <;> exact .keep rfl rfl rfl rfl rfl fun _ _ => rfl
  | store g =>
    cases c <;> simp only [connectStep, reduceCtorEq, Option.some.injEq] at h
    cases h
    exact ⟨fun _ _ h => h, fun r hr => by cases r <;> cases hr⟩
  | clearSftp g =>
    cases c <;> simp only [connectStep, reduceCtorEq, Option.some.injEq] at h
    cases h
    exact .clear .sftp fun r hr h => by cases r <;> first | exact absurd rfl hr | cases h
  | clearPanes g =>
    cases c <;> simp only [connectStep, reduceCtorEq, Option.some.injEq] at h
    cases h
    exact .clear .panes fun r hr h => by cases r <;> first | rfl | exact absurd rfl hr | cases h
  | clearPending g =>
    cases c <;> simp only [connectStep, reduceCtorEq, Option.some.injEq] at h
    cases h
    exact .keep rfl rfl rfl rfl rfl fun r hr => by cases r <;> first | rfl | cases hr
  | drainBridges g =>
    cases c <;> simp only [connectStep, reduceCtorEq, Option.some.injEq] at h
    cases h
    exact .clear .bridges fun r hr h => by cases r <;> first | rfl | exact absurd rfl hr | cases h
  | clearTransfers g =>
    cases c <;> simp only [connectStep, reduceCtorEq, Option.some.injEq] at h
    cases h
    exact .clear .transfers fun r hr h => by cases r <;> first | rfl | exact absurd rfl hr

theorem disconnectStep_registry {s t : ActiveSession} {pc : DisconnectPc} {r : Progress}
    (h : s.disconnectStep pc = (t, r)) : RegistrySpec s (some (.disconnect pc)) t r.op := by
  cases pc with
  | reserve | closeTunnels =>
    cases h
    exact .keep rfl rfl rfl rfl rfl fun _ _ => rfl
  | take g =>
    cases h
    exact ⟨fun _ _ h => h, fun r hr => by cases r <;> cases hr⟩
  | close g =>
    cases h
    exact .keep rfl rfl rfl rfl rfl fun r hr => by cases r <;> cases hr
  | clearPanes g =>
    cases h
    exact .clear .panes fun r hr h => by cases r <;> first | exact absurd rfl hr | cases h
  | clearSftp g =>
    cases h
    exact .clear .sftp fun r hr h => by cases r <;> first | rfl | exact absurd rfl hr | cases h
  | takeTransfers g =>
    cases h
    exact .clear .transfers fun r hr h => by cases r <;> first | rfl | exact absurd rfl hr | cases h
  | drainBridges g =>
    cases h
    exact .clear .bridges fun r hr h => by cases r <;> first | rfl | exact absurd rfl hr
  | clearSubscribers g | clearPending g =>
    cases h
    exact .keep rfl rfl rfl rfl rfl fun _ _ => rfl
  | setDisconnected => exact .setState h fun _ => rfl

/-- A step of a pump touches no registry. -/
theorem PumpMoves.registry {s t : ActiveSession} {g : Nat} {p : Pump} (h : PumpMoves s g p t) :
    RegistrySpec s s.op t t.op := by
  cases h with
  | quiet q | publish e | flip => exact .keep rfl rfl rfl rfl rfl fun _ h => h
  | deliver hpc hd =>
    obtain ⟨-, -, e⟩ := deliverOne_spec hd
    rw [e]
    exact .keep rfl rfl rfl rfl rfl fun _ h => h

theorem step_registry {s t : ActiveSession} {a : Action} (h : step s a = some t) :
    RegistrySpec s s.op t t.op := by
  rcases step_cases h with ⟨op, hn, rfl, -⟩ | ⟨c, op, u, r, -, ho, hr, rfl⟩ |
    ⟨g, c, p, -, -, hs⟩ | ⟨channel, -, rfl⟩ | ⟨m, hm⟩ | ⟨target, -, rfl⟩
  · exact .keep rfl rfl rfl rfl rfl fun _ _ => by rw [hn]; rfl
  · rw [ho]
    cases op with
    | connect pc =>
      simp only [opStep, ho] at hr
      obtain ⟨hshrink, hsettled⟩ := connectStep_registry hr
      exact ⟨hshrink, hsettled⟩
    | disconnect pc =>
      simp only [opStep, ho] at hr
      split at hr
      · obtain ⟨hshrink, hsettled⟩ := disconnectStep_registry (Option.some.inj hr)
        exact ⟨hshrink, hsettled⟩
      · cases hr
  · exact (pumpStep_moves hs).registry
  · exact .keep rfl rfl rfl rfl rfl fun _ h => h
  · rcases hm with hm | hm
    · obtain ⟨b, q, -, rfl⟩ := receive_spec hm
      exact .keep rfl rfl rfl rfl rfl fun _ h => h
    · obtain ⟨b, -, rfl⟩ := dropReceiver_spec hm
      exact .keep rfl rfl rfl rfl rfl fun _ h => h
  · rcases mark_cases s target with e | e <;> rw [e] <;>
      exact .keep rfl rfl rfl rfl rfl fun _ h => h

/-! ## The calls -/

/-- What a step of a call does: the holder of the guard and the transport stay,
and the only new entry is the one it inserts. -/
structure CallSpec (s : Resources) (call : ResourceCall) (t : Resources) : Prop where
  op : t.session.op = s.session.op
  connection : t.session.connection = s.session.connection
  entry : ∀ r g, t.session.holds r g → s.session.holds r g ∨ inserts s call = some (r, g)

theorem CallSpec.quiet {s t : Resources} {call : ResourceCall} (h : t.session = s.session) :
    CallSpec s call t := ⟨by rw [h], by rw [h], fun r g hr => .inl (h ▸ hr)⟩

/-- A new or removed pane. -/
theorem holds_updatePanes {s : ActiveSession} {pane : Nat} {p : Option Pane} {r : Registry} {g : Nat}
    (h : ({ s with panes := Function.update s.panes pane p } : ActiveSession).holds r g) :
    s.holds r g ∨ (r = .panes ∧ p.map Pane.transport = some g) := by
  cases r with
  | panes =>
    obtain ⟨k, q, hk, hq⟩ := h
    rcases entry_of_update hk with ⟨-, rfl⟩ | ⟨-, hk⟩
    · exact .inr ⟨rfl, congrArg some hq⟩
    · exact .inl ⟨k, q, hk, hq⟩
  | sftp | transfers | bridges => exact .inl h

/-- A new or removed bridge. -/
theorem holds_updateBridges {s : ActiveSession} {bridge : Nat} {b : Option Nat} {r : Registry}
    {g : Nat}
    (h : ({ s with herdrBridges := Function.update s.herdrBridges bridge b } : ActiveSession).holds r g) :
    s.holds r g ∨ (r = .bridges ∧ b = some g) := by
  cases r with
  | bridges =>
    obtain ⟨k, hk⟩ := h
    rcases entry_of_update hk with ⟨-, hb⟩ | ⟨-, hk⟩
    · exact .inr ⟨rfl, hb⟩
    · exact .inl ⟨k, hk⟩
  | panes | sftp | transfers => exact .inl h

theorem callStep_spec {s t : Resources} {i : Nat} {call : ResourceCall} {answer : Remote}
    (h : s.callStep i call answer = some t) : CallSpec s call t := by
  cases call with
  | paneConnection | sftpCached _ | sftpConnection _ | transfersCached | bridgeConnection _ =>
    cases answer <;> simp only [Resources.callStep, reduceCtorEq] at h
    split at h <;> cases h <;> exact .quiet rfl
  | paneId _ _ | closePty _ | bridgeGeneration _ _ | occupied _ _ _ =>
    cases answer <;> simp only [Resources.callStep, reduceCtorEq, Option.some.injEq] at h
    cases h
    exact .quiet rfl
  | openPty _ | openSftp _ _ | socketPath _ | hasSocat _ | execOwned _ _ | ensureRunning _ _
  | openTunnel _ _ | closeBridge =>
    cases answer <;> simp only [Resources.callStep, reduceCtorEq, Option.some.injEq] at h <;>
      cases h <;> exact .quiet rfl
  | nextPort loop =>
    cases answer <;> simp only [Resources.callStep, reduceCtorEq] at h
    split at h
    · cases h
      exact .quiet rfl
    · split at h <;> cases h <;> exact .quiet rfl
  | insertPane g channel pane =>
    cases answer <;> simp only [Resources.callStep, reduceCtorEq] at h
    split at h <;> cases h
    · exact .quiet rfl
    · rename_i hcount
      refine ⟨rfl, rfl, fun r k hr => ?_⟩
      rcases holds_updatePanes hr with hr | ⟨rfl, hk⟩
      · exact .inl hr
      · cases hk
        exact .inr (if_neg hcount)
  | insertSftp manager g =>
    cases answer <;> simp only [Resources.callStep, reduceCtorEq] at h
    split at h <;> cases h
    · exact .quiet rfl
    · rename_i hnone
      refine ⟨rfl, rfl, fun r k hr => ?_⟩
      cases r with
      | sftp =>
        cases hr
        exact .inr (by simp only [inserts, hnone, Option.isSome_none, Bool.false_eq_true, if_false])
      | panes | transfers | bridges => exact .inl hr
  | insertTransfers g =>
    cases answer <;> simp only [Resources.callStep, reduceCtorEq] at h
    split at h <;> cases h
    · exact .quiet rfl
    · rename_i hnone
      refine ⟨rfl, rfl, fun r k hr => ?_⟩
      cases r with
      | transfers =>
        cases hr
        exact .inr (by simp only [inserts, hnone, Option.isSome_none, Bool.false_eq_true, if_false])
      | panes | sftp | bridges => exact .inl hr
  | insertBridge loop port =>
    cases answer <;> simp only [Resources.callStep, reduceCtorEq, Option.some.injEq] at h
    cases h
    refine ⟨rfl, rfl, fun r k hr => ?_⟩
    rcases holds_updateBridges hr with hr | ⟨rfl, hk⟩
    · exact .inl hr
    · cases hk
      exact .inr rfl
  | removePane pane =>
    cases answer <;> simp only [Resources.callStep, reduceCtorEq] at h
    split at h <;> cases h
    · exact .quiet rfl
    · refine ⟨rfl, rfl, fun r k hr => ?_⟩
      rcases holds_updatePanes hr with hr | ⟨-, hk⟩
      · exact .inl hr
      · cases hk
  | removeBridge bridge =>
    cases answer <;> simp only [Resources.callStep, reduceCtorEq] at h
    split at h <;> cases h
    · exact .quiet rfl
    · refine ⟨rfl, rfl, fun r k hr => ?_⟩
      rcases holds_updateBridges hr with hr | ⟨-, hk⟩
      · exact .inl hr
      · cases hk
  | dropPending _ | removePending _ =>
    cases answer <;> simp only [Resources.callStep, reduceCtorEq, Option.some.injEq] at h
    cases h
    exact ⟨rfl, rfl, fun r k hr => .inl (by cases r <;> exact hr)⟩
  | returned result => cases answer <;> simp only [Resources.callStep, reduceCtorEq] at h

/-! ## Every run -/

/-- Every entry of a registry that is not about to be cleared was opened on the
stored transport. -/
def RegistryInv (s : ActiveSession) : Prop :=
  ∀ r, willClear s.op r = false → ∀ g, s.holds r g → s.connection = some g

theorem registryInv_new (eventBuffer : Nat) : RegistryInv (.new eventBuffer) := by
  rintro r - g h
  cases r with
  | panes => obtain ⟨_, _, h, -⟩ := h; cases h
  | bridges => obtain ⟨_, h⟩ := h; cases h
  | sftp | transfers => cases h

theorem registryInv_session {s t : ActiveSession} {a : Action} (hi : RegistryInv s)
    (h : step s a = some t) : RegistryInv t := by
  have hs := step_registry h
  intro r hr g hg
  rcases hs.settled r hr with hnone | ⟨hr', hk⟩
  · exact absurd hg (hnone g)
  · rw [hk]
    exact hi r hr' g (hs.shrinks r g hg)

theorem registryInv_step {s t : Resources} {a : ResourceAction} (hi : RegistryInv s.session)
    (hok : InsertsCurrent s a) (h : resourceStep s a = some t) : RegistryInv t.session := by
  cases a with
  | session a =>
    obtain ⟨u, hu, rfl⟩ := Option.map_eq_some_iff.mp h
    exact registryInv_session hi hu
  | call i call =>
    simp only [resourceStep] at h
    split at h <;> cases h
    exact hi
  | step i answer =>
    simp only [resourceStep] at h
    split at h
    · rename_i call hcall
      have hs := callStep_spec h
      intro r hr g hg
      rw [hs.connection]
      rw [hs.op] at hr
      rcases hs.entry r g hg with hold | hnew
      · exact hi r hr g hold
      · have hin : (r, g) ∈ (s.calls i).bind (inserts s) := by rw [hcall]; exact hnew
        rcases hok (r, g) hin with hk | hw
        · exact hk
        · exact absurd (hr.symm.trans hw) Bool.noConfusion
    · cases h

/-- In every run in which each call inserts what it opened while its transport
is stored, or before the registry is cleared of it: an entry of a registry that
is not about to be cleared was opened on the stored transport; between guarded
calls that is every entry, and without a stored transport there is none. -/
theorem registries_current {s : Resources}
    (h : resourceMachine.Reach InsertsCurrent InitialResources s) :
    (∀ r, willClear s.session.op r = false → ∀ g, s.session.holds r g →
      s.session.connection = some g) ∧
    (s.session.op = none → ∀ r g, s.session.holds r g → s.session.connection = some g) ∧
    (s.session.op = none → s.session.connection = none → ∀ r g, ¬ s.session.holds r g) := by
  have hi : RegistryInv s.session := h.invariant (I := fun s : Resources => RegistryInv s.session)
    (by rintro s ⟨b, u, rfl⟩; exact registryInv_new b)
    (fun _ _ _ hi hok hs => registryInv_step hi hok hs)
  have hfree : s.session.op = none → ∀ r g, s.session.holds r g → s.session.connection = some g :=
    fun hop r g hg => hi r (by rw [hop]; rfl) g hg
  refine ⟨hi, hfree, fun hop hn r g hg => ?_⟩
  rw [hfree hop r g hg] at hn
  cases hn

/-- A connect call to `Ready`, and an `open_pane` that has its PTY. -/
def openPaneTrace : List ResourceAction :=
  List.flatten [attachTrace.map .session, [.session (.op .go), .call 0 .paneConnection, .step 0 .go,
    .step 0 (.opened 7), .step 0 .go]]

/-- Whether the pane 0 is one of transport 1, beside this stored transport and
no guarded call. -/
def paneIn (connection : Option Nat) (s : Resources) : Bool :=
  s.session.op == none && s.session.connection == connection &&
    (s.session.panes 0).any fun p => p.transport == 1

theorem paneIn_iff {connection : Option Nat} {s : Resources} :
    paneIn connection s = true ↔ (s.session.op = none ∧ s.session.connection = connection) ∧
      ∃ p, s.session.panes 0 = some p ∧ p.transport = 1 := by
  simp [paneIn, Option.any_eq_true]

theorem opened_pane_current :
    ∃ s, resourceMachine.Reach InsertsCurrent InitialResources s ∧ s.session.holds .panes 1 ∧
      s.session.connection = some 1 := by
  obtain ⟨s, hs, hp⟩ := Machine.Reach.of_run resourceMachine InsertsCurrent (initResources_new 512 0)
    (List.flatten [openPaneTrace, [.step 0 .go]]) (paneIn (some 1)) (by decide)
  obtain ⟨⟨hop, -⟩, p, hp, hg⟩ := paneIn_iff.mp hp
  have hh : s.session.holds .panes 1 := ⟨0, p, hp, hg⟩
  exact ⟨s, hs, hh, (registries_current hs).2.1 hop .panes 1 hh⟩

/-- `open_pane` has its PTY when a `disconnect` runs to its end; it then
inserts the pane, which stays without a transport. -/
theorem pane_outlives_disconnect :
    ∃ s, resourceMachine.Reach Machine.free InitialResources s ∧ s.session.op = none ∧
      s.session.connection = none ∧ s.session.holds .panes 1 := by
  obtain ⟨s, hs, hp⟩ := Machine.Reach.of_run resourceMachine Machine.free (initResources_new 512 0)
    (List.flatten [openPaneTrace, [.session .disconnect], List.replicate 11 (.session (.op .go)),
      [.step 0 .go]]) (paneIn none) (by decide)
  obtain ⟨⟨hop, hk⟩, p, hp, hg⟩ := paneIn_iff.mp hp
  exact ⟨s, hs, hop, hk, 0, p, hp, hg⟩

end KW.Session
