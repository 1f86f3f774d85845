import Mathlib.Data.Set.Card
import KodeWork.Impl.Panes
import KodeWork.Proof.Session.Registry

/-!
# The keys of the replay buffer

`pump_events` keeps an event for replay under its channel, when no subscriber of the
channel is there. `close_pane`, a rejected `open_pane` and a subscription take the
key out again, once. As long as only events of panes are kept that are in the
registry, being opened or being closed (`KeepsPanes`), every key belongs to one of
them (`pending_keys`), and there are no more keys than panes. Nothing in the pump
sees to that: the close of a channel arrives after `close_pane` has taken its key
out (`closed_pane_key`).
-/

namespace KW.Session

open ActiveSession

/-! ## Keys and their panes -/

/-- The channel a call of `open_pane` has, given the one opened for it. -/
def ResourceCall.opens (confirmed : Option Nat) : ResourceCall → Option Nat
  | .openPty _ => confirmed
  | .paneId _ channel | .insertPane _ channel _ | .closePty channel | .dropPending channel => some channel
  | _ => none

/-- The channel of a pane that `close_pane` has taken out of the registry. -/
def ResourceCall.closes : ResourceCall → Option Nat
  | .removePending channel => some channel
  | _ => none

namespace Panes

/-- The ids of the panes in the registry. -/
def registered (s : Panes) : Set Nat := { pane | (s.resources.session.panes pane).isSome }

/-- The calls of `open_pane` that have a channel. -/
def opening (s : Panes) : Set Nat :=
  { i | ∃ call channel, s.resources.calls i = some call ∧ call.opens (s.confirmed i) = some channel }

/-- The keys of `pending_events`. -/
def keys (s : Panes) : Set Nat := { channel | (s.resources.session.pendingEvents channel).isSome }

def Registered (s : Panes) (channel : Nat) : Prop :=
  ∃ pane p, s.resources.session.panes pane = some p ∧ p.channel = channel

def Opening (s : Panes) (channel : Nat) : Prop :=
  ∃ i call, s.resources.calls i = some call ∧ call.opens (s.confirmed i) = some channel

def Closing (s : Panes) (channel : Nat) : Prop :=
  ∃ i call, s.resources.calls i = some call ∧ call.closes = some channel

/-- The channel is that of a pane. -/
def Covered (s : Panes) (channel : Nat) : Prop :=
  s.Registered channel ∨ s.Opening channel ∨ s.Closing channel

end Panes

/-- The guarded call has cleared the panes of a transport and has yet to clear the replay
buffer. -/
def Op.willClearPending : Op → Bool
  | .connect (.clearPending _) => true
  | .disconnect (.clearSftp _) | .disconnect (.takeTransfers _) | .disconnect (.drainBridges _)
  | .disconnect (.clearSubscribers _) | .disconnect (.clearPending _) => true
  | _ => false

def willClearPending (op : Option Op) : Bool := op.any (·.willClearPending)

/-- The channel whose event a step of a pump keeps for replay. -/
def replays (s : ActiveSession) : Action → Option Nat
  | .pump g .go =>
    match s.pumps g with
    | some ⟨.publish e, _, _⟩ => (sessionEventChannel e).filter fun channel =>
      !(s.subscribers.filter fun sub => !s.isClosed sub.mailbox).any fun sub => sub.filter == some channel
    | _ => none
  | _ => none

/-- Only events of panes are kept, and `open_pty` does not fail when some are. -/
def KeepsPanes (s : Panes) : PaneAction → Prop
  | .base (.session a) => ∀ channel, replays s.resources.session a = some channel →
    willClearPending s.resources.session.op = true ∨ s.Covered channel
  | .base (.step i (.failed _)) => ∀ call channel, s.resources.calls i = some call →
    call.opens (s.confirmed i) = some channel →
      willClearPending s.resources.session.op = true ∨ channel ∉ s.keys
  | _ => True

/-! ## The session's own steps -/

/-- What a step of the session does to the panes and the replay buffer: panes only go,
and unless the buffer is about to be cleared, it is empty, or neither was about to be
cleared before and has at most one key more. -/
structure ReplaySpec (s : ActiveSession) (a : Option Nat) (op : Option Op) (t : ActiveSession)
    (op' : Option Op) : Prop where
  panes : ∀ pane p, t.panes pane = some p → s.panes pane = some p
  pending : willClearPending op' = false → (∀ channel, t.pendingEvents channel = none) ∨
    willClearPending op = false ∧ t.panes = s.panes ∧ ∀ channel, (t.pendingEvents channel).isSome →
      (s.pendingEvents channel).isSome ∨ a = some channel

theorem ReplaySpec.keep {s t : ActiveSession} {a : Option Nat} {op op' : Option Op}
    (hp : t.panes = s.panes) (he : t.pendingEvents = s.pendingEvents)
    (ho : willClearPending op' = false → willClearPending op = false) : ReplaySpec s a op t op' where
  panes pane p h := by rwa [hp] at h
  pending h := .inr ⟨ho h, hp, fun channel hc => .inl (he ▸ hc)⟩

theorem ReplaySpec.setState {s t : ActiveSession} {a : Option Nat} {op : Option Op}
    {target : ConnectionState} {p r : Progress} (h : s.setStateThen target p = (t, r))
    (ho : willClearPending op = false) : ReplaySpec s a op t r.op := by
  rcases setStateThen_cases s target p with e | e <;> rw [e] at h <;> cases h
  · exact .keep rfl rfl fun _ => ho
  · exact .keep rfl rfl fun _ => ho

theorem connectStep_replay {s t : ActiveSession} {pc : ConnectPc} {c : OpChoice} {r : Progress}
    (h : s.connectStep pc c = some (t, r)) : ReplaySpec s none (some (.connect pc)) t r.op := by
  cases pc with
  | resolve | setReady _ | setFailed _ =>
    cases c <;> simp only [connectStep, reduceCtorEq, Option.some.injEq] at h
    exact .setState h rfl
  | candidates =>
    cases c <;> simp only [connectStep, reduceCtorEq] at h
    split at h <;> cases h <;> exact .keep rfl rfl fun _ => rfl
  | reserve n | spawnPump g | store g | clearSftp g | drainBridges g | clearTransfers g =>
    cases c <;> simp only [connectStep, reduceCtorEq, Option.some.injEq] at h
    cases h
    exact .keep rfl rfl fun _ => rfl
  | jump n g =>
    cases c <;> simp only [connectStep, reduceCtorEq, Option.some.injEq] at h <;> cases h <;>
      exact .keep rfl rfl fun _ => rfl
  | attempt n g e =>
    cases n <;> cases c <;> simp only [connectStep, reduceCtorEq, Option.some.injEq] at h
    · cases h
      exact .keep rfl rfl fun _ => rfl
    · exact .setState h rfl
  | dial n g =>
    cases c <;> simp only [connectStep, reduceCtorEq, Option.some.injEq] at h
    · cases h
      exact .keep rfl rfl fun _ => rfl
    · split at h <;> cases h <;> exact .keep rfl rfl fun _ => rfl
  | install g =>
    cases c <;> simp only [connectStep, reduceCtorEq] at h
    split at h <;> cases h <;> exact .keep rfl rfl fun _ => rfl
  | clearPanes g =>
    cases c <;> simp only [connectStep, reduceCtorEq, Option.some.injEq] at h
    cases h
    exact ⟨by rintro _ _ ⟨⟩, by rintro ⟨⟩⟩
  | clearPending g =>
    cases c <;> simp only [connectStep, reduceCtorEq, Option.some.injEq] at h
    cases h
    exact ⟨fun _ _ h => h, fun _ => .inl fun _ => rfl⟩

theorem disconnectStep_replay {s t : ActiveSession} {pc : DisconnectPc} {r : Progress}
    (h : s.disconnectStep pc = (t, r)) : ReplaySpec s none (some (.disconnect pc)) t r.op := by
  cases pc with
  | reserve | take g | close g | closeTunnels =>
    cases h
    exact .keep rfl rfl fun _ => rfl
  | clearSftp g | takeTransfers g | drainBridges g | clearSubscribers g =>
    cases h
    exact .keep rfl rfl (by rintro ⟨⟩)
  | clearPanes g =>
    cases h
    exact ⟨by rintro _ _ ⟨⟩, by rintro ⟨⟩⟩
  | clearPending g =>
    cases h
    exact ⟨fun _ _ h => h, fun _ => .inl fun _ => rfl⟩
  | setDisconnected => exact .setState h rfl

theorem isSome_pushPendingEvent {pending : PendingEvents} {channel c : Nat} {e : Emitted}
    (h : (pushPendingEvent pending channel e c).isSome) : (pending c).isSome ∨ channel = c := by
  simp only [pushPendingEvent] at h
  by_cases hc : c = channel
  · exact .inr hc.symm
  · rw [Function.update_of_ne hc] at h
    exact .inl h

/-- The section of a pump that keeps an event. -/
theorem publish_replay {s : ActiveSession} {g : Nat} {p : Pump} {e : SessionEvent}
    (hp : s.pumps g = some p) (hpc : p.pc = .publish e) {c : Nat}
    (hc : ((s.publish ⟨g, e⟩).pendingEvents c).isSome) :
    (s.pendingEvents c).isSome ∨ replays s (.pump g .go) = some c := by
  obtain ⟨pc, primaries, lost⟩ := p
  subst hpc
  simp only [ActiveSession.publish] at hc
  split at hc
  · rename_i channel hchannel
    split at hc
    · exact .inl hc
    · rename_i hnone
      rcases isSome_pushPendingEvent hc with hold | rfl
      · exact .inl hold
      · refine .inr ?_
        simp only [replays, hp, hchannel]
        rw [Option.filter_some, if_pos]
        simpa using hnone
  · exact .inl hc

theorem pump_replay {s t : ActiveSession} {g : Nat} {p : Pump} {c : PumpChoice} (hp : s.pumps g = some p)
    (h : s.pumpStep g p p.pc c = some t) : ReplaySpec s (replays s (.pump g c)) s.op t t.op := by
  have hmoves := pumpStep_moves h
  cases hmoves with
  | quiet q => exact .keep rfl rfl id
  | publish e hpc =>
    obtain rfl : c = .go := by
      rw [hpc] at h
      cases c <;> first | rfl | cases h
    exact ⟨fun _ _ h => h, fun hw => .inr ⟨hw, rfl, fun channel hc => publish_replay hp hpc hc⟩⟩
  | deliver hpc hd =>
    obtain ⟨-, -, e⟩ := deliverOne_spec hd
    rw [e]
    exact .keep rfl rfl id
  | flip hpc hs => exact .keep rfl rfl id

theorem step_replay {s t : ActiveSession} {a : Action} (h : step s a = some t) :
    ReplaySpec s (replays s a) s.op t t.op := by
  obtain ⟨op, hop, rfl, -, -⟩ | ⟨c, op, u, r, rfl, hop, hr, rfl⟩ | ⟨g, c, p, rfl, hp, hstep⟩ |
    ⟨channel, rfl, rfl⟩ | ⟨m, hm⟩ | ⟨target, -, rfl⟩ := step_cases h
  · exact .keep rfl rfl fun _ => by rw [hop]; rfl
  · rw [hop]
    simp only [opStep, hop] at hr
    cases op with
    | connect pc =>
      have hspec := connectStep_replay hr
      exact ⟨hspec.panes, hspec.pending⟩
    | disconnect pc =>
      obtain ⟨-, hr⟩ := Option.ite_none_right_eq_some.mp hr
      have hspec := disconnectStep_replay (Option.some.inj hr)
      exact ⟨hspec.panes, hspec.pending⟩
  · exact pump_replay hp hstep
  · refine ⟨fun _ _ h => h, fun hw => .inr ⟨hw, rfl, fun c hc => .inl ?_⟩⟩
    cases channel with
    | none => exact hc
    | some channel =>
      by_cases hcc : c = channel
      · simp [ActiveSession.subscribe, hcc] at hc
      · simpa [ActiveSession.subscribe, Function.update_of_ne hcc] using hc
  · rcases hm with hm | hm
    · obtain ⟨b, q, -, rfl⟩ := receive_spec hm
      exact .keep rfl rfl id
    · obtain ⟨b, -, rfl⟩ := dropReceiver_spec hm
      exact .keep rfl rfl id
  · rcases mark_cases s target with e | e <;> rw [e]
    · exact .keep rfl rfl id
    · exact .keep rfl rfl id

/-! ## The calls -/

/-- What a step of the call `call` does to the panes, the replay buffer and the calls. -/
inductive CallMoves (s : Resources) (i : Nat) (call : ResourceCall) : Remote → Resources → Prop
  /-- The call keeps its channel, and nothing else changes. -/
  | quiet {answer : Remote} {t : Resources} (next : ResourceCall)
    (hpanes : t.session.panes = s.session.panes) (hpending : t.session.pendingEvents = s.session.pendingEvents)
    (hop : t.session.op = s.session.op) (hpane : t.nextPane = s.nextPane)
    (hcalls : t.calls = Function.update s.calls i (some next))
    (hopens : ∀ confirmed channel, call.opens confirmed = some channel → next.opens confirmed = some channel)
    (hcloses : call.closes = none) (hinsert : ∀ g channel pane, next ≠ .insertPane g channel pane) :
    CallMoves s i call answer t
  | failed {g : Nat} (message : String) (hcall : call = .openPty g) :
    CallMoves s i call (.failed message) (s.put i (.returned (.error message)))
  | opened {g : Nat} (channel : Nat) (hcall : call = .openPty g) :
    CallMoves s i call (.opened channel) (s.put i (.paneId g channel))
  | number {g channel : Nat} {answer : Remote} (hcall : call = .paneId g channel) :
    CallMoves s i call answer ({ s with nextPane := s.nextPane + 1 }.put i (.insertPane g channel s.nextPane))
  | insert {g channel pane : Nat} {answer : Remote} (hcall : call = .insertPane g channel pane)
    (hfew : s.paneCount < maxPanesPerHost) :
    CallMoves s i call answer ({ s with session := { s.session with
      panes := Function.update s.session.panes pane (some ⟨g, channel⟩) } }.put i
        (.returned (.pane pane channel)))
  | remove {pane : Nat} {answer : Remote} (p : Pane) (hcall : call = .removePane pane)
    (hp : s.session.panes pane = some p) :
    CallMoves s i call answer ({ s with session := { s.session with
      panes := Function.update s.session.panes pane none } }.put i (.removePending p.channel))
  | drop {channel : Nat} {answer : Remote} (result : ResourceResult)
    (hcall : call = .dropPending channel ∨ call = .removePending channel) :
    CallMoves s i call answer ({ s with session := { s.session with
      pendingEvents := Function.update s.session.pendingEvents channel none } }.put i (.returned result))

/-- A step on to `next` that touches neither panes nor replay buffer, of a call without a
channel. -/
theorem CallMoves.idle {s t : Resources} {i : Nat} {call next : ResourceCall} {answer : Remote}
    (hpanes : t.session.panes = s.session.panes) (hpending : t.session.pendingEvents = s.session.pendingEvents)
    (hop : t.session.op = s.session.op) (hpane : t.nextPane = s.nextPane)
    (hcalls : t.calls = Function.update s.calls i (some next))
    (hopens : ∀ confirmed, call.opens confirmed = none) (hcloses : call.closes = none)
    (hinsert : ∀ g channel pane, next ≠ .insertPane g channel pane) : CallMoves s i call answer t :=
  .quiet next hpanes hpending hop hpane hcalls
    (fun confirmed channel h => by cases (hopens confirmed).symm.trans h) hcloses hinsert

theorem callStep_panes {s t : Resources} {i : Nat} {call : ResourceCall} {answer : Remote}
    (h : s.callStep i call answer = some t) : CallMoves s i call answer t := by
  cases call with
  | paneConnection =>
    cases answer <;> simp only [Resources.callStep, reduceCtorEq] at h
    split at h <;> cases h
    · exact .idle rfl rfl rfl rfl rfl (fun _ => rfl) rfl (by rintro _ _ _ ⟨⟩)
    · exact .idle rfl rfl rfl rfl rfl (fun _ => rfl) rfl (by rintro _ _ _ ⟨⟩)
  | openPty g =>
    cases answer <;> simp only [Resources.callStep, reduceCtorEq, Option.some.injEq] at h
    · cases h
      exact .opened _ rfl
    · cases h
      exact .failed _ rfl
  | paneId g channel =>
    cases answer <;> simp only [Resources.callStep, reduceCtorEq, Option.some.injEq] at h
    cases h
    exact .number rfl
  | insertPane g channel pane =>
    cases answer <;> simp only [Resources.callStep, reduceCtorEq] at h
    split at h
    · cases h
      exact .quiet _ rfl rfl rfl rfl rfl (fun _ _ h => h) rfl (by rintro _ _ _ ⟨⟩)
    · rename_i hfew
      cases h
      exact .insert rfl (Nat.lt_of_not_le hfew)
  | closePty channel =>
    cases answer <;> simp only [Resources.callStep, reduceCtorEq, Option.some.injEq] at h
    cases h
    exact .quiet _ rfl rfl rfl rfl rfl (fun _ _ h => h) rfl (by rintro _ _ _ ⟨⟩)
  | dropPending channel =>
    cases answer <;> simp only [Resources.callStep, reduceCtorEq, Option.some.injEq] at h
    cases h
    exact .drop _ (.inl rfl)
  | removePane pane =>
    cases answer <;> simp only [Resources.callStep, reduceCtorEq] at h
    split at h
    · cases h
      exact .idle rfl rfl rfl rfl rfl (fun _ => rfl) rfl (by rintro _ _ _ ⟨⟩)
    · rename_i p hp
      cases h
      exact .remove p rfl hp
  | removePending channel =>
    cases answer <;> simp only [Resources.callStep, reduceCtorEq, Option.some.injEq] at h
    cases h
    exact .drop _ (.inr rfl)
  | sftpCached manager | insertSftp manager g =>
    cases answer <;> simp only [Resources.callStep, Resources.sftpReturns, reduceCtorEq] at h
    cases manager <;> split at h <;> cases h <;>
      exact .idle rfl rfl rfl rfl rfl (fun _ => rfl) rfl (by rintro _ _ _ ⟨⟩)
  | sftpConnection manager | transfersCached | insertTransfers g | bridgeConnection localPort
  | removeBridge bridge =>
    cases answer <;> simp only [Resources.callStep, reduceCtorEq] at h
    split at h <;> cases h <;> exact .idle rfl rfl rfl rfl rfl (fun _ => rfl) rfl (by rintro _ _ _ ⟨⟩)
  | nextPort loop =>
    cases answer <;> simp only [Resources.callStep, reduceCtorEq] at h
    split at h
    · cases h
      exact .idle rfl rfl rfl rfl rfl (fun _ => rfl) rfl (by rintro _ _ _ ⟨⟩)
    · split at h <;> cases h <;> exact .idle rfl rfl rfl rfl rfl (fun _ => rfl) rfl (by rintro _ _ _ ⟨⟩)
  | openSftp manager g | socketPath localPort | hasSocat localPort | bridgeGeneration g localPort
  | occupied g generation localPort | execOwned loop port | ensureRunning loop port
  | openTunnel loop port | insertBridge loop port | closeBridge =>
    cases answer <;> simp only [Resources.callStep, reduceCtorEq, Option.some.injEq] at h <;> cases h <;>
      exact .idle rfl rfl rfl rfl rfl (fun _ => rfl) rfl (by rintro _ _ _ ⟨⟩)
  | returned result => cases answer <;> simp only [Resources.callStep, reduceCtorEq] at h

/-! ## Every run -/

structure PanesInv (s : Panes) : Prop where
  keys : willClearPending s.resources.session.op = false → ∀ channel ∈ s.keys, s.Covered channel
  fresh : ∀ pane p, s.resources.session.panes pane = some p → pane < s.resources.nextPane
  inserting : ∀ i g channel pane, s.resources.calls i = some (.insertPane g channel pane) →
    pane < s.resources.nextPane ∧ s.resources.session.panes pane = none ∧
      ∀ j g' channel', s.resources.calls j = some (.insertPane g' channel' pane) → j = i
  few : s.registered.encard ≤ maxPanesPerHost

/-- A holder of the channel before is one after, or another is. -/
theorem Panes.Covered.mono {s t : Panes} {channel : Nat}
    (hreg : ∀ pane p, s.resources.session.panes pane = some p → p.channel = channel → t.Covered channel)
    (hcalls : ∀ i call, s.resources.calls i = some call →
      call.opens (s.confirmed i) = some channel ∨ call.closes = some channel → t.Covered channel)
    (h : s.Covered channel) : t.Covered channel := by
  rcases h with ⟨pane, p, hp, hchannel⟩ | ⟨i, call, hcall, hopens⟩ | ⟨i, call, hcall, hcloses⟩
  · exact hreg pane p hp hchannel
  · exact hcalls i call hcall (.inl hopens)
  · exact hcalls i call hcall (.inr hcloses)

theorem Panes.covered_of_call {s : Panes} {channel i : Nat} {call : ResourceCall}
    (hcall : s.resources.calls i = some call)
    (h : call.opens (s.confirmed i) = some channel ∨ call.closes = some channel) : s.Covered channel :=
  .inr (h.imp (fun h => ⟨i, call, hcall, h⟩) fun h => ⟨i, call, hcall, h⟩)

/-- The step of a call, to one that has its channel. -/
theorem Panes.Covered.put {s : Panes} {t : Resources} {i channel : Nat} {call next : ResourceCall}
    (hcall : s.resources.calls i = some call)
    (hcalls : t.calls = Function.update s.resources.calls i (some next))
    (hreg : ∀ pane p, s.resources.session.panes pane = some p → p.channel = channel →
      Panes.Covered ⟨t, s.confirmed⟩ channel)
    (hself : call.opens (s.confirmed i) = some channel ∨ call.closes = some channel →
      Panes.Covered ⟨t, s.confirmed⟩ channel)
    (h : s.Covered channel) : Panes.Covered ⟨t, s.confirmed⟩ channel := by
  refine h.mono hreg fun j other hother hholds => ?_
  by_cases hj : j = i
  · subst hj
    cases hcall.symm.trans hother
    exact hself hholds
  · refine Panes.covered_of_call (i := j) ?_ hholds
    change t.calls j = some other
    rw [hcalls, Function.update_of_ne hj]
    exact hother

/-- `panes.len()` is the number of registered panes. -/
theorem PanesInv.encard {s : Panes} (hi : PanesInv s) : s.registered.encard = s.resources.paneCount := by
  have hset : s.registered = ((List.range s.resources.nextPane).filter fun pane =>
      (s.resources.session.panes pane).isSome).toFinset := by
    ext pane
    simp only [Panes.registered, Set.mem_ofPred_eq, List.coe_toFinset, List.mem_filter, List.mem_range]
    refine ⟨fun h => ⟨?_, h⟩, fun h => h.2⟩
    obtain ⟨p, hp⟩ := Option.isSome_iff_exists.mp h
    exact hi.fresh pane p hp
  rw [hset, Set.encard_coe_eq_coe_finsetCard, List.toFinset_card_of_nodup (List.nodup_range.filter _)]
  rfl

/-- A step that leaves the panes alone and makes no call insert one. -/
theorem PanesInv.keep {s t : Panes} (hi : PanesInv s)
    (hkeys : willClearPending t.resources.session.op = false → ∀ channel ∈ t.keys, t.Covered channel)
    (hpanes : ∀ pane p, t.resources.session.panes pane = some p → s.resources.session.panes pane = some p)
    (hnext : t.resources.nextPane = s.resources.nextPane)
    (hinsert : ∀ i g channel pane, t.resources.calls i = some (.insertPane g channel pane) →
      s.resources.calls i = some (.insertPane g channel pane)) : PanesInv t where
  keys := hkeys
  fresh pane p hp := hnext ▸ hi.fresh pane p (hpanes pane p hp)
  inserting i g channel pane h := by
    obtain ⟨hlt, hnone, honly⟩ := hi.inserting i g channel pane (hinsert i g channel pane h)
    refine ⟨hnext ▸ hlt, ?_, fun j g' channel' hj => honly j g' channel' (hinsert j g' channel' pane hj)⟩
    cases hp : t.resources.session.panes pane with
    | none => rfl
    | some p => cases hnone.symm.trans (hpanes pane p hp)
  few := by
    refine le_trans (Set.encard_le_encard fun pane hp => ?_) hi.few
    obtain ⟨p, hp⟩ := Option.isSome_iff_exists.mp hp
    exact Option.isSome_iff_exists.mpr ⟨p, hpanes pane p hp⟩

theorem PanesInv.session {s : Panes} {u : ActiveSession} {a : Action} (hi : PanesInv s)
    (hok : KeepsPanes s (.base (.session a))) (h : step s.resources.session a = some u) :
    PanesInv { s with resources := { s.resources with session := u } } := by
  have hspec := step_replay h
  refine hi.keep (fun hw channel hkey => ?_) hspec.panes rfl fun _ _ _ _ h => h
  rcases hspec.pending hw with hnone | ⟨hw, hpanes, hkeys⟩
  · have hkey : (u.pendingEvents channel).isSome := hkey
    rw [hnone channel] at hkey
    cases hkey
  · have hcovered : s.Covered channel := by
      rcases hkeys channel hkey with hold | hnew
      · exact hi.keys hw channel hold
      · exact (hok channel hnew).resolve_left (by rw [hw]; exact Bool.false_ne_true)
    refine Panes.Covered.mono (s := s) (fun pane p hp hchannel => .inl ⟨pane, p, ?_, hchannel⟩)
      (fun i call hcall hholds => Panes.covered_of_call (i := i) hcall hholds) hcovered
    change u.panes pane = some p
    rw [hpanes]
    exact hp

theorem PanesInv.entry {s : Panes} {i : Nat} {call : ResourceCall} (hi : PanesInv s)
    (hnone : s.resources.calls i = none) (hentry : call.entry = true) :
    PanesInv { s with resources := s.resources.put i call } := by
  refine hi.keep (fun hw channel hkey => (hi.keys hw channel hkey).mono ?_ ?_) (fun _ _ h => h) rfl ?_
  · exact fun pane p hp hchannel => .inl ⟨pane, p, hp, hchannel⟩
  · intro j other hother hholds
    refine Panes.covered_of_call (i := j) ?_ hholds
    refine (Function.update_of_ne ?_ ..).trans hother
    rintro rfl
    cases hnone.symm.trans hother
  · intro j g channel pane hj
    rcases entry_of_update hj with ⟨-, hcall⟩ | ⟨-, hj⟩
    · cases hcall
      cases hentry
    · exact hj

theorem PanesInv.confirm {s t : Panes} {i channel : Nat} (hi : PanesInv s)
    (h : s.confirm i channel = some t) : PanesInv t := by
  simp only [Panes.confirm] at h
  split at h
  · obtain ⟨hnone, h⟩ := Option.ite_none_right_eq_some.mp h
    cases h
    rename_i g hcall
    refine hi.keep (fun hw key hkey => (hi.keys hw key hkey).mono ?_ ?_) (fun _ _ h => h) rfl fun _ _ _ _ h => h
    · exact fun pane p hp hchannel => .inl ⟨pane, p, hp, hchannel⟩
    · intro j other hother hholds
      refine Panes.covered_of_call (i := j) hother ?_
      by_cases hj : j = i
      · subst hj
        cases hcall.symm.trans hother
        rcases hholds with hopens | hcloses
        · cases hnone.symm.trans hopens
        · exact .inr hcloses
      · refine hholds.imp_left fun hopens => ?_
        change other.opens (Function.update s.confirmed i (some channel) j) = some key
        rw [Function.update_of_ne hj]
        exact hopens
  · cases h

/-- A call goes on as `next`, which inserts no pane. -/
theorem not_insertPane {calls : Nat → Option ResourceCall} {i : Nat} {next : ResourceCall}
    (hnext : ∀ g channel pane, next ≠ .insertPane g channel pane) (j g channel pane : Nat)
    (h : Function.update calls i (some next) j = some (.insertPane g channel pane)) :
    calls j = some (.insertPane g channel pane) := by
  rcases entry_of_update h with ⟨-, hcall⟩ | ⟨-, hj⟩
  · exact absurd (Option.some.inj hcall) (hnext g channel pane)
  · exact hj

theorem PanesInv.insert {s : Panes} {i g channel pane : Nat} (hi : PanesInv s)
    (hcall : s.resources.calls i = some (.insertPane g channel pane))
    (hfew : s.resources.paneCount < maxPanesPerHost) :
    PanesInv ⟨{ s.resources with session := { s.resources.session with
      panes := Function.update s.resources.session.panes pane (some ⟨g, channel⟩) } }.put i
        (.returned (.pane pane channel)), s.confirmed⟩ := by
  obtain ⟨hlt, hnone, honly⟩ := hi.inserting i g channel pane hcall
  refine ⟨fun hw key hkey => ?_, fun k p hp => ?_, fun j g' channel' k hj => ?_, ?_⟩
  · refine (hi.keys hw key hkey).put hcall rfl ?_ ?_
    · intro k p hp hchannel
      refine .inl ⟨k, p, (Function.update_of_ne ?_ ..).trans hp, hchannel⟩
      rintro rfl
      cases hnone.symm.trans hp
    · rintro (hopens | hcloses)
      · exact .inl ⟨pane, ⟨g, channel⟩, Function.update_self .., Option.some.inj hopens⟩
      · cases hcloses
  · rcases entry_of_update hp with ⟨rfl, -⟩ | ⟨-, hp⟩
    · exact hlt
    · exact hi.fresh k p hp
  · have hold := not_insertPane (by rintro _ _ _ ⟨⟩) j g' channel' k hj
    obtain ⟨hklt, hknone, hkonly⟩ := hi.inserting j g' channel' k hold
    refine ⟨hklt, (Function.update_of_ne ?_ ..).trans hknone, fun l g'' channel'' hl => ?_⟩
    · rintro rfl
      obtain rfl := honly j g' channel' hold
      rcases entry_of_update hj with ⟨-, h⟩ | ⟨hne, -⟩
      · cases h
      · exact hne rfl
    · exact hkonly l g'' channel'' (not_insertPane (by rintro _ _ _ ⟨⟩) l g'' channel'' k hl)
  · have hsub : Panes.registered ⟨{ s.resources with session := { s.resources.session with
        panes := Function.update s.resources.session.panes pane (some ⟨g, channel⟩) } }.put i
          (.returned (.pane pane channel)), s.confirmed⟩ ⊆ Insert.insert pane s.registered := by
      intro k hk
      by_cases hkp : k = pane
      · exact .inl hkp
      · refine .inr ?_
        have hk : (Function.update s.resources.session.panes pane (some ⟨g, channel⟩) k).isSome := hk
        rwa [Function.update_of_ne hkp] at hk
    calc _ ≤ (Insert.insert pane s.registered).encard := Set.encard_le_encard hsub
      _ ≤ s.registered.encard + 1 := Set.encard_insert_le ..
      _ = ((s.resources.paneCount + 1 : Nat) : ℕ∞) := by rw [hi.encard]; rfl
      _ ≤ maxPanesPerHost := by exact_mod_cast hfew

theorem PanesInv.number {s : Panes} {i g channel : Nat} (hi : PanesInv s)
    (hcall : s.resources.calls i = some (.paneId g channel)) :
    PanesInv ⟨{ s.resources with nextPane := s.resources.nextPane + 1 }.put i
      (.insertPane g channel s.resources.nextPane), s.confirmed⟩ := by
  -- the number is new: no pane and no call has it
  have hnone : s.resources.session.panes s.resources.nextPane = none := by
    cases hp : s.resources.session.panes s.resources.nextPane with
    | none => rfl
    | some p => exact absurd (hi.fresh _ p hp) (Nat.lt_irrefl _)
  refine ⟨fun hw key hkey => ?_, fun k p hp => (hi.fresh k p hp).trans (Nat.lt_succ_self _),
    fun j g' channel' k hj => ?_, hi.few⟩
  · refine (hi.keys hw key hkey).put hcall rfl (fun pane p hp hchannel => .inl ⟨pane, p, hp, hchannel⟩) ?_
    rintro (hopens | hcloses)
    · exact Panes.covered_of_call (i := i) (Function.update_self ..) (.inl hopens)
    · cases hcloses
  · rcases entry_of_update hj with ⟨rfl, hself⟩ | ⟨hji, hj⟩
    · cases hself
      refine ⟨Nat.lt_succ_self _, hnone, fun l g'' channel'' hl => ?_⟩
      rcases entry_of_update hl with ⟨hlj, -⟩ | ⟨-, hl⟩
      · exact hlj
      · exact absurd (hi.inserting l g'' channel'' _ hl).1 (Nat.lt_irrefl _)
    · obtain ⟨hlt, hnone, honly⟩ := hi.inserting j g' channel' k hj
      refine ⟨hlt.trans (Nat.lt_succ_self _), hnone, fun l g'' channel'' hl => ?_⟩
      rcases entry_of_update hl with ⟨-, hself⟩ | ⟨-, hl⟩
      · cases hself
        exact absurd hlt (Nat.lt_irrefl _)
      · exact honly l g'' channel'' hl

theorem PanesInv.remove {s : Panes} {i pane : Nat} {p : Pane} (hi : PanesInv s)
    (hcall : s.resources.calls i = some (.removePane pane)) (hp : s.resources.session.panes pane = some p) :
    PanesInv ⟨{ s.resources with session := { s.resources.session with
      panes := Function.update s.resources.session.panes pane none } }.put i
        (.removePending p.channel), s.confirmed⟩ := by
  refine hi.keep (fun hw key hkey => ?_) (fun k q hq => ?_) rfl (not_insertPane (by rintro _ _ _ ⟨⟩))
  · refine (hi.keys hw key hkey).put hcall rfl (fun k q hq hchannel => ?_) ?_
    · by_cases hk : k = pane
      · subst hk
        cases hp.symm.trans hq
        exact Panes.covered_of_call (i := i) (Function.update_self ..) (.inr (congrArg some hchannel))
      · exact .inl ⟨k, q, (Function.update_of_ne hk ..).trans hq, hchannel⟩
    · rintro (hopens | hcloses)
      · cases hopens
      · cases hcloses
  · rcases entry_of_update hq with ⟨-, h⟩ | ⟨-, hq⟩
    · cases h
    · exact hq

theorem PanesInv.call {s : Panes} {t : Resources} {i : Nat} {call : ResourceCall} {answer : Remote}
    (hi : PanesInv s) (hcall : s.resources.calls i = some call)
    (hanswer : s.answers (.step i answer) = true) (hok : KeepsPanes s (.base (.step i answer)))
    (h : CallMoves s.resources i call answer t) : PanesInv ⟨t, s.confirmed⟩ := by
  cases h with
  | quiet next hpanes hpending hop hpane hcalls hopens hcloses hinsert =>
    refine hi.keep (fun hw key hkey => ?_) (fun pane p hp => hpanes ▸ hp) hpane ?_
    · have hw : willClearPending s.resources.session.op = false := hop ▸ hw
      have hkey : key ∈ s.keys := by
        have hkey : (t.session.pendingEvents key).isSome := hkey
        rwa [hpending] at hkey
      refine (hi.keys hw key hkey).put hcall hcalls (fun pane p hp hchannel => .inl ⟨pane, p, ?_, hchannel⟩) ?_
      · exact (congrFun hpanes pane).trans hp
      · rintro (h | h)
        · have hnext : t.calls i = some next := (congrFun hcalls i).trans (Function.update_self ..)
          exact Panes.covered_of_call (i := i) hnext (.inl (hopens _ _ h))
        · cases hcloses.symm.trans h
    · intro j g channel pane hj
      have hj : t.calls j = some (.insertPane g channel pane) := hj
      rw [hcalls] at hj
      exact not_insertPane hinsert j g channel pane hj
  | failed message hopen =>
    subst hopen
    refine hi.keep (fun hw key hkey => ?_) (fun _ _ h => h) rfl (not_insertPane (by rintro _ _ _ ⟨⟩))
    refine (hi.keys hw key hkey).put hcall rfl (fun pane p hp hchannel => .inl ⟨pane, p, hp, hchannel⟩) ?_
    rintro (hopens | hcloses)
    · rcases hok _ key hcall hopens with hw' | hnone
      · cases hw.symm.trans hw'
      · exact absurd hkey hnone
    · cases hcloses
  | opened channel hopen =>
    subst hopen
    refine hi.keep (fun hw key hkey => ?_) (fun _ _ h => h) rfl (not_insertPane (by rintro _ _ _ ⟨⟩))
    refine (hi.keys hw key hkey).put hcall rfl (fun pane p hp hchannel => .inl ⟨pane, p, hp, hchannel⟩) ?_
    rintro (hopens | hcloses)
    · have hconfirmed : s.confirmed i = some channel := eq_of_beq hanswer
      exact Panes.covered_of_call (i := i) (Function.update_self ..) (.inl (hconfirmed.symm.trans hopens))
    · cases hcloses
  | number hopen =>
    subst hopen
    exact hi.number hcall
  | insert hopen hfew =>
    subst hopen
    exact hi.insert hcall hfew
  | remove p hopen hp =>
    subst hopen
    exact hi.remove hcall hp
  | drop result hopen =>
    rename_i channel
    refine hi.keep (fun hw key hkey => ?_) (fun _ _ h => h) rfl (not_insertPane (by rintro _ _ _ ⟨⟩))
    have hkey : (Function.update s.resources.session.pendingEvents channel none key).isSome := hkey
    by_cases hne : key = channel
    · rw [hne, Function.update_self] at hkey
      cases hkey
    · rw [Function.update_of_ne hne] at hkey
      refine (hi.keys hw key hkey).put hcall rfl (fun pane p hp hchannel => .inl ⟨pane, p, hp, hchannel⟩) ?_
      -- the call has the channel whose key is gone
      intro hholds
      rcases hopen with rfl | rfl <;> rcases hholds with h | h <;> cases h <;> exact absurd rfl hne

theorem step_panesInv {s t : Panes} {a : PaneAction} (hi : PanesInv s) (hok : KeepsPanes s a)
    (h : paneMachine.step s a = some t) : PanesInv t := by
  cases a with
  | confirm i channel => exact hi.confirm h
  | base a =>
    obtain ⟨hanswer, h⟩ := Option.ite_none_right_eq_some.mp h
    obtain ⟨u, hu, rfl⟩ := Option.map_eq_some_iff.mp h
    cases a with
    | session a =>
      obtain ⟨v, hv, rfl⟩ := Option.map_eq_some_iff.mp hu
      exact hi.session hok hv
    | call i call =>
      obtain ⟨⟨hnone, hentry⟩, hu⟩ := Option.ite_none_right_eq_some.mp hu
      cases hu
      exact hi.entry hnone hentry
    | step i answer =>
      simp only [resourceStep] at hu
      split at hu
      · exact hi.call ‹_› hanswer hok (callStep_panes hu)
      · cases hu

theorem initial_panesInv {s : Panes} (h : InitialPanes s) : PanesInv s := by
  obtain ⟨⟨eventBuffer, hostUuid, hs⟩, -⟩ := h
  refine ⟨?_, ?_, ?_, ?_⟩
  · intro _ channel hkey
    simp [Panes.keys, hs, Resources.new, ActiveSession.new] at hkey
  · simp [hs, Resources.new, ActiveSession.new]
  · simp [hs, Resources.new]
  · simp [Panes.registered, hs, Resources.new, ActiveSession.new]

/-! ## The statement -/

/-- There are no more keys than panes to hold them. -/
theorem keys_encard_le {s : Panes} (h : ∀ channel ∈ s.keys, s.Registered channel ∨ s.Opening channel) :
    s.keys.encard ≤ s.registered.encard + s.opening.encard := by
  let paneChannel (pane : Nat) : Nat := ((s.resources.session.panes pane).map Pane.channel).getD 0
  let callChannel (i : Nat) : Nat := ((s.resources.calls i).bind (·.opens (s.confirmed i))).getD 0
  have hsub : s.keys ⊆ paneChannel '' s.registered ∪ callChannel '' s.opening := by
    intro channel hkey
    rcases h channel hkey with ⟨pane, p, hp, rfl⟩ | ⟨i, call, hcall, hopens⟩
    · refine .inl ⟨pane, Option.isSome_iff_exists.mpr ⟨p, hp⟩, ?_⟩
      simp [paneChannel, hp]
    · refine .inr ⟨i, ⟨call, channel, hcall, hopens⟩, ?_⟩
      simp [callChannel, hcall, hopens]
  calc s.keys.encard ≤ (paneChannel '' s.registered ∪ callChannel '' s.opening).encard :=
        Set.encard_le_encard hsub
    _ ≤ (paneChannel '' s.registered).encard + (callChannel '' s.opening).encard := Set.encard_union_le _ _
    _ ≤ s.registered.encard + s.opening.encard :=
        add_le_add (Set.encard_image_le _ _) (Set.encard_image_le _ _)

/-- What a pump keeps is a key afterwards. -/
theorem replays_key {s t : ActiveSession} {a : Action} {channel : Nat}
    (ha : replays s a = some channel) (h : step s a = some t) :
    (t.pendingEvents channel).isSome ∧ t.panes = s.panes := by
  unfold replays at ha
  split at ha
  · rename_i g
    split at ha
    · rename_i e primaries lost hp
      obtain ⟨hchannel, hnone⟩ := Option.filter_eq_some_iff.mp ha
      simp only [step, hp, ActiveSession.pumpStep, Option.some.injEq] at h
      subst h
      have hnone : (s.subscribers.filter fun sub => !s.isClosed sub.mailbox).any
          (fun sub => sub.filter == some channel) = false := by simpa using hnone
      simp [ActiveSession.setPump, ActiveSession.publish, hchannel, hnone, pushPendingEvent]
    · cases ha
  · cases ha

/-- Over every interleaving of the session's tasks and of the calls that open and close
panes, as long as the pump keeps only events of panes: unless a guarded call or
`close_pane` is about to take keys out, every key of `pending_events` is the channel of
a pane that is registered or being opened, and if there are at most `MAX_PANES_PER_HOST`
of these, as there are of registered panes, there are no more keys. An event that is
kept of another channel makes a key that is the channel of no pane. -/
theorem pending_keys (s : Panes) :
    (paneMachine.Reach KeepsPanes InitialPanes s →
      s.registered.encard ≤ maxPanesPerHost ∧
      (willClearPending s.resources.session.op = false → (∀ channel, ¬ s.Closing channel) →
        (∀ channel ∈ s.keys, s.Registered channel ∨ s.Opening channel) ∧
        (s.registered.encard + s.opening.encard ≤ maxPanesPerHost → s.keys.encard ≤ maxPanesPerHost))) ∧
    ∀ (a : Action) (u : ActiveSession) (channel : Nat), replays s.resources.session a = some channel →
      ¬ s.Covered channel → step s.resources.session a = some u →
      ∃ t, paneMachine.step s (.base (.session a)) = some t ∧ channel ∈ t.keys ∧ ¬ t.Covered channel := by
  constructor
  · intro hs
    have hi : PanesInv s := hs.invariant (fun _ => initial_panesInv) fun _ _ _ => step_panesInv
    refine ⟨hi.few, fun hw hclosing => ?_⟩
    have hkeys : ∀ channel ∈ s.keys, s.Registered channel ∨ s.Opening channel := by
      intro channel hkey
      rcases hi.keys hw channel hkey with h | h | h
      · exact .inl h
      · exact .inr h
      · exact absurd h (hclosing channel)
    exact ⟨hkeys, (keys_encard_le hkeys).trans⟩
  · intro a u channel ha hcovered h
    obtain ⟨hkey, hpanes⟩ := replays_key ha h
    have hstep : paneMachine.step s (.base (.session a)) =
        some { s with resources := { s.resources with session := u } } := by
      simp [paneMachine, paneStep, Panes.answers, resourceStep, h]
    refine ⟨_, hstep, hkey, fun hcov => hcovered ?_⟩
    refine Panes.Covered.mono (s := ⟨{ s.resources with session := u }, s.confirmed⟩)
      (fun pane p hp hchannel => .inl ⟨pane, p, ?_, hchannel⟩)
      (fun i call hcall hholds => Panes.covered_of_call (i := i) hcall hholds) hcov
    exact (congrFun hpanes pane).symm.trans hp

/-- A pane on channel 7 is opened and closed; then the close of its channel arrives. -/
def closedPaneTrace : List PaneAction :=
  List.flatten [attachTrace.map fun a => .base (.session a),
    [.base (.session (.op .go)), .base (.call 0 .paneConnection), .base (.step 0 .go), .confirm 0 7,
      .base (.step 0 (.opened 7)), .base (.step 0 .go), .base (.step 0 .go),
      .base (.call 1 (.removePane 0)), .base (.step 1 .go), .base (.step 1 .go),
      .base (.session (.pump 1 (.event (.channelClosed 7)))), .base (.session (.pump 1 .go)),
      .base (.session (.pump 1 .go))]]

def newPanes : Panes := ⟨.new 512 0, fun _ => none⟩

/-- The step keeps no event, and no call fails in it. -/
def keepsNone (s : Panes) : PaneAction → Bool
  | .base (.session a) => (replays s.resources.session a).isNone
  | .base (.step _ (.failed _)) => false
  | _ => true

theorem keepsPanes_of_keepsNone (s : Panes) (a : PaneAction) (h : keepsNone s a = true) : KeepsPanes s a := by
  unfold keepsNone at h
  split at h
  · intro channel hchannel
    rw [hchannel] at h
    cases h
  · cases h
  · unfold KeepsPanes
    split
    · simp_all
    · simp_all
    · trivial

/-- A pane on channel 7 is opened, and has output that nobody reads. -/
def keptEventTrace : List PaneAction :=
  List.flatten [attachTrace.map fun a => .base (.session a),
    [.base (.session (.op .go)), .base (.call 0 .paneConnection), .base (.step 0 .go), .confirm 0 7,
      .base (.step 0 (.opened 7)), .base (.step 0 .go), .base (.step 0 .go),
      .base (.session (.pump 1 (.event (.data 7 [65])))), .base (.session (.pump 1 .go))]]

/-- The pump is about to keep the output of the pane, and then it is kept. -/
theorem keptEventTrace_run : ∃ t u,
    paneMachine.run (fun s a => keepsNone s a = true) newPanes keptEventTrace = some t ∧
      t.resources.session.panes 0 = some ⟨1, 7⟩ ∧ replays t.resources.session (.pump 1 .go) = some 7 ∧
      paneMachine.step t (.base (.session (.pump 1 .go))) = some u ∧ u.resources.session.op = none ∧ 7 ∈ u.keys ∧
      ∀ i call, u.resources.calls i = some call → ∃ result, call = .returned result := by
  refine ⟨_, _, rfl, rfl, rfl, rfl, rfl, rfl, fun i call hcall => ?_⟩
  change Function.update (Function.update (Function.update (Function.update (Function.update
    (fun _ : Nat => (none : Option ResourceCall)) 0 _) 0 _) 0 _) 0 _) 0
      (some (.returned (.pane 0 7))) i = some call at hcall
  simp only [Function.update_idem] at hcall
  rcases entry_of_update hcall with ⟨-, h⟩ | ⟨-, h⟩
  · exact ⟨_, (Option.some.inj h).symm⟩
  · cases h

/-- The key of the output is that of the pane. -/
theorem kept_event_key :
    ∃ s, paneMachine.Reach KeepsPanes InitialPanes s ∧ 7 ∈ s.keys ∧
      ∀ channel ∈ s.keys, s.Registered channel ∨ s.Opening channel := by
  obtain ⟨t, u, hrun, hpane, hreplays, hstep, hop, hkey, hcalls⟩ := keptEventTrace_run
  have hkeeps : KeepsPanes t (.base (.session (.pump 1 .go))) := by
    intro channel hchannel
    obtain rfl : 7 = channel := Option.some.inj (hreplays.symm.trans hchannel)
    exact .inr (.inl ⟨0, _, hpane, rfl⟩)
  have hu : paneMachine.Reach KeepsPanes InitialPanes u :=
    ⟨newPanes, ⟨⟨512, 0, rfl⟩, fun _ => rfl⟩,
      ((Machine.Path.of_run hrun).mono keepsPanes_of_keepsNone).tail hkeeps hstep⟩
  have hclosing : ∀ channel, ¬ u.Closing channel := by
    rintro channel ⟨i, call, hcall, hcloses⟩
    obtain ⟨result, rfl⟩ := hcalls i call hcall
    cases hcloses
  exact ⟨u, hu, hkey, (((pending_keys u).1 hu).2 (by rw [hop]; rfl) hclosing).1⟩

/-- Where the trace ends: the two calls have returned. -/
theorem closedPaneTrace_run : ∃ t, paneMachine.run Machine.free newPanes closedPaneTrace = some t ∧
    t.resources.session.op = none ∧ 7 ∈ t.keys ∧
    (∀ pane, t.resources.session.panes pane = none) ∧
    ∀ i call, t.resources.calls i = some call → ∃ result, call = .returned result := by
  refine ⟨_, rfl, rfl, rfl, fun pane => ?_, fun i call hcall => ?_⟩
  · change Function.update (Function.update (fun _ : Nat => none) 0 (some (⟨1, 7⟩ : Pane))) 0 none pane = none
    rw [Function.update_idem, Function.update_apply, ite_self]
  · change Function.update (Function.update (Function.update (_ : Nat → Option ResourceCall) 1 _) 1 _) 1
      (some (.returned .unit)) i = some call at hcall
    simp only [Function.update_idem] at hcall
    rcases entry_of_update hcall with ⟨-, h⟩ | ⟨-, hcall⟩
    · exact ⟨_, (Option.some.inj h).symm⟩
    · change Function.update (Function.update (Function.update (Function.update (Function.update
        (fun _ : Nat => (none : Option ResourceCall)) 0 _) 0 _) 0 _) 0 _) 0
          (some (.returned (.pane 0 7))) i = some call at hcall
      simp only [Function.update_idem] at hcall
      rcases entry_of_update hcall with ⟨-, h⟩ | ⟨-, h⟩
      · exact ⟨_, (Option.some.inj h).symm⟩
      · cases h

/-- The key stays, and no pane is left that it could be the key of. -/
theorem closed_pane_key :
    ∃ s, paneMachine.Reach Machine.free InitialPanes s ∧ s.resources.session.op = none ∧
      (∀ channel, ¬ s.Closing channel) ∧ 7 ∈ s.keys ∧ ¬ s.Registered 7 ∧ ¬ s.Opening 7 := by
  obtain ⟨s, hrun, hop, hkey, hpanes, hcalls⟩ := closedPaneTrace_run
  refine ⟨s, ⟨newPanes, ⟨⟨512, 0, rfl⟩, fun _ => rfl⟩, .of_run hrun⟩, hop, ?_, hkey, ?_, ?_⟩
  · rintro channel ⟨i, call, hcall, hcloses⟩
    obtain ⟨result, rfl⟩ := hcalls i call hcall
    cases hcloses
  · rintro ⟨pane, p, hp, -⟩
    cases (hpanes pane).symm.trans hp
  · rintro ⟨i, call, hcall, hopens⟩
    obtain ⟨result, rfl⟩ := hcalls i call hcall
    cases hopens

end KW.Session
