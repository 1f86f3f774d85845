import KodeWork.Impl.Session

/-!
# What the steps of a session can do

One lemma for each kind of task, from which the invariants of the session are
derived without looking into the step functions again: `opStep_spec` for the
call that holds `connect_guard` (`OpSpec`), `pumpStep_moves` for a pump
(`PumpMoves`), and the frame lemmas of the receivers and of `mark`.

A guarded call owns the generation it reserved: no other task changes the
generation while it holds the guard. `OpOwns` is that fact, and
`OpSpec.owns` its preservation.
-/

namespace KW.Session

open ActiveSession

theorem transition_ok {c c' : ConnectionStateController} {target : ConnectionState}
    (h : c.transition target = .ok c') : c' = { c with state := target } := by
  simp only [ConnectionStateController.transition] at h
  split at h <;> cases h
  rfl

/-- A guarded `set_state` sets the state, or the call returns. -/
theorem setStateThen_cases (s : ActiveSession) (target : ConnectionState) (p : Progress) :
    s.setStateThen target p = ({ s with controller := { s.controller with state := target } }, p) ∨
    s.setStateThen target p = (s, .done (.failed .internal)) := by
  simp only [setStateThen]
  cases h : s.controller.transition target with
  | ok c => exact .inl (by rw [transition_ok h])
  | error e => exact .inr rfl

/-! ## The guarded calls -/

theorem Progress.eq_next {r : Progress} {op : Op} (h : r.op = some op) : r = .next op := by
  cases r with
  | next _ => exact congrArg Progress.next (Option.some.inj h)
  | done _ => cases h

/-- The generation a guarded call has reserved. -/
def Op.generation : Op → Option Nat
  | .connect (.jump _ g) | .connect (.attempt _ g _) | .connect (.dial _ g) | .connect (.install g)
  | .connect (.store g) | .connect (.clearSftp g) | .connect (.clearPanes g)
  | .connect (.clearPending g) | .connect (.drainBridges g) | .connect (.clearTransfers g)
  | .connect (.spawnPump g) | .connect (.setReady g) => some g
  | .disconnect (.take g) | .disconnect (.close g) | .disconnect (.clearPanes g)
  | .disconnect (.clearSftp g) | .disconnect (.takeTransfers g) | .disconnect (.drainBridges g)
  | .disconnect (.clearSubscribers g) | .disconnect (.clearPending g) => some g
  | _ => none

/-- The generation a call reserved is the current one. -/
def OpOwns (s : ActiveSession) (op : Op) : Prop :=
  ∀ g, op.generation = some g → s.controller.generation = g

/-- The generation `pending_events` is about to be cleared for. -/
def Op.clears : Op → Option Nat
  | .connect (.clearPending g) | .disconnect (.clearPending g) => some g
  | _ => none

/-- What one step of the guarded call `op` does, from `s` to `t`, with `r` the
rest of the call. -/
structure OpSpec (s : ActiveSession) (op : Op) (t : ActiveSession) (r : Progress) : Prop where
  owns : ∀ op', r = .next op' → OpOwns t op'
  generation : t.controller.generation = s.controller.generation ∨
    t.controller.generation = s.controller.generation + 1 ∧ op.generation = none
  ready : t.controller.state = .ready → s.controller.state = .ready ∨
    ∃ g, op = .connect (.setReady g) ∧ r = .done (.connected g)
  connection : t.connection = s.connection ∨
    (∃ g, op = .connect (.store g) ∧ t.connection = some g) ∨
    (∃ g, op = .disconnect (.take g) ∧ t.connection = none)
  pumps : t.pumps = s.pumps ∨ ∃ g, op = .connect (.spawnPump g) ∧
    t.pumps = Function.update s.pumps g (some ⟨.recv, fun _ => none, false⟩)
  setReady : ∀ g, r = .next (.connect (.setReady g)) → op = .connect (.spawnPump g) ∧
    t.pumps = Function.update s.pumps g (some ⟨.recv, fun _ => none, false⟩)
  pending : t.pendingEvents = s.pendingEvents ∧ t.cleared = s.cleared ∨
    ∃ g, op.clears = some g ∧ t.pendingEvents = (fun _ => none) ∧ t.cleared = g
  subscribers : t.subscribers = s.subscribers ∨ t.subscribers = []
  mailboxes : t.mailboxes = s.mailboxes
  nextMailbox : t.nextMailbox = s.nextMailbox

/-- A step that only writes fields outside `OpSpec`, or none. -/
theorem OpSpec.quiet {s t : ActiveSession} {op op' : Op} (ho : OpOwns s op)
    (hn : ∀ g, op'.generation = some g → op.generation = some g)
    (hr : ∀ g, op' ≠ .connect (.setReady g))
    (hc : t.controller = s.controller) (hk : t.connection = s.connection) (hp : t.pumps = s.pumps)
    (he : t.pendingEvents = s.pendingEvents) (hl : t.cleared = s.cleared)
    (hs : t.subscribers = s.subscribers) (hm : t.mailboxes = s.mailboxes)
    (hx : t.nextMailbox = s.nextMailbox) : OpSpec s op t (.next op') where
  owns := by
    rintro _ ⟨⟩ g hg
    rw [hc]
    exact ho g (hn g hg)
  generation := .inl (by rw [hc])
  ready := fun h => .inl (by rwa [hc] at h)
  connection := .inl hk
  pumps := .inl hp
  setReady := fun g h => absurd (Progress.next.inj h) (hr g)
  pending := .inl ⟨he, hl⟩
  subscribers := .inl hs
  mailboxes := hm
  nextMailbox := hx

/-- A `set_state`, on to the call's rest `p`. -/
theorem OpSpec.setState {s t : ActiveSession} {op : Op} {target : ConnectionState} {p r : Progress}
    (h : s.setStateThen target p = (t, r)) (ho : OpOwns s op)
    (hn : ∀ op' g, p = .next op' → op'.generation = some g → op.generation = some g)
    (hs : ∀ g, p ≠ .next (.connect (.setReady g)))
    (hr : target = .ready → ∃ g, op = .connect (.setReady g) ∧ p = .done (.connected g)) :
    OpSpec s op t r := by
  rcases setStateThen_cases s target p with e | e <;> rw [e] at h <;> cases h
  · exact ⟨fun op' h g hg => ho g (hn op' g h hg), .inl rfl, fun h => .inr (hr h), .inl rfl, .inl rfl,
      fun g h => absurd h (hs g), .inl ⟨rfl, rfl⟩, .inl rfl, rfl, rfl⟩
  · exact ⟨nofun, .inl rfl, .inl, .inl rfl, .inl rfl, nofun, .inl ⟨rfl, rfl⟩, .inl rfl, rfl, rfl⟩

theorem connectStep_spec {s t : ActiveSession} {pc : ConnectPc} {c : OpChoice} {r : Progress}
    (ho : OpOwns s (.connect pc)) (h : s.connectStep pc c = some (t, r)) :
    OpSpec s (.connect pc) t r := by
  cases pc with
  | resolve =>
    cases c <;> simp only [connectStep, reduceCtorEq, Option.some.injEq] at h
    exact .setState h ho (by rintro _ _ ⟨⟩ ⟨⟩) nofun nofun
  | candidates =>
    cases c <;> simp only [connectStep, reduceCtorEq] at h
    split at h <;> cases h <;> exact .quiet ho nofun nofun rfl rfl rfl rfl rfl rfl rfl rfl
  | reserve n =>
    cases c <;> simp only [connectStep, reduceCtorEq, Option.some.injEq] at h
    cases h
    exact ⟨by rintro _ ⟨⟩ _ ⟨⟩; rfl, .inr ⟨rfl, rfl⟩, .inl, .inl rfl, .inl rfl, nofun,
      .inl ⟨rfl, rfl⟩, .inl rfl, rfl, rfl⟩
  | jump n g =>
    cases c <;> simp only [connectStep, reduceCtorEq, Option.some.injEq] at h <;> cases h
    · exact .quiet ho (fun _ h => h) nofun rfl rfl rfl rfl rfl rfl rfl rfl
    · exact .quiet ho nofun nofun rfl rfl rfl rfl rfl rfl rfl rfl
  | attempt n g e =>
    cases n <;> cases c <;> simp only [connectStep, reduceCtorEq, Option.some.injEq] at h
    · cases h
      exact .quiet ho nofun nofun rfl rfl rfl rfl rfl rfl rfl rfl
    · exact .setState h ho (by rintro _ _ ⟨⟩ h; exact h) nofun nofun
  | dial n g =>
    cases c <;> simp only [connectStep, reduceCtorEq, Option.some.injEq] at h
    · cases h
      exact .quiet ho (fun _ h => h) nofun rfl rfl rfl rfl rfl rfl rfl rfl
    · split at h <;> cases h
      · exact .quiet ho (fun _ h => h) nofun rfl rfl rfl rfl rfl rfl rfl rfl
      · exact .quiet ho nofun nofun rfl rfl rfl rfl rfl rfl rfl rfl
  | install g =>
    cases c <;> simp only [connectStep, reduceCtorEq] at h
    have hg : s.controller.generation = g := ho g rfl
    simp only [ConnectionStateController.installGeneration, hg, Nat.lt_irrefl, ite_false,
      Option.some.injEq] at h
    cases h
    exact ⟨by rintro _ ⟨⟩ _ ⟨⟩; rfl, .inl hg.symm, .inl, .inl rfl, .inl rfl, nofun, .inl ⟨rfl, rfl⟩,
      .inl rfl, rfl, rfl⟩
  | store g =>
    cases c <;> simp only [connectStep, reduceCtorEq, Option.some.injEq] at h
    cases h
    exact ⟨by rintro _ ⟨⟩ _ ⟨⟩; exact ho g rfl, .inl rfl, .inl, .inr (.inl ⟨g, rfl, rfl⟩), .inl rfl,
      nofun, .inl ⟨rfl, rfl⟩, .inl rfl, rfl, rfl⟩
  | clearPending g =>
    cases c <;> simp only [connectStep, reduceCtorEq, Option.some.injEq] at h
    cases h
    exact ⟨by rintro _ ⟨⟩ _ ⟨⟩; exact ho g rfl, .inl rfl, .inl, .inl rfl, .inl rfl, nofun,
      .inr ⟨g, rfl, rfl, rfl⟩, .inl rfl, rfl, rfl⟩
  | spawnPump g =>
    cases c <;> simp only [connectStep, reduceCtorEq, Option.some.injEq] at h
    cases h
    exact ⟨by rintro _ ⟨⟩ _ ⟨⟩; exact ho g rfl, .inl rfl, .inl, .inl rfl, .inr ⟨g, rfl, rfl⟩,
      by rintro _ ⟨⟩; exact ⟨rfl, rfl⟩, .inl ⟨rfl, rfl⟩, .inl rfl, rfl, rfl⟩
  | setReady g =>
    cases c <;> simp only [connectStep, reduceCtorEq, Option.some.injEq] at h
    exact .setState h ho nofun nofun fun _ => ⟨g, rfl, rfl⟩
  | setFailed kind =>
    cases c <;> simp only [connectStep, reduceCtorEq, Option.some.injEq] at h
    exact .setState h ho nofun nofun nofun
  | clearSftp g | clearPanes g | drainBridges g | clearTransfers g =>
    cases c <;> simp only [connectStep, reduceCtorEq, Option.some.injEq] at h
    cases h
    exact .quiet ho (fun _ h => h) nofun rfl rfl rfl rfl rfl rfl rfl rfl

theorem disconnectStep_spec {s t : ActiveSession} {pc : DisconnectPc} {r : Progress}
    (ho : OpOwns s (.disconnect pc)) (h : s.disconnectStep pc = (t, r)) :
    OpSpec s (.disconnect pc) t r := by
  cases pc with
  | reserve =>
    cases h
    exact ⟨by rintro _ ⟨⟩ _ ⟨⟩; rfl, .inr ⟨rfl, rfl⟩, .inl, .inl rfl, .inl rfl, nofun,
      .inl ⟨rfl, rfl⟩, .inl rfl, rfl, rfl⟩
  | take g =>
    cases h
    exact ⟨by rintro _ ⟨⟩ _ ⟨⟩; exact ho g rfl, .inl rfl, .inl, .inr (.inr ⟨g, rfl, rfl⟩), .inl rfl,
      nofun, .inl ⟨rfl, rfl⟩, .inl rfl, rfl, rfl⟩
  | clearSubscribers g =>
    cases h
    exact ⟨by rintro _ ⟨⟩ _ ⟨⟩; exact ho g rfl, .inl rfl, .inl, .inl rfl, .inl rfl, nofun,
      .inl ⟨rfl, rfl⟩, .inr rfl, rfl, rfl⟩
  | clearPending g =>
    cases h
    exact ⟨by rintro _ ⟨⟩ _ ⟨⟩, .inl rfl, .inl, .inl rfl, .inl rfl, nofun,
      .inr ⟨g, rfl, rfl, rfl⟩, .inl rfl, rfl, rfl⟩
  | setDisconnected => exact .setState h ho nofun nofun nofun
  | close g | clearPanes g | clearSftp g | takeTransfers g | drainBridges g | closeTunnels =>
    cases h
    exact .quiet ho (fun _ h => h) nofun rfl rfl rfl rfl rfl rfl rfl rfl

/-- A step of the guarded call, from the state before it. -/
theorem opStep_spec {s t : ActiveSession} {op : Op} {c : OpChoice} {r : Progress}
    (hop : s.op = some op) (ho : OpOwns s op) (h : s.opStep c = some (t, r)) : OpSpec s op t r := by
  cases op with
  | connect pc =>
    simp only [opStep, hop] at h
    exact connectStep_spec ho h
  | disconnect pc =>
    simp only [opStep, hop] at h
    split at h
    · exact disconnectStep_spec ho (Option.some.inj h)
    · cases h

/-! ## The pumps -/

/-- What a delivery does to the mailboxes: nothing, or one event more in one
of them. -/
def Delivered (s t : ActiveSession) (mailbox : Nat) (e : Emitted) : Prop :=
  t.mailboxes = s.mailboxes ∨ ∃ m, s.mailboxes mailbox = some m ∧
    t.mailboxes = Function.update s.mailboxes mailbox (some (m.push e))

theorem trySend_ok {s t : ActiveSession} {mailbox : Nat} {e : Emitted}
    (h : s.trySend mailbox e = .ok t) :
    ∃ m, s.mailboxes mailbox = some m ∧
      t = { s with mailboxes := Function.update s.mailboxes mailbox (some (m.push e)) } := by
  simp only [trySend] at h
  split at h
  · cases h
  · rename_i m hm
    split at h
    · cases h
    · split at h <;> cases h
      exact ⟨m, hm, rfl⟩

/-- A round of the delivery loop writes one mailbox and the drop counter, and
keeps the pump's place. -/
theorem deliverOne_spec {s t : ActiveSession} {p q : Pump} {e : Emitted} {sub : Subscriber}
    (h : s.deliverOne p e sub = some (t, q)) :
    Delivered s t sub.mailbox e ∧ q.lost = p.lost ∧
      t = { s with mailboxes := t.mailboxes, droppedEvents := t.droppedEvents } := by
  have hok : ∀ {u}, s.trySend sub.mailbox e = .ok u → Delivered s u sub.mailbox e ∧
      u = { s with mailboxes := u.mailboxes, droppedEvents := u.droppedEvents } := by
    intro u hu
    obtain ⟨m, hm, rfl⟩ := trySend_ok hu
    exact ⟨.inr ⟨m, hm, rfl⟩, rfl⟩
  simp only [deliverOne] at h
  split at h
  · split at h
    · split at h <;> cases h
      · rename_i hu
        exact ⟨(hok hu).1, rfl, (hok hu).2⟩
      · exact ⟨.inl rfl, rfl, rfl⟩
    · split at h
      · split at h <;> cases h
        · rename_i hu
          exact ⟨(hok hu).1, rfl, (hok hu).2⟩
        · exact ⟨.inl rfl, rfl, rfl⟩
      · split at h <;> cases h
        · rename_i hu
          exact ⟨(hok hu).1, rfl, (hok hu).2⟩
        · exact ⟨.inl rfl, rfl, rfl⟩
  · cases h
    exact ⟨.inl rfl, rfl, rfl⟩

/-- The subscribers a pump still has to deliver its event to. -/
def PumpPc.targets : PumpPc → List Subscriber
  | .retain _ subs | .deliver _ subs => subs
  | _ => []

/-- The pump is between its reading of `Ready` and the end of the transition. -/
def PumpPc.flipping : PumpPc → Bool
  | .lossGeneration | .lossTransition => true
  | _ => false

/-- One step of the pump of generation `g`: it goes on by itself, enters the
section under the `subscribers` lock, delivers to one subscriber, or sets the
state. By itself it is through with a loss event only when its generation is
over or the state is not `Ready`, and starts to flip the state only from its
reading of it. -/
inductive PumpMoves (s : ActiveSession) (g : Nat) (p : Pump) : ActiveSession → Prop
  | quiet (q : Pump) (ht : ∀ sub ∈ q.pc.targets, sub ∈ p.pc.targets)
      (hl : q.lost = true → p.lost = true ∨ s.controller.generation ≠ g ∨
        s.controller.state ≠ .ready ∧ (p.pc = .lossState ∨ p.pc.flipping = true))
      (hf : q.pc.flipping = true → p.pc = .lossState ∨ p.pc.flipping = true) :
      PumpMoves s g p (s.setPump g q)
  | publish (e : SessionEvent) (hpc : p.pc = .publish e) :
      PumpMoves s g p ((s.publish ⟨g, e⟩).setPump g
        { p with pc := .retain e (s.publish ⟨g, e⟩).subscribers })
  | deliver {e : SessionEvent} {sub : Subscriber} {subs : List Subscriber} {u : ActiveSession}
      {q : Pump} (hpc : p.pc = .deliver e (sub :: subs))
      (hd : s.deliverOne p ⟨g, e⟩ sub = some (u, q)) :
      PumpMoves s g p (u.setPump g { q with pc := .deliver e subs })
  | flip (hpc : p.pc = .lossTransition) (hs : s.controller.state ≠ .connecting) :
      PumpMoves s g p ({ s with controller := { s.controller with state := .reconnecting } }.setPump g
        { p with pc := .recv, lost := true })

theorem pumpStep_moves {s t : ActiveSession} {g : Nat} {p : Pump} {c : PumpChoice}
    (h : s.pumpStep g p p.pc c = some t) : PumpMoves s g p t := by
  cases hpc : p.pc with
  | recv =>
    rw [hpc] at h
    cases c <;> simp only [pumpStep, reduceCtorEq, Option.some.injEq] at h <;> cases h <;>
      exact .quiet _ nofun .inl nofun
  | check e | lossCheck =>
    rw [hpc] at h
    cases c <;> simp only [pumpStep, reduceCtorEq] at h
    split at h <;> cases h
    · exact .quiet _ nofun (fun _ => .inr (.inl ‹_›)) nofun
    · exact .quiet _ nofun .inl nofun
  | publish e =>
    rw [hpc] at h
    cases c <;> simp only [pumpStep, reduceCtorEq, Option.some.injEq] at h
    cases h
    exact .publish e hpc
  | retain e subs =>
    rw [hpc] at h
    cases c <;> simp only [pumpStep, reduceCtorEq, Option.some.injEq] at h
    cases h
    exact .quiet _ (by rw [hpc]; exact fun _ hx => hx) .inl nofun
  | deliver e subs =>
    rw [hpc] at h
    cases subs with
    | nil =>
      cases c <;> simp only [pumpStep, reduceCtorEq, Option.some.injEq] at h
      cases h
      exact .quiet _ (by cases e.isLoss <;> nofun) .inl (by cases e.isLoss <;> nofun)
    | cons sub subs =>
      cases c <;> simp only [pumpStep, reduceCtorEq] at h
      split at h <;> cases h
      exact .deliver hpc ‹_›
  | lossState =>
    rw [hpc] at h
    cases c <;> simp only [pumpStep, reduceCtorEq] at h
    split at h <;> cases h
    · exact .quiet _ nofun .inl fun _ => .inl hpc
    · exact .quiet _ nofun (fun _ => .inr (.inr ⟨‹_›, .inl hpc⟩)) nofun
  | lossGeneration =>
    rw [hpc] at h
    cases c <;> simp only [pumpStep, reduceCtorEq] at h
    split at h <;> cases h
    · exact .quiet _ nofun (fun _ => .inr (.inl ‹_›)) nofun
    · exact .quiet _ nofun .inl fun _ => .inr (by rw [hpc]; rfl)
  | lossTransition =>
    rw [hpc] at h
    cases c <;> simp only [pumpStep, reduceCtorEq] at h
    split at h <;> cases h
    · rename_i k hk
      -- from `Connecting` there is no transition to `Reconnecting`
      have hne : s.controller.state ≠ .connecting := by
        intro e
        simp [ConnectionStateController.transition, connectionTransition, e] at hk
      rw [transition_ok hk]
      exact .flip hpc hne
    · rename_i k hk
      -- `Ready` may become `Reconnecting`, so the transition failed in another state
      have hne : s.controller.state ≠ .ready := by
        intro e
        simp [ConnectionStateController.transition, connectionTransition, e] at hk
      exact .quiet _ nofun (fun _ => .inr (.inr ⟨hne, .inr (by rw [hpc]; rfl)⟩)) nofun
  | stopped =>
    rw [hpc] at h
    cases c <;> simp only [pumpStep, reduceCtorEq] at h

/-- What one step of the pump of generation `g` does to the rest of the
session. -/
structure PumpSpec (s : ActiveSession) (g : Nat) (t : ActiveSession) : Prop where
  op : t.op = s.op
  connection : t.connection = s.connection
  generation : t.controller.generation = s.controller.generation
  state : t.controller.state = s.controller.state ∨
    t.controller.state = .reconnecting ∧ s.controller.state ≠ .connecting
  pumps : ∃ q, t.pumps = Function.update s.pumps g (some q)
  cleared : t.cleared = s.cleared
  nextMailbox : t.nextMailbox = s.nextMailbox

theorem PumpMoves.spec {s t : ActiveSession} {g : Nat} {p : Pump} (h : PumpMoves s g p t) :
    PumpSpec s g t := by
  cases h with
  | quiet q | publish e => exact ⟨rfl, rfl, rfl, .inl rfl, ⟨_, rfl⟩, rfl, rfl⟩
  | deliver hpc hd =>
    obtain ⟨-, -, e⟩ := deliverOne_spec hd
    rw [e]
    exact ⟨rfl, rfl, rfl, .inl rfl, ⟨_, rfl⟩, rfl, rfl⟩
  | flip hpc hs => exact ⟨rfl, rfl, rfl, .inr ⟨rfl, hs⟩, ⟨_, rfl⟩, rfl, rfl⟩

/-! ## Calls without the guard -/

/-- `mark` sets the state or leaves the session as it is. -/
theorem mark_cases (s : ActiveSession) (target : ConnectionState) :
    s.mark target = { s with controller := { s.controller with state := target } } ∨
    s.mark target = s := by
  simp only [mark]
  cases h : s.controller.transition target with
  | ok c => exact .inl (by rw [transition_ok h])
  | error e => exact .inr rfl

/-- The owner of a receiver only writes its mailbox. -/
theorem receive_spec {s t : ActiveSession} {m : Nat} (h : s.receive m = some t) :
    ∃ b q, s.mailboxes m = some b ∧
      t = { s with mailboxes := Function.update s.mailboxes m (some { b with queue := q }) } := by
  simp only [receive] at h
  split at h
  · rename_i b hb
    split at h <;> cases h
    exact ⟨b, _, hb, rfl⟩
  · cases h

theorem dropReceiver_spec {s t : ActiveSession} {m : Nat} (h : s.dropReceiver m = some t) :
    ∃ b, s.mailboxes m = some b ∧
      t = { s with mailboxes := Function.update s.mailboxes m (some { b with closed := true }) } := by
  obtain ⟨b, hb, rfl⟩ := Option.map_eq_some_iff.mp h
  exact ⟨b, hb, rfl⟩

/-- The steps of a session, by task. -/
theorem step_cases {s t : ActiveSession} {a : Action} (h : step s a = some t) :
    (∃ op, s.op = none ∧ t = { s with op := some op } ∧ op.generation = none ∧ op.clears = none) ∨
    (∃ c op u r, a = .op c ∧ s.op = some op ∧ s.opStep c = some (u, r) ∧ t = { u with op := r.op }) ∨
    (∃ g c p, a = .pump g c ∧ s.pumps g = some p ∧ s.pumpStep g p p.pc c = some t) ∨
    (∃ channel, a = .subscribe channel ∧ t = s.subscribe channel) ∨
    (∃ m, s.receive m = some t ∨ s.dropReceiver m = some t) ∨
    (∃ target, target ≠ .ready ∧ t = s.mark target) := by
  cases a with
  | connect =>
    simp only [step, acquireGuard] at h
    split at h <;> cases h
    exact .inl ⟨_, ‹_›, rfl, rfl, rfl⟩
  | disconnect =>
    simp only [step, acquireGuard] at h
    split at h <;> cases h
    exact .inl ⟨_, ‹_›, rfl, rfl, rfl⟩
  | op c =>
    obtain ⟨⟨u, r⟩, hr, rfl⟩ := Option.map_eq_some_iff.mp h
    cases ho : s.op with
    | none => simp [opStep, ho] at hr
    | some op => exact .inr (.inl ⟨c, op, u, r, rfl, rfl, hr, rfl⟩)
  | pump g c =>
    simp only [step] at h
    split at h
    · exact .inr (.inr (.inl ⟨g, c, _, rfl, ‹_›, h⟩))
    · cases h
  | subscribe channel =>
    simp only [step, Option.some.injEq] at h
    exact .inr (.inr (.inr (.inl ⟨channel, rfl, h.symm⟩)))
  | receive m => exact .inr (.inr (.inr (.inr (.inl ⟨m, .inl h⟩))))
  | dropReceiver m => exact .inr (.inr (.inr (.inr (.inl ⟨m, .inr h⟩))))
  | markWaitingForCredential =>
    simp only [step, Option.some.injEq] at h
    exact .inr (.inr (.inr (.inr (.inr ⟨.waitingForCredential, nofun, h.symm⟩))))
  | markReconnecting =>
    simp only [step, Option.some.injEq] at h
    exact .inr (.inr (.inr (.inr (.inr ⟨.reconnecting, nofun, h.symm⟩))))

/-! ## Traces -/

/-- A connect call of the only candidate, up to and with the spawning of its pump. -/
def attachTrace : List Action :=
  .connect :: .op .go :: .op (.candidates 1) :: .op .go :: .op .go :: .op .go :: .op .dialed ::
    List.replicate 8 (.op .go)

end KW.Session
