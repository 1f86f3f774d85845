import KodeWork.Proof.Session.Guard

/-!
# Mailboxes and the way of an event

What holds of the mailboxes in every run (`MailboxInv`), what a step of a pump
does with the event it holds (`PumpFlow`), and what the tasks of a session can
do while the generation of an attached transport lasts (`InGeneration`,
`inGeneration_step`): no guarded call clears anything, and no older pump gets
past its generation check.

A pump waits for a full mailbox. `canSettle` says that it is never stuck: as long
as receivers take their events, it can go on until it owes nothing to anyone.
-/

namespace KW.Session

open ActiveSession

/-! ## Mailboxes -/

/-- Mailboxes have room, and are known by ids that were given out. -/
structure MailboxInv (s : ActiveSession) : Prop where
  guard : GuardInv s
  subscribers : ∀ sub ∈ s.subscribers, sub.mailbox < s.nextMailbox
  targets : ∀ g p, s.pumps g = some p → ∀ sub ∈ p.pc.targets, sub.mailbox < s.nextMailbox
  capacity : ∀ m b, s.mailboxes m = some b → 0 < b.capacity

theorem mailboxInv_new (eventBuffer : Nat) : MailboxInv (.new eventBuffer) where
  guard := guardInv_new eventBuffer
  subscribers := by rintro _ ⟨⟩
  targets := by rintro _ _ ⟨⟩
  capacity := by rintro _ _ ⟨⟩

theorem mailboxInv_op {s t : ActiveSession} {op : Op} {c : OpChoice} {r : Progress}
    (hi : MailboxInv s) (ho : s.op = some op) (h : s.opStep c = some (t, r)) :
    MailboxInv { t with op := r.op } := by
  have hs := opStep_spec ho (hi.guard.owns op ho) h
  refine ⟨guardInv_op hi.guard ho h, fun sub hsub => ?_, fun g p hp => ?_, fun m b hb => ?_⟩
  · simp only [hs.nextMailbox]
    rcases hs.subscribers with e | e <;> simp only [e] at hsub
    · exact hi.subscribers sub hsub
    · cases hsub
  · simp only [hs.nextMailbox]
    rcases hs.pumps with e | ⟨k, -, e⟩ <;> simp only [e] at hp
    · exact hi.targets g p hp
    · rcases entry_of_update hp with ⟨-, ⟨⟩⟩ | ⟨-, hp⟩
      · rintro _ ⟨⟩
      · exact hi.targets g p hp
  · simp only [hs.mailboxes] at hb
    exact hi.capacity m b hb

theorem Delivered.capacity {s t : ActiveSession} {mailbox m : Nat} {e : Emitted} {b : Mailbox}
    (h : Delivered s t mailbox e) (hb : t.mailboxes m = some b) :
    ∃ old, s.mailboxes m = some old ∧ b.capacity = old.capacity := by
  rcases h with h | ⟨old, hold, h⟩
  · exact ⟨b, h ▸ hb, rfl⟩
  · rw [h] at hb
    rcases entry_of_update hb with ⟨rfl, ⟨⟩⟩ | ⟨-, hb⟩
    · exact ⟨old, hold, rfl⟩
    · exact ⟨b, hb, rfl⟩

theorem mailboxInv_pump {s t : ActiveSession} {g : Nat} {p : Pump} {c : PumpChoice}
    (hi : MailboxInv s) (hp : s.pumps g = some p) (h : s.pumpStep g p p.pc c = some t) :
    MailboxInv t := by
  have hg := (beside_pump h).guardInv hi.guard
  have htargets : ∀ (q : Pump), (∀ sub ∈ q.pc.targets, sub.mailbox < s.nextMailbox) →
      ∀ k r, Function.update s.pumps g (some q) k = some r →
      ∀ sub ∈ r.pc.targets, sub.mailbox < s.nextMailbox := by
    intro q hq k r hr
    rcases entry_of_update hr with ⟨-, ⟨⟩⟩ | ⟨-, hr⟩
    · exact hq
    · exact hi.targets k r hr
  cases pumpStep_moves h with
  | quiet q ht =>
    exact ⟨hg, hi.subscribers, htargets q fun sub hsub => hi.targets g p hp sub (ht sub hsub),
      hi.capacity⟩
  | publish e =>
    have hlive : ∀ sub ∈ (s.publish ⟨g, e⟩).subscribers, sub.mailbox < s.nextMailbox :=
      fun sub hsub => hi.subscribers sub (List.mem_filter.mp hsub).1
    exact ⟨hg, hlive, htargets { p with pc := .retain e (s.publish ⟨g, e⟩).subscribers } hlive,
      hi.capacity⟩
  | @deliver e sub subs u q hpc hd =>
    obtain ⟨hm, -, he⟩ := deliverOne_spec hd
    have hsubs : ∀ x ∈ subs, x.mailbox < s.nextMailbox := fun x hx =>
      hi.targets g p hp x (by rw [hpc]; exact List.mem_cons_of_mem _ hx)
    refine ⟨hg, ?_, ?_, fun m b hb => ?_⟩
    · rw [he]
      exact hi.subscribers
    · rw [he]
      exact htargets { q with pc := .deliver e subs } hsubs
    · obtain ⟨old, hold, e⟩ := hm.capacity hb
      rw [e]
      exact hi.capacity m old hold
  | flip =>
    exact ⟨hg, hi.subscribers, htargets { p with pc := .recv, lost := true } (by rintro _ ⟨⟩),
      hi.capacity⟩

/-- The owner of a receiver keeps its capacity. -/
theorem mailboxInv_mailbox {s t : ActiveSession} {m : Nat} {b b' : Mailbox} (hi : MailboxInv s)
    (hg : GuardInv t) (hb : s.mailboxes m = some b)
    (ht : t = { s with mailboxes := Function.update s.mailboxes m (some b') })
    (hc : b'.capacity = b.capacity) : MailboxInv t := by
  subst ht
  refine ⟨hg, hi.subscribers, hi.targets, fun k x hx => ?_⟩
  rcases entry_of_update hx with ⟨-, ⟨⟩⟩ | ⟨-, hx⟩
  · rw [hc]
    exact hi.capacity m b hb
  · exact hi.capacity k x hx

theorem mailboxInv_subscribe {s : ActiveSession} (hi : MailboxInv s) (channel : Option Nat) :
    MailboxInv (s.subscribe channel) := by
  refine ⟨⟨hi.guard.owns, hi.guard.dialing, hi.guard.taken⟩, fun sub hsub => ?_, fun g p hp sub hsub => ?_,
    fun m b hb => ?_⟩
  · rcases List.mem_append.mp hsub with hsub | hsub
    · exact Nat.lt_succ_of_lt (hi.subscribers sub hsub)
    · rw [List.mem_singleton.mp hsub]
      exact Nat.lt_succ_self _
  · exact Nat.lt_succ_of_lt (hi.targets g p hp sub hsub)
  · rcases entry_of_update hb with ⟨-, ⟨⟩⟩ | ⟨-, hb⟩
    · have := Nat.le_max_right s.eventBuffer
        ((((channel.bind s.pendingEvents).map (·.events)).getD []).length + 8)
      show 0 < max _ _
      omega
    · exact hi.capacity m b hb

theorem mailboxInv_step {s t : ActiveSession} {a : Action} (hi : MailboxInv s)
    (h : step s a = some t) : MailboxInv t := by
  cases a with
  | connect =>
    obtain ⟨-, rfl, hg⟩ := guardInv_acquire (.inl rfl) h
    exact ⟨hg, hi.subscribers, hi.targets, hi.capacity⟩
  | disconnect =>
    obtain ⟨-, rfl, hg⟩ := guardInv_acquire (.inr rfl) h
    exact ⟨hg, hi.subscribers, hi.targets, hi.capacity⟩
  | op c =>
    obtain ⟨⟨u, r⟩, hr, rfl⟩ := Option.map_eq_some_iff.mp h
    obtain ⟨op, ho⟩ := opStep_op hr
    exact mailboxInv_op hi ho hr
  | pump g c =>
    simp only [step] at h
    split at h
    · exact mailboxInv_pump hi ‹_› h
    · cases h
  | subscribe channel =>
    cases h
    exact mailboxInv_subscribe hi channel
  | receive m =>
    have hb := beside_step h (by rintro _ ⟨⟩) (by rintro ⟨⟩) (by rintro ⟨⟩)
    obtain ⟨b, q, hm, ht⟩ := receive_spec h
    exact mailboxInv_mailbox hi (hb.guardInv hi.guard) hm ht rfl
  | dropReceiver m =>
    have hb := beside_step h (by rintro _ ⟨⟩) (by rintro ⟨⟩) (by rintro ⟨⟩)
    obtain ⟨b, hm, ht⟩ := dropReceiver_spec h
    exact mailboxInv_mailbox hi (hb.guardInv hi.guard) hm ht rfl
  | markWaitingForCredential | markReconnecting =>
    have hb := beside_step h (by rintro _ ⟨⟩) (by rintro ⟨⟩) (by rintro ⟨⟩)
    have hg := hb.guardInv hi.guard
    cases h
    simp only [ActiveSession.markWaitingForCredential, ActiveSession.markReconnecting] at hg ⊢
    rcases mark_cases s _ with e | e <;> rw [e] at hg ⊢
    · exact ⟨hg, hi.subscribers, hi.targets, hi.capacity⟩
    · exact hi

/-! ## The way of an event -/

/-- What the pump still has to do for channel `c` with the event it holds: keep
it or deliver it, or deliver it to the subscribers of `c` it has left. -/
def PumpPc.owed (c : Nat) : PumpPc → List SessionEvent
  | .check e | .publish e => if sessionEventChannel e = some c then [e] else []
  | .retain e subs | .deliver e subs =>
    if sessionEventChannel e = some c then
      (subs.filter fun sub => sub.filter == some c).map fun _ => e
    else []
  | _ => []

/-- One step of the pump of `g`, by what happens to the event it holds. -/
inductive PumpFlow (s : ActiveSession) (g : Nat) (p : Pump) : PumpChoice → ActiveSession → Prop
  | event (e : SessionEvent) (hpc : p.pc = .recv) :
      PumpFlow s g p (.event e) (s.setPump g { p with pc := .check e })
  | stale (hg : s.controller.generation ≠ g) (q : Pump) (ht : q.pc.targets = [])
      (hq : ∀ e, q.pc ≠ .publish e) : PumpFlow s g p .go (s.setPump g q)
  | check (e : SessionEvent) (hpc : p.pc = .check e) (hg : s.controller.generation = g) :
      PumpFlow s g p .go (s.setPump g { p with pc := .publish e })
  | publish (e : SessionEvent) (hpc : p.pc = .publish e) :
      PumpFlow s g p .go ((s.publish ⟨g, e⟩).setPump g
        { p with pc := .retain e (s.publish ⟨g, e⟩).subscribers })
  | retain (e : SessionEvent) (subs : List Subscriber) (hpc : p.pc = .retain e subs) :
      PumpFlow s g p .go (s.setPump g { p with
        pc := .deliver e subs
        primaries := fun filter => (p.primaries filter).filter fun m => !s.isClosed m })
  | deliver {e : SessionEvent} {sub : Subscriber} {subs : List Subscriber} {u : ActiveSession}
      {q : Pump} (hpc : p.pc = .deliver e (sub :: subs))
      (hd : s.deliverOne p ⟨g, e⟩ sub = some (u, q)) :
      PumpFlow s g p .go (u.setPump g { q with pc := .deliver e subs })
  | idle (state : ConnectionState) (q : Pump) (c : PumpChoice) (hc : ∀ e, c ≠ .event e)
      (hp : ∀ channel, p.pc.owed channel = []) (hq : ∀ channel, q.pc.owed channel = [])
      (ht : q.pc.targets = []) (hn : ∀ e, q.pc ≠ .publish e) (hprim : q.primaries = p.primaries) :
      PumpFlow s g p c
        ({ s with controller := { s.controller with state := state } }.setPump g q)

theorem pumpStep_flow {s t : ActiveSession} {g : Nat} {p : Pump} {c : PumpChoice}
    (h : s.pumpStep g p p.pc c = some t) : PumpFlow s g p c t := by
  have hidle : ∀ {q : Pump} {d : PumpChoice}, (∀ e, d ≠ .event e) → (∀ channel, p.pc.owed channel = []) →
      (∀ channel, q.pc.owed channel = []) → q.pc.targets = [] → (∀ e, q.pc ≠ .publish e) →
      q.primaries = p.primaries → PumpFlow s g p d (s.setPump g q) :=
    fun hd hp hq ht hn hprim => .idle s.controller.state _ _ hd hp hq ht hn hprim
  cases hpc : p.pc with
  | recv =>
    rw [hpc] at h
    cases c <;> simp only [pumpStep, reduceCtorEq, Option.some.injEq] at h <;> cases h
    · exact .event _ hpc
    · exact hidle (by rintro _ ⟨⟩) (by rw [hpc]; exact fun _ => rfl) (fun _ => rfl) rfl (by rintro _ ⟨⟩) rfl
  | check e =>
    rw [hpc] at h
    cases c <;> simp only [pumpStep, reduceCtorEq] at h
    split at h <;> cases h
    · exact .stale ‹_› _ rfl (by rintro _ ⟨⟩)
    · exact .check e hpc (Decidable.not_not.mp ‹_›)
  | publish e =>
    rw [hpc] at h
    cases c <;> simp only [pumpStep, reduceCtorEq, Option.some.injEq] at h
    cases h
    exact .publish e hpc
  | retain e subs =>
    rw [hpc] at h
    cases c <;> simp only [pumpStep, reduceCtorEq, Option.some.injEq] at h
    cases h
    exact .retain e subs hpc
  | deliver e subs =>
    rw [hpc] at h
    cases subs with
    | nil =>
      cases c <;> simp only [pumpStep, reduceCtorEq, Option.some.injEq] at h
      cases h
      have hnil : ∀ channel, p.pc.owed channel = [] := by
        intro channel
        simp [hpc, PumpPc.owed]
      cases hl : e.isLoss <;>
        exact hidle (by rintro _ ⟨⟩) hnil (fun _ => rfl) rfl (by rintro _ ⟨⟩) rfl
    | cons sub subs =>
      cases c <;> simp only [pumpStep, reduceCtorEq] at h
      split at h <;> cases h
      exact .deliver hpc ‹_›
  | lossCheck | lossState | lossGeneration =>
    rw [hpc] at h
    cases c <;> simp only [pumpStep, reduceCtorEq] at h
    split at h <;> cases h <;>
      exact hidle (by rintro _ ⟨⟩) (by rw [hpc]; exact fun _ => rfl) (fun _ => rfl) rfl
        (by rintro _ ⟨⟩) rfl
  | lossTransition =>
    rw [hpc] at h
    cases c <;> simp only [pumpStep, reduceCtorEq] at h
    split at h <;> cases h
    · rename_i k hk
      rw [transition_ok hk]
      exact .idle _ _ _ (by rintro _ ⟨⟩) (by rw [hpc]; exact fun _ => rfl) (fun _ => rfl) rfl
        (by rintro _ ⟨⟩) rfl
    · exact hidle (by rintro _ ⟨⟩) (by rw [hpc]; exact fun _ => rfl) (fun _ => rfl) rfl
        (by rintro _ ⟨⟩) rfl
  | stopped =>
    rw [hpc] at h
    cases c <;> simp only [pumpStep, reduceCtorEq] at h

/-- A pump gets to its section under the `subscribers` lock from its generation
check only. -/
theorem PumpFlow.published {s t : ActiveSession} {g : Nat} {p : Pump} {c : PumpChoice}
    (h : PumpFlow s g p c t) : ∃ q, t.pumps = Function.update s.pumps g (some q) ∧
      ∀ e, q.pc = .publish e → s.controller.generation = g := by
  cases h with
  | event e hpc => exact ⟨_, rfl, by rintro _ ⟨⟩⟩
  | stale hg q ht hq => exact ⟨q, rfl, fun e he => absurd he (hq e)⟩
  | check e hpc hg => exact ⟨_, rfl, fun _ _ => hg⟩
  | publish e hpc => exact ⟨_, rfl, by rintro _ ⟨⟩⟩
  | retain e subs hpc => exact ⟨_, rfl, by rintro _ ⟨⟩⟩
  | deliver hpc hd =>
    obtain ⟨-, -, e⟩ := deliverOne_spec hd
    rw [e]
    exact ⟨_, rfl, by rintro _ ⟨⟩⟩
  | idle state q _ _ _ _ _ hn => exact ⟨q, rfl, fun e he => absurd he (hn e)⟩

/-! ## One generation -/

/-- A guarded call that stays in the generation of an attached transport only
writes the state: it has not reserved a generation, or is about to set `Ready`. -/
theorem opStep_settled {s t : ActiveSession} {op : Op} {c : OpChoice} {r : Progress} {g : Nat}
    (ho : s.op = some op) (hn : op.generation = none ∨ op = .connect (.setReady g))
    (h : s.opStep c = some (t, r)) (hg : t.controller.generation = s.controller.generation) :
    t = { s with controller := t.controller } ∧ ∀ op', r = .next op' → op'.generation = none := by
  have hset : ∀ {target : ConnectionState} {p : Progress}, s.setStateThen target p = (t, r) →
      (∀ op', p = .next op' → op'.generation = none) →
      t = { s with controller := t.controller } ∧ ∀ op', r = .next op' → op'.generation = none := by
    intro target p h hp
    rcases setStateThen_cases s target p with e | e <;> rw [e] at h <;> cases h
    · exact ⟨rfl, hp⟩
    · exact ⟨rfl, by rintro _ ⟨⟩⟩
  cases op with
  | connect pc =>
    simp only [opStep, ho] at h
    cases pc with
    | resolve | setFailed _ | setReady _ =>
      cases c <;> simp only [connectStep, reduceCtorEq, Option.some.injEq] at h
      exact hset h (by rintro _ ⟨⟩ <;> rfl)
    | candidates =>
      cases c <;> simp only [connectStep, reduceCtorEq] at h
      split at h <;> cases h <;> exact ⟨rfl, by rintro _ ⟨⟩; rfl⟩
    | reserve n =>
      cases c <;> simp only [connectStep, reduceCtorEq, Option.some.injEq] at h
      cases h
      exact absurd hg (Nat.succ_ne_self _)
    | jump _ _ | attempt _ _ _ | dial _ _ | install _ | store _ | clearSftp _ | clearPanes _
    | clearPending _ | drainBridges _ | clearTransfers _ | spawnPump _ =>
      rcases hn with hn | hn <;> cases hn
  | disconnect pc =>
    simp only [opStep, ho] at h
    split at h
    · have h := Option.some.inj h
      cases pc with
      | reserve =>
        cases h
        exact absurd hg (Nat.succ_ne_self _)
      | closeTunnels =>
        cases h
        exact ⟨rfl, by rintro _ ⟨⟩; rfl⟩
      | setDisconnected => exact hset h (by rintro _ ⟨⟩)
      | take _ | close _ | clearPanes _ | clearSftp _ | takeTransfers _ | drainBridges _
      | clearSubscribers _ | clearPending _ => rcases hn with hn | hn <;> cases hn
    · cases h

/-- The session within the generation `g` of an attached transport: no other
pump is past its generation check with an event. -/
structure InGeneration (g : Nat) (s : ActiveSession) : Prop where
  mailbox : MailboxInv s
  generation : s.controller.generation = g
  op : ∀ op, s.op = some op → op.generation = none ∨ op = .connect (.setReady g)
  others : ∀ k p, k ≠ g → s.pumps k = some p → ∀ e, p.pc ≠ .publish e

theorem inGeneration_pump {s t : ActiveSession} {g k : Nat} {p : Pump} {c : PumpChoice}
    (hi : InGeneration g s) (hp : s.pumps k = some p) (h : s.pumpStep k p p.pc c = some t) :
    InGeneration g t := by
  have hs := (pumpStep_moves h).spec
  refine ⟨mailboxInv_pump hi.mailbox hp h, hs.generation.trans hi.generation, ?_, ?_⟩
  · rw [hs.op]
    exact hi.op
  · intro j q hj hq e he
    obtain ⟨q', hpumps, hpub⟩ := (pumpStep_flow h).published
    rw [hpumps] at hq
    rcases entry_of_update hq with ⟨rfl, ⟨⟩⟩ | ⟨-, hq⟩
    · -- the other pumps fail their generation check
      have hg := hpub e he
      rw [hi.generation] at hg
      exact hj hg.symm
    · exact hi.others j q hj hq e he

/-- A step of another task that leaves the guard and the pumps alone. -/
theorem InGeneration.beside {s t : ActiveSession} {g : Nat} (hi : InGeneration g s)
    (hm : MailboxInv t) (hb : Beside s t) (hp : t.pumps = s.pumps) : InGeneration g t where
  mailbox := hm
  generation := hb.generation.trans hi.generation
  op := by
    rw [hb.op]
    exact hi.op
  others := by
    rw [hp]
    exact hi.others

/-- What the steps of a session do within one generation: a pump moves, a
receiver is made, used or dropped, or only the state and the guard change. -/
theorem inGeneration_step {s t : ActiveSession} {a : Action} {g : Nat} (hi : InGeneration g s)
    (h : step s a = some t) (hg : t.controller.generation = g) :
    InGeneration g t ∧
    ((∃ k c p, a = .pump k c ∧ s.pumps k = some p ∧ s.pumpStep k p p.pc c = some t) ∨
      (∃ channel, a = .subscribe channel ∧ t = s.subscribe channel) ∨
      (∃ m, a = .receive m ∧ s.receive m = some t) ∨
      (∃ m, a = .dropReceiver m ∧ s.dropReceiver m = some t) ∨
      ((∀ k c, a ≠ .pump k c) ∧ (∀ m, a ≠ .receive m) ∧
        t = { s with controller := t.controller, op := t.op })) := by
  have hm := mailboxInv_step hi.mailbox h
  cases a with
  | connect =>
    obtain ⟨-, rfl, -⟩ := guardInv_acquire (.inl rfl) h
    exact ⟨⟨hm, hg, by rintro _ ⟨⟩; exact .inl rfl, hi.others⟩, .inr (.inr (.inr (.inr ⟨by rintro _ _ ⟨⟩, by rintro _ ⟨⟩, rfl⟩)))⟩
  | disconnect =>
    obtain ⟨-, rfl, -⟩ := guardInv_acquire (.inr rfl) h
    exact ⟨⟨hm, hg, by rintro _ ⟨⟩; exact .inl rfl, hi.others⟩, .inr (.inr (.inr (.inr ⟨by rintro _ _ ⟨⟩, by rintro _ ⟨⟩, rfl⟩)))⟩
  | op c =>
    obtain ⟨⟨u, r⟩, hr, rfl⟩ := Option.map_eq_some_iff.mp h
    obtain ⟨op, ho⟩ := opStep_op hr
    obtain ⟨e, hnext⟩ := opStep_settled ho (hi.op op ho) hr (hg.trans hi.generation.symm)
    have hpumps : u.pumps = s.pumps := by rw [e]
    refine ⟨⟨hm, hg, fun op' h' => .inl (hnext op' (Progress.eq_next h')), ?_⟩,
      .inr (.inr (.inr (.inr ⟨by rintro _ _ ⟨⟩, by rintro _ ⟨⟩, ?_⟩)))⟩
    · show ∀ k p, k ≠ g → u.pumps k = some p → _
      rw [hpumps]
      exact hi.others
    · show ({ u with op := r.op } : ActiveSession) = _
      rw [e]
  | pump k c =>
    simp only [step] at h
    split at h
    · exact ⟨inGeneration_pump hi ‹_› h, .inl ⟨k, c, _, rfl, ‹_›, h⟩⟩
    · cases h
  | subscribe channel =>
    have hb := beside_step h (by rintro _ ⟨⟩) (by rintro ⟨⟩) (by rintro ⟨⟩)
    cases h
    exact ⟨hi.beside hm hb rfl, .inr (.inl ⟨channel, rfl, rfl⟩)⟩
  | receive m =>
    have hb := beside_step h (by rintro _ ⟨⟩) (by rintro ⟨⟩) (by rintro ⟨⟩)
    obtain ⟨b, q, -, ht⟩ := receive_spec h
    exact ⟨hi.beside hm hb (by rw [ht]), .inr (.inr (.inl ⟨m, rfl, h⟩))⟩
  | dropReceiver m =>
    have hb := beside_step h (by rintro _ ⟨⟩) (by rintro ⟨⟩) (by rintro ⟨⟩)
    obtain ⟨b, -, ht⟩ := dropReceiver_spec h
    exact ⟨hi.beside hm hb (by rw [ht]), .inr (.inr (.inr (.inl ⟨m, rfl, h⟩)))⟩
  | markWaitingForCredential | markReconnecting =>
    have hb := beside_step h (by rintro _ ⟨⟩) (by rintro ⟨⟩) (by rintro ⟨⟩)
    cases h
    simp only [ActiveSession.markWaitingForCredential, ActiveSession.markReconnecting] at hm hb ⊢
    rcases mark_cases s _ with e | e <;> rw [e] at hm hb ⊢
    · exact ⟨hi.beside hm hb rfl, .inr (.inr (.inr (.inr ⟨by rintro _ _ ⟨⟩, by rintro _ ⟨⟩, rfl⟩)))⟩
    · exact ⟨hi, .inr (.inr (.inr (.inr ⟨by rintro _ _ ⟨⟩, by rintro _ ⟨⟩, rfl⟩)))⟩

theorem step_generation_le {s t : ActiveSession} {a : Action} (hi : GuardInv s)
    (h : step s a = some t) : s.controller.generation ≤ t.controller.generation := by
  rcases step_cases h with ⟨op, -, rfl, -⟩ | ⟨c, op, u, r, -, ho, hr, rfl⟩ |
    ⟨g, c, p, -, -, hs⟩ | ⟨channel, -, rfl⟩ | ⟨m, hm⟩ | ⟨target, -, rfl⟩
  · exact Nat.le_refl _
  · rcases (opStep_spec ho (hi.owns op ho) hr).generation with e | ⟨e, -⟩
    · exact Nat.le_of_eq e.symm
    · show s.controller.generation ≤ u.controller.generation
      omega
  · exact Nat.le_of_eq (pumpStep_moves hs).spec.generation.symm
  · exact Nat.le_refl _
  · rcases hm with hm | hm
    · obtain ⟨b, q, -, rfl⟩ := receive_spec hm
      exact Nat.le_refl _
    · obtain ⟨b, -, rfl⟩ := dropReceiver_spec hm
      exact Nat.le_refl _
  · rcases mark_cases s target with e | e
    · exact Nat.le_of_eq (by rw [e])
    · exact Nat.le_of_eq (by rw [e])

theorem run_generation_le : ∀ {as : List Action} {s t : ActiveSession}, MailboxInv s →
    machine.run Machine.free s as = some t → s.controller.generation ≤ t.controller.generation
  | [], s, t, _, h => by
    cases h
    exact Nat.le_refl _
  | a :: as, s, t, hi, h => by
    obtain ⟨-, u, hu, hrest⟩ := Machine.run_cons.mp h
    exact Nat.le_trans (step_generation_le hi.guard hu) (run_generation_le (mailboxInv_step hi hu) hrest)

/-- In a run that ends in generation `g` every step from it stays in it. -/
theorem generation_of_run {g : Nat} {s u t : ActiveSession} {a : Action} {as : List Action}
    (hi : InGeneration g s) (hu : step s a = some u) (h : machine.run Machine.free u as = some t)
    (hg : t.controller.generation = g) : u.controller.generation = g := by
  have h₁ := step_generation_le hi.mailbox.guard hu
  have h₂ := run_generation_le (mailboxInv_step hi.mailbox hu) h
  have h₃ := hi.generation
  omega

/-! ## The pump can always go on -/

/-- Steps in which the pump of `g` goes on and receivers take their events. -/
def Onward (g : Nat) (as : List Action) : Prop := ∀ a ∈ as, a = .pump g .go ∨ ∃ k, a = .receive k

/-- The pump of `g` can go on, while receivers take their events, to a point
where it owes nothing. -/
def CanSettle (g : Nat) (s : ActiveSession) : Prop :=
  ∃ as t q, Onward g as ∧ machine.run Machine.free s as = some t ∧ t.pumps g = some q ∧
    ∀ c, q.pc.owed c = []

theorem CanSettle.of_run {g : Nat} {s t : ActiveSession} {as : List Action} (ha : Onward g as)
    (h : machine.run Machine.free s as = some t) (ht : CanSettle g t) : CanSettle g s := by
  obtain ⟨bs, u, q, hb, hrun, hq⟩ := ht
  refine ⟨as ++ bs, u, q, fun a hab => ?_, Machine.run_append.mpr ⟨t, h, hrun⟩, hq⟩
  rcases List.mem_append.mp hab with hab | hab
  · exact ha a hab
  · exact hb a hab

theorem CanSettle.of_step {g : Nat} {s t : ActiveSession} (h : step s (.pump g .go) = some t)
    (ht : CanSettle g t) : CanSettle g s := by
  have hrun : machine.run Machine.free s [.pump g .go] = some t :=
    Machine.run_cons.mpr ⟨trivial, t, h, rfl⟩
  exact ht.of_run (by simp [Onward]) hrun

/-- The owner of the mailbox has taken everything that was there. -/
def ActiveSession.drained (s : ActiveSession) (k : Nat) (b : Mailbox) : ActiveSession :=
  { s with mailboxes := Function.update s.mailboxes k (some { b with queue := [] }) }

theorem drain_run {k : Nat} : ∀ {q : List Emitted} {b : Mailbox} {s : ActiveSession},
    s.mailboxes k = some b → b.queue = q →
    machine.run Machine.free s (List.replicate q.length (.receive k)) = some (s.drained k b)
  | [], b, s, hb, hq => by
    have e : ({ b with queue := [] } : Mailbox) = b := by rw [← hq]
    rw [drained, e, ← hb, Function.update_eq_self]
    rfl
  | x :: q, b, s, hb, hq => by
    rw [List.length_cons, List.replicate_succ, Machine.run_cons]
    refine ⟨trivial, { s with mailboxes := Function.update s.mailboxes k (some { b with queue := q }) },
      ?_, ?_⟩
    · show s.receive k = _
      simp only [receive, hb, hq]
    · rw [drain_run (b := { b with queue := q }) (Function.update_self k _ _) rfl]
      simp only [drained, Function.update_idem]

theorem onward_drain (g k n : Nat) : Onward g (List.replicate n (.receive k)) := by
  intro a ha
  exact .inr ⟨k, (List.mem_replicate.mp ha).2⟩

/-- The delivery loop only waits for a mailbox that is full. -/
theorem deliverOne_isSome {s : ActiveSession} {p : Pump} {e : Emitted} {sub : Subscriber}
    (h : s.trySend sub.mailbox e ≠ .full) : ∃ r, s.deliverOne p e sub = some r := by
  simp only [deliverOne]
  split
  · split
    · split
      · exact ⟨_, rfl⟩
      · exact ⟨_, rfl⟩
      · exact absurd ‹_› h
    · split
      · split
        · exact ⟨_, rfl⟩
        · exact ⟨_, rfl⟩
        · exact absurd ‹_› h
      · split <;> exact ⟨_, rfl⟩
  · exact ⟨_, rfl⟩

theorem trySend_of_empty {s : ActiveSession} {k : Nat} {b : Mailbox} {e : Emitted}
    (hb : s.mailboxes k = some b) (hq : b.queue = []) (hc : 0 < b.capacity) :
    s.trySend k e ≠ .full := by
  have hfull : b.full = false := by
    rw [Mailbox.full, hq, decide_eq_false_iff_not]
    exact Nat.not_le_of_lt hc
  simp only [trySend, hb, hfull, Bool.false_eq_true, if_false]
  split <;> rintro ⟨⟩

/-- The delivery loop gets to its end, if the receivers it waits for take their
events. -/
theorem canSettle_deliver {g : Nat} {e : SessionEvent} :
    ∀ {subs : List Subscriber} {s : ActiveSession} {p : Pump}, MailboxInv s →
    s.pumps g = some p → p.pc = .deliver e subs → CanSettle g s
  | [], s, p, _, hp, hpc =>
    ⟨[], s, p, by rintro _ ⟨⟩, rfl, hp, fun c => by simp [hpc, PumpPc.owed]⟩
  | sub :: subs, s, p, hi, hp, hpc => by
    -- one round, once the subscriber's mailbox is not full
    have hround : ∀ {v : ActiveSession}, MailboxInv v → v.pumps g = some p →
        v.trySend sub.mailbox ⟨g, e⟩ ≠ .full → CanSettle g v := by
      intro v hv hpv hsend
      obtain ⟨⟨w, q⟩, hd⟩ := deliverOne_isSome (p := p) hsend
      have hstep : step v (.pump g .go) = some (w.setPump g { q with pc := .deliver e subs }) := by
        simp only [step, hpv, hpc, pumpStep, hd]
      exact .of_step hstep
        (canSettle_deliver (mailboxInv_step hv hstep) (Function.update_self g _ _) rfl)
    cases hb : s.mailboxes sub.mailbox with
    | none => exact hround hi hp (by simp only [trySend, hb]; rintro ⟨⟩)
    | some b =>
      have hdrain := drain_run hb rfl
      have hi' : MailboxInv (s.drained sub.mailbox b) :=
        (Machine.Path.of_run hdrain).invariant (I := MailboxInv)
          (fun _ _ _ h _ hs => mailboxInv_step h hs) hi
      exact .of_run (onward_drain g _ _) hdrain
        (hround hi' hp (trySend_of_empty (Function.update_self _ _ _) rfl (hi.capacity _ b hb)))

theorem canSettle_retain {g : Nat} {s : ActiveSession} {p : Pump} {e : SessionEvent}
    {subs : List Subscriber} (hi : MailboxInv s) (hp : s.pumps g = some p)
    (hpc : p.pc = .retain e subs) : CanSettle g s := by
  have hstep : step s (.pump g .go) = some (s.setPump g { p with
      pc := .deliver e subs
      primaries := fun filter => (p.primaries filter).filter fun m => !s.isClosed m }) := by
    simp only [step, hp, hpc, pumpStep]
  exact .of_step hstep (canSettle_deliver (mailboxInv_step hi hstep) (Function.update_self g _ _) rfl)

theorem canSettle_publish {g : Nat} {s : ActiveSession} {p : Pump} {e : SessionEvent}
    (hi : MailboxInv s) (hp : s.pumps g = some p) (hpc : p.pc = .publish e) : CanSettle g s := by
  have hstep : step s (.pump g .go) = some ((s.publish ⟨g, e⟩).setPump g
      { p with pc := .retain e (s.publish ⟨g, e⟩).subscribers }) := by
    simp only [step, hp, hpc, pumpStep]
  exact .of_step hstep (canSettle_retain (mailboxInv_step hi hstep) (Function.update_self g _ _) rfl)

theorem canSettle {g : Nat} {s : ActiveSession} {p : Pump} (hi : InGeneration g s)
    (hp : s.pumps g = some p) : CanSettle g s := by
  cases hpc : p.pc with
  | check e =>
    have hstep : step s (.pump g .go) = some (s.setPump g { p with pc := .publish e }) := by
      simp only [step, hp, hpc, pumpStep, hi.generation, ne_eq, not_true_eq_false, if_false]
    exact .of_step hstep
      (canSettle_publish (mailboxInv_step hi.mailbox hstep) (Function.update_self g _ _) rfl)
  | publish e => exact canSettle_publish hi.mailbox hp hpc
  | retain e subs => exact canSettle_retain hi.mailbox hp hpc
  | deliver e subs => exact canSettle_deliver hi.mailbox hp hpc
  | recv | lossCheck | lossState | lossGeneration | lossTransition | stopped =>
    exact ⟨[], s, p, by rintro _ ⟨⟩, rfl, hp, fun c => by rw [hpc]; rfl⟩

theorem Onward.generation {g : Nat} : ∀ {as : List Action} {s t : ActiveSession}, Onward g as →
    machine.run Machine.free s as = some t → t.controller.generation = s.controller.generation
  | [], s, t, _, h => by
    cases h
    rfl
  | a :: as, s, t, ho, h => by
    obtain ⟨-, u, hstep, hrest⟩ := Machine.run_cons.mp h
    have hu : step s a = some u := hstep
    have hb : Beside s u := by
      rcases ho a List.mem_cons_self with rfl | ⟨k, rfl⟩ <;>
        exact beside_step hu (by rintro _ ⟨⟩) (by rintro ⟨⟩) (by rintro ⟨⟩)
    exact (Onward.generation (fun x hx => ho x (List.mem_cons_of_mem _ hx)) hrest).trans hb.generation

end KW.Session
