import KodeWork.Proof.Session.Steps

/-!
# Events of an older transport

`disconnect` and `attach` clear `pending_events` for the generation they
reserved, so that a later subscriber gets no output of an older transport. A
pump checks its generation once for an event, and enters the section under the
`subscribers` lock later; a clear between the two is not noticed
(`stale_event_replayed`), and the event of the old transport is replayed.

In every run in which no pump enters that section after a clear for a newer
generation (`PublishBeforeClear`), neither `pending_events` nor any mailbox
made after the clear holds an event of the older generation
(`stale_events_not_replayed`).
-/

namespace KW.Session

open ActiveSession

/-- The pump of `g` enters the section under the `subscribers` lock only while
`pending_events` has not been cleared for a generation newer than `g`. -/
def PublishBeforeClear (s : ActiveSession) : Action → Prop
  | .pump g _ => ∀ p ∈ s.pumps g, ∀ e, p.pc = .publish e → s.cleared ≤ g
  | _ => True

def PumpPc.isPublish : PumpPc → Bool
  | .publish _ => true
  | _ => false

theorem publishBeforeClear_iff (s : ActiveSession) (g : Nat) (c : PumpChoice) :
    PublishBeforeClear s (.pump g c) ↔
      ((s.pumps g).any (fun p => p.pc.isPublish) = true → s.cleared ≤ g) := by
  simp only [PublishBeforeClear, Option.any_eq_true]
  constructor
  · rintro h ⟨p, hp, hpc⟩
    cases e : p.pc <;> simp only [e, PumpPc.isPublish, reduceCtorEq] at hpc
    exact h p hp _ e
  · intro h p hp e he
    exact h ⟨p, hp, by rw [he]; rfl⟩

instance (s : ActiveSession) : ∀ a, Decidable (PublishBeforeClear s a)
  | .pump g c => decidable_of_iff _ (publishBeforeClear_iff s g c).symm
  | .connect | .disconnect | .op _ | .subscribe _ | .receive _ | .dropReceiver _
  | .markWaitingForCredential | .markReconnecting => .isTrue trivial

structure ReplayInv (s : ActiveSession) : Prop where
  owns : ∀ op, s.op = some op → OpOwns s op
  cleared : s.cleared ≤ s.controller.generation
  pending : ∀ c entry, s.pendingEvents c = some entry →
    ∀ e ∈ entry.events, s.cleared ≤ e.generation
  since : ∀ m b, s.mailboxes m = some b → b.since ≤ s.cleared
  seen : ∀ m b, s.mailboxes m = some b → ∀ e ∈ b.seen, b.since ≤ e.generation
  /-- A pump delivers only to mailboxes made before a clear for a newer
  generation. -/
  targets : ∀ g p, s.pumps g = some p → ∀ sub ∈ p.pc.targets, sub.mailbox < s.nextMailbox ∧
    ∀ b, s.mailboxes sub.mailbox = some b → b.since ≤ g
  subscribers : ∀ sub ∈ s.subscribers, sub.mailbox < s.nextMailbox

theorem replayInv_new (eventBuffer : Nat) : ReplayInv (.new eventBuffer) :=
  ⟨nofun, Nat.le_refl 0, nofun, nofun, nofun, nofun, nofun⟩

/-! ## The replay buffer -/

theorem mem_evict {es : List Emitted} {bytes : Nat} {e : Emitted}
    (h : e ∈ (evict es bytes).events) : e ∈ es := by
  fun_induction evict es bytes with
  | case1 bytes => exact h
  | case2 bytes e' es _ ih => exact List.mem_cons_of_mem _ (ih h)
  | case3 bytes e' es _ => exact h

/-- An event in the buffer after a push was there before it, or is the one
pushed. -/
theorem mem_pushPendingEvent {pending : PendingEvents} {channel c : Nat} {e x : Emitted}
    {entry : PendingPaneEvents} (h : pushPendingEvent pending channel e c = some entry)
    (hx : x ∈ entry.events) :
    x = e ∨ ∃ old, pending c = some old ∧ x ∈ old.events := by
  simp only [pushPendingEvent] at h
  rcases entry_of_update h with ⟨rfl, ⟨⟩⟩ | ⟨-, h⟩
  · rcases List.mem_append.mp (mem_evict hx) with hx | hx
    · cases hp : pending c with
      | none =>
        rw [hp] at hx
        cases hx
      | some old =>
        rw [hp] at hx
        exact .inr ⟨old, rfl, hx⟩
    · exact .inl (List.mem_singleton.mp hx)
  · exact .inr ⟨entry, h, hx⟩

theorem mem_publish {s : ActiveSession} {e x : Emitted} {c : Nat} {entry : PendingPaneEvents}
    (h : (s.publish e).pendingEvents c = some entry) (hx : x ∈ entry.events) :
    x = e ∨ ∃ old, s.pendingEvents c = some old ∧ x ∈ old.events := by
  simp only [publish] at h
  split at h
  · split at h
    · exact .inr ⟨entry, h, hx⟩
    · exact mem_pushPendingEvent h hx
  · exact .inr ⟨entry, h, hx⟩

/-! ## The pump's own steps -/

/-- An event reaches a mailbox of the session only by a delivery, which keeps
the mailbox's `since`. -/
theorem Delivered.cases {s t : ActiveSession} {mailbox m : Nat} {e : Emitted} {b : Mailbox}
    (h : Delivered s t mailbox e) (hb : t.mailboxes m = some b) :
    ∃ old, s.mailboxes m = some old ∧ b.since = old.since ∧
      (b.seen = old.seen ∨ m = mailbox ∧ b.seen = old.seen ++ [e]) := by
  rcases h with h | ⟨old, hold, h⟩
  · rw [h] at hb
    exact ⟨b, hb, rfl, .inl rfl⟩
  · rw [h] at hb
    rcases entry_of_update hb with ⟨rfl, ⟨⟩⟩ | ⟨-, hb⟩
    · exact ⟨old, hold, rfl, .inr ⟨rfl, rfl⟩⟩
    · exact ⟨b, hb, rfl, .inl rfl⟩

/-- The invariant's part about the other pumps, after pump `g` moved. -/
theorem targets_update {s t : ActiveSession} {g : Nat} {q : Pump} (hi : ReplayInv s)
    (hq : t.pumps = Function.update s.pumps g (some q)) (hn : t.nextMailbox = s.nextMailbox)
    (hm : ∀ m b, t.mailboxes m = some b → ∃ old, s.mailboxes m = some old ∧ b.since = old.since)
    (ht : ∀ sub ∈ q.pc.targets, sub.mailbox < s.nextMailbox ∧
      ∀ b, s.mailboxes sub.mailbox = some b → b.since ≤ g) :
    ∀ k p, t.pumps k = some p → ∀ sub ∈ p.pc.targets, sub.mailbox < t.nextMailbox ∧
      ∀ b, t.mailboxes sub.mailbox = some b → b.since ≤ k := by
  intro k p hp sub hsub
  have key : sub.mailbox < s.nextMailbox ∧ ∀ b, s.mailboxes sub.mailbox = some b → b.since ≤ k := by
    rw [hq] at hp
    rcases entry_of_update hp with ⟨rfl, ⟨⟩⟩ | ⟨-, hp⟩
    · exact ht sub hsub
    · exact hi.targets k p hp sub hsub
  refine ⟨hn ▸ key.1, fun b hb => ?_⟩
  obtain ⟨old, hold, e⟩ := hm _ b hb
  rw [e]
  exact key.2 old hold

theorem replayInv_pump {s t : ActiveSession} {g : Nat} {p : Pump} {c : PumpChoice}
    (hi : ReplayInv s) (hok : PublishBeforeClear s (.pump g c)) (hp : s.pumps g = some p)
    (h : s.pumpStep g p p.pc c = some t) : ReplayInv t := by
  have hs := (pumpStep_moves h).spec
  have howns : ∀ op, t.op = some op → OpOwns t op := by
    intro op ho k hk
    rw [hs.generation]
    exact hi.owns op (hs.op ▸ ho) k hk
  have hcl : t.cleared ≤ t.controller.generation := by
    rw [hs.cleared, hs.generation]
    exact hi.cleared
  cases pumpStep_moves h with
  | quiet q ht =>
    refine ⟨howns, hcl, hi.pending, hi.since, hi.seen, ?_, hi.subscribers⟩
    refine targets_update hi rfl rfl (fun m b hb => ⟨b, hb, rfl⟩) fun sub hsub => ?_
    exact hi.targets g p hp sub (ht sub hsub)
  | publish e hpc =>
    -- the clear has not happened yet, so every mailbox is older than `g`
    have hg : s.cleared ≤ g := hok p hp e hpc
    have hlive : ∀ sub ∈ (s.publish ⟨g, e⟩).subscribers, sub.mailbox < s.nextMailbox :=
      fun sub hsub => hi.subscribers sub (List.mem_filter.mp hsub).1
    refine ⟨howns, hcl, fun c entry hentry x hx => ?_, hi.since, hi.seen, ?_, hlive⟩
    · rcases mem_publish hentry hx with rfl | ⟨old, hold, hx'⟩
      · exact hg
      · exact hi.pending c old hold x hx'
    · refine targets_update hi rfl rfl (fun m b hb => ⟨b, hb, rfl⟩) fun sub hsub => ?_
      exact ⟨hlive sub hsub, fun b hb => Nat.le_trans (hi.since _ b hb) hg⟩
  | @deliver e sub subs u q hpc hd =>
    obtain ⟨hm, -, he⟩ := deliverOne_spec hd
    have hpe : u.pendingEvents = s.pendingEvents ∧ u.subscribers = s.subscribers := by
      rw [he]
      exact ⟨rfl, rfl⟩
    have hpumps : (u.setPump g { q with pc := .deliver e subs }).pumps =
        Function.update s.pumps g (some { q with pc := .deliver e subs }) := by
      rw [he]
      rfl
    have htargets : sub ∈ p.pc.targets ∧ ∀ x ∈ subs, x ∈ p.pc.targets := by
      rw [hpc]
      exact ⟨List.mem_cons_self, fun _ hx => List.mem_cons_of_mem _ hx⟩
    refine ⟨howns, hcl, ?_, ?_, ?_, ?_, ?_⟩
    · show ∀ c entry, u.pendingEvents c = some entry → _
      rw [hpe.1, hs.cleared]
      exact hi.pending
    · intro m b hb
      obtain ⟨old, hold, e, -⟩ := hm.cases hb
      rw [e, hs.cleared]
      exact hi.since m old hold
    · intro m b hb x hx
      obtain ⟨old, hold, hsi, e | ⟨rfl, e⟩⟩ := hm.cases hb
      · rw [hsi]
        exact hi.seen m old hold x (e ▸ hx)
      · rw [e] at hx
        rw [hsi]
        rcases List.mem_append.mp hx with hx | hx
        · exact hi.seen _ old hold x hx
        · rw [List.mem_singleton.mp hx]
          exact (hi.targets g p hp sub htargets.1).2 old hold
    · refine targets_update hi hpumps hs.nextMailbox (fun m b hb => ?_) fun x hx => ?_
      · obtain ⟨old, hold, e, -⟩ := hm.cases hb
        exact ⟨old, hold, e⟩
      · exact hi.targets g p hp x (htargets.2 x hx)
    · show ∀ x ∈ u.subscribers, _
      rw [hpe.2, hs.nextMailbox]
      exact hi.subscribers
  | flip =>
    refine ⟨howns, hcl, hi.pending, hi.since, hi.seen, ?_, hi.subscribers⟩
    exact targets_update hi rfl rfl (fun m b hb => ⟨b, hb, rfl⟩) nofun

/-! ## The other tasks -/

theorem clears_generation {op : Op} {g : Nat} (h : op.clears = some g) : op.generation = some g := by
  cases op with
  | connect pc => cases pc <;> simp_all [Op.clears, Op.generation]
  | disconnect pc => cases pc <;> simp_all [Op.clears, Op.generation]

theorem replayInv_op {s t : ActiveSession} {op : Op} {r : Progress} (hi : ReplayInv s)
    (ho : s.op = some op) (hs : OpSpec s op t r) : ReplayInv { t with op := r.op } := by
  have hle : s.cleared ≤ t.cleared ∧ t.cleared ≤ t.controller.generation := by
    rcases hs.pending with ⟨-, e⟩ | ⟨g, hc, -, e⟩
    · have := hi.cleared
      rcases hs.generation with e' | ⟨e', -⟩ <;> omega
    · have hg := hi.owns op ho g (clears_generation hc)
      have := hi.cleared
      rcases hs.generation with e' | ⟨e', -⟩ <;> omega
  refine ⟨fun op' h => hs.owns op' (Progress.eq_next h), hle.2, ?_, ?_, ?_, ?_, ?_⟩
  · intro c entry hentry
    rcases hs.pending with ⟨e, e'⟩ | ⟨g, -, e, -⟩
    · rw [show ({ t with op := r.op } : ActiveSession).cleared = s.cleared from e']
      exact hi.pending c entry (e ▸ hentry)
    · simp only [e, reduceCtorEq] at hentry
  · intro m b hb
    exact Nat.le_trans (hi.since m b (hs.mailboxes ▸ hb)) hle.1
  · intro m b hb
    exact hi.seen m b (hs.mailboxes ▸ hb)
  · intro k p hp sub hsub
    simp only [hs.mailboxes, hs.nextMailbox]
    rcases hs.pumps with e | ⟨g, -, e⟩
    · exact hi.targets k p (e ▸ hp) sub hsub
    · simp only [e] at hp
      rcases entry_of_update hp with ⟨rfl, ⟨⟩⟩ | ⟨-, hp⟩
      · cases hsub
      · exact hi.targets k p hp sub hsub
  · intro sub hsub
    simp only [hs.nextMailbox]
    rcases hs.subscribers with e | e
    · exact hi.subscribers sub (e ▸ hsub)
    · simp only [e] at hsub
      cases hsub

theorem replayInv_subscribe {s : ActiveSession} (hi : ReplayInv s) (channel : Option Nat) :
    ReplayInv (s.subscribe channel) := by
  -- what is replayed was in the buffer
  have hreplay : ∀ e ∈ ((channel.bind s.pendingEvents).map (·.events)).getD [],
      s.cleared ≤ e.generation := by
    intro e he
    cases hc : channel.bind s.pendingEvents with
    | none =>
      rw [hc] at he
      cases he
    | some entry =>
      rw [hc] at he
      obtain ⟨c, rfl, hentry⟩ := Option.bind_eq_some_iff.mp hc
      exact hi.pending c entry hentry e he
  refine ⟨hi.owns, hi.cleared, ?_, ?_, ?_, ?_, ?_⟩
  · intro c entry hentry
    cases channel with
    | none => exact hi.pending c entry hentry
    | some k =>
      rcases entry_of_update hentry with ⟨-, ⟨⟩⟩ | ⟨-, hentry⟩
      exact hi.pending c entry hentry
  · intro m b hb
    rcases entry_of_update hb with ⟨-, ⟨⟩⟩ | ⟨-, hb⟩
    · exact Nat.le_refl _
    · exact hi.since m b hb
  · intro m b hb
    rcases entry_of_update hb with ⟨-, ⟨⟩⟩ | ⟨-, hb⟩
    · exact hreplay
    · exact hi.seen m b hb
  · intro k p hp sub hsub
    obtain ⟨hlt, hsi⟩ := hi.targets k p hp sub hsub
    refine ⟨Nat.lt_succ_of_lt hlt, fun b hb => ?_⟩
    simp only [subscribe] at hb
    rw [Function.update_of_ne (Nat.ne_of_lt hlt)] at hb
    exact hsi b hb
  · intro sub hsub
    rcases List.mem_append.mp hsub with hsub | hsub
    · exact Nat.lt_succ_of_lt (hi.subscribers sub hsub)
    · rw [List.mem_singleton.mp hsub]
      exact Nat.lt_succ_self _

/-- The owner of a receiver changes neither what its mailbox has seen nor
when it was made. -/
theorem replayInv_mailbox {s : ActiveSession} {m : Nat} {b b' : Mailbox} (hi : ReplayInv s)
    (hb : s.mailboxes m = some b) (hsi : b'.since = b.since) (hse : b'.seen = b.seen) :
    ReplayInv { s with mailboxes := Function.update s.mailboxes m (some b') } := by
  have old : ∀ k x, Function.update s.mailboxes m (some b') k = some x →
      ∃ y, s.mailboxes k = some y ∧ x.since = y.since ∧ x.seen = y.seen := by
    intro k x hx
    rcases entry_of_update hx with ⟨rfl, ⟨⟩⟩ | ⟨-, hx⟩
    · exact ⟨b, hb, hsi, hse⟩
    · exact ⟨x, hx, rfl, rfl⟩
  refine ⟨hi.owns, hi.cleared, hi.pending, ?_, ?_, ?_, hi.subscribers⟩
  · intro k x hx
    obtain ⟨y, hy, e, -⟩ := old k x hx
    rw [e]
    exact hi.since k y hy
  · intro k x hx e he
    obtain ⟨y, hy, e₁, e₂⟩ := old k x hx
    rw [e₁]
    exact hi.seen k y hy e (e₂ ▸ he)
  · intro k p hp sub hsub
    obtain ⟨hlt, hs⟩ := hi.targets k p hp sub hsub
    refine ⟨hlt, fun x hx => ?_⟩
    obtain ⟨y, hy, e, -⟩ := old _ x hx
    rw [e]
    exact hs y hy

/-! ## Every run -/

theorem replayInv_step {s t : ActiveSession} {a : Action} (hi : ReplayInv s)
    (hok : PublishBeforeClear s a) (h : step s a = some t) : ReplayInv t := by
  rcases step_cases h with ⟨op, -, rfl, hg, -⟩ | ⟨c, op, u, r, -, ho, hr, rfl⟩ |
    ⟨g, c, p, rfl, hp, hs⟩ | ⟨channel, -, rfl⟩ | ⟨m, hm⟩ | ⟨target, -, rfl⟩
  · refine { hi with owns := ?_ }
    rintro _ ⟨⟩ g hg'
    rw [hg] at hg'
    cases hg'
  · exact replayInv_op hi ho (opStep_spec ho (hi.owns op ho) hr)
  · exact replayInv_pump hi hok hp hs
  · exact replayInv_subscribe hi channel
  · rcases hm with hm | hm
    · obtain ⟨b, q, hb, rfl⟩ := receive_spec hm
      exact replayInv_mailbox hi hb rfl rfl
    · obtain ⟨b, hb, rfl⟩ := dropReceiver_spec hm
      exact replayInv_mailbox hi hb rfl rfl
  · rcases mark_cases s target with e | e <;> rw [e]
    · exact { hi with owns := hi.owns }
    · exact hi

/-- In every run in which no pump enters its locked section after a clear for
a newer generation: once `pending_events` was cleared for a generation newer
than `g`, it holds no event of `g`, and no event of `g` was ever delivered to
a receiver that subscribed after such a clear. -/
theorem stale_events_not_replayed {s : ActiveSession}
    (h : machine.Reach PublishBeforeClear Initial s) (g : Nat) :
    (g < s.cleared → ∀ c entry, s.pendingEvents c = some entry →
      ∀ e ∈ entry.events, e.generation ≠ g) ∧
    (∀ m b, s.mailboxes m = some b → g < b.since → ∀ e ∈ b.seen, e.generation ≠ g) := by
  have hi : ReplayInv s := h.invariant
    (by rintro s ⟨b, rfl⟩; exact replayInv_new b) (fun _ _ _ hi hok hs => replayInv_step hi hok hs)
  refine ⟨fun hg c entry hentry e he => ?_, fun m b hb hg e he => ?_⟩
  · exact Nat.ne_of_gt (Nat.lt_of_lt_of_le hg (hi.pending c entry hentry e he))
  · exact Nat.ne_of_gt (Nat.lt_of_lt_of_le hg (hi.seen m b hb e he))

/-- A connect call, an event on channel 7 of its transport that passes the
pump's generation check, and a `disconnect`, up to its clear. -/
def overtakenTrace : List Action :=
  List.flatten [attachTrace,
    [.op .go, .pump 1 (.event (.data 7 [104, 105])), .pump 1 .go, .disconnect],
    List.replicate 9 (.op .go)]

/-- The event is published before the `disconnect`, a second connect call
follows, and its transport sends to a new subscriber of channel 7. -/
def freshTrace : List Action :=
  List.flatten [attachTrace,
    [.op .go, .pump 1 (.event (.data 7 [104, 105])), .pump 1 .go, .pump 1 .go, .disconnect],
    List.replicate 11 (.op .go), attachTrace,
    [.op .go, .subscribe (some 7), .pump 3 (.event (.data 7 [33])), .pump 3 .go, .pump 3 .go,
      .pump 3 .go, .pump 3 .go]]

/-- Whether the first mailbox was made after a clear for a generation newer
than 1, and has seen an event. -/
def freshIn (s : ActiveSession) : Bool :=
  decide (1 < s.cleared) && (s.mailboxes 0).any fun b => decide (1 < b.since) && !b.seen.isEmpty

theorem fresh_subscriber_sees_no_stale_event :
    ∃ s, machine.Reach PublishBeforeClear Initial s ∧ 1 < s.cleared ∧
      ∃ b, s.mailboxes 0 = some b ∧ 1 < b.since ∧ b.seen ≠ [] ∧ ∀ e ∈ b.seen, e.generation ≠ 1 := by
  obtain ⟨s, hs, hp⟩ := Machine.Reach.of_run machine PublishBeforeClear (init_new 512) freshTrace
    freshIn (by decide)
  simp only [freshIn, Bool.and_eq_true, Option.any_eq_true, decide_eq_true_eq] at hp
  obtain ⟨hc, b, hb, hsi, hne⟩ := hp
  refine ⟨s, hs, hc, b, hb, hsi, by simpa using hne, ?_⟩
  exact (stale_events_not_replayed hs 1).2 0 b hb hsi

/-- Whether an event of generation 1 is kept for channel 7, after a clear for
a newer generation. -/
def staleIn (s : ActiveSession) : Bool :=
  decide (1 < s.cleared) && (s.pendingEvents 7).any fun entry =>
    entry.events.any fun e => e.generation == 1

/-- The pump passed its check before the `disconnect` and enters its section
after the clear: the event of the closed transport is kept for replay. -/
theorem stale_event_replayed :
    ∃ s, machine.Reach Machine.free Initial s ∧ 1 < s.cleared ∧
      ∃ entry, s.pendingEvents 7 = some entry ∧ ∃ e ∈ entry.events, e.generation = 1 := by
  obtain ⟨s, hs, hp⟩ := Machine.Reach.of_run machine Machine.free (init_new 512)
    (List.flatten [overtakenTrace, [.pump 1 .go]]) staleIn (by decide)
  simp only [staleIn, Bool.and_eq_true, Option.any_eq_true, List.any_eq_true, decide_eq_true_eq,
    beq_iff_eq] at hp
  exact ⟨s, hs, hp⟩

end KW.Session
