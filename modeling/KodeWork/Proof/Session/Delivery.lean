import KodeWork.Proof.Session.Mailbox

/-!
# Every event of a channel, once and in order

A pane subscribes to its channel some time after its transport began to send.
Until then the pump keeps the channel's events in `pending_events`; `subscribe`
moves them into the new mailbox and joins the subscribers in one section, and
from then on the pump delivers to the mailbox itself, with backpressure.

`subscriber_receives_all` says that nothing is lost or doubled on the way: what
was sent to the mailbox, and then the one event the pump still holds, are the
events the transport produced on the channel, in their order. The owner takes
them from the mailbox in that order, and as long as the receivers take their
events the pump can always go on until it owes nothing. It is proved with two
invariants: before the subscription the events are in the replay buffer
(`Waiting`), after it they are in the mailbox (`Served`).
-/

namespace KW.Session

open ActiveSession

/-! ## Before the subscription -/

/-- What the replay buffer keeps for a channel. -/
def pendingOf (s : ActiveSession) (c : Nat) : PendingPaneEvents := (s.pendingEvents c).getD ⟨[], 0⟩

def totalSize (es : List SessionEvent) : Nat := es.foldr (fun e n => sessionEventSize e + n) 0

/-- The events are within the bounds of the replay buffer. -/
def FitsReplay (es : List SessionEvent) : Prop :=
  es.length ≤ maxPendingPaneEvents ∧ totalSize es ≤ maxPendingPaneBytes

instance (es : List SessionEvent) : Decidable (FitsReplay es) :=
  inferInstanceAs (Decidable (_ ∧ _))

theorem totalSize_append (es fs : List SessionEvent) :
    totalSize (es ++ fs) = totalSize es + totalSize fs := by
  induction es with
  | nil => exact (Nat.zero_add _).symm
  | cons e es ih =>
    show sessionEventSize e + totalSize (es ++ fs) = sessionEventSize e + totalSize es + totalSize fs
    omega

theorem FitsReplay.left {es fs : List SessionEvent} (h : FitsReplay (es ++ fs)) : FitsReplay es := by
  obtain ⟨hl, hs⟩ := h
  rw [List.length_append] at hl
  rw [totalSize_append] at hs
  exact ⟨by omega, by omega⟩

theorem evict_of_fits {es : List Emitted} {bytes : Nat} (hl : es.length ≤ maxPendingPaneEvents)
    (hb : bytes ≤ maxPendingPaneBytes) : evict es bytes = ⟨es, bytes⟩ := by
  cases es with
  | nil => rfl
  | cons e es =>
    rw [evict, if_neg]
    omega

/-- A push within the bounds evicts nothing. -/
theorem pushPendingEvent_of_fits {s : ActiveSession} {g c : Nat} {kept : List SessionEvent}
    {e : SessionEvent} (he : (pendingOf s c).events = kept.map (Emitted.mk g))
    (hb : (pendingOf s c).bytes = totalSize kept) (hf : FitsReplay (kept ++ [e])) :
    pushPendingEvent s.pendingEvents c ⟨g, e⟩ c =
      some ⟨(kept ++ [e]).map (Emitted.mk g), totalSize (kept ++ [e])⟩ := by
  obtain ⟨hl, hs⟩ := hf
  have hsize : totalSize (kept ++ [e]) = totalSize kept + sessionEventSize e := totalSize_append kept [e]
  have hmax : maxPendingPaneBytes ≤ usizeMax := by decide
  have hmin : min (totalSize kept + sessionEventSize e) usizeMax = totalSize (kept ++ [e]) := by
    omega
  have hlen : (kept.map (Emitted.mk g) ++ [Emitted.mk g e]).length ≤ maxPendingPaneEvents := by
    simpa using hl
  simp only [pushPendingEvent, Function.update_self]
  rw [show (s.pendingEvents c).getD ⟨[], 0⟩ = pendingOf s c from rfl, he, hb, hmin,
    evict_of_fits hlen hs, List.map_append]
  rfl

/-- An event of another channel, or of none, leaves the channel's buffer alone. -/
theorem publish_pending_ne {s : ActiveSession} {e : Emitted} {c : Nat}
    (h : sessionEventChannel e.event ≠ some c) :
    (s.publish e).pendingEvents c = s.pendingEvents c := by
  simp only [publish]
  split
  · rename_i channel hc
    split
    · rfl
    · exact Function.update_of_ne (by rintro rfl; exact h hc) _ _
  · rfl

/-- An event of a channel nobody subscribes to goes to the buffer. -/
theorem publish_pending_own {s : ActiveSession} {e : Emitted} {c : Nat}
    (h : sessionEventChannel e.event = some c) (hs : ∀ sub ∈ s.subscribers, sub.filter ≠ some c) :
    (s.publish e).pendingEvents = pushPendingEvent s.pendingEvents c e := by
  have hany : ((s.subscribers.filter fun sub => !s.isClosed sub.mailbox).any
      fun sub => sub.filter == some c) = false := by
    rw [List.any_eq_false]
    intro sub hsub
    simpa using hs sub (List.mem_filter.mp hsub).1
  simp only [publish, h, hany, Bool.false_eq_true, if_false]

/-- Without subscribers of the channel there is nothing to deliver for it. -/
theorem owed_deliver_nil {c : Nat} {e : SessionEvent} {subs : List Subscriber}
    (h : ∀ sub ∈ subs, sub.filter ≠ some c) : (PumpPc.deliver e subs).owed c = [] := by
  have hnil : subs.filter (fun sub => sub.filter == some c) = [] := by
    rw [List.filter_eq_nil_iff]
    intro sub hsub
    simpa using h sub hsub
  simp [PumpPc.owed, hnil]

/-- The events of channel `c` that a step takes from the transport `g`. -/
def producedBy (g c : Nat) : Action → List SessionEvent
  | .pump k (.event e) => if k = g ∧ sessionEventChannel e = some c then [e] else []
  | _ => []

/-- The events the transport `g` produced on channel `c` in a run. -/
def produced (g c : Nat) (as : List Action) : List SessionEvent := as.flatMap (producedBy g c)

/-- Nobody has subscribed to the channel yet: what the transport produced on it
is in the replay buffer, up to the event the pump holds. -/
structure Waiting (g c : Nat) (s : ActiveSession) (es : List SessionEvent) : Prop where
  gen : InGeneration g s
  unsubscribed : ∀ sub ∈ s.subscribers, sub.filter ≠ some c
  pump : ∃ p kept, s.pumps g = some p ∧ p.primaries (some c) = none ∧
    (∀ sub ∈ p.pc.targets, sub.filter ≠ some c) ∧ kept ++ p.pc.owed c = es ∧
    (pendingOf s c).events = kept.map (Emitted.mk g) ∧ (pendingOf s c).bytes = totalSize kept

/-- The invariant only depends on the subscribers, the pump and the buffer. -/
theorem Waiting.congr {g c : Nat} {s t : ActiveSession} {es : List SessionEvent}
    (hi : Waiting g c s es) (hg : InGeneration g t)
    (hs : ∀ sub ∈ t.subscribers, sub.filter ≠ some c) (hp : t.pumps g = s.pumps g)
    (hb : t.pendingEvents c = s.pendingEvents c) : Waiting g c t es where
  gen := hg
  unsubscribed := hs
  pump := by
    obtain ⟨p, kept, hpump, hrest⟩ := hi.pump
    have e : pendingOf t c = pendingOf s c := by rw [pendingOf, pendingOf, hb]
    rw [← e] at hrest
    exact ⟨p, kept, hp.trans hpump, hrest⟩

/-- A round of the delivery loop for a subscriber of one filter leaves the
primaries of the others alone. -/
theorem deliverOne_primaries {s t : ActiveSession} {p q : Pump} {e : Emitted} {sub : Subscriber}
    (h : s.deliverOne p e sub = some (t, q)) {filter : Option Nat} (hne : filter ≠ sub.filter) :
    q.primaries filter = p.primaries filter := by
  simp only [deliverOne] at h
  split at h
  · split at h
    · split at h <;> cases h
      · exact Function.update_of_ne hne _ _
      · rfl
    · split at h
      · split at h <;> cases h
        · rfl
        · exact Function.update_of_ne hne _ _
      · split at h <;> cases h <;> rfl
  · cases h
    rfl

/-- A step of a pump that is not at its section leaves the subscribers and the
replay buffer alone. -/
theorem PumpFlow.frame {s t : ActiveSession} {g : Nat} {p : Pump} {c : PumpChoice}
    (h : PumpFlow s g p c t) (hp : ∀ e, p.pc ≠ .publish e) :
    t.subscribers = s.subscribers ∧ t.pendingEvents = s.pendingEvents := by
  cases h with
  | publish e hpc => exact absurd hpc (hp e)
  | event | stale | check | retain | idle => exact ⟨rfl, rfl⟩
  | deliver hpc hd =>
    obtain ⟨-, -, e⟩ := deliverOne_spec hd
    rw [e]
    exact ⟨rfl, rfl⟩

theorem waiting_pump {g c : Nat} {s t : ActiveSession} {es : List SessionEvent} {p : Pump}
    {choice : PumpChoice} {kept : List SessionEvent} (hi : Waiting g c s es) (hgen : InGeneration g t)
    (hprim : p.primaries (some c) = none)
    (htargets : ∀ sub ∈ p.pc.targets, sub.filter ≠ some c) (hes : kept ++ p.pc.owed c = es)
    (hev : (pendingOf s c).events = kept.map (Emitted.mk g))
    (hby : (pendingOf s c).bytes = totalSize kept)
    (hfit : FitsReplay (es ++ producedBy g c (.pump g choice))) (h : PumpFlow s g p choice t) :
    Waiting g c t (es ++ producedBy g c (.pump g choice)) := by
  cases h with
  | event e hpc =>
    have hkept : kept = es := by simpa [hpc, PumpPc.owed] using hes
    refine ⟨hgen, hi.unsubscribed, _, kept, Function.update_self g _ _, hprim, by rintro _ ⟨⟩, ?_, hev, hby⟩
    simp only [hkept, PumpPc.owed, producedBy, true_and]
  | stale hg => exact absurd hi.gen.generation hg
  | check e hpc =>
    refine ⟨hgen, hi.unsubscribed, _, kept, Function.update_self g _ _, hprim, by rintro _ ⟨⟩, ?_, hev, hby⟩
    simpa [hpc, PumpPc.owed, producedBy] using hes
  | publish e hpc =>
    have hlive : ∀ sub ∈ (s.publish ⟨g, e⟩).subscribers, sub.filter ≠ some c :=
      fun sub hsub => hi.unsubscribed sub (List.mem_filter.mp hsub).1
    by_cases hc : sessionEventChannel e = some c
    · -- the event moves from the pump to the buffer
      have hkept : kept ++ [e] = es := by simpa [hpc, PumpPc.owed, hc] using hes
      have hpush := pushPendingEvent_of_fits hev hby (e := e) (by rw [hkept]; exact hfit.left)
      rw [← publish_pending_own hc hi.unsubscribed] at hpush
      refine ⟨hgen, hlive, _, kept ++ [e], Function.update_self g _ _, hprim, hlive, ?_, ?_, ?_⟩
      · rw [show (PumpPc.retain e (s.publish ⟨g, e⟩).subscribers).owed c = [] from
          owed_deliver_nil hlive, hkept]
        rfl
      · exact congrArg (fun o => (o.getD ⟨[], 0⟩).events) hpush
      · exact congrArg (fun o => (o.getD ⟨[], 0⟩).bytes) hpush
    · have hkept : kept = es := by simpa [hpc, PumpPc.owed, hc] using hes
      have hpend : pendingOf (s.publish ⟨g, e⟩) c = pendingOf s c := by
        rw [pendingOf, pendingOf, publish_pending_ne hc]
      refine ⟨hgen, hlive, _, kept, Function.update_self g _ _, hprim, hlive, ?_, ?_, ?_⟩
      · rw [show (PumpPc.retain e (s.publish ⟨g, e⟩).subscribers).owed c = [] from
          owed_deliver_nil hlive, hkept]
        rfl
      · exact (congrArg (·.events) hpend).trans hev
      · exact (congrArg (·.bytes) hpend).trans hby
  | retain e subs hpc =>
    refine ⟨hgen, hi.unsubscribed, _, kept, Function.update_self g _ _, ?_, ?_, ?_, hev, hby⟩
    · simp only [hprim, Option.filter_none]
    · rw [hpc] at htargets
      exact htargets
    · simpa [hpc, PumpPc.owed, producedBy] using hes
  | @deliver e sub subs u q hpc hd =>
    rw [hpc] at htargets
    have hall : ∀ x ∈ sub :: subs, x.filter ≠ some c := htargets
    have hsub : sub.filter ≠ some c := htargets sub List.mem_cons_self
    have hsubs : ∀ x ∈ subs, x.filter ≠ some c := fun x hx => htargets x (List.mem_cons_of_mem _ hx)
    obtain ⟨-, -, hu⟩ := deliverOne_spec hd
    have hkept : kept = es := by
      rw [hpc, owed_deliver_nil hall] at hes
      simpa using hes
    refine ⟨hgen, ?_, { q with pc := .deliver e subs }, kept, ?_, ?_, hsubs, ?_, ?_, ?_⟩
    · rw [hu]
      exact hi.unsubscribed
    · exact Function.update_self g _ _
    · exact (deliverOne_primaries hd (Ne.symm hsub)).trans hprim
    · rw [owed_deliver_nil hsubs, hkept]
      rfl
    · rw [hu]
      exact hev
    · rw [hu]
      exact hby
  | idle state q choice hch hpo hqo ht _ hpr =>
    refine ⟨hgen, hi.unsubscribed, q, kept, Function.update_self g _ _, by rw [hpr]; exact hprim,
      by rw [ht]; rintro _ ⟨⟩, ?_, hev, hby⟩
    have hnil : producedBy g c (.pump g choice) = [] := by
      cases choice with
      | event e => exact absurd rfl (hch e)
      | go | closed => rfl
    rw [hqo, hnil]
    rw [hpo] at hes
    simpa using hes

theorem producedBy_other {g k c : Nat} (hk : k ≠ g) (choice : PumpChoice) :
    producedBy g c (.pump k choice) = [] := by
  cases choice <;> simp [producedBy, hk]

theorem producedBy_nil {g c : Nat} {a : Action} (h : ∀ k choice, a ≠ .pump k choice) :
    producedBy g c a = [] := by
  cases a with
  | pump k choice => exact absurd rfl (h k choice)
  | connect | disconnect | op _ | subscribe _ | receive _ | dropReceiver _
  | markWaitingForCredential | markReconnecting => rfl

theorem waiting_step {g c : Nat} {s t : ActiveSession} {a : Action} {es : List SessionEvent}
    (hi : Waiting g c s es) (ha : a ≠ .subscribe (some c)) (h : step s a = some t)
    (hg : t.controller.generation = g) (hfit : FitsReplay (es ++ producedBy g c a)) :
    Waiting g c t (es ++ producedBy g c a) := by
  obtain ⟨hgen, hcase⟩ := inGeneration_step hi.gen h hg
  have hsame : ∀ {b : List SessionEvent}, b = [] → Waiting g c t es → Waiting g c t (es ++ b) := by
    rintro _ rfl hw
    rwa [List.append_nil]
  rcases hcase with ⟨k, choice, p, rfl, hp, hs⟩ | ⟨channel, rfl, rfl⟩ | ⟨m, rfl, hm⟩ | ⟨m, rfl, hm⟩ |
    ⟨hnp, -, ht⟩
  · by_cases hk : k = g
    · subst hk
      obtain ⟨q, kept, hq, hprim, htargets, hes, hev, hby⟩ := hi.pump
      rw [hp] at hq
      cases hq
      exact waiting_pump hi hgen hprim htargets hes hev hby hfit (pumpStep_flow hs)
    · refine hsame (producedBy_other hk choice) ?_
      obtain ⟨hsub, hpend⟩ := (pumpStep_flow hs).frame (hi.gen.others k p hk hp)
      obtain ⟨q, hq⟩ := (pumpStep_moves hs).spec.pumps
      exact hi.congr hgen (by rw [hsub]; exact hi.unsubscribed)
        (by rw [hq, Function.update_of_ne (Ne.symm hk)]) (by rw [hpend])
  · refine hsame rfl (hi.congr hgen ?_ rfl ?_)
    · intro sub hsub
      rcases List.mem_append.mp hsub with hsub | hsub
      · exact hi.unsubscribed sub hsub
      · rw [List.mem_singleton.mp hsub]
        rintro e
        exact ha (by rw [show channel = some c from e])
    · cases channel with
      | none => rfl
      | some k => exact Function.update_of_ne (by rintro rfl; exact ha rfl) _ _
  · obtain ⟨b, q, -, rfl⟩ := receive_spec hm
    exact hsame rfl (hi.congr hgen hi.unsubscribed rfl rfl)
  · obtain ⟨b, -, rfl⟩ := dropReceiver_spec hm
    exact hsame rfl (hi.congr hgen hi.unsubscribed rfl rfl)
  · refine hsame (producedBy_nil hnp) (hi.congr hgen ?_ ?_ ?_)
    · rw [ht]
      exact hi.unsubscribed
    · rw [ht]
    · rw [ht]

/-! ## After the subscription -/

theorem filterMatches_some {c : Nat} {e : SessionEvent} :
    filterMatches (some c) e = true ↔ sessionEventChannel e = some c := by
  cases e <;> simp only [filterMatches, sessionEventChannel, beq_iff_eq, Option.some.injEq, reduceCtorEq,
    Bool.false_eq_true]
  all_goals exact eq_comm

/-- What the pump knows of the only subscriber of the channel: it is its own
primary, and is served at most once for an event. -/
structure Serving (c m : Nat) (p : Pump) : Prop where
  primary : p.primaries (some c) = none ∨ p.primaries (some c) = some m
  once : p.pc.targets.filter (fun sub => sub.filter == some c) = [] ∨
    p.pc.targets.filter (fun sub => sub.filter == some c) = [⟨some c, m⟩]
  mine : ∀ sub ∈ p.pc.targets, sub.mailbox = m → sub.filter = some c

/-- The mailbox is open and was sent exactly these events, of which its owner
took the first `n`. -/
structure Filled (g : Nat) (b : Mailbox) (sent : List SessionEvent) (n : Nat) : Prop where
  opened : b.closed = false
  seen : b.seen = sent.map (Emitted.mk g)
  taken : ∃ taken, b.seen = taken ++ b.queue ∧ taken.length = n

theorem Filled.push {g n : Nat} {b : Mailbox} {sent : List SessionEvent} (h : Filled g b sent n)
    (e : SessionEvent) : Filled g (b.push ⟨g, e⟩) (sent ++ [e]) n where
  opened := h.opened
  seen := by simp [Mailbox.push, h.seen]
  taken := by
    obtain ⟨taken, ht, hn⟩ := h.taken
    exact ⟨taken, by simp [Mailbox.push, ht], hn⟩

/-- The mailbox `m` serves the channel: it was sent what the transport produced
on it, up to the event the pump holds. -/
structure Served (g c m : Nat) (s : ActiveSession) (es : List SessionEvent) (n : Nat) : Prop where
  gen : InGeneration g s
  own : s.subscribers.filter (fun sub => sub.filter == some c) = [⟨some c, m⟩]
  mine : ∀ sub ∈ s.subscribers, sub.mailbox = m → sub.filter = some c
  known : m < s.nextMailbox
  others : ∀ k p, k ≠ g → s.pumps k = some p → ∀ sub ∈ p.pc.targets, sub.mailbox ≠ m
  box : ∃ p b sent, s.pumps g = some p ∧ s.mailboxes m = some b ∧ Serving c m p ∧
    Filled g b sent n ∧ sent ++ p.pc.owed c = es

/-- A round of the delivery loop for the subscriber of the channel: an event of
the channel gets to its mailbox. -/
theorem deliverOne_own {s t : ActiveSession} {p q : Pump} {e : Emitted} {c m : Nat} {b : Mailbox}
    (hb : s.mailboxes m = some b) (ho : b.closed = false)
    (hprim : p.primaries (some c) = none ∨ p.primaries (some c) = some m)
    (h : s.deliverOne p e ⟨some c, m⟩ = some (t, q)) :
    (q.primaries (some c) = none ∨ q.primaries (some c) = some m) ∧
    if sessionEventChannel e.event = some c then t.mailboxes m = some (b.push e)
    else t.mailboxes m = some b := by
  have hok : ∀ {u}, s.trySend m e = .ok u → u.mailboxes m = some (b.push e) := by
    intro u hu
    obtain ⟨b', hb', rfl⟩ := trySend_ok hu
    rw [hb] at hb'
    cases hb'
    exact Function.update_self m _ _
  have hclosed : s.trySend m e ≠ .closed := by
    simp only [trySend, hb, ho, Bool.false_eq_true, if_false]
    split <;> rintro ⟨⟩
  simp only [deliverOne] at h
  by_cases hc : sessionEventChannel e.event = some c
  · rw [if_pos (filterMatches_some.mpr hc)] at h
    rw [if_pos hc]
    rcases hprim with hp | hp
    · simp only [hp] at h
      split at h
      · cases h
        exact ⟨.inr (Function.update_self (some c) _ _), hok ‹_›⟩
      · exact absurd ‹_› hclosed
      · cases h
    · simp only [hp, if_true] at h
      split at h
      · cases h
        exact ⟨.inr hp, hok ‹_›⟩
      · exact absurd ‹_› hclosed
      · cases h
  · rw [if_neg (fun hm => hc (filterMatches_some.mp hm))] at h
    rw [if_neg hc]
    cases h
    exact ⟨hprim, hb⟩

/-- A delivery to another mailbox. -/
theorem Delivered.other {s t : ActiveSession} {mailbox m : Nat} {e : Emitted}
    (h : Delivered s t mailbox e) (hne : mailbox ≠ m) : t.mailboxes m = s.mailboxes m := by
  rcases h with h | ⟨b, -, h⟩
  · rw [h]
  · rw [h, Function.update_of_ne (Ne.symm hne)]

/-- The subscriber stays when the closed ones are dropped. -/
theorem own_live {s : ActiveSession} {c m : Nat} {b : Mailbox} (hb : s.mailboxes m = some b)
    (ho : b.closed = false)
    (h : s.subscribers.filter (fun sub => sub.filter == some c) = [⟨some c, m⟩]) :
    (s.subscribers.filter fun sub => !s.isClosed sub.mailbox).filter
      (fun sub => sub.filter == some c) = [⟨some c, m⟩] := by
  have hcomm : (s.subscribers.filter fun sub => !s.isClosed sub.mailbox).filter
      (fun sub => sub.filter == some c) =
      (s.subscribers.filter fun sub => sub.filter == some c).filter
        fun sub => !s.isClosed sub.mailbox := by
    rw [List.filter_filter, List.filter_filter]
    exact List.filter_congr fun _ _ => Bool.and_comm _ _
  rw [hcomm, h]
  simp [isClosed, hb, ho]

theorem served_pump {g c m n : Nat} {s t : ActiveSession} {es : List SessionEvent} {p : Pump}
    {choice : PumpChoice} {b : Mailbox} {sent : List SessionEvent} (hi : Served g c m s es n)
    (hgen : InGeneration g t) (hb : s.mailboxes m = some b) (hserve : Serving c m p)
    (hfill : Filled g b sent n) (hes : sent ++ p.pc.owed c = es) (h : PumpFlow s g p choice t) :
    Served g c m t (es ++ producedBy g c (.pump g choice)) n := by
  -- the other pumps stay as they are
  have hothers : ∀ (q : Pump), ∀ k r, k ≠ g → Function.update s.pumps g (some q) k = some r →
      ∀ sub ∈ r.pc.targets, sub.mailbox ≠ m := by
    intro q k r hk hr
    rw [Function.update_of_ne hk] at hr
    exact hi.others k r hk hr
  cases h with
  | event e hpc =>
    have hsent : sent = es := by simpa [hpc, PumpPc.owed] using hes
    refine ⟨hgen, hi.own, hi.mine, hi.known, hothers _, _, b, sent, Function.update_self g _ _, hb,
      ⟨hserve.primary, .inl rfl, by rintro _ ⟨⟩⟩, hfill, ?_⟩
    simp only [hsent, PumpPc.owed, producedBy, true_and]
  | stale hg => exact absurd hi.gen.generation hg
  | check e hpc =>
    refine ⟨hgen, hi.own, hi.mine, hi.known, hothers _, _, b, sent, Function.update_self g _ _, hb,
      ⟨hserve.primary, .inl rfl, by rintro _ ⟨⟩⟩, hfill, ?_⟩
    simpa [hpc, PumpPc.owed, producedBy] using hes
  | publish e hpc =>
    have hown := own_live hb hfill.opened hi.own
    have hmine : ∀ sub ∈ (s.publish ⟨g, e⟩).subscribers, sub.mailbox = m → sub.filter = some c :=
      fun sub hsub => hi.mine sub (List.mem_filter.mp hsub).1
    refine ⟨hgen, hown, hmine, hi.known, hothers _, _, b, sent, Function.update_self g _ _, hb,
      ⟨hserve.primary, .inr hown, hmine⟩, hfill, ?_⟩
    have howed : (PumpPc.retain e (s.publish ⟨g, e⟩).subscribers).owed c = (PumpPc.publish e).owed c := by
      simp only [PumpPc.owed, publish, hown, List.map_cons, List.map_nil]
    rw [howed, ← hpc, hes]
    exact (List.append_nil es).symm
  | retain e subs hpc =>
    have hclosed : s.isClosed m = false := by
      simp only [isClosed, hb]
      exact hfill.opened
    have hprim : (p.primaries (some c)).filter (fun k => !s.isClosed k) = none ∨
        (p.primaries (some c)).filter (fun k => !s.isClosed k) = some m := by
      rcases hserve.primary with e | e <;> rw [e]
      · exact .inl rfl
      · exact .inr (by simp [Option.filter, hclosed])
    obtain ⟨-, honce, hmine⟩ := hserve
    rw [hpc] at honce hmine
    refine ⟨hgen, hi.own, hi.mine, hi.known, hothers _, _, b, sent, Function.update_self g _ _, hb,
      ⟨hprim, honce, hmine⟩, hfill, ?_⟩
    simpa [hpc, PumpPc.owed, producedBy] using hes
  | @deliver e sub subs u q hpc hd =>
    obtain ⟨hprim, honce, hmine⟩ := hserve
    rw [hpc] at honce hmine hes
    simp only [PumpPc.targets] at honce hmine
    obtain ⟨hm, -, hu⟩ := deliverOne_spec hd
    have hstay : u.subscribers = s.subscribers ∧ u.nextMailbox = s.nextMailbox ∧ u.pumps = s.pumps := by
      rw [hu]
      exact ⟨rfl, rfl, rfl⟩
    have hmine' : ∀ x ∈ subs, x.mailbox = m → x.filter = some c :=
      fun x hx => hmine x (List.mem_cons_of_mem _ hx)
    have hgo : ∀ {b' : Mailbox} {sent' : List SessionEvent}, u.mailboxes m = some b' →
        (q.primaries (some c) = none ∨ q.primaries (some c) = some m) →
        (subs.filter (fun x => x.filter == some c) = [] ∨
          subs.filter (fun x => x.filter == some c) = [⟨some c, m⟩]) →
        Filled g b' sent' n → sent' ++ (PumpPc.deliver e subs).owed c = es →
        Served g c m (u.setPump g { q with pc := .deliver e subs })
          (es ++ producedBy g c (.pump g .go)) n := by
      intro b' sent' hb' hp' ho' hf' hes'
      refine ⟨hgen, ?_, ?_, ?_, ?_, { q with pc := .deliver e subs }, b', sent',
        Function.update_self g _ _, hb', ⟨hp', ho', hmine'⟩, hf', ?_⟩
      · show u.subscribers.filter _ = _
        rw [hstay.1]
        exact hi.own
      · show ∀ x ∈ u.subscribers, _
        rw [hstay.1]
        exact hi.mine
      · show m < u.nextMailbox
        rw [hstay.2.1]
        exact hi.known
      · show ∀ k r, k ≠ g → Function.update u.pumps g _ k = some r → _
        rw [hstay.2.2]
        exact hothers _
      · rw [hes']
        exact (List.append_nil es).symm
    by_cases hsub : sub.filter = some c
    · -- it is the subscriber itself
      have hcons : (sub :: subs).filter (fun x => x.filter == some c) =
          sub :: subs.filter (fun x => x.filter == some c) :=
        List.filter_cons_of_pos (by simpa using hsub)
      rw [hcons] at honce
      rcases honce with honce | honce
      · cases honce
      · obtain ⟨rfl, hnil⟩ := List.cons.inj honce
        obtain ⟨hp', hbox⟩ := deliverOne_own hb hfill.opened hprim hd
        by_cases hc : sessionEventChannel e = some c
        · rw [if_pos hc] at hbox
          refine hgo hbox hp' (.inl hnil) (hfill.push e) ?_
          simpa [PumpPc.owed, hc, hnil, hcons] using hes
        · rw [if_neg hc] at hbox
          refine hgo hbox hp' (.inl hnil) hfill ?_
          simpa [PumpPc.owed, hc] using hes
    · have hne : sub.mailbox ≠ m := fun e => hsub (hmine sub List.mem_cons_self e)
      have hcons : (sub :: subs).filter (fun x => x.filter == some c) =
          subs.filter (fun x => x.filter == some c) :=
        List.filter_cons_of_neg (by simpa using hsub)
      rw [hcons] at honce
      refine hgo ((hm.other hne).trans hb) ?_ honce hfill ?_
      · rw [deliverOne_primaries hd (Ne.symm hsub)]
        exact hprim
      · simpa only [PumpPc.owed, hcons] using hes
  | idle state q choice hch hpo hqo ht _ hpr =>
    refine ⟨hgen, hi.own, hi.mine, hi.known, hothers _, q, b, sent, Function.update_self g _ _, hb,
      ⟨by rw [hpr]; exact hserve.primary, by rw [ht]; exact .inl rfl, by rw [ht]; rintro _ ⟨⟩⟩, hfill, ?_⟩
    have hnil : producedBy g c (.pump g choice) = [] := by
      cases choice with
      | event e => exact absurd rfl (hch e)
      | go | closed => rfl
    rw [hqo, hnil, ← hes, hpo]
    simp

/-- The invariant only depends on the subscribers, the pumps and the mailbox. -/
theorem Served.congr {g c m n : Nat} {s t : ActiveSession} {es : List SessionEvent}
    (hi : Served g c m s es n) (hg : InGeneration g t)
    (hown : t.subscribers.filter (fun sub => sub.filter == some c) = [⟨some c, m⟩])
    (hmine : ∀ sub ∈ t.subscribers, sub.mailbox = m → sub.filter = some c)
    (hn : s.nextMailbox ≤ t.nextMailbox)
    (ho : ∀ k p, k ≠ g → t.pumps k = some p → ∀ sub ∈ p.pc.targets, sub.mailbox ≠ m)
    (hp : t.pumps g = s.pumps g) (hb : t.mailboxes m = s.mailboxes m) : Served g c m t es n where
  gen := hg
  own := hown
  mine := hmine
  known := Nat.lt_of_lt_of_le hi.known hn
  others := ho
  box := by
    rw [hp, hb]
    exact hi.box

/-- The other pumps only finish what they had to deliver. -/
theorem served_otherPump {g c m n k : Nat} {s t : ActiveSession} {es : List SessionEvent} {p : Pump}
    {choice : PumpChoice} (hi : Served g c m s es n) (hgen : InGeneration g t) (hk : k ≠ g)
    (hp : s.pumps k = some p) (h : s.pumpStep k p p.pc choice = some t) : Served g c m t es n := by
  have hs := (pumpStep_moves h).spec
  have hpub := hi.gen.others k p hk hp
  obtain ⟨hsub, -⟩ := (pumpStep_flow h).frame hpub
  have hmove : ∃ q, t.pumps = Function.update s.pumps k (some q) ∧ (∀ sub ∈ q.pc.targets, sub ∈ p.pc.targets) ∧
      t.mailboxes m = s.mailboxes m := by
    cases pumpStep_moves h with
    | quiet q ht => exact ⟨q, rfl, ht, rfl⟩
    | publish e hpc => exact absurd hpc (hpub e)
    | @deliver e sub subs u q hpc hd =>
      obtain ⟨hm, -, hu⟩ := deliverOne_spec hd
      have htargets : ∀ x ∈ sub :: subs, x ∈ p.pc.targets := by
        rw [hpc]
        exact fun _ hx => hx
      refine ⟨{ q with pc := .deliver e subs }, ?_, fun x hx => htargets x (List.mem_cons_of_mem _ hx), ?_⟩
      · rw [hu]
        rfl
      · exact hm.other (hi.others k p hk hp sub (htargets sub List.mem_cons_self))
    | flip => exact ⟨_, rfl, by rintro _ ⟨⟩, rfl⟩
  obtain ⟨q, hq, htargets, hbox⟩ := hmove
  refine hi.congr hgen (by rw [hsub]; exact hi.own) (by rw [hsub]; exact hi.mine)
    (Nat.le_of_eq hs.nextMailbox.symm) (fun j r hj hr x hx => ?_)
    (by rw [hq, Function.update_of_ne (Ne.symm hk)]) hbox
  rw [hq] at hr
  rcases entry_of_update hr with ⟨rfl, ⟨⟩⟩ | ⟨-, hr⟩
  · exact hi.others j p hj hp x (htargets x hx)
  · exact hi.others j r hj hr x hx

theorem receive_cases {s t : ActiveSession} {m : Nat} (h : s.receive m = some t) :
    ∃ b x q, s.mailboxes m = some b ∧ b.queue = x :: q ∧
      t = { s with mailboxes := Function.update s.mailboxes m (some { b with queue := q }) } := by
  simp only [receive] at h
  split at h
  · rename_i b hb
    split at h <;> cases h
    exact ⟨b, _, _, hb, ‹_›, rfl⟩
  · cases h

theorem served_step {g c m n : Nat} {s t : ActiveSession} {a : Action} {es : List SessionEvent}
    (hi : Served g c m s es n) (ha : a ≠ .subscribe (some c)) (hd : a ≠ .dropReceiver m)
    (h : step s a = some t) (hg : t.controller.generation = g) :
    Served g c m t (es ++ producedBy g c a) (n + if a = .receive m then 1 else 0) := by
  obtain ⟨hgen, hcase⟩ := inGeneration_step hi.gen h hg
  have hsame : a ≠ .receive m → producedBy g c a = [] → Served g c m t es n →
      Served g c m t (es ++ producedBy g c a) (n + if a = .receive m then 1 else 0) := by
    intro hr hnil hw
    rw [if_neg hr, hnil, List.append_nil]
    exact hw
  rcases hcase with ⟨k, choice, p, rfl, hp, hs⟩ | ⟨channel, rfl, rfl⟩ | ⟨k, rfl, hm⟩ | ⟨k, rfl, hm⟩ |
    ⟨hnp, hnr, ht⟩
  · by_cases hk : k = g
    · subst hk
      obtain ⟨q, b, sent, hq, hb, hserve, hfill, hes⟩ := hi.box
      rw [hp] at hq
      cases hq
      rw [if_neg (by rintro ⟨⟩)]
      exact served_pump hi hgen hb hserve hfill hes (pumpStep_flow hs)
    · exact hsame (by rintro ⟨⟩) (producedBy_other hk choice) (served_otherPump hi hgen hk hp hs)
  · refine hsame (by rintro ⟨⟩) rfl (hi.congr hgen ?_ ?_ (Nat.le_succ _) hi.others rfl ?_)
    · show (s.subscribers ++ [Subscriber.mk channel s.nextMailbox]).filter _ = _
      rw [List.filter_append, hi.own, List.filter_cons_of_neg (by simpa using fun e => ha (by rw [e]))]
      rfl
    · intro sub hsub
      rcases List.mem_append.mp hsub with hsub | hsub
      · exact hi.mine sub hsub
      · rw [List.mem_singleton.mp hsub]
        intro e
        exact absurd e (Nat.ne_of_gt hi.known)
    · exact Function.update_of_ne (Nat.ne_of_lt hi.known) _ _
  · by_cases hk : k = m
    · subst hk
      obtain ⟨p, b, sent, hp, hb, hserve, hfill, hes⟩ := hi.box
      obtain ⟨b', x, q, hb', hqueue, rfl⟩ := receive_cases hm
      rw [hb] at hb'
      cases hb'
      rw [if_pos rfl, show producedBy g c (.receive k) = [] from rfl, List.append_nil]
      refine ⟨hgen, hi.own, hi.mine, hi.known, hi.others, p, { b with queue := q }, sent, hp,
        Function.update_self k _ _, hserve, ⟨hfill.opened, hfill.seen, ?_⟩, hes⟩
      obtain ⟨taken, htaken, hn⟩ := hfill.taken
      exact ⟨taken ++ [x], by simp [htaken, hqueue], by simp [hn]⟩
    · obtain ⟨b, q, -, rfl⟩ := receive_spec hm
      exact hsame (by rintro ⟨⟩; exact hk rfl) rfl (hi.congr hgen hi.own hi.mine (Nat.le_refl _)
        hi.others rfl (Function.update_of_ne (Ne.symm hk) _ _))
  · obtain ⟨b, -, rfl⟩ := dropReceiver_spec hm
    have hk : k ≠ m := by
      rintro rfl
      exact hd rfl
    exact hsame (by rintro ⟨⟩) rfl (hi.congr hgen hi.own hi.mine (Nat.le_refl _) hi.others rfl
      (Function.update_of_ne (Ne.symm hk) _ _))
  · refine hsame (hnr m) (producedBy_nil hnp) (hi.congr hgen ?_ ?_ ?_ ?_ ?_ ?_)
    · rw [ht]
      exact hi.own
    · rw [ht]
      exact hi.mine
    · exact Nat.le_of_eq (by rw [ht])
    · rw [ht]
      exact hi.others
    · rw [ht]
    · rw [ht]

/-! ## Every run -/

theorem waiting_run {g c : Nat} : ∀ {as : List Action} {s t : ActiveSession} {es : List SessionEvent},
    Waiting g c s es → .subscribe (some c) ∉ as → machine.run Machine.free s as = some t →
    t.controller.generation = g → FitsReplay (es ++ produced g c as) →
    Waiting g c t (es ++ produced g c as)
  | [], s, t, es, hi, _, h, _, _ => by
    cases h
    rw [show produced g c [] = [] from rfl, List.append_nil]
    exact hi
  | a :: as, s, t, es, hi, ha, h, hg, hfit => by
    obtain ⟨-, u, hu, hrest⟩ := Machine.run_cons.mp h
    have hne := List.ne_of_not_mem_cons ha
    have has := List.not_mem_of_not_mem_cons ha
    have hassoc : es ++ produced g c (a :: as) = (es ++ producedBy g c a) ++ produced g c as := by
      simp [produced]
    rw [hassoc] at hfit ⊢
    have hw := waiting_step hi (Ne.symm hne) hu (generation_of_run hi.gen hu hrest hg) hfit.left
    exact waiting_run hw has hrest hg hfit

theorem served_run {g c m : Nat} :
    ∀ {as : List Action} {s t : ActiveSession} {es : List SessionEvent} {n : Nat},
    Served g c m s es n → .subscribe (some c) ∉ as → .dropReceiver m ∉ as →
    machine.run Machine.free s as = some t → t.controller.generation = g →
    Served g c m t (es ++ produced g c as) (n + as.count (.receive m))
  | [], s, t, es, n, hi, _, _, h, _ => by
    cases h
    rw [show produced g c [] = [] from rfl, List.append_nil]
    exact hi
  | a :: as, s, t, es, n, hi, ha, hd, h, hg => by
    obtain ⟨-, u, hu, hrest⟩ := Machine.run_cons.mp h
    have hne := List.ne_of_not_mem_cons ha
    have has := List.not_mem_of_not_mem_cons ha
    have hdne := List.ne_of_not_mem_cons hd
    have hdas := List.not_mem_of_not_mem_cons hd
    have hassoc : es ++ produced g c (a :: as) = (es ++ producedBy g c a) ++ produced g c as := by
      simp [produced]
    have hcount : n + (a :: as).count (.receive m) =
        (n + if a = .receive m then 1 else 0) + as.count (.receive m) := by
      rw [List.count_cons]
      simp only [beq_iff_eq]
      omega
    rw [hassoc, hcount]
    have hw := served_step hi (Ne.symm hne) (Ne.symm hdne) hu (generation_of_run hi.gen hu hrest hg)
    exact served_run hw has hdas hrest hg

/-- `subscribe` moves what the buffer kept into the new mailbox. -/
theorem served_subscribe {g c : Nat} {s : ActiveSession} {es : List SessionEvent}
    (hi : Waiting g c s es) : Served g c s.nextMailbox (s.subscribe (some c)) es 0 := by
  obtain ⟨p, kept, hp, hprim, htargets, hes, hev, -⟩ := hi.pump
  have hgen := (inGeneration_step (a := .subscribe (some c)) hi.gen rfl hi.gen.generation).1
  have hreplay : (((some c).bind s.pendingEvents).map (·.events)).getD [] = kept.map (Emitted.mk g) := by
    rw [← hev, pendingOf]
    cases h : s.pendingEvents c <;> simp [h]
  have hnone : s.subscribers.filter (fun sub => sub.filter == some c) = [] := by
    rw [List.filter_eq_nil_iff]
    intro sub hsub
    simpa using hi.unsubscribed sub hsub
  refine ⟨hgen, ?_, ?_, Nat.lt_succ_self _, ?_, p, _, kept, hp, Function.update_self _ _ _, ?_,
    ⟨rfl, hreplay, [], rfl, rfl⟩, hes⟩
  · show (s.subscribers ++ [Subscriber.mk (some c) s.nextMailbox]).filter _ = _
    rw [List.filter_append, hnone, List.filter_cons_of_pos (by simp)]
    rfl
  · intro sub hsub he
    rcases List.mem_append.mp hsub with hsub | hsub
    · exact absurd he (Nat.ne_of_lt (hi.gen.mailbox.subscribers sub hsub))
    · rw [List.mem_singleton.mp hsub]
  · intro k q _ hq sub hsub
    exact Nat.ne_of_lt (hi.gen.mailbox.targets k q hq sub hsub)
  · refine ⟨.inl hprim, .inl ?_, fun sub hsub he => ?_⟩
    · rw [List.filter_eq_nil_iff]
      intro sub hsub
      simpa using htargets sub hsub
    · exact absurd he (Nat.ne_of_lt (hi.gen.mailbox.targets g p hp sub hsub))

/-- The transport has just been attached, and nothing is known of the channel. -/
theorem waiting_attached {g c : Nat} {u s : ActiveSession} (hi : MailboxInv u)
    (hop : u.op = some (.connect (.spawnPump g))) (hs : step u (.op .go) = some s)
    (hpend : u.pendingEvents c = none) (hsubs : ∀ sub ∈ u.subscribers, sub.filter ≠ some c)
    (hold : ∀ k p, k ≠ g → u.pumps k = some p → ∀ e, p.pc ≠ .publish e) : Waiting g c s [] := by
  have hm := mailboxInv_step hi hs
  have hg : u.controller.generation = g := hi.guard.owns _ hop g rfl
  simp only [step, advance, opStep, hop, connectStep, Option.map_some, Option.some.injEq] at hs
  subst hs
  refine ⟨⟨hm, hg, by rintro _ ⟨⟩; exact .inr rfl, fun k p hk hp => ?_⟩, hsubs, _, [],
    Function.update_self g _ _, rfl, by rintro _ ⟨⟩, rfl, ?_, ?_⟩
  · rcases entry_of_update hp with ⟨e, -⟩ | ⟨-, hp⟩
    · exact absurd e hk
    · exact hold k p hk hp
  · simp [pendingOf, hpend]
  · simp [pendingOf, hpend, totalSize]

theorem Onward.produced {g : Nat} {as : List Action} (h : Onward g as) (c : Nat) :
    produced g c as = [] := by
  rw [KW.Session.produced, List.flatMap_eq_nil_iff]
  intro a ha
  rcases h a ha with rfl | ⟨k, rfl⟩ <;> rfl

/-- A transport `g` has just been attached; the replay buffer has nothing for
channel `c`, nobody subscribes to it, and no older pump is past its generation
check. In every run that stays in generation `g` and has one `subscribe(Some(c))`,
before which the events of the channel fit the replay bounds, and whose receiver
is not dropped: what was sent to the receiver, and then the event the pump
holds, are the events the transport produced on `c`; the receiver has taken the
first of them, in order; and the pump and the receivers can go on until the
receiver has taken them all. -/
theorem subscriber_receives_all {u s₀ s₁ s₂ : ActiveSession} {g c : Nat} {as₁ as₂ : List Action}
    (hu : machine.Reach Machine.free Initial u) (hop : u.op = some (.connect (.spawnPump g)))
    (hs₀ : step u (.op .go) = some s₀) (hpend : u.pendingEvents c = none)
    (hsubs : ∀ sub ∈ u.subscribers, sub.filter ≠ some c)
    (hold : ∀ k p, k ≠ g → u.pumps k = some p → ∀ e, p.pc ≠ .publish e)
    (hrun₁ : machine.run Machine.free s₀ as₁ = some s₁) (hsub₁ : .subscribe (some c) ∉ as₁)
    (hfit : FitsReplay (produced g c as₁))
    (hrun₂ : machine.run Machine.free (s₁.subscribe (some c)) as₂ = some s₂)
    (hsub₂ : .subscribe (some c) ∉ as₂) (hopen : .dropReceiver s₁.nextMailbox ∉ as₂)
    (hgen : s₂.controller.generation = g) :
    ∃ b p, s₂.mailboxes s₁.nextMailbox = some b ∧ s₂.pumps g = some p ∧ b.closed = false ∧
      b.seen ++ (p.pc.owed c).map (Emitted.mk g) = (produced g c (as₁ ++ as₂)).map (Emitted.mk g) ∧
      (∃ taken, b.seen = taken ++ b.queue ∧
        taken.length = as₂.count (.receive s₁.nextMailbox)) ∧
      ∃ as₃ s₃ b₃, Onward g as₃ ∧ machine.run Machine.free s₂ as₃ = some s₃ ∧
        s₃.mailboxes s₁.nextMailbox = some b₃ ∧ b₃.queue = [] ∧
        b₃.seen = (produced g c (as₁ ++ as₂)).map (Emitted.mk g) := by
  have hi : MailboxInv u := hu.invariant (I := MailboxInv)
    (by rintro s ⟨b, rfl⟩; exact mailboxInv_new b) (fun _ _ _ hi _ hs => mailboxInv_step hi hs)
  have hw := waiting_attached hi hop hs₀ hpend hsubs hold
  -- the generation is `g` before the subscription too
  have hg₁ : s₁.controller.generation = g := by
    have h₁ := run_generation_le hw.gen.mailbox hrun₁
    have hi₁ : MailboxInv s₁ := (Machine.Path.of_run hrun₁).invariant (I := MailboxInv)
      (fun _ _ _ h _ hs => mailboxInv_step h hs) hw.gen.mailbox
    have h₂ := run_generation_le (mailboxInv_subscribe hi₁ (some c)) hrun₂
    have h₃ := hw.gen.generation
    have h₄ : (s₁.subscribe (some c)).controller = s₁.controller := rfl
    rw [h₄] at h₂
    omega
  have hw₁ := waiting_run hw hsub₁ hrun₁ hg₁ hfit
  have hserved := served_run (served_subscribe hw₁) hsub₂ hopen hrun₂ hgen
  have hes : [] ++ produced g c as₁ ++ produced g c as₂ = produced g c (as₁ ++ as₂) := by
    simp [produced]
  rw [hes, Nat.zero_add] at hserved
  obtain ⟨p, b, sent, hp, hb, -, hfill, hsent⟩ := hserved.box
  refine ⟨b, p, hb, hp, hfill.opened, ?_, hfill.taken, ?_⟩
  · rw [hfill.seen, ← List.map_append, hsent]
  · -- the pump settles, then the receiver takes what is there
    obtain ⟨as₃, t, q, has₃, hrun₃, hq, howed⟩ := canSettle hserved.gen hp
    have hno : ∀ a, (a ≠ .pump g .go ∧ ∀ k, a ≠ .receive k) → a ∉ as₃ := by
      rintro a ⟨h₁, h₂⟩ ha
      rcases has₃ a ha with e | ⟨k, e⟩
      · exact h₁ e
      · exact h₂ k e
    have hserved₃ := served_run hserved (hno _ ⟨by rintro ⟨⟩, by rintro _ ⟨⟩⟩)
      (hno _ ⟨by rintro ⟨⟩, by rintro _ ⟨⟩⟩) hrun₃ ((has₃.generation hrun₃).trans hgen)
    rw [has₃.produced, List.append_nil] at hserved₃
    obtain ⟨q', b₃, sent₃, hq', hb₃, -, hfill₃, hsent₃⟩ := hserved₃.box
    rw [hq] at hq'
    cases hq'
    rw [howed, List.append_nil] at hsent₃
    have hdrain := drain_run hb₃ rfl
    refine ⟨as₃ ++ List.replicate b₃.queue.length (.receive s₁.nextMailbox),
      t.drained s₁.nextMailbox b₃, { b₃ with queue := [] }, ?_,
      Machine.run_append.mpr ⟨t, hrun₃, hdrain⟩, Function.update_self _ _ _, rfl, ?_⟩
    · intro a ha
      rcases List.mem_append.mp ha with ha | ha
      · exact has₃ a ha
      · exact onward_drain g _ _ a ha
    · rw [← hsent₃]
      exact hfill₃.seen

/-- The first connect call, about to spawn the pump of its transport. -/
def attaching : ActiveSession :=
  { ActiveSession.new 512 with
    controller := ⟨.connecting, 1⟩
    op := some (.connect (.spawnPump 1))
    connection := some 1
    cleared := 1 }

theorem reach_attaching : machine.Reach Machine.free Initial attaching := by
  have hrun : machine.run Machine.free (.new 512) attachTrace.dropLast = some attaching := rfl
  exact ⟨.new 512, init_new 512, Machine.Path.of_run hrun⟩

/-- The pump takes an event from the transport and delivers it to `n` subscribers. -/
def deliverTrace (e : SessionEvent) (n : Nat) : List Action :=
  .pump 1 (.event e) :: List.replicate (4 + n) (.pump 1 .go)

/-- Channel 7 sends before anyone subscribes to it; another receiver gets
everything. -/
def earlyTrace : List Action :=
  List.flatten [[.op .go, .subscribe none], deliverTrace (.data 7 [104]) 1]

/-- Channel 7 sends after the subscription. -/
def liveTrace : List Action := deliverTrace (.data 7 [105]) 2

theorem late_subscriber_receives_all :
    ∃ s b, machine.Reach Machine.free Initial s ∧ s.mailboxes 1 = some b ∧ b.queue = [] ∧
      b.seen = [⟨1, .data 7 [104]⟩, ⟨1, .data 7 [105]⟩] := by
  obtain ⟨s₀, hs₀⟩ : ∃ s₀, step attaching (.op .go) = some s₀ := ⟨_, rfl⟩
  have hrun : ((step attaching (.op .go)).bind fun s₀ => machine.run Machine.free s₀ earlyTrace).any
      (fun s₁ => s₁.nextMailbox == 1 && (machine.run Machine.free (s₁.subscribe (some 7)) liveTrace).any
        fun s₂ => s₂.controller.generation == 1) = true := by decide
  simp only [hs₀, Option.bind_some, Option.any_eq_true, Bool.and_eq_true, beq_iff_eq] at hrun
  obtain ⟨s₁, hs₁, hm, s₂, hs₂, hg⟩ := hrun
  obtain ⟨b, p, -, -, -, -, -, as₃, s₃, b₃, -, hrun₃, hb₃, hq₃, hseen₃⟩ :=
    subscriber_receives_all (c := 7) reach_attaching rfl hs₀ rfl (by rintro _ ⟨⟩) (by rintro _ _ _ ⟨⟩)
      hs₁ (by decide) (by decide) hs₂ (by decide) (by rw [hm]; decide) hg
  refine ⟨s₃, b₃, ?_, hm ▸ hb₃, hq₃, hseen₃⟩
  have hpath := reach_attaching.path (.single (a := .op .go) trivial hs₀)
  have hpath₁ := hpath.path (Machine.Path.of_run hs₁)
  have hpath₂ := hpath₁.path (.single (a := .subscribe (some 7)) trivial rfl)
  exact (hpath₂.path (Machine.Path.of_run hs₂)).path (Machine.Path.of_run hrun₃)

end KW.Session
