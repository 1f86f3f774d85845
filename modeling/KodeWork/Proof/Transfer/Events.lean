import KodeWork.Impl.Transfer.Events

/-!
# The last event of a transfer

`emit` hands an event to the bounded channel and never waits: "if the channel is
full, skip this event". So the last event of a transfer, which tells how it
ended, is skipped like any other when events of other transfers fill the channel
(`last_event_skipped`).

What `run_transfer` does guarantee while the pump is not marked as stopped is
`last_event_placed_iff`: when it has returned, it has handed over the `State`
event that matches its result, once, after every other event of the worker; and
the event is on the channel, behind everything placed before it, if and only if
the channel had room at that moment.

`Pc.Wf` says of the continuations of `emit` that the return of `run_transfer`
comes right after that event and after no other.
-/

namespace KW.Transfer.Events

open EventState

/-- The pump is not marked as stopped in this step. -/
def PumpRunning (_ : EventState) (a : Action) : Prop := a ≠ .eventPumpStopped

instance (s : EventState) (a : Action) : Decidable (PumpRunning s a) :=
  inferInstanceAs (Decidable (a ≠ .eventPumpStopped))

/-- A `State` event with the status of a transfer that has ended. -/
def isTerminal : TransferEvent → Bool
  | .state _ .completed | .state _ .failed | .state _ .cancelled => true
  | _ => false

/-- The events the channel took, of those that were offered. -/
def placed (capacity : Nat) (offers : List Offer) : List TransferEvent :=
  (offers.filter fun x => x.waiting < capacity).map Offer.event

theorem placed_append (capacity : Nat) (xs ys : List Offer) :
    placed capacity (xs ++ ys) = placed capacity xs ++ placed capacity ys := by
  simp only [placed, List.filter_append, List.map_append]

theorem placed_cons (capacity : Nat) (x : Offer) (xs : List Offer) :
    placed capacity (x :: xs) =
      if x.waiting < capacity then x.event :: placed capacity xs else placed capacity xs := by
  by_cases h : x.waiting < capacity
  · simp [placed, h]
  · simp [placed, h]

/-! ## Continuations -/

/-- `run_transfer` returns right after its terminal event, and after no other
event; and only an error that is not a cancellation counts as a failure. -/
def Pc.Wf (id : TransferId) : Pc → Prop
  | .emit event next | .send event next =>
    (∀ outcome, next.result = some outcome → event = .state id (terminalStatus outcome)) ∧
      (next.result = none → isTerminal event = false) ∧ next.Wf id
  | .loadRetries error => error ≠ .cancelled
  | _ => True

/-- The task numbered `i` handed over `event` as `offer`, its only terminal event,
and nothing after it. -/
structure Last (offers : List Offer) (i : Nat) (event : TransferEvent) (before : List Offer)
    (offer : Offer) (after : List Offer) : Prop where
  split : offers = before ++ offer :: after
  task : offer.task = i
  event : offer.event = event
  once : ∀ x ∈ before, x.task = i → isTerminal x.event = false
  silent : ∀ x ∈ after, x.task ≠ i

/-- What holds in every state of a run in which the pump is not stopped. -/
structure EventInv (s : EventState) : Prop where
  alive : s.pumpAlive = true
  placed : s.received ++ s.channel = Events.placed s.capacity s.offers
  wf : ∀ (i : Nat) (x : Task), s.tasks[i]? = some x → x.pc.Wf x.id
  -- a task that is still to come has made no offer
  known : ∀ x ∈ s.offers, x.task < s.tasks.length
  pending : ∀ (i : Nat) (x : Task), s.tasks[i]? = some x → x.pc.result = none →
    ∀ y ∈ s.offers, y.task = i → isTerminal y.event = false
  last : ∀ (i : Nat) (x : Task) (outcome : Except SftpError Unit), s.tasks[i]? = some x →
    x.pc.result = some outcome →
    ∃ before offer after, Last s.offers i (.state x.id (terminalStatus outcome)) before offer after

/-! ## What a step of a task does -/

/-- A step of the task numbered `i` that hands over nothing, to the place `pc`. -/
structure Quiet (task : Task) (pc : Pc) : Prop where
  wf : task.pc.Wf task.id → pc.Wf task.id
  result : pc.result = task.pc.result

theorem Quiet.of_pc {task : Task} {pc : Pc} (hw : pc.Wf task.id) (h : pc.result = task.pc.result) :
    Quiet task pc := ⟨fun _ => hw, h⟩

theorem giveUp_wf (id : TransferId) {error : SftpError} (h : error ≠ .cancelled) :
    (EventState.giveUp id error).Wf id := by
  have hs : terminalStatus (.error error) = .failed := by
    cases error <;> first | rfl | exact absurd rfl h
  refine ⟨by rintro _ ⟨⟩, fun _ => rfl, ?_, by rintro ⟨⟩, trivial⟩
  rintro _ ⟨⟩
  rw [hs]

/-- One step of the task numbered `i`: it goes on at `pc`, a new worker may be
there, and it has handed over an event or not. -/
structure TaskSpec (s : EventState) (i : Nat) (task : Task) (t : EventState) (pc : Pc)
    (new : List Task) : Prop where
  tasks : t.tasks = s.tasks.set i { task with pc := pc } ++ new
  new : ∀ x ∈ new, x.pc = .acquire
  capacity : t.capacity = s.capacity
  alive : t.pumpAlive = s.pumpAlive
  received : t.received = s.received
  moves : (t.channel = s.channel ∧ t.offers = s.offers ∧ Quiet task pc) ∨
    ∃ event, task.pc = .send event pc ∧ t.offers = s.offers ++ [⟨i, event, s.channel.length⟩] ∧
      t.channel = if s.channel.length < s.capacity then s.channel ++ [event] else s.channel

/-- A step that only writes the controls, the permits and the task's place. -/
theorem TaskSpec.quiet {s u : EventState} {i : Nat} {task : Task} {pc : Pc} (hq : Quiet task pc)
    (ht : u.tasks = s.tasks) (hk : u.capacity = s.capacity) (ha : u.pumpAlive = s.pumpAlive)
    (hr : u.received = s.received) (hc : u.channel = s.channel) (ho : u.offers = s.offers) :
    TaskSpec s i task (u.go i task pc) pc [] where
  tasks := by rw [List.append_nil, EventState.go, ht]
  new := by rintro _ ⟨⟩
  capacity := hk
  alive := ha
  received := hr
  moves := .inl ⟨hc, ho, hq⟩

theorem taskStep_spec {s t : EventState} {i : Nat} {task : Task} {c : EventState.Choice} (ha : s.pumpAlive = true)
    (hw : task.pc.Wf task.id) (h : s.taskStep i task task.pc c = some t) :
    ∃ pc new, TaskSpec s i task t pc new := by
  cases hpc : task.pc with
  | emit event next =>
    rw [hpc] at h hw
    cases c <;> simp only [taskStep, ha, reduceCtorEq, if_true, Option.some.injEq] at h
    cases h
    exact ⟨_, _, .quiet (.of_pc hw (by rw [hpc]; rfl)) rfl rfl rfl rfl rfl rfl⟩
  | send event next =>
    rw [hpc] at h
    cases c <;> simp only [taskStep, reduceCtorEq, Option.some.injEq] at h
    cases h
    exact ⟨next, [], by rw [List.append_nil]; rfl, by rintro _ ⟨⟩, rfl, rfl, rfl,
      .inr ⟨event, hpc, rfl, rfl⟩⟩
  | resetCancelled | wait =>
    rw [hpc] at h
    cases c <;> simp only [taskStep, reduceCtorEq, Option.some.injEq] at h
    cases h
    exact ⟨_, _, .quiet (.of_pc trivial (by rw [hpc]; rfl)) rfl rfl rfl rfl rfl rfl⟩
  | resetRetries | storeRetries n =>
    rw [hpc] at h
    cases c <;> simp only [taskStep, reduceCtorEq, Option.some.injEq] at h
    cases h
    exact ⟨_, _, .quiet (.of_pc ⟨by rintro _ ⟨⟩, fun _ => rfl, trivial⟩ (by rw [hpc]; rfl))
      rfl rfl rfl rfl rfl rfl⟩
  | spawn =>
    rw [hpc] at h
    cases c <;> simp only [taskStep, reduceCtorEq, Option.some.injEq] at h
    cases h
    refine ⟨.called, [⟨task.id, .acquire⟩], rfl, fun x hx => ?_, rfl, rfl, rfl,
      .inl ⟨rfl, rfl, .of_pc trivial (by rw [hpc]; rfl)⟩⟩
    rw [List.mem_singleton.mp hx]
  | acquire =>
    rw [hpc] at h
    cases c <;> simp only [taskStep, reduceCtorEq] at h
    split at h <;> cases h
    exact ⟨_, _, .quiet (.of_pc trivial (by rw [hpc]; rfl)) rfl rfl rfl rfl rfl rfl⟩
  | checkCancelled =>
    rw [hpc] at h
    cases c <;> simp only [taskStep, reduceCtorEq] at h
    split at h <;> cases h
    · exact ⟨_, _, .quiet (.of_pc trivial (by rw [hpc]; rfl)) rfl rfl rfl rfl rfl rfl⟩
    · exact ⟨_, _, .quiet (.of_pc ⟨by rintro _ ⟨⟩, fun _ => rfl, trivial⟩ (by rw [hpc]; rfl))
        rfl rfl rfl rfl rfl rfl⟩
  | checkPump =>
    rw [hpc] at h
    cases c <;> simp only [taskStep, reduceCtorEq] at h
    split at h <;> cases h <;>
      exact ⟨_, _, .quiet (.of_pc trivial (by rw [hpc]; rfl)) rfl rfl rfl rfl rfl rfl⟩
  | copy =>
    rw [hpc] at h
    cases c with
    | go => simp only [taskStep, reduceCtorEq] at h
    | progress p =>
      simp only [taskStep, Option.some.injEq] at h
      cases h
      exact ⟨_, _, .quiet (.of_pc ⟨by rintro _ ⟨⟩, fun _ => rfl, trivial⟩ (by rw [hpc]; rfl))
        rfl rfl rfl rfl rfl rfl⟩
    | outcome o =>
      cases o with
      | ok v =>
        simp only [taskStep, Option.some.injEq] at h
        cases h
        exact ⟨_, _, .quiet (.of_pc ⟨by rintro _ ⟨⟩; rfl, by rintro ⟨⟩, trivial⟩ (by rw [hpc]; rfl))
          rfl rfl rfl rfl rfl rfl⟩
      | error e =>
        simp only [taskStep, Option.some.injEq] at h
        cases h
        exact ⟨_, _, .quiet (.of_pc trivial (by rw [hpc]; rfl)) rfl rfl rfl rfl rfl rfl⟩
  | failed e =>
    rw [hpc] at h
    cases c <;> simp only [taskStep, reduceCtorEq] at h
    split at h
    · cases h
      exact ⟨_, _, .quiet (.of_pc ⟨by rintro _ ⟨⟩; rfl, by rintro ⟨⟩, trivial⟩ (by rw [hpc]; rfl))
        rfl rfl rfl rfl rfl rfl⟩
    · rename_i hn
      have he : e ≠ .cancelled := fun he => hn (.inl he)
      split at h <;> cases h
      · exact ⟨_, _, .quiet (.of_pc he (by rw [hpc]; rfl)) rfl rfl rfl rfl rfl rfl⟩
      · exact ⟨_, _, .quiet (.of_pc (giveUp_wf _ he) (by rw [hpc]; rfl)) rfl rfl rfl rfl rfl rfl⟩
  | loadRetries e =>
    rw [hpc] at h hw
    cases c <;> simp only [taskStep, reduceCtorEq] at h
    split at h <;> cases h
    · exact ⟨_, _, .quiet (.of_pc (giveUp_wf _ hw) (by rw [hpc]; rfl)) rfl rfl rfl rfl rfl rfl⟩
    · exact ⟨_, _, .quiet (.of_pc trivial (by rw [hpc]; rfl)) rfl rfl rfl rfl rfl rfl⟩
  | returned outcome =>
    rw [hpc] at h
    cases c <;> simp only [taskStep, reduceCtorEq, Option.some.injEq] at h
    cases h
    exact ⟨_, _, .quiet (.of_pc trivial (by rw [hpc]; rfl)) rfl rfl rfl rfl rfl rfl⟩
  | called | ended outcome =>
    rw [hpc] at h
    cases c <;> simp only [taskStep, reduceCtorEq] at h

/-! ## The invariant -/

theorem Last.extend {offers before after : List Offer} {i : Nat} {event : TransferEvent} {offer : Offer}
    (h : Last offers i event before offer after) {x : Offer} (hx : x.task ≠ i) :
    Last (offers ++ [x]) i event before offer (after ++ [x]) where
  split := by rw [h.split, List.append_assoc, List.cons_append]
  task := h.task
  event := h.event
  once := h.once
  silent := by
    intro y hy
    rcases List.mem_append.mp hy with hy | hy
    · exact h.silent y hy
    · rwa [List.mem_singleton.mp hy]

theorem eventInv_new (maxConcurrency eventBuffer : Nat) : EventInv (.new maxConcurrency eventBuffer) where
  alive := rfl
  placed := rfl
  wf := by rintro _ _ ⟨⟩
  known := by rintro _ ⟨⟩
  pending := by rintro _ _ ⟨⟩
  last := by rintro _ _ _ ⟨⟩

/-- Tasks that are new to the manager. -/
structure Fresh (x : Task) : Prop where
  wf : x.pc.Wf x.id
  result : x.pc.result = none

/-- A step that offers nothing and moves no task that is there. -/
theorem EventInv.grow {s t : EventState} (hi : EventInv s) {new : List Task} (ht : t.tasks = s.tasks ++ new)
    (hn : ∀ x ∈ new, Fresh x) (hk : t.capacity = s.capacity) (ha : t.pumpAlive = s.pumpAlive)
    (hp : t.received ++ t.channel = s.received ++ s.channel) (ho : t.offers = s.offers) : EventInv t where
  alive := by rw [ha, hi.alive]
  placed := by rw [hp, hi.placed, hk, ho]
  wf := by
    intro i x hx
    rw [ht] at hx
    rcases entry_of_append hx with hx | ⟨-, hx⟩
    · exact hi.wf i x hx
    · exact (hn x hx).wf
  known := by
    intro x hx
    rw [ho] at hx
    rw [ht, List.length_append]
    have hlt := hi.known x hx
    omega
  pending := by
    intro i x hx hr y hy hyi
    rw [ht] at hx
    rw [ho] at hy
    rcases entry_of_append hx with hx | ⟨hle, -⟩
    · exact hi.pending i x hx hr y hy hyi
    · have hlt := hi.known y hy
      omega
  last := by
    intro i x outcome hx hr
    rw [ht] at hx
    rw [ho]
    rcases entry_of_append hx with hx | ⟨-, hx⟩
    · exact hi.last i x outcome hx hr
    · rw [(hn x hx).result] at hr
      cases hr

/-- One task goes on and offers nothing. -/
theorem EventInv.go {s : EventState} (hi : EventInv s) {i : Nat} {task : Task}
    (htask : s.tasks[i]? = some task) {pc : Pc} (hq : Quiet task pc) :
    EventInv { s with tasks := s.tasks.set i { task with pc := pc } } where
  alive := hi.alive
  placed := hi.placed
  wf := by
    intro j x hx
    rcases entry_of_set hx with ⟨-, rfl⟩ | ⟨-, hx⟩
    · exact hq.wf (hi.wf i task htask)
    · exact hi.wf j x hx
  known := by
    intro x hx
    rw [List.length_set]
    exact hi.known x hx
  pending := by
    intro j x hx hr
    rcases entry_of_set hx with ⟨rfl, rfl⟩ | ⟨-, hx⟩
    · exact hi.pending j task htask (hq.result ▸ hr)
    · exact hi.pending j x hx hr
  last := by
    intro j x outcome hx hr
    rcases entry_of_set hx with ⟨rfl, rfl⟩ | ⟨-, hx⟩
    · exact hi.last j task outcome htask (hq.result ▸ hr)
    · exact hi.last j x outcome hx hr

/-- One task hands over an event, at the end of the offers. -/
theorem EventInv.send {s : EventState} (hi : EventInv s) {i : Nat} {task : Task}
    (htask : s.tasks[i]? = some task) {event : TransferEvent} {pc : Pc} (hpc : task.pc = .send event pc) :
    EventInv ((s.trySend i event).go i task pc) where
  alive := hi.alive
  placed := by
    show s.received ++ (if _ then _ else _) = _
    have hnil : Events.placed s.capacity [] = [] := rfl
    simp only [EventState.go, trySend, placed_append, placed_cons, ← hi.placed, hnil]
    split
    · rw [List.append_assoc]
    · rw [List.append_nil]
  wf := by
    intro j x hx
    rcases entry_of_set hx with ⟨-, rfl⟩ | ⟨-, hx⟩
    · have hw := hi.wf i task htask
      rw [hpc] at hw
      exact hw.2.2
    · exact hi.wf j x hx
  known := by
    intro x hx
    have hlen : ((s.trySend i event).go i task pc).tasks.length = s.tasks.length := List.length_set
    rw [hlen]
    rcases List.mem_append.mp hx with hx | hx
    · exact hi.known x hx
    · obtain ⟨hlt, -⟩ := List.getElem?_eq_some_iff.mp htask
      rw [List.mem_singleton.mp hx]
      exact hlt
  pending := by
    intro j x hx hr y hy hyj
    have hw := hi.wf i task htask
    rw [hpc] at hw
    rcases entry_of_set hx with ⟨rfl, rfl⟩ | ⟨hne, hx⟩ <;> rcases List.mem_append.mp hy with hy | hy
    · exact hi.pending j task htask (by rw [hpc]; rfl) y hy hyj
    · rw [List.mem_singleton.mp hy]
      exact hw.2.1 hr
    · exact hi.pending j x hx hr y hy hyj
    · rw [List.mem_singleton.mp hy] at hyj
      exact absurd hyj.symm hne
  last := by
    intro j x outcome hx hr
    have hw := hi.wf i task htask
    rw [hpc] at hw
    rcases entry_of_set hx with ⟨rfl, rfl⟩ | ⟨hne, hx⟩
    · refine ⟨s.offers, ⟨j, event, s.channel.length⟩, [], rfl, rfl, hw.1 outcome hr, ?_, by rintro _ ⟨⟩⟩
      exact hi.pending j task htask (by rw [hpc]; rfl)
    · obtain ⟨before, offer, after, hlast⟩ := hi.last j x outcome hx hr
      exact ⟨before, offer, _, hlast.extend (x := ⟨i, event, s.channel.length⟩) (Ne.symm hne)⟩

theorem TaskSpec.eventInv {s t : EventState} {i : Nat} {task : Task} {pc : Pc} {new : List Task}
    (h : TaskSpec s i task t pc new) (hi : EventInv s) (htask : s.tasks[i]? = some task) : EventInv t := by
  have hfresh : ∀ x ∈ new, Fresh x := by
    intro x hx
    have hpc := h.new x hx
    exact ⟨by rw [hpc]; trivial, by rw [hpc]; rfl⟩
  rcases h.moves with ⟨hc, ho, hq⟩ | ⟨event, hpc, ho, hc⟩
  · exact (hi.go htask hq).grow h.tasks hfresh h.capacity h.alive (by rw [hc, h.received]) ho
  · exact (hi.send htask hpc).grow h.tasks hfresh h.capacity h.alive (by rw [hc, h.received]; rfl) ho

/-- The pump takes an event: what it has and what is left stay the same list. -/
theorem receive_spec {s t : EventState} (h : s.receive = some t) :
    t.received ++ t.channel = s.received ++ s.channel ∧
      t = { s with received := t.received, channel := t.channel } := by
  simp only [receive] at h
  split at h
  · cases h
  · rename_i event rest hc
    cases h
    exact ⟨by rw [hc, List.append_assoc]; rfl, rfl⟩

theorem eventInv_step {s t : EventState} {a : Action} (hi : EventInv s) (hok : PumpRunning s a)
    (h : machine.step s a = some t) : EventInv t := by
  simp only [machine] at h
  cases a with
  | enqueue retries =>
    cases h
    refine hi.grow rfl (fun x hx => ?_) rfl rfl rfl rfl
    rw [List.mem_singleton.mp hx]
    exact ⟨⟨by rintro _ ⟨⟩, fun _ => rfl, trivial⟩, rfl⟩
  | retry id =>
    simp only [step] at h
    split at h <;> cases h
    refine hi.grow rfl (fun x hx => ?_) rfl rfl rfl rfl
    rw [List.mem_singleton.mp hx]
    exact ⟨trivial, rfl⟩
  | cancel id =>
    cases h
    exact hi.grow (List.append_nil _).symm (by rintro _ ⟨⟩) rfl rfl rfl rfl
  | eventPumpStopped => exact absurd rfl hok
  | task i choice =>
    simp only [step] at h
    split at h
    · rename_i task htask
      obtain ⟨pc, new, hspec⟩ := taskStep_spec hi.alive (hi.wf i task htask) h
      exact hspec.eventInv hi htask
    · cases h
  | receive =>
    obtain ⟨hp, e⟩ := receive_spec h
    rw [e]
    exact hi.grow (List.append_nil _).symm (by rintro _ ⟨⟩) rfl rfl hp rfl

/-! ## The last event -/

/-- When `run_transfer` has returned, in a run in which the pump is not stopped,
it has handed over the terminal event that matches its result, once and as its
last event; and the event is on the channel, behind all that was placed before
it, if and only if the channel had room. -/
theorem last_event_placed_iff {s : EventState} (hr : machine.Reach PumpRunning Initial s) {i : Nat}
    {task : Task} (htask : s.tasks[i]? = some task) {outcome : Except SftpError Unit}
    (hres : task.pc.result = some outcome) :
    ∃ before offer after, Last s.offers i (.state task.id (terminalStatus outcome)) before offer after ∧
      (s.received ++ s.channel = placed s.capacity before ++ offer.event :: placed s.capacity after ↔
        offer.waiting < s.capacity) := by
  have hi : EventInv s := by
    refine hr.invariant ?_ fun _ _ _ hi hok h => eventInv_step hi hok h
    rintro _ ⟨n, b, rfl⟩
    exact eventInv_new n b
  obtain ⟨before, offer, after, hlast⟩ := hi.last i task outcome htask hres
  refine ⟨before, offer, after, hlast, ?_⟩
  rw [hi.placed, hlast.split, placed_append, placed_cons]
  constructor
  · intro h
    by_contra hn
    rw [if_neg hn] at h
    have hlen := congrArg List.length (List.append_cancel_left h)
    simp at hlen
  · intro h
    rw [if_pos h]

/-- A worker runs a transfer to its end: the steps after its call was queued. -/
def completeTrace (i : Nat) : List Action :=
  List.flatten [List.replicate 6 (.task i .go), [.task i (.outcome (.ok ()))],
    List.replicate 2 (.task i .go)]

/-- An enqueue call hands over its event and spawns its worker. -/
def queueTrace (i : Nat) : List Action := .enqueue 0 :: List.replicate 3 (.task i .go)

/-- A transfer alone on its manager, before the pump takes anything. -/
theorem lone_transfer_announced :
    ∃ s, machine.Reach PumpRunning Initial s ∧ s.tasks[1]? = some ⟨⟨0⟩, .returned (.ok ())⟩ ∧
      ∃ before offer after, Last s.offers 1 (.state ⟨0⟩ .completed) before offer after ∧
        (s.received ++ s.channel = placed s.capacity before ++ offer.event :: placed s.capacity after ↔
          offer.waiting < s.capacity) := by
  obtain ⟨s, hs, hp⟩ := Machine.Reach.of_run machine PumpRunning (init_new 2 8)
    (List.flatten [queueTrace 0, completeTrace 1])
    (fun s => decide (s.tasks[1]? = some (⟨⟨0⟩, .returned (.ok ())⟩ : Task))) (by decide)
  have ht := of_decide_eq_true hp
  exact ⟨s, hs, ht, last_event_placed_iff hs ht rfl⟩

/-- Eight transfers are queued, and the first one runs to its end before the pump
takes an event: it is complete, and no event says so. -/
theorem last_event_skipped :
    ∃ s, machine.Reach PumpRunning Initial s ∧ s.tasks[1]? = some ⟨⟨0⟩, .returned (.ok ())⟩ ∧
      TransferEvent.state ⟨0⟩ .completed ∉ s.received ++ s.channel := by
  obtain ⟨s, hs, hp⟩ := Machine.Reach.of_run machine PumpRunning (init_new 2 8)
    (List.flatten [(List.range 8).flatMap fun k => queueTrace (2 * k), completeTrace 1])
    (fun s => decide (s.tasks[1]? = some (⟨⟨0⟩, .returned (.ok ())⟩ : Task) ∧
      TransferEvent.state ⟨0⟩ .completed ∉ s.received ++ s.channel)) (by decide)
  exact ⟨s, hs, of_decide_eq_true hp⟩

end KW.Transfer.Events
