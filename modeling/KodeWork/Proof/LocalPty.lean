import KodeWork.Impl.LocalPty

/-!
# Nothing lost, nothing overtaken

`Flow` follows one call of `subscribe` through the run: until it has drained
`pending`, what was emitted is parked there in order, or was sent to the new receiver
while nothing was parked; after that everything emitted is in the receiver. Two steps
break it (`NoGap` excludes them): the lock for the drain while the reader thread has seen
no subscriber and not parked its event yet, which is left behind (`event_left_behind`),
and a send between the storing of the sender and the end of the drain while something is
parked, which it overtakes (`event_overtaken`, `event_sent_amid_drain`).
-/

namespace KW.LocalPty

open LocalSession Machine

/-! ## Steps that keep the order -/

/-- The reader thread has seen no subscriber, and will park its event. -/
def ReaderPc.parking : ReaderPc → Bool
  | .clear .. | .park .. => true
  | _ => false

/-- The reader thread has an event for the receiver. -/
def ReaderPc.sending : ReaderPc → Bool
  | .send .. => true
  | _ => false

/-- One call of `subscribe`, at most `MAX_PENDING_EVENTS` events before it, and a receiver
that stays open. -/
def OneSubscribe (s : LocalSession) : Event → Prop
  | .subscribe => s.calls = []
  | .dropReceiver _ => False
  | .call _ => .set ∈ s.calls → s.emitted.length ≤ maxPendingEvents
  | .reader _ | .receive _ => True

instance (s : LocalSession) (e : Event) : Decidable (OneSubscribe s e) := by
  cases e <;> simp only [OneSubscribe] <;> infer_instance

/-- A call of `subscribe` has stored its sender and not drained `pending`. -/
def LocalSession.draining (s : LocalSession) : Prop := .lock ∈ s.calls ∨ .drain ∈ s.calls

instance (s : LocalSession) : Decidable s.draining := inferInstanceAs (Decidable (_ ∨ _))

/-- No drain before an event is parked, and no send to a receiver before the parked events
are in it. -/
def NoGap (s : LocalSession) : Event → Prop
  | .call _ => .lock ∈ s.calls → s.reader.parking = false
  | .reader _ => s.draining → s.reader.sending = true → s.pending = []
  | .subscribe | .receive _ | .dropReceiver _ => True

instance (s : LocalSession) (e : Event) : Decidable (NoGap s e) := by
  cases e <;> simp only [NoGap] <;> infer_instance

def InOrder (s : LocalSession) (e : Event) : Prop := OneSubscribe s e ∧ NoGap s e

instance (s : LocalSession) (e : Event) : Decidable (InOrder s e) := inferInstanceAs (Decidable (_ ∧ _))

/-! ## The invariant -/

/-- The event the reader thread is busy with. -/
def ReaderPc.inFlight : ReaderPc → List LocalTerminalEvent
  | .look event _ | .send event _ _ | .clear event _ | .park event _ => [event]
  | .read | .ended => []

/-- Everything a receiver has been sent. -/
def Receiver.got (r : Receiver) : List LocalTerminalEvent := r.taken ++ r.queue

/-- Where the events are, by the stage of the only call of `subscribe`. -/
inductive Flow (s : LocalSession) : Prop
  /-- the sender is not stored yet: everything is parked, if there is room -/
  | before (hcalls : s.calls = [] ∧ s.receivers = [] ∨ s.calls = [.set] ∧ s.receivers = [⟨[], false, []⟩])
    (hsub : s.subscriber = none) (hsend : ∀ event last i, s.reader ≠ .send event last i)
    (hclear : ∀ event last, s.reader ≠ .clear event last)
    (hflow : s.emitted.length ≤ maxPendingEvents → s.pending ++ s.reader.inFlight = s.emitted)
  /-- the sender is stored, and `pending` is not drained -/
  | between (r : Receiver) (hcalls : s.calls = [.lock] ∨ s.calls = [.drain] ∧ s.reader.parking = false) (hreceivers : s.receivers = [r])
    (hsub : s.subscriber = some 0) (hopen : r.closed = false)
    (hsend : ∀ event last i, s.reader = .send event last i → i = 0)
    (hclear : ∀ event last, s.reader ≠ .clear event last)
    (hflow : r.got ++ s.pending ++ s.reader.inFlight = s.emitted)
    (hroom : (r.queue.length + s.pending.length ≤ maxPendingEvents ∧
        (s.reader.parking = true → r.queue.length + s.pending.length < maxPendingEvents)) ∨
      (s.pending = [] ∧ s.reader.parking = false))
  | after (r : Receiver) (hcalls : s.calls = [.returned]) (hreceivers : s.receivers = [r])
    (hsub : s.subscriber = some 0) (hopen : r.closed = false) (hpending : s.pending = [])
    (hsend : ∀ event last i, s.reader = .send event last i → i = 0)
    (hparking : s.reader.parking = false) (hflow : r.got ++ s.reader.inFlight = s.emitted)

/-! ## The reader thread -/

theorem push_of_room {pending : List LocalTerminalEvent} {event : LocalTerminalEvent}
    (h : pending.length < maxPendingEvents) : push pending event = pending ++ [event] := by
  rw [push, if_neg (Nat.not_le.mpr h)]

theorem afterEmit_inFlight (last : Bool) : (afterEmit last).inFlight = [] := by
  cases last <;> rfl

theorem afterEmit_parking (last : Bool) : (afterEmit last).parking = false := by
  cases last <;> rfl

/-- What one step of the reader thread does. -/
inductive ReaderMoves (s : LocalSession) : LocalSession → Prop
  | emit (event : LocalTerminalEvent) (last : Bool) (hpc : s.reader = .read) :
    ReaderMoves s (s.emit event last)
  | found (event : LocalTerminalEvent) (last : Bool) (i : Nat) (hpc : s.reader = .look event last)
    (hsub : s.subscriber = some i) : ReaderMoves s { s with reader := .send event last i }
  | missed (event : LocalTerminalEvent) (last : Bool) (hpc : s.reader = .look event last)
    (hsub : s.subscriber = none) : ReaderMoves s { s with reader := .park event last }
  | sent (event : LocalTerminalEvent) (last : Bool) (i : Nat) (r : Receiver)
    (hpc : s.reader = .send event last i) (hr : s.receivers[i]? = some r) (hopen : r.closed = false)
    (hroom : r.queue.length < eventQueue) :
    ReaderMoves s { s.setReceiver i { r with queue := r.queue ++ [event] } with reader := afterEmit last }
  | refused (event : LocalTerminalEvent) (last : Bool) (i : Nat) (r : Receiver)
    (hpc : s.reader = .send event last i) (hr : s.receivers[i]? = some r) (hclosed : r.closed = true) :
    ReaderMoves s { s with reader := .clear event last }
  | cleared (event : LocalTerminalEvent) (last : Bool) (hpc : s.reader = .clear event last) :
    ReaderMoves s { s with subscriber := none, reader := .park event last }
  | parked (event : LocalTerminalEvent) (last : Bool) (hpc : s.reader = .park event last) :
    ReaderMoves s { s with pending := push s.pending event, reader := afterEmit last }

theorem readerStep_moves {s t : LocalSession} {result : Option ReadResult}
    (h : s.readerStep s.reader result = some t) : ReaderMoves s t := by
  cases hpc : s.reader with
  | read =>
    rw [hpc] at h
    cases result with
    | none => cases h
    | some result =>
      cases result with
      | eof code => cases h; exact .emit _ _ hpc
      | bytes bytes =>
        obtain ⟨-, h⟩ := Option.ite_none_right_eq_some.mp h
        cases h
        exact .emit _ _ hpc
      | failed message => cases h; exact .emit _ _ hpc
  | look event last =>
    rw [hpc] at h
    cases result <;> simp only [readerStep, reduceCtorEq] at h
    split at h <;> cases h
    · exact .found event last _ hpc ‹_›
    · exact .missed event last hpc ‹_›
  | send event last i =>
    rw [hpc] at h
    cases result <;> simp only [readerStep, reduceCtorEq] at h
    split at h
    · rename_i r hr
      split at h
      · cases h
        exact .refused event last i r hpc hr ‹_›
      · rename_i hopen
        obtain ⟨hroom, h⟩ := Option.ite_none_right_eq_some.mp h
        cases h
        exact .sent event last i r hpc hr (Bool.eq_false_iff.mpr hopen) hroom
    · cases h
  | clear event last =>
    rw [hpc] at h
    cases result <;> cases h
    exact .cleared event last hpc
  | park event last =>
    rw [hpc] at h
    cases result <;> simp only [readerStep, reduceCtorEq] at h
    obtain ⟨-, h⟩ := Option.ite_none_left_eq_some.mp h
    cases h
    exact .parked event last hpc
  | ended =>
    rw [hpc] at h
    cases result <;> cases h

theorem reader_before {s t : LocalSession}
    (hcalls : s.calls = [] ∧ s.receivers = [] ∨ s.calls = [.set] ∧ s.receivers = [⟨[], false, []⟩])
    (hsub : s.subscriber = none) (hsend : ∀ event last i, s.reader ≠ .send event last i)
    (hclear : ∀ event last, s.reader ≠ .clear event last)
    (hflow : s.emitted.length ≤ maxPendingEvents → s.pending ++ s.reader.inFlight = s.emitted)
    (h : ReaderMoves s t) : Flow t := by
  cases h with
  | emit event last hpc =>
    refine .before hcalls hsub (by rintro _ _ _ ⟨⟩) (by rintro _ _ ⟨⟩) fun hle => ?_
    have hle : s.emitted.length ≤ maxPendingEvents := by
      simp only [LocalSession.emit, List.length_append] at hle
      omega
    have hold := hflow hle
    rw [hpc] at hold
    exact congrArg (· ++ [event]) ((List.append_nil _).symm.trans hold)
  | found event last i hpc hsome => cases hsub.symm.trans hsome
  | missed event last hpc hnone =>
    refine .before hcalls hsub (by rintro _ _ _ ⟨⟩) (by rintro _ _ ⟨⟩) fun hle => ?_
    have hold := hflow hle
    rwa [hpc] at hold
  | sent event last i r hpc => exact absurd hpc (hsend event last i)
  | refused event last i r hpc => exact absurd hpc (hsend event last i)
  | cleared event last hpc => exact absurd hpc (hclear event last)
  | parked event last hpc =>
    refine .before hcalls hsub (by cases last <;> rintro _ _ _ ⟨⟩) (by cases last <;> rintro _ _ ⟨⟩) fun hle => ?_
    have hold := hflow hle
    rw [hpc] at hold
    have hlength : s.pending.length + 1 = s.emitted.length := by
      rw [← hold, List.length_append]
      rfl
    have hroom : s.pending.length < maxPendingEvents := by
      have hle : s.emitted.length ≤ maxPendingEvents := hle
      omega
    change push s.pending event ++ (afterEmit last).inFlight = s.emitted
    rw [push_of_room hroom, afterEmit_inFlight, List.append_nil]
    exact hold

/-- The only receiver. -/
theorem getElem?_singleton {r r' : Receiver} {i : Nat} (h : [r][i]? = some r') : i = 0 ∧ r' = r := by
  obtain ⟨hi, rfl⟩ := List.getElem?_eq_some_iff.mp h
  have hi : i = 0 := Nat.lt_one_iff.mp hi
  subst hi
  exact ⟨rfl, rfl⟩

theorem reader_between {s t : LocalSession} {r : Receiver}
    (hcalls : s.calls = [.lock] ∨ s.calls = [.drain] ∧ s.reader.parking = false)
    (hreceivers : s.receivers = [r]) (hsub : s.subscriber = some 0) (hopen : r.closed = false)
    (hclear : ∀ event last, s.reader ≠ .clear event last)
    (hflow : r.got ++ s.pending ++ s.reader.inFlight = s.emitted)
    (hroom : (r.queue.length + s.pending.length ≤ maxPendingEvents ∧
        (s.reader.parking = true → r.queue.length + s.pending.length < maxPendingEvents)) ∨
      (s.pending = [] ∧ s.reader.parking = false))
    (hok : ∀ event last i, s.reader = .send event last i → s.pending = []) (h : ReaderMoves s t) :
    Flow t := by
  have hcalls {pc : ReaderPc} (hparking : pc.parking = false) :
      s.calls = [.lock] ∨ s.calls = [.drain] ∧ pc.parking = false := hcalls.imp_right fun h => ⟨h.1, hparking⟩
  cases h with
  | emit event last hpc =>
    rw [hpc] at hflow hroom
    refine .between r (hcalls rfl) hreceivers hsub hopen (by rintro _ _ _ ⟨⟩) (by rintro _ _ ⟨⟩) ?_ ?_
    · exact congrArg (· ++ [event]) ((List.append_nil _).symm.trans hflow)
    · exact hroom.imp (fun ⟨hle, _⟩ => ⟨hle, by rintro ⟨⟩⟩) id
  | found event last i hpc hsome =>
    rw [hpc] at hflow hroom
    refine .between r (hcalls rfl) hreceivers hsub hopen ?_ (by rintro _ _ ⟨⟩) hflow hroom
    rintro _ _ _ ⟨⟩
    exact Option.some.inj (hsome.symm.trans hsub)
  | missed event last hpc hnone => cases hsub.symm.trans hnone
  | sent event last i r' hpc hr hopen' _ =>
    rw [hreceivers] at hr
    obtain ⟨rfl, rfl⟩ := getElem?_singleton hr
    have hpending : s.pending = [] := hok event last 0 hpc
    rw [hpc, hpending, List.append_nil] at hflow
    refine .between { r' with queue := r'.queue ++ [event] } (hcalls (afterEmit_parking last))
      (by simp [setReceiver, hreceivers]) hsub hopen (by cases last <;> rintro _ _ _ ⟨⟩)
      (by cases last <;> rintro _ _ ⟨⟩) ?_ (.inr ⟨hpending, afterEmit_parking last⟩)
    change r'.taken ++ (r'.queue ++ [event]) ++ s.pending ++ (afterEmit last).inFlight = s.emitted
    rw [hpending, afterEmit_inFlight, List.append_nil, List.append_nil, ← List.append_assoc]
    exact hflow
  | refused event last i r' hpc hr hclosed =>
    rw [hreceivers] at hr
    obtain ⟨rfl, rfl⟩ := getElem?_singleton hr
    cases hopen.symm.trans hclosed
  | cleared event last hpc => exact absurd hpc (hclear event last)
  | parked event last hpc =>
    rw [hpc] at hflow hroom
    rcases hroom with ⟨-, hroom⟩ | ⟨-, ⟨⟩⟩
    have hroom : r.queue.length + s.pending.length < maxPendingEvents := hroom rfl
    have hpush : push s.pending event = s.pending ++ [event] := push_of_room (by omega)
    refine .between r (hcalls (afterEmit_parking last)) hreceivers hsub hopen (by cases last <;> rintro _ _ _ ⟨⟩)
      (by cases last <;> rintro _ _ ⟨⟩) ?_ (.inl ⟨?_, by rw [afterEmit_parking]; rintro ⟨⟩⟩)
    · change r.got ++ push s.pending event ++ (afterEmit last).inFlight = s.emitted
      rw [hpush, afterEmit_inFlight, List.append_nil, ← List.append_assoc]
      exact hflow
    · change r.queue.length + (push s.pending event).length ≤ maxPendingEvents
      rw [hpush, List.length_append]
      exact hroom

theorem reader_after {s t : LocalSession} {r : Receiver} (hcalls : s.calls = [.returned])
    (hreceivers : s.receivers = [r]) (hsub : s.subscriber = some 0) (hopen : r.closed = false)
    (hpending : s.pending = []) (hparking : s.reader.parking = false)
    (hflow : r.got ++ s.reader.inFlight = s.emitted) (h : ReaderMoves s t) : Flow t := by
  cases h with
  | emit event last hpc =>
    rw [hpc] at hflow
    refine .after r hcalls hreceivers hsub hopen hpending (by rintro _ _ _ ⟨⟩) rfl ?_
    exact congrArg (· ++ [event]) ((List.append_nil _).symm.trans hflow)
  | found event last i hpc hsome =>
    rw [hpc] at hflow
    refine .after r hcalls hreceivers hsub hopen hpending ?_ rfl hflow
    rintro _ _ _ ⟨⟩
    exact Option.some.inj (hsome.symm.trans hsub)
  | missed event last hpc hnone => cases hsub.symm.trans hnone
  | sent event last i r' hpc hr hopen' hroom =>
    rw [hreceivers] at hr
    obtain ⟨rfl, rfl⟩ := getElem?_singleton hr
    rw [hpc] at hflow
    refine .after { r' with queue := r'.queue ++ [event] } hcalls (by simp [setReceiver, hreceivers]) hsub hopen
      hpending (by cases last <;> rintro _ _ _ ⟨⟩) (afterEmit_parking last) ?_
    change r'.taken ++ (r'.queue ++ [event]) ++ (afterEmit last).inFlight = s.emitted
    rw [afterEmit_inFlight, List.append_nil, ← List.append_assoc]
    exact hflow
  | refused event last i r' hpc hr hclosed =>
    rw [hreceivers] at hr
    obtain ⟨rfl, rfl⟩ := getElem?_singleton hr
    cases hopen.symm.trans hclosed
  | cleared event last hpc =>
    rw [hpc] at hparking
    cases hparking
  | parked event last hpc =>
    rw [hpc] at hparking
    cases hparking

/-! ## The other steps -/

/-- The section that stores the sender. -/
theorem set_flow {s : LocalSession} (hcalls : s.calls = [.set]) (hreceivers : s.receivers = [⟨[], false, []⟩])
    (hsend : ∀ event last i, s.reader ≠ .send event last i) (hclear : ∀ event last, s.reader ≠ .clear event last)
    (hflow : s.emitted.length ≤ maxPendingEvents → s.pending ++ s.reader.inFlight = s.emitted)
    (hle : s.emitted.length ≤ maxPendingEvents) : Flow ({ s with subscriber := some 0 }.setCall 0 .lock) := by
  have hflow := hflow hle
  have hlength : s.pending.length + s.reader.inFlight.length = s.emitted.length := by
    rw [← hflow, List.length_append]
  refine .between ⟨[], false, []⟩ (.inl (by simp [setCall, hcalls])) hreceivers rfl rfl
    (fun event last i hpc => absurd hpc (hsend event last i)) hclear hflow (.inl ⟨?_, ?_⟩)
  · change [].length + s.pending.length ≤ maxPendingEvents
    rw [List.length_nil, Nat.zero_add]
    exact Nat.le_trans (hlength ▸ Nat.le_add_right _ _) hle
  · intro hparking
    have hone : s.reader.inFlight.length = 1 := by
      have hparking : s.reader.parking = true := hparking
      cases hpc : s.reader with
      | clear | park => rfl
      | read | look | send | ended =>
        rw [hpc] at hparking
        cases hparking
    change [].length + s.pending.length < maxPendingEvents
    rw [List.length_nil]
    omega

/-- One step of the loop that drains what was parked. -/
theorem drain_flow {s t : LocalSession} {r : Receiver} (hcalls : s.calls = [.drain]) (hreceivers : s.receivers = [r])
    (hsub : s.subscriber = some 0) (hopen : r.closed = false)
    (hsend : ∀ event last i, s.reader = .send event last i → i = 0)
    (hclear : ∀ event last, s.reader ≠ .clear event last)
    (hflow : r.got ++ s.pending ++ s.reader.inFlight = s.emitted)
    (hroom : (r.queue.length + s.pending.length ≤ maxPendingEvents ∧
        (s.reader.parking = true → r.queue.length + s.pending.length < maxPendingEvents)) ∨
      (s.pending = [] ∧ s.reader.parking = false))
    (hparking : s.reader.parking = false) (h : s.callStep 0 .drain = some t) : Flow t := by
  rw [callStep, hreceivers] at h
  cases hpending : s.pending with
  | nil =>
    rw [hpending] at h
    cases h
    refine .after r (by simp [setCall, hcalls]) hreceivers hsub hopen hpending hsend hparking ?_
    rwa [hpending, List.append_nil] at hflow
  | cons event pending =>
    rw [hpending] at h hflow hroom
    cases h
    rcases hroom with ⟨hle, -⟩ | ⟨⟨⟩, -⟩
    rw [List.length_cons] at hle
    have hfits : ¬eventQueue ≤ r.queue.length := by
      have hqueue : maxPendingEvents < eventQueue := by decide
      omega
    have hsent : trySend r event = { r with queue := r.queue ++ [event] } := by
      rw [trySend, hopen, Bool.false_or, if_neg (by rwa [decide_eq_true_iff])]
    refine .between (trySend r event) (.inr ⟨hcalls, hparking⟩) (by simp [setReceiver, hreceivers]) hsub
      (by rw [hsent]; exact hopen) hsend hclear ?_ (.inl ⟨?_, fun h => ?_⟩)
    · rw [hsent]
      change r.taken ++ (r.queue ++ [event]) ++ pending ++ s.reader.inFlight = s.emitted
      rw [← hflow, Receiver.got]
      simp only [List.append_assoc, List.cons_append, List.nil_append]
    · rw [hsent]
      change (r.queue ++ [event]).length + pending.length ≤ maxPendingEvents
      rw [List.length_append, List.length_singleton]
      omega
    · cases hparking.symm.trans h

theorem receive_flow {s t : LocalSession} {i : Nat} (hi : Flow s) (h : s.receive i = some t) : Flow t := by
  rw [receive] at h
  split at h
  · rename_i r hr
    split at h
    · rename_i event queue hqueue
      cases h
      cases hi with
      | before hcalls hsub hsend hclear hflow =>
        rcases hcalls with ⟨-, hnone⟩ | ⟨-, hone⟩
        · rw [hnone] at hr
          cases hr
        · rw [hone] at hr
          obtain ⟨-, rfl⟩ := getElem?_singleton hr
          cases hqueue
      | between r' hcalls hreceivers hsub hopen hsend hclear hflow hroom =>
        rw [hreceivers] at hr
        obtain ⟨rfl, rfl⟩ := getElem?_singleton hr
        have hgot : r.taken ++ [event] ++ queue = r.got := by
          rw [Receiver.got, hqueue, List.append_assoc]
          rfl
        refine .between { r with queue := queue, taken := r.taken ++ [event] } hcalls
          (by simp [setReceiver, hreceivers]) hsub hopen hsend hclear ?_ ?_
        · exact (congrArg (· ++ s.pending ++ s.reader.inFlight) hgot).trans hflow
        · rw [hqueue, List.length_cons] at hroom
          refine hroom.imp_left fun ⟨hle, hless⟩ => ⟨?_, fun hparking => ?_⟩
          · change queue.length + s.pending.length ≤ maxPendingEvents
            omega
          · have hless := hless hparking
            change queue.length + s.pending.length < maxPendingEvents
            omega
      | after r' hcalls hreceivers hsub hopen hpending hsend hparking hflow =>
        rw [hreceivers] at hr
        obtain ⟨rfl, rfl⟩ := getElem?_singleton hr
        have hgot : r.taken ++ [event] ++ queue = r.got := by
          rw [Receiver.got, hqueue, List.append_assoc]
          rfl
        refine .after { r with queue := queue, taken := r.taken ++ [event] } hcalls
          (by simp [setReceiver, hreceivers]) hsub hopen hpending hsend hparking ?_
        exact (congrArg (· ++ s.reader.inFlight) hgot).trans hflow
    · cases h
  · cases h

theorem call_flow {s t : LocalSession} {i : Nat} (hi : Flow s) (hok : InOrder s (.call i))
    (h : machine.step s (.call i) = some t) : Flow t := by
  simp only [machine, step] at h
  cases hi with
  | before hcalls hsub hsend hclear hflow =>
    rcases hcalls with ⟨hcalls, -⟩ | ⟨hcalls, hreceivers⟩
    · rw [hcalls] at h
      simp at h
    · have hle : s.emitted.length ≤ maxPendingEvents := hok.1 (by rw [hcalls]; exact List.mem_singleton_self _)
      cases i with
      | zero =>
        rw [hcalls] at h
        cases h
        exact set_flow hcalls hreceivers hsend hclear hflow hle
      | succ i =>
        rw [hcalls] at h
        cases h
  | between r hcalls hreceivers hsub hopen hsend hclear hflow hroom =>
    rcases hcalls with hcalls | ⟨hcalls, hparking⟩
    · have hparking : s.reader.parking = false := hok.2 (by rw [hcalls]; exact List.mem_singleton_self _)
      cases i with
      | zero =>
        have hfree : s.locked = false := by
          rw [locked, hcalls]
          rfl
        have h : s.callStep 0 .lock = some t := by rwa [hcalls] at h
        rw [callStep, hfree, if_neg Bool.false_ne_true] at h
        cases h
        exact .between r (.inr ⟨by simp [setCall, hcalls], hparking⟩) hreceivers hsub hopen hsend hclear hflow hroom
      | succ i =>
        rw [hcalls] at h
        cases h
    · cases i with
      | zero =>
        have h : s.callStep 0 .drain = some t := by rwa [hcalls] at h
        exact drain_flow hcalls hreceivers hsub hopen hsend hclear hflow hroom hparking h
      | succ i =>
        rw [hcalls] at h
        cases h
  | after r hcalls hreceivers hsub hopen hpending hsend hparking hflow =>
    rw [hcalls] at h
    cases i <;> cases h

theorem reader_flow {s t : LocalSession} {result : Option ReadResult} (hi : Flow s)
    (hok : InOrder s (.reader result)) (h : ReaderMoves s t) : Flow t := by
  cases hi with
  | before hcalls hsub hsend hclear hflow => exact reader_before hcalls hsub hsend hclear hflow h
  | between r hcalls hreceivers hsub hopen hsend hclear hflow hroom =>
    refine reader_between hcalls hreceivers hsub hopen hclear hflow hroom (fun event last i hpc => ?_) h
    have hdraining : s.draining := by
      rcases hcalls with hcalls | ⟨hcalls, -⟩
      · exact .inl (by rw [hcalls]; exact List.mem_singleton_self _)
      · exact .inr (by rw [hcalls]; exact List.mem_singleton_self _)
    exact hok.2 hdraining (by rw [hpc]; rfl)
  | after r hcalls hreceivers hsub hopen hpending hsend hparking hflow =>
    exact reader_after hcalls hreceivers hsub hopen hpending hparking hflow h

theorem subscribe_flow {s : LocalSession} (hi : Flow s) (hnew : s.calls = []) :
    Flow { s with calls := s.calls ++ [.set], receivers := s.receivers ++ [⟨[], false, []⟩] } := by
  cases hi with
  | before hcalls hsub hsend hclear hflow =>
    rcases hcalls with ⟨-, hreceivers⟩ | ⟨hcalls, -⟩
    · exact .before (.inr ⟨by rw [hnew]; rfl, by rw [hreceivers]; rfl⟩) hsub hsend hclear hflow
    · cases hnew.symm.trans hcalls
  | between _ hcalls =>
    rcases hcalls with hcalls | ⟨hcalls, -⟩
    · cases hnew.symm.trans hcalls
    · cases hnew.symm.trans hcalls
  | after _ hcalls => cases hnew.symm.trans hcalls

theorem step_flow {s t : LocalSession} {e : Event} (hi : Flow s) (hok : InOrder s e)
    (h : machine.step s e = some t) : Flow t := by
  cases e with
  | reader result => exact reader_flow hi hok (readerStep_moves h)
  | subscribe =>
    cases h
    exact subscribe_flow hi hok.1
  | call i => exact call_flow hi hok h
  | receive i => exact receive_flow hi h
  | dropReceiver i => cases hok.1

/-! ## Runs -/

theorem flow {s : LocalSession} (h : machine.Reach InOrder Initial s) : Flow s := by
  refine h.invariant ?_ fun _ _ _ => step_flow
  rintro s rfl
  exact .before (.inl ⟨rfl, rfl⟩) rfl (by rintro _ _ _ ⟨⟩) (by rintro _ _ ⟨⟩) fun _ => rfl

/-- The owner of the receiver empties its queue. -/
theorem receive_all : ∀ (queue : List LocalTerminalEvent) {s : LocalSession} {taken : List LocalTerminalEvent},
    s.receivers = [⟨queue, false, taken⟩] →
    machine.Path InOrder s { s with receivers := [⟨[], false, taken ++ queue⟩] } := by
  intro queue
  induction queue with
  | nil =>
    intro s taken hreceivers
    rw [List.append_nil, ← hreceivers]
    exact .refl s
  | cons event queue ih =>
    intro s taken hreceivers
    have hstep : machine.step s (.receive 0) = some { s with receivers := [⟨queue, false, taken ++ [event]⟩] } := by
      simp [machine, step, receive, hreceivers, setReceiver]
    have hrest := ih (s := { s with receivers := [⟨queue, false, taken ++ [event]⟩] }) rfl
    rw [List.append_assoc] at hrest
    have htake : machine.Path InOrder s { s with receivers := [⟨queue, false, taken ++ [event]⟩] } :=
      .single (a := .receive 0) ⟨trivial, trivial⟩ hstep
    exact htake.trans hrest

/-- The event in flight is sent, and the receiver takes everything. -/
theorem obtain_all {s : LocalSession} {r : Receiver} (hreceivers : s.receivers = [r])
    (hsub : s.subscriber = some 0) (hopen : r.closed = false) (hpending : s.pending = [])
    (hto : ∀ event last i, s.reader = .send event last i → i = 0) (hparking : s.reader.parking = false) (hflow : r.got ++ s.reader.inFlight = s.emitted) :
    ∃ t, machine.Path InOrder s t ∧ t.emitted = s.emitted ∧ t.receivers = [⟨[], false, s.emitted⟩] ∧
      t.pending = [] := by
  obtain ⟨queue, closed, taken⟩ := r
  cases hopen
  have htaken := receive_all queue hreceivers
  -- with the queue empty there is room for the event in flight
  have send (event : LocalTerminalEvent) (last : Bool) (hgot : taken ++ queue ++ [event] = s.emitted)
      (hsend : machine.Path InOrder s { s with receivers := [⟨[], false, taken ++ queue⟩], reader := .send event last 0 }) :
      ∃ t, machine.Path InOrder s t ∧ t.emitted = s.emitted ∧ t.receivers = [⟨[], false, s.emitted⟩] ∧
        t.pending = [] := by
    have hok : InOrder { s with receivers := [⟨[], false, taken ++ queue⟩], reader := .send event last 0 }
        (.reader none) := ⟨trivial, fun _ _ => hpending⟩
    have hstep : machine.step { s with receivers := [⟨[], false, taken ++ queue⟩], reader := .send event last 0 }
        (.reader none) = some { s with
          receivers := [⟨[event], false, taken ++ queue⟩], reader := afterEmit last } := rfl
    have hreceive := receive_all [event]
      (s := { s with receivers := [⟨[event], false, taken ++ queue⟩], reader := afterEmit last }) rfl
    refine ⟨_, (hsend.tail hok hstep).trans hreceive, rfl, ?_, hpending⟩
    rw [← hgot]
  cases hpc : s.reader with
  | read | ended =>
    rw [hpc, ReaderPc.inFlight, List.append_nil] at hflow
    refine ⟨_, htaken, rfl, ?_, hpending⟩
    rw [← hflow]
    rfl
  | look event last =>
    rw [hpc] at hflow
    have hok : InOrder { s with receivers := [⟨[], false, taken ++ queue⟩] } (.reader none) := by
      refine ⟨trivial, fun _ hsending => ?_⟩
      simp only [hpc] at hsending
      cases hsending
    refine send event last hflow (htaken.tail hok ?_)
    simp [machine, step, readerStep, hpc, hsub]
  | send event last i =>
    rw [hpc] at hflow
    obtain rfl := hto event last i hpc
    rw [hpc] at htaken
    exact send event last hflow htaken
  | clear | park =>
    rw [hpc] at hparking
    cases hparking

/-- While `subscribe` has not returned, a receiver has a prefix of what was emitted. Then
`pending` is empty for good, the receiver has everything up to the event in flight, which
will be sent to it, and can take it. -/
theorem in_order {s : LocalSession} (h : machine.Reach InOrder Initial s) :
    (∀ r ∈ s.receivers, r.taken ++ r.queue <+: s.emitted) ∧
      (s.calls = [.returned] → s.pending = [] ∧ s.reader.parking = false ∧
        (∃ r, s.receivers = [r] ∧ r.taken ++ r.queue ++ s.reader.inFlight = s.emitted) ∧
        ∃ t, machine.Path InOrder s t ∧ t.emitted = s.emitted ∧ t.receivers = [⟨[], false, s.emitted⟩] ∧
          t.pending = []) := by
  cases flow h with
  | before hcalls hsub hsend hclear hflow =>
    rcases hcalls with ⟨hcalls, hreceivers⟩ | ⟨hcalls, hreceivers⟩
    · refine ⟨fun r hr => ?_, fun hreturned => by cases hcalls.symm.trans hreturned⟩
      rw [hreceivers] at hr
      cases hr
    · refine ⟨fun r hr => ?_, fun hreturned => by cases hcalls.symm.trans hreturned⟩
      rw [hreceivers] at hr
      cases List.mem_singleton.mp hr
      exact List.nil_prefix
  | between r hcalls hreceivers hsub hopen hsend hclear hflow hroom =>
    refine ⟨fun r' hr => ?_, fun hreturned => by rcases hcalls with h | ⟨h, -⟩ <;> cases h.symm.trans hreturned⟩
    rw [hreceivers] at hr
    cases List.mem_singleton.mp hr
    rw [← hflow, List.append_assoc]
    exact List.prefix_append ..
  | after r hcalls hreceivers hsub hopen hpending hsend hparking hflow =>
    refine ⟨fun r' hr => ?_, fun _ => ⟨hpending, hparking, ⟨r, hreceivers, hflow⟩,
      obtain_all hreceivers hsub hopen hpending hsend hparking hflow⟩⟩
    rw [hreceivers] at hr
    cases List.mem_singleton.mp hr
    rw [← hflow]
    exact List.prefix_append ..

/-- One event before `subscribe` and one after it. -/
def twoEvents : List Event :=
  [.reader (some (.bytes [65])), .reader none, .reader none, .subscribe, .call 0, .call 0, .call 0, .call 0,
    .reader (some (.bytes [66])), .reader none, .reader none, .receive 0, .receive 0]

theorem in_order_two_events :
    ∃ s, machine.Reach InOrder Initial s ∧ s.calls = [.returned] ∧ s.pending = [] ∧
      ∃ r, s.receivers = [r] ∧ r.taken ++ r.queue ++ s.reader.inFlight = s.emitted := by
  have hnew : Initial .new := rfl
  obtain ⟨s, hs, hp⟩ := Reach.of_run machine InOrder hnew twoEvents
    (fun s => decide (s.calls = [.returned])) (by decide)
  have hreturned : s.calls = [.returned] := of_decide_eq_true hp
  obtain ⟨hpending, -, hgot, -⟩ := (in_order hs).2 hreturned
  exact ⟨s, hs, hreturned, hpending, hgot⟩

/-- The reader thread looks for a subscriber before `subscribe` stores it, and parks its
event after the drain; the next event goes to the receiver. -/
def lateParking : List Event :=
  [.reader (some (.bytes [65])), .reader none, .subscribe, .call 0, .call 0, .call 0, .reader none,
    .reader (some (.bytes [66])), .reader none, .reader none, .receive 0]

theorem lateParking_run : machine.run OneSubscribe .new lateParking = some ⟨some 0, [.data [65]], [.returned],
    [⟨[], false, [.data [66]]⟩], .read, [.data [65], .data [66]]⟩ := by
  decide

/-- The first event is left behind. -/
theorem event_left_behind :
    ∃ s, machine.Reach OneSubscribe Initial s ∧ s.calls = [.returned] ∧ s.reader = .read ∧
      s.emitted = [.data [65], .data [66]] ∧ s.receivers = [⟨[], false, [.data [66]]⟩] ∧
      s.pending = [.data [65]] :=
  ⟨_, ⟨.new, rfl, .of_run lateParking_run⟩, rfl, rfl, rfl, rfl, rfl⟩

/-- `subscribe` has stored its sender when the second event is emitted, and drains `pending`
when that has been sent. -/
def sentFirst : List Event :=
  [.reader (some (.bytes [65])), .reader none, .reader none, .subscribe, .call 0,
    .reader (some (.bytes [66])), .reader none, .reader none, .call 0, .call 0, .call 0]

theorem sentFirst_run : machine.run OneSubscribe .new sentFirst = some ⟨some 0, [], [.returned],
    [⟨[.data [66], .data [65]], false, []⟩], .read, [.data [65], .data [66]]⟩ := by
  decide

/-- An event that overtakes a parked one. -/
theorem event_overtaken :
    ∃ s, machine.Reach OneSubscribe Initial s ∧ s.calls = [.returned] ∧ s.pending = [] ∧
      s.emitted = [.data [65], .data [66]] ∧ s.receivers = [⟨[.data [66], .data [65]], false, []⟩] :=
  ⟨_, ⟨.new, rfl, .of_run sentFirst_run⟩, rfl, rfl, rfl, rfl⟩

/-- `pending` is being drained when the third event is sent. -/
def sentAmid : List Event :=
  List.flatten [List.flatten ([[65], [66]].map fun bytes => [.reader (some (.bytes bytes)), .reader none, .reader none]),
    [.subscribe, .call 0, .call 0, .call 0, .reader (some (.bytes [67])), .reader none, .reader none, .call 0, .call 0]]

theorem sentAmid_run : machine.run OneSubscribe .new sentAmid = some ⟨some 0, [], [.returned],
    [⟨[.data [65], .data [67], .data [66]], false, []⟩], .read, [.data [65], .data [66], .data [67]]⟩ := by
  decide

/-- An event that is sent between two parked ones. -/
theorem event_sent_amid_drain :
    ∃ s, machine.Reach OneSubscribe Initial s ∧ s.calls = [.returned] ∧ s.pending = [] ∧
      s.emitted = [.data [65], .data [66], .data [67]] ∧
      s.receivers = [⟨[.data [65], .data [67], .data [66]], false, []⟩] :=
  ⟨_, ⟨.new, rfl, .of_run sentAmid_run⟩, rfl, rfl, rfl, rfl⟩

end KW.LocalPty
