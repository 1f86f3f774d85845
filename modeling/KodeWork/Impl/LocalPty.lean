import KodeWork.Framework.Machine

/-!
# The output of a local terminal

The reader thread of one session of `kodework-local-pty` (`spawn_reader`, with `emit`)
next to `subscribe`, which hands a receiver to the renderer, puts out first what was
kept while there was none, and may be called again. A step is one section under the
lock of `subscriber` or of `pending`, one read of the PTY or one `blocking_send`. The
section of `subscribe` that drains `pending` takes a step for each event: `pending` is
locked meanwhile, but the reader thread sends without that lock. Neither lock is ever
poisoned, since none of their sections can panic.

What the PTY gives, and the exit code that `child_exit_code` finds, are in the action.
`emitted` and `Receiver.taken` are read by no step: what the reader passed to `emit`,
and what the owner of a receiver took out of it.
-/

namespace KW.LocalPty

inductive LocalTerminalEvent
  | data (bytes : List UInt8)
  | exited (code : Option Nat)
  | error (message : String)
deriving DecidableEq, Repr

def maxPendingEvents : Nat := 128
def eventQueue : Nat := 256
def chunkSize : Nat := 32 * 1024

/-- One channel made by `subscribe`. -/
structure Receiver where
  queue : List LocalTerminalEvent
  /-- the receiver is gone -/
  closed : Bool
  taken : List LocalTerminalEvent
deriving DecidableEq, Repr

/-- Where a call of `subscribe` stands. -/
inductive SubscribePc
  /-- `*subscriber = Some(sender.clone())` -/
  | set
  /-- `session.pending.lock()` -/
  | lock
  /-- the loop over `pending.drain(..)`, which is locked until `subscribe` returns -/
  | drain
  | returned
deriving DecidableEq, Repr

/-- Where the reader thread stands; `last` says that its loop ends after the event. -/
inductive ReaderPc
  /-- `reader.read(&mut buffer)` -/
  | read
  /-- `emit`: the subscriber is cloned -/
  | look (event : LocalTerminalEvent) (last : Bool)
  /-- `emit`: `sender.blocking_send(event.clone())` -/
  | send (event : LocalTerminalEvent) (last : Bool) (receiver : Nat)
  /-- `emit`: `*subscriber = None` -/
  | clear (event : LocalTerminalEvent) (last : Bool)
  /-- `emit`: `pending.push_back(event)` -/
  | park (event : LocalTerminalEvent) (last : Bool)
  | ended
deriving DecidableEq, Repr

structure LocalSession where
  /-- the receiver that the stored sender belongs to -/
  subscriber : Option Nat
  pending : List LocalTerminalEvent
  /-- the calls of `subscribe`, each with the receiver of the same number -/
  calls : List SubscribePc
  receivers : List Receiver
  reader : ReaderPc
  emitted : List LocalTerminalEvent
deriving DecidableEq, Repr

def LocalSession.new : LocalSession := ⟨none, [], [], [], .read, []⟩

/-- What a read of the PTY gives. -/
inductive ReadResult
  /-- `Ok(0)`, and the exit code of the child -/
  | eof (code : Option Nat)
  | bytes (bytes : List UInt8)
  | failed (message : String)
deriving DecidableEq, Repr

namespace LocalSession

def setReceiver (s : LocalSession) (i : Nat) (r : Receiver) : LocalSession :=
  { s with receivers := s.receivers.set i r }

def setCall (s : LocalSession) (i : Nat) (pc : SubscribePc) : LocalSession :=
  { s with calls := s.calls.set i pc }

/-- `sender.try_send`: what does not fit is lost. -/
def trySend (r : Receiver) (event : LocalTerminalEvent) : Receiver :=
  if r.closed || eventQueue ≤ r.queue.length then r else { r with queue := r.queue ++ [event] }

/-- A call of `subscribe` has locked `pending`. -/
def locked (s : LocalSession) : Bool := s.calls.contains .drain

/-- One step of the call of `subscribe` numbered `i`. -/
def callStep (s : LocalSession) (i : Nat) : SubscribePc → Option LocalSession
  | .set => some ({ s with subscriber := some i }.setCall i .lock)
  | .lock => if s.locked then none else some (s.setCall i .drain)
  | .drain =>
    match s.pending, s.receivers[i]? with
    | event :: pending, some r => some { s.setReceiver i (trySend r event) with pending := pending }
    | [], _ => some (s.setCall i .returned)
    | _ :: _, none => none
  | .returned => none

/-- The reader passes an event to `emit`. -/
def emit (s : LocalSession) (event : LocalTerminalEvent) (last : Bool) : LocalSession :=
  { s with reader := .look event last, emitted := s.emitted ++ [event] }

/-- After `emit` the loop goes on, or breaks. -/
def afterEmit (last : Bool) : ReaderPc := if last then .ended else .read

/-- `pending.push_back(event)`, without more than `MAX_PENDING_EVENTS`. -/
def push (pending : List LocalTerminalEvent) (event : LocalTerminalEvent) : List LocalTerminalEvent :=
  (if maxPendingEvents ≤ pending.length then pending.tail else pending) ++ [event]

/-- One step of the reader thread. -/
def readerStep (s : LocalSession) : ReaderPc → Option ReadResult → Option LocalSession
  | .read, some (.eof code) => some (s.emit (.exited code) true)
  | .read, some (.bytes bytes) =>
    if 0 < bytes.length ∧ bytes.length ≤ chunkSize then some (s.emit (.data bytes) false) else none
  | .read, some (.failed message) => some (s.emit (.error message) true)
  | .look event last, none =>
    match s.subscriber with
    | some receiver => some { s with reader := .send event last receiver }
    | none => some { s with reader := .park event last }
  | .send event last receiver, none =>
    match s.receivers[receiver]? with
    | some r =>
      if r.closed then some { s with reader := .clear event last }
      -- the thread waits while the queue is full
      else if r.queue.length < eventQueue then
        some { s.setReceiver receiver { r with queue := r.queue ++ [event] } with reader := afterEmit last }
      else none
    | none => none
  | .clear event last, none => some { s with subscriber := none, reader := .park event last }
  | .park event last, none =>
    if s.locked then none else some { s with pending := push s.pending event, reader := afterEmit last }
  | _, _ => none

/-- The owner of a receiver takes the next event. -/
def receive (s : LocalSession) (i : Nat) : Option LocalSession :=
  match s.receivers[i]? with
  | some r =>
    match r.queue with
    | event :: queue => some (s.setReceiver i { r with queue := queue, taken := r.taken ++ [event] })
    | [] => none
  | none => none

/-- The owner of a receiver drops it. -/
def dropReceiver (s : LocalSession) (i : Nat) : Option LocalSession :=
  (s.receivers[i]?).map fun r => s.setReceiver i { r with closed := true }

end LocalSession

inductive Event
  | reader (result : Option ReadResult)
  /-- `subscribe` is called -/
  | subscribe
  | call (i : Nat)
  | receive (i : Nat)
  | dropReceiver (i : Nat)
deriving DecidableEq, Repr

def step (s : LocalSession) : Event → Option LocalSession
  | .reader result => s.readerStep s.reader result
  | .subscribe =>
    some { s with calls := s.calls ++ [.set], receivers := s.receivers ++ [⟨[], false, []⟩] }
  | .call i =>
    match s.calls[i]? with
    | some pc => s.callStep i pc
    | none => none
  | .receive i => s.receive i
  | .dropReceiver i => s.dropReceiver i

def machine : Machine LocalSession Event := ⟨step⟩

def Initial (s : LocalSession) : Prop := s = .new

end KW.LocalPty
