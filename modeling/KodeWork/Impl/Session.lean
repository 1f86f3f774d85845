import KodeWork.Framework.Machine
import KodeWork.Impl.Domain
import KodeWork.Impl.Error

/-!
# The session of one host

`ActiveSession` of `kodework-core/src/session.rs` with the tasks that work on
it, as a machine. A step is one lock section, one atomic access or one await
of one task:

* the call that holds `connect_guard` (`Op`): `connect_with_jump_auth_typed`
  with `attach` inlined, or `disconnect`; at most one of them runs at a time,
  because both hold the guard to their end;
* one event pump for every attached transport (`Pump`, after `pump_events`),
  which outlives its generation;
* `subscribe`, the receivers it hands out, `mark_waiting_for_credential` and
  `mark_reconnecting`, which take no guard.

A transport is named by the generation it was created with
(`SshConnection::generation`), which `reserve_generation` makes unique. What
the environment decides (the address candidates, how a dial ends, which event
arrives) is in the action.

Three fields are not in the program and are read by no step; they record what
the statements are about: `Emitted.generation` (which transport produced an
event), `ActiveSession.cleared` (the newest generation `pending_events` was
cleared for, and in `Mailbox.since` its value when a receiver subscribed) and
`Pump.lost` (the pump is through with a loss event).
-/

namespace KW.Session

/-! ## Events and the replay buffer -/

inductive SessionEvent
  | data (channel : Nat) (bytes : List UInt8)
  | extendedData (channel ext : Nat) (bytes : List UInt8)
  | exitStatus (channel status : Nat)
  | exitSignal (channel : Nat) (signal : String)
  | channelClosed (channel : Nat)
  | authBanner (text : String)
  | disconnected (description : String)
  | error (description : String)
deriving DecidableEq, Repr

def sessionEventChannel : SessionEvent → Option Nat
  | .data channel _ | .extendedData channel _ _ | .exitStatus channel _ | .exitSignal channel _
  | .channelClosed channel => some channel
  | .authBanner _ | .disconnected _ | .error _ => none

def sessionEventSize : SessionEvent → Nat
  | .data _ bytes | .extendedData _ _ bytes => bytes.length
  | .exitSignal _ signal => signal.utf8ByteSize
  | .exitStatus _ _ | .channelClosed _ => 1
  | .authBanner value => value.utf8ByteSize
  | .disconnected description | .error description => description.utf8ByteSize

/-- The events that report a lost transport. -/
def SessionEvent.isLoss : SessionEvent → Bool
  | .disconnected _ | .error _ => true
  | _ => false

/-- An event and the generation of the transport that produced it. -/
structure Emitted where
  generation : Nat
  event : SessionEvent
deriving DecidableEq, Repr

def maxPendingPaneBytes : Nat := 256 * 1024
def maxPendingPaneEvents : Nat := 256
def usizeMax : Nat := UInt64.size - 1

structure PendingPaneEvents where
  events : List Emitted
  bytes : Nat
deriving DecidableEq, Repr

/-- `HashMap<u32, PendingPaneEvents>`. -/
abbrev PendingEvents := Nat → Option PendingPaneEvents

/-- The eviction loop of `push_pending_event`: events leave at the front
while there are too many of them or too many bytes. -/
def evict : List Emitted → Nat → PendingPaneEvents
  | [], bytes => ⟨[], bytes⟩
  | e :: es, bytes =>
    if maxPendingPaneEvents < (e :: es).length ∨ maxPendingPaneBytes < bytes then
      evict es (bytes - sessionEventSize e.event)
    else ⟨e :: es, bytes⟩

def pushPendingEvent (pending : PendingEvents) (channel : Nat) (e : Emitted) : PendingEvents :=
  let entry := (pending channel).getD ⟨[], 0⟩
  let bytes := min (entry.bytes + sessionEventSize e.event) usizeMax
  Function.update pending channel (some (evict (entry.events ++ [e]) bytes))

/-! ## The controller -/

structure ConnectionStateController where
  state : ConnectionState
  generation : Nat
deriving DecidableEq, Repr

inductive StateTransitionError
  | invalid (source target : ConnectionState)
  | staleGeneration (expected actual : Nat)
deriving DecidableEq, Repr

namespace ConnectionStateController

def new : ConnectionStateController := ⟨.disconnected, 0⟩

def transition (c : ConnectionStateController) (target : ConnectionState) :
    Except StateTransitionError ConnectionStateController :=
  if c.state ≠ target ∧ connectionTransition c.state target = false then
    .error (.invalid c.state target)
  else .ok { c with state := target }

def reserveGeneration (c : ConnectionStateController) : ConnectionStateController :=
  { c with generation := c.generation + 1 }

/-- The load and the store of `install_generation` in one step: between them
only a holder of `connect_guard` could change the generation. -/
def installGeneration (c : ConnectionStateController) (generation : Nat) :
    Except StateTransitionError ConnectionStateController :=
  if generation < c.generation then .error (.staleGeneration generation c.generation)
  else .ok { c with generation := generation }

end ConnectionStateController

/-! ## Receivers -/

/-- One `mpsc` channel made by `subscribe`: `queue` holds what was sent and
not yet received, `closed` says that the receiver is gone. `seen` is
everything ever sent on it. -/
structure Mailbox where
  capacity : Nat
  queue : List Emitted
  closed : Bool
  seen : List Emitted
  since : Nat
deriving DecidableEq, Repr

/-- `EventSubscriber`: a channel filter and the mailbox its sender feeds. -/
structure Subscriber where
  filter : Option Nat
  mailbox : Nat
deriving DecidableEq, Repr

namespace Mailbox

def full (m : Mailbox) : Bool := m.capacity ≤ m.queue.length

def push (m : Mailbox) (e : Emitted) : Mailbox :=
  { m with queue := m.queue ++ [e], seen := m.seen ++ [e] }

end Mailbox

/-- Whether a subscriber with this filter gets the event. -/
def filterMatches : Option Nat → SessionEvent → Bool
  | none, _ => true
  | some channel, .data eventChannel _ | some channel, .extendedData eventChannel _ _
  | some channel, .exitStatus eventChannel _ | some channel, .exitSignal eventChannel _
  | some channel, .channelClosed eventChannel => channel == eventChannel
  | some _, _ => false

/-! ## Tasks -/

/-- Where `connect_with_jump_auth_typed` stands. `n` candidates are left to
try, `g` is the generation reserved by the call. -/
inductive ConnectPc
  /-- `set_state(ResolvingAddress)` -/
  | resolve
  /-- `resolver.candidates(host).await` -/
  | candidates
  /-- `next_generation` -/
  | reserve (n : Nat)
  /-- the check of the jump host's own credentials -/
  | jump (n g : Nat)
  /-- the head of the candidate loop: `set_state(Connecting)` -/
  | attempt (n g : Nat) (lastError : ConnectErrorKind)
  /-- `SshConnection::connect(options).await` -/
  | dial (n g : Nat)
  /-- `attach`: `install_generation` -/
  | install (g : Nat)
  /-- `attach`: the new transport is stored -/
  | store (g : Nat)
  /-- `attach`: `sftp = None` -/
  | clearSftp (g : Nat)
  /-- `attach`: `panes.clear()` -/
  | clearPanes (g : Nat)
  /-- `attach`: `pending_events.clear()` -/
  | clearPending (g : Nat)
  /-- `attach`: the bridges are drained -/
  | drainBridges (g : Nat)
  /-- `attach`: `transfers = None` -/
  | clearTransfers (g : Nat)
  /-- `attach`: `pump_events` is spawned -/
  | spawnPump (g : Nat)
  /-- `set_state(Ready)` -/
  | setReady (g : Nat)
  /-- `set_state(Failed)`, then the error is returned -/
  | setFailed (kind : ConnectErrorKind)
deriving DecidableEq, Repr

/-- Where `disconnect` stands; `g` is the generation it reserved. -/
inductive DisconnectPc
  /-- `reserve_generation` -/
  | reserve
  /-- `connection.take()` -/
  | take (g : Nat)
  /-- `connection.disconnect().await` -/
  | close (g : Nat)
  | clearPanes (g : Nat)
  | clearSftp (g : Nat)
  | takeTransfers (g : Nat)
  | drainBridges (g : Nat)
  | clearSubscribers (g : Nat)
  | clearPending (g : Nat)
  /-- `tunnels.close_all_for_host(host_id).await` -/
  | closeTunnels
  /-- `set_state(Disconnected)` -/
  | setDisconnected
deriving DecidableEq, Repr

/-- The call that holds `connect_guard`. -/
inductive Op
  | connect (pc : ConnectPc)
  | disconnect (pc : DisconnectPc)
deriving DecidableEq, Repr

/-- What a guarded call returns. -/
inductive OpResult
  | connected (generation : Nat)
  | failed (kind : ConnectErrorKind)
  | disconnected
deriving DecidableEq, Repr

/-- Where `pump_events` stands. -/
inductive PumpPc
  /-- `events.recv().await` -/
  | recv
  /-- the generation check at the top of the loop -/
  | check (e : SessionEvent)
  /-- the section under the `subscribers` lock -/
  | publish (e : SessionEvent)
  /-- `primaries.retain`, with the cloned subscriber list -/
  | retain (e : SessionEvent) (subscribers : List Subscriber)
  /-- the delivery loop -/
  | deliver (e : SessionEvent) (subscribers : List Subscriber)
  /-- a loss event: the second generation check -/
  | lossCheck
  /-- a loss event: `controller.state() == Ready` -/
  | lossState
  /-- `transition_for_generation`: its generation check -/
  | lossGeneration
  /-- `transition_for_generation`: the locked `transition(Reconnecting)` -/
  | lossTransition
  /-- the event channel is closed -/
  | stopped
deriving DecidableEq, Repr

structure Pump where
  pc : PumpPc
  /-- The reliable sender for each filter. -/
  primaries : Option Nat → Option Nat
  lost : Bool

/-- A terminal pane: the transport its PTY was opened on and its channel. -/
structure Pane where
  transport : Nat
  channel : Nat
deriving DecidableEq, Repr

structure ActiveSession where
  controller : ConnectionStateController
  /-- `connect_guard`: the call that holds it. -/
  op : Option Op
  connection : Option Nat
  panes : Nat → Option Pane
  sftp : Option Nat
  transfers : Option Nat
  herdrBridges : Nat → Option Nat
  subscribers : List Subscriber
  mailboxes : Nat → Option Mailbox
  nextMailbox : Nat
  pendingEvents : PendingEvents
  droppedEvents : Nat
  /-- The pump of each attached transport. -/
  pumps : Nat → Option Pump
  eventBuffer : Nat
  cleared : Nat

/-- The entry `ensure_session` creates. -/
def ActiveSession.new (eventBuffer : Nat) : ActiveSession where
  controller := .new
  op := none
  connection := none
  panes := fun _ => none
  sftp := none
  transfers := none
  herdrBridges := fun _ => none
  subscribers := []
  mailboxes := fun _ => none
  nextMailbox := 0
  pendingEvents := fun _ => none
  droppedEvents := 0
  pumps := fun _ => none
  eventBuffer := max eventBuffer 8
  cleared := 0

namespace ActiveSession

/-! ## The guarded calls -/

/-- What the environment decides in a step of a guarded call. -/
inductive OpChoice
  | go
  /-- the resolver returns `n` candidates -/
  | candidates (n : Nat)
  /-- the host has a jump host and no credentials for it -/
  | jumpMissing
  | dialed
  | dialError (error : SshError)
deriving DecidableEq, Repr

/-- A guarded call goes on, or returns. -/
inductive Progress
  | next (op : Op)
  | done (result : OpResult)
deriving DecidableEq, Repr

/-- `set_state(target)?`, then on to `p`. -/
def setStateThen (s : ActiveSession) (target : ConnectionState) (p : Progress) :
    ActiveSession × Progress :=
  match s.controller.transition target with
  | .ok c => ({ s with controller := c }, p)
  | .error _ => (s, .done (.failed .internal))

/-- One step of `connect_with_jump_auth_typed`, with `attach` inlined. -/
def connectStep (s : ActiveSession) : ConnectPc → OpChoice → Option (ActiveSession × Progress)
  | .resolve, .go => some (s.setStateThen .resolvingAddress (.next (.connect .candidates)))
  | .candidates, .candidates n =>
    if n = 0 then some (s, .next (.connect (.setFailed .invalidConfiguration)))
    else some (s, .next (.connect (.reserve n)))
  | .reserve n, .go =>
    some ({ s with controller := s.controller.reserveGeneration },
      .next (.connect (.jump n (s.controller.generation + 1))))
  | .jump _ _, .jumpMissing => some (s, .next (.connect (.setFailed .invalidConfiguration)))
  | .jump n g, .go => some (s, .next (.connect (.attempt n g .internal)))
  | .attempt 0 _ lastError, .go => some (s, .next (.connect (.setFailed lastError)))
  | .attempt (n + 1) g _, .go => some (s.setStateThen .connecting (.next (.connect (.dial n g))))
  | .dial _ g, .dialed => some (s, .next (.connect (.install g)))
  | .dial n g, .dialError error =>
    if addressFallbackIsRetryable error then
      some (s, .next (.connect (.attempt n g (.ofSshError error))))
    else some (s, .next (.connect (.setFailed (.ofSshError error))))
  | .install g, .go =>
    match s.controller.installGeneration g with
    | .ok c => some ({ s with controller := c }, .next (.connect (.store g)))
    | .error _ => some (s, .done (.failed .internal))
  | .store g, .go => some ({ s with connection := some g }, .next (.connect (.clearSftp g)))
  | .clearSftp g, .go => some ({ s with sftp := none }, .next (.connect (.clearPanes g)))
  | .clearPanes g, .go =>
    some ({ s with panes := fun _ => none }, .next (.connect (.clearPending g)))
  | .clearPending g, .go =>
    some ({ s with pendingEvents := fun _ => none, cleared := g }, .next (.connect (.drainBridges g)))
  | .drainBridges g, .go =>
    some ({ s with herdrBridges := fun _ => none }, .next (.connect (.clearTransfers g)))
  | .clearTransfers g, .go => some ({ s with transfers := none }, .next (.connect (.spawnPump g)))
  | .spawnPump g, .go =>
    some ({ s with pumps := Function.update s.pumps g (some ⟨.recv, fun _ => none, false⟩) },
      .next (.connect (.setReady g)))
  | .setReady g, .go => some (s.setStateThen .ready (.done (.connected g)))
  | .setFailed kind, .go => some (s.setStateThen .failed (.done (.failed kind)))
  | _, _ => none

/-- One step of `disconnect`. -/
def disconnectStep (s : ActiveSession) : DisconnectPc → ActiveSession × Progress
  | .reserve =>
    ({ s with controller := s.controller.reserveGeneration },
      .next (.disconnect (.take (s.controller.generation + 1))))
  | .take g => ({ s with connection := none }, .next (.disconnect (.close g)))
  | .close g => (s, .next (.disconnect (.clearPanes g)))
  | .clearPanes g => ({ s with panes := fun _ => none }, .next (.disconnect (.clearSftp g)))
  | .clearSftp g => ({ s with sftp := none }, .next (.disconnect (.takeTransfers g)))
  | .takeTransfers g => ({ s with transfers := none }, .next (.disconnect (.drainBridges g)))
  | .drainBridges g =>
    ({ s with herdrBridges := fun _ => none }, .next (.disconnect (.clearSubscribers g)))
  | .clearSubscribers g => ({ s with subscribers := [] }, .next (.disconnect (.clearPending g)))
  | .clearPending g =>
    ({ s with pendingEvents := fun _ => none, cleared := g }, .next (.disconnect .closeTunnels))
  | .closeTunnels => (s, .next (.disconnect .setDisconnected))
  | .setDisconnected => s.setStateThen .disconnected (.done .disconnected)

/-- The guarded call after a step: it keeps the guard until it returns. -/
def Progress.op : Progress → Option Op
  | .next op => some op
  | .done _ => none

/-- What the guarded call returned in this step, if it returned. -/
def Progress.result : Progress → Option OpResult
  | .next _ => none
  | .done r => some r

/-- One step of the call that holds the guard. -/
def opStep (s : ActiveSession) (c : OpChoice) : Option (ActiveSession × Progress) :=
  match s.op with
  | some (.connect pc) => s.connectStep pc c
  | some (.disconnect pc) => if c = .go then some (s.disconnectStep pc) else none
  | none => none

/-- One step of the guarded call, as a step of the session. -/
def advance (s : ActiveSession) (c : OpChoice) : Option ActiveSession :=
  (s.opStep c).map fun r => { r.1 with op := r.2.op }

/-- A new call takes the free guard. -/
def acquireGuard (s : ActiveSession) (op : Op) : Option ActiveSession :=
  if s.op = none then some { s with op := some op } else none

/-! ## The event pump -/

def isClosed (s : ActiveSession) (mailbox : Nat) : Bool :=
  match s.mailboxes mailbox with
  | some m => m.closed
  | none => true

/-- How a `send` or `try_send` on a mailbox goes now. -/
inductive Sent
  | ok (s : ActiveSession)
  | closed
  | full

def trySend (s : ActiveSession) (mailbox : Nat) (e : Emitted) : Sent :=
  match s.mailboxes mailbox with
  | none => .closed
  | some m =>
    if m.closed then .closed
    else if m.full then .full
    else .ok { s with mailboxes := Function.update s.mailboxes mailbox (some (m.push e)) }

def setPump (s : ActiveSession) (g : Nat) (p : Pump) : ActiveSession :=
  { s with pumps := Function.update s.pumps g (some p) }

/-- One round of the delivery loop. The first live subscriber of a filter
becomes its primary and is sent to with backpressure, so the pump waits while
its mailbox is full; the others are mirrors and lose the event instead. -/
def deliverOne (s : ActiveSession) (p : Pump) (e : Emitted) (sub : Subscriber) :
    Option (ActiveSession × Pump) :=
  if filterMatches sub.filter e.event then
    match p.primaries sub.filter with
    | none =>
      match s.trySend sub.mailbox e with
      | .ok s' =>
        some (s', { p with primaries := Function.update p.primaries sub.filter (some sub.mailbox) })
      | .closed => some (s, p)
      | .full => none
    | some primary =>
      if primary = sub.mailbox then
        match s.trySend sub.mailbox e with
        | .ok s' => some (s', p)
        | .closed => some (s, { p with primaries := Function.update p.primaries sub.filter none })
        | .full => none
      else
        match s.trySend sub.mailbox e with
        | .ok s' => some (s', p)
        | _ => some ({ s with droppedEvents := s.droppedEvents + 1 }, p)
  else some (s, p)

/-- What the environment decides in a step of a pump. -/
inductive PumpChoice
  | go
  | event (e : SessionEvent)
  | closed
deriving DecidableEq, Repr

/-- The section of `pump_events` under the `subscribers` lock: dead
subscribers are dropped, and an event of a channel without a subscriber of its
own is kept for replay. -/
def publish (s : ActiveSession) (e : Emitted) : ActiveSession :=
  let live := s.subscribers.filter fun sub => !s.isClosed sub.mailbox
  let pending :=
    match sessionEventChannel e.event with
    | some channel =>
      if live.any fun sub => sub.filter == some channel then s.pendingEvents
      else pushPendingEvent s.pendingEvents channel e
    | none => s.pendingEvents
  { s with subscribers := live, pendingEvents := pending }

/-- One step of the pump of generation `g`. -/
def pumpStep (s : ActiveSession) (g : Nat) (p : Pump) : PumpPc → PumpChoice → Option ActiveSession
  | .recv, .event e => some (s.setPump g { p with pc := .check e })
  | .recv, .closed => some (s.setPump g { p with pc := .stopped })
  | .check e, .go =>
    if s.controller.generation ≠ g then
      some (s.setPump g { p with pc := .recv, lost := p.lost || e.isLoss })
    else some (s.setPump g { p with pc := .publish e })
  | .publish e, .go =>
    let t := s.publish ⟨g, e⟩
    some (t.setPump g { p with pc := .retain e t.subscribers })
  | .retain e subs, .go =>
    let primaries := fun filter => (p.primaries filter).filter fun m => !s.isClosed m
    some (s.setPump g { p with pc := .deliver e subs, primaries := primaries })
  | .deliver e [], .go =>
    some (s.setPump g { p with pc := if e.isLoss then .lossCheck else .recv })
  | .deliver e (sub :: subs), .go =>
    match s.deliverOne p ⟨g, e⟩ sub with
    | some (t, q) => some (t.setPump g { q with pc := .deliver e subs })
    | none => none
  | .lossCheck, .go =>
    if s.controller.generation ≠ g then some (s.setPump g { p with pc := .recv, lost := true })
    else some (s.setPump g { p with pc := .lossState })
  | .lossState, .go =>
    if s.controller.state = .ready then some (s.setPump g { p with pc := .lossGeneration })
    else some (s.setPump g { p with pc := .recv, lost := true })
  | .lossGeneration, .go =>
    if s.controller.generation ≠ g then some (s.setPump g { p with pc := .recv, lost := true })
    else some (s.setPump g { p with pc := .lossTransition })
  | .lossTransition, .go =>
    match s.controller.transition .reconnecting with
    | .ok c => some ({ s with controller := c }.setPump g { p with pc := .recv, lost := true })
    | .error _ => some (s.setPump g { p with pc := .recv, lost := true })
  | _, _ => none

/-! ## Calls without the guard -/

/-- `subscribe`: both locks are held, so taking the replay out and joining the
subscribers is one step. The new mailbox has room for the whole replay. -/
def subscribe (s : ActiveSession) (channel : Option Nat) : ActiveSession :=
  let replay := ((channel.bind s.pendingEvents).map (·.events)).getD []
  let mailbox : Mailbox :=
    { capacity := max s.eventBuffer (replay.length + 8), queue := replay, closed := false,
      seen := replay, since := s.cleared }
  { s with
    pendingEvents := match channel with
      | some c => Function.update s.pendingEvents c none
      | none => s.pendingEvents
    mailboxes := Function.update s.mailboxes s.nextMailbox (some mailbox)
    nextMailbox := s.nextMailbox + 1
    subscribers := s.subscribers ++ [⟨channel, s.nextMailbox⟩] }

/-- The owner of a receiver takes the next event. -/
def receive (s : ActiveSession) (mailbox : Nat) : Option ActiveSession :=
  match s.mailboxes mailbox with
  | some m =>
    match m.queue with
    | [] => none
    | _ :: rest =>
      some { s with mailboxes := Function.update s.mailboxes mailbox (some { m with queue := rest }) }
  | none => none

/-- The owner of a receiver drops it. -/
def dropReceiver (s : ActiveSession) (mailbox : Nat) : Option ActiveSession :=
  (s.mailboxes mailbox).map fun m =>
    { s with mailboxes := Function.update s.mailboxes mailbox (some { m with closed := true }) }

/-- `mark_waiting_for_credential` and `mark_reconnecting`: a `set_state`
whose error the caller only logs. -/
def mark (s : ActiveSession) (target : ConnectionState) : ActiveSession :=
  match s.controller.transition target with
  | .ok c => { s with controller := c }
  | .error _ => s

def markWaitingForCredential (s : ActiveSession) : ActiveSession := s.mark .waitingForCredential
def markReconnecting (s : ActiveSession) : ActiveSession := s.mark .reconnecting

end ActiveSession

/-! ## The machine -/

/-- One step of one task of the session. -/
inductive Action
  | connect
  | disconnect
  | op (choice : ActiveSession.OpChoice)
  | pump (g : Nat) (choice : ActiveSession.PumpChoice)
  | subscribe (channel : Option Nat)
  | receive (mailbox : Nat)
  | dropReceiver (mailbox : Nat)
  | markWaitingForCredential
  | markReconnecting
deriving DecidableEq, Repr

def step (s : ActiveSession) : Action → Option ActiveSession
  | .connect => s.acquireGuard (.connect .resolve)
  | .disconnect => s.acquireGuard (.disconnect .reserve)
  | .op c => s.advance c
  | .pump g c =>
    match s.pumps g with
    | some p => s.pumpStep g p p.pc c
    | none => none
  | .subscribe channel => some (s.subscribe channel)
  | .receive m => s.receive m
  | .dropReceiver m => s.dropReceiver m
  | .markWaitingForCredential => some s.markWaitingForCredential
  | .markReconnecting => some s.markReconnecting

def machine : Machine ActiveSession Action := ⟨step⟩

/-- The sessions runs start from: the entry `ensure_session` creates. -/
def Initial (s : ActiveSession) : Prop := ∃ eventBuffer, s = .new eventBuffer

theorem init_new (eventBuffer : Nat) : Initial (.new eventBuffer) := ⟨eventBuffer, rfl⟩

end KW.Session
