import KodeWork.Framework.Machine
import KodeWork.Impl.Domain
import KodeWork.Impl.Text

/-!
# One tunnel

`TunnelRuntime` of `kodework-core/src/tunnel.rs` with the tasks that share it, as
a machine: the end of the `open` call that made it, its accept loop, one proxy
task for every accepted connection, any number of `close` calls, and what `list`
does to it. A step is one lock section, one atomic access or one await of one
task.

A connection is named by the number the accept loop gives it, and so is the SSH
channel it is forwarded over. The numbers are a `u64` and the count of
connections a `u32` in the source; neither wraps here, and the count is an
integer, so that it would show an underflow. `registered` says that the tunnel is
in the map of the `TunnelManager`.

`forwarded` and `released` are not in the program and are read by no step: they
record the channels that were entered into the filter, and how often
`release_filtered_channel` was called for each.
-/

namespace KW.Tunnel

inductive TunnelState
  | creating
  | listening
  | closed
  | failed
deriving DecidableEq, Repr

structure TunnelInfo where
  hostId : HostId
  localPort : Nat
  remoteHost : Text
  remotePort : Nat
  state : TunnelState
  activeConnections : Int
  error : Option Text
deriving DecidableEq, Repr

/-! ## Tasks -/

/-- The end of `open`, from the spawn of the accept loop. -/
inductive OpenPc
  /-- `info.active_connections = 0` -/
  | resetInfo
  /-- `accept_task = Some(..)` -/
  | storeTask
  /-- `tunnels.insert(id, ..)` -/
  | insert
  | opened
deriving DecidableEq, Repr

/-- Where the accept loop stands; a number is that of the connection at hand. -/
inductive AcceptPc
  /-- the `select!` at the head of the loop -/
  | select
  /-- `forward_channel(..)`: `channel_open_direct_tcpip(..).await` -/
  | forward (id : Nat)
  /-- `forward_channel(..)`: `filtered_channels.insert(channel_id)` -/
  | filter (id : Nat)
  /-- `active_connections.fetch_add(1)`, and the `ForwardProxyGuard` -/
  | count (id : Nat)
  /-- `tokio::spawn(..)` -/
  | spawn (id : Nat)
  /-- `connections.insert(id, task)` -/
  | insert (id : Nat)
  /-- `reap_finished_connections(&runtime)` -/
  | reap
  /-- `accept` or `forward_channel` failed: the section under the `info` lock -/
  | fail (error : Text)
  | ended
deriving DecidableEq, Repr

/-- Where a proxy task stands. `unwinding` says that it panicked. -/
inductive ProxyPc
  /-- `proxy_connection(..).await` -/
  | proxying
  /-- the guard is dropped: `active_connections.fetch_sub(1)` -/
  | dropGuard (unwinding : Bool)
  /-- the guard is dropped: `release_filtered_channel(channel_id)` -/
  | release (unwinding : Bool)
  /-- `connections.remove(&id)` -/
  | remove
  /-- the task has no code left to run -/
  | done
  /-- `is_finished()` -/
  | finished
deriving DecidableEq, Repr

/-- The task has code left to run. -/
def ProxyPc.running : ProxyPc → Bool
  | .done | .finished => false
  | _ => true

/-- The task holds its `ForwardProxyGuard`. -/
def ProxyPc.guarded : ProxyPc → Bool
  | .proxying | .dropGuard _ => true
  | _ => false

/-- Where a `close` call stands that found the tunnel in the map. -/
inductive ClosePc
  /-- `close_lock.lock().await` -/
  | lock
  /-- `token.cancel()` -/
  | cancel
  /-- `accept_task.take()` -/
  | takeTask
  /-- `task.await`, for the accept loop -/
  | joinAccept
  /-- `connections.drain()` -/
  | drain
  /-- `task.await`, for the proxies that are left -/
  | join (tasks : List Nat)
  /-- `active_connections.store(0)` -/
  | storeZero
  /-- `info.state = Closed` -/
  | setClosed
  /-- the close guard is dropped -/
  | unlock
  | returned
deriving DecidableEq, Repr

structure TunnelRuntime where
  info : TunnelInfo
  /-- The transport its connections are forwarded over. -/
  transport : Nat
  /-- The token. -/
  cancelled : Bool
  closeLock : Option Nat
  acceptTask : Bool
  /-- The keys of `connections`. -/
  connections : Nat → Bool
  activeConnections : Int
  opener : OpenPc
  accept : AcceptPc
  nextConn : Nat
  proxies : Nat → Option ProxyPc
  /-- The `close` calls, by the call that makes them. -/
  closes : Nat → Option ClosePc
  /-- The channels in the filter of the transport. -/
  filtered : Nat → Bool
  registered : Bool
  forwarded : Nat → Bool
  released : Nat → Nat

/-- What `open` makes and spawns the accept loop with. -/
def TunnelRuntime.new (hostId : HostId) (transport localPort : Nat) (remoteHost : Text)
    (remotePort : Nat) : TunnelRuntime where
  info := ⟨hostId, localPort, remoteHost, remotePort, .listening, 0, none⟩
  transport := transport
  cancelled := false
  closeLock := none
  acceptTask := false
  connections := fun _ => false
  activeConnections := 0
  opener := .resetInfo
  accept := .select
  nextConn := 0
  proxies := fun _ => none
  closes := fun _ => none
  filtered := fun _ => false
  registered := false
  forwarded := fun _ => false
  released := fun _ => 0

namespace TunnelRuntime

/-- The guard of this connection is alive. -/
def guarded (r : TunnelRuntime) (id : Nat) : Bool :=
  r.accept == .spawn id || (r.proxies id).any ProxyPc.guarded

/-- How many `ForwardProxyGuard`s are alive. -/
def liveGuards (r : TunnelRuntime) : Nat := (List.range r.nextConn).countP r.guarded

/-- The accept loop is running and not cancelled. -/
def live (r : TunnelRuntime) : Bool := r.accept != .ended && !r.cancelled

/-! ## The accept loop -/

/-- What the environment decides in a step of the accept loop. -/
inductive AcceptChoice
  | go
  /-- `select!` takes the cancelled token -/
  | cancelled
  | accepted
  | acceptError (error : Text)
  | forwarded
  | forwardError (error : Text)
deriving DecidableEq, Repr

/-- `reap_finished_connections`. -/
def reapFinished (r : TunnelRuntime) : TunnelRuntime :=
  { r with connections := fun id => r.connections id && r.proxies id != some .finished }

def acceptStep (r : TunnelRuntime) : AcceptPc → AcceptChoice → Option TunnelRuntime
  | .select, .cancelled => if r.cancelled then some { r with accept := .ended } else none
  | .select, .accepted => some { r with accept := .forward r.nextConn, nextConn := r.nextConn + 1 }
  | .select, .acceptError e => some { r with accept := .fail ("accept failed: ".toList ++ e) }
  | .forward id, .forwarded => some { r with accept := .filter id }
  | .forward _, .forwardError e => some { r with accept := .fail ("forward failed: ".toList ++ e) }
  | .filter id, .go =>
    some { r with
      accept := .count id, filtered := Function.update r.filtered id true
      forwarded := Function.update r.forwarded id true }
  | .count id, .go => some { r with accept := .spawn id, activeConnections := r.activeConnections + 1 }
  | .spawn id, .go =>
    some { r with accept := .insert id, proxies := Function.update r.proxies id (some .proxying) }
  | .insert id, .go =>
    some { r with accept := .reap, connections := Function.update r.connections id true }
  | .reap, .go => some { r.reapFinished with accept := .select }
  | .fail e, .go =>
    some { r with accept := .ended, info := { r.info with state := .failed, error := some e } }
  | _, _ => none

/-! ## The proxies -/

/-- What the environment decides in a step of a proxy. -/
inductive ProxyChoice
  | go
  | panic
deriving DecidableEq, Repr

/-- The proxy of connection `id` goes on at `pc`. -/
def goProxy (r : TunnelRuntime) (id : Nat) (pc : ProxyPc) : TunnelRuntime :=
  { r with proxies := Function.update r.proxies id (some pc) }

def proxyStep (r : TunnelRuntime) (id : Nat) : ProxyPc → ProxyChoice → Option TunnelRuntime
  | .proxying, .go => some (r.goProxy id (.dropGuard false))
  | .proxying, .panic => some (r.goProxy id (.dropGuard true))
  | .dropGuard unwinding, .go =>
    some ({ r with activeConnections := r.activeConnections - 1 }.goProxy id (.release unwinding))
  | .release unwinding, .go =>
    let t : TunnelRuntime :=
      { r with
        filtered := Function.update r.filtered id false
        released := Function.update r.released id (r.released id + 1) }
    some (t.goProxy id (if unwinding then .done else .remove))
  | .remove, .go =>
    some ({ r with connections := Function.update r.connections id false }.goProxy id .done)
  | .done, .go => some (r.goProxy id .finished)
  | _, _ => none

/-! ## The close calls -/

/-- The close of call `c` goes on at `pc`. -/
def goClose (r : TunnelRuntime) (c : Nat) (pc : ClosePc) : TunnelRuntime :=
  { r with closes := Function.update r.closes c (some pc) }

def closeStep (r : TunnelRuntime) (c : Nat) : ClosePc → Option TunnelRuntime
  | .lock => if r.closeLock = none then some ({ r with closeLock := some c }.goClose c .cancel) else none
  | .cancel => some ({ r with cancelled := true }.goClose c .takeTask)
  | .takeTask =>
    some ({ r with acceptTask := false }.goClose c (if r.acceptTask then .joinAccept else .drain))
  | .joinAccept => if r.accept = .ended then some (r.goClose c .drain) else none
  | .drain =>
    some ({ r with connections := fun _ => false }.goClose c
      (.join ((List.range r.nextConn).filter r.connections)))
  | .join [] => some (r.goClose c .storeZero)
  | .join (id :: tasks) =>
    if r.proxies id = some .finished then some (r.goClose c (.join tasks)) else none
  | .storeZero => some ({ r with activeConnections := 0 }.goClose c .setClosed)
  | .setClosed =>
    some ({ r with info := { r.info with state := .closed, activeConnections := 0 } }.goClose c .unlock)
  | .unlock => some ({ r with closeLock := none }.goClose c .returned)
  | .returned => none

/-! ## The end of `open` -/

def openStep (r : TunnelRuntime) : OpenPc → Option TunnelRuntime
  | .resetInfo =>
    some { r with opener := .storeTask, info := { r.info with activeConnections := 0 } }
  | .storeTask => some { r with opener := .insert, acceptTask := true }
  | .insert => some { r with opener := .opened, registered := true }
  | .opened => none

end TunnelRuntime

/-! ## The machine -/

open TunnelRuntime in
/-- One step of one task of the tunnel. -/
inductive RuntimeAction
  | opener
  | accept (choice : AcceptChoice)
  | proxy (id : Nat) (choice : ProxyChoice)
  /-- the call `c` finds the tunnel in the map and closes it -/
  | close (c : Nat)
  | closeStep (c : Nat)
  /-- `list`: the finished connections are reaped -/
  | listReap
  /-- `list`: the section under the `info` lock -/
  | listInfo
  /-- the peer closes a channel, and the handler takes it out of the filter -/
  | channelClosed (id : Nat)
deriving DecidableEq, Repr

def runtimeStep (r : TunnelRuntime) : RuntimeAction → Option TunnelRuntime
  | .opener => r.openStep r.opener
  | .accept choice => r.acceptStep r.accept choice
  | .proxy id choice => (r.proxies id).bind fun pc => r.proxyStep id pc choice
  | .close c => if r.registered ∧ r.closes c = none then some (r.goClose c .lock) else none
  | .closeStep c => (r.closes c).bind fun pc => r.closeStep c pc
  | .listReap => if r.registered then some r.reapFinished else none
  | .listInfo =>
    if r.registered then some { r with info := { r.info with activeConnections := r.activeConnections } }
    else none
  | .channelClosed id => some { r with filtered := Function.update r.filtered id false }

def runtimeMachine : Machine TunnelRuntime RuntimeAction := ⟨runtimeStep⟩

/-- A tunnel as `open` makes it. -/
def FreshTunnel (r : TunnelRuntime) : Prop :=
  ∃ hostId transport localPort remoteHost remotePort,
    r = .new hostId transport localPort remoteHost remotePort

theorem freshTunnel_new (hostId : HostId) (transport localPort : Nat) (remoteHost : Text)
    (remotePort : Nat) : FreshTunnel (.new hostId transport localPort remoteHost remotePort) :=
  ⟨_, _, _, _, _, rfl⟩

end KW.Tunnel
