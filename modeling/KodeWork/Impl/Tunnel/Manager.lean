import KodeWork.Impl.Tunnel.Runtime

/-!
# The tunnel manager

`TunnelManager` of `kodework-core/src/tunnel.rs` with the calls that reach it from
`session.rs`, as a machine: any number of `open`, `close` and
`close_all_for_host` calls, `open_tunnel`, which reads the stored transport first
(and which `herdr_bridge` calls), `attach`, which stores a new transport and
spawns a clean-up, and `disconnect`. A step is one lock section or one await of
one task; the tasks of each tunnel take the steps of `Impl/Tunnel/Runtime`.

Of `attach` and `disconnect` only what touches the tunnels is here. A transport is
a number, drawn in order, as are the tunnel ids, for which the source draws
UUIDs. No lock is ever poisoned: no section under one can panic.

`Sweep.closed` is not in the program and is read by no step: it keeps the
tunnels a `close_all_for_host` call is through with.
-/

namespace KW.Tunnel

/-- The arguments of `open`. -/
structure OpenArgs where
  localPort : Nat
  remoteHost : Text
  remotePort : Nat
deriving DecidableEq, Repr

/-- Why `open` refuses its arguments. -/
def openError (args : OpenArgs) : Option Text :=
  if Text.isBlank args.remoteHost || args.remotePort == 0 then
    some "remote host must not be empty and remote port must be non-zero".toList
  else if args.remoteHost.any Text.isControl then
    some "remote host must not contain control characters".toList
  else none

/-- A `close_all_for_host` call, in its loop over the ids it copied. -/
structure Sweep where
  host : HostId
  /-- The transport whose `attach` spawned the call. -/
  attached : Option Nat
  closed : List Nat
  rest : List Nat
deriving DecidableEq, Repr

inductive CallResult
  | unit
  | opened (id : Nat)
  | error (message : Text)
deriving DecidableEq, Repr

/-- Where a call stands. A `close` is a call of its own, or made by a sweep. -/
inductive CallPc
  /-- `open_tunnel`: the read of `connection` -/
  | readConnection (host : HostId) (args : OpenArgs)
  /-- `open`: its arguments are checked -/
  | validate (host : HostId) (transport : Nat) (args : OpenArgs)
  /-- `TcpListener::bind(..).await` -/
  | bind (host : HostId) (transport : Nat) (args : OpenArgs)
  /-- the tunnel is made and its accept loop spawned -/
  | spawn (host : HostId) (transport : Nat) (args : OpenArgs) (localPort : Nat)
  /-- the end of `open` -/
  | opening (id : Nat)
  /-- `attach`: `connection = Some(..)` -/
  | install (host : HostId) (transport : Nat)
  /-- `disconnect`: `connection.take()` -/
  | takeConnection (host : HostId)
  /-- `close_all_for_host`: the ids of the host are copied -/
  | snapshot (host : HostId) (attached : Option Nat)
  /-- the head of the loop over the ids -/
  | next (sweep : Sweep)
  /-- `close`: the tunnel is looked up -/
  | lookup (id : Nat) (sweep : Option Sweep)
  /-- `close`, on a tunnel that was in the map -/
  | closing (id : Nat) (sweep : Option Sweep)
  /-- `close_all_for_host`: every tunnel of the host leaves the map -/
  | retain (sweep : Sweep)
  | returned (result : CallResult)
deriving DecidableEq, Repr

structure TunnelManager where
  /-- The stored transport of each session. -/
  connection : HostId → Option Nat
  nextTransport : Nat
  tunnels : Nat → Option TunnelRuntime
  nextTunnel : Nat
  calls : List CallPc

def TunnelManager.new : TunnelManager where
  connection := fun _ => none
  nextTransport := 0
  tunnels := fun _ => none
  nextTunnel := 0
  calls := []

namespace TunnelManager

/-- The call numbered `c` goes on at `pc`. -/
def go (s : TunnelManager) (c : Nat) (pc : CallPc) : TunnelManager := { s with calls := s.calls.set c pc }

def fail (s : TunnelManager) (c : Nat) (message : Text) : TunnelManager := s.go c (.returned (.error message))

def setTunnel (s : TunnelManager) (id : Nat) (r : TunnelRuntime) : TunnelManager :=
  { s with tunnels := Function.update s.tunnels id (some r) }

/-- The ids a `close_all_for_host` call copies, up to their order. -/
def hostIds (s : TunnelManager) (host : HostId) : List Nat :=
  (List.range s.nextTunnel).filter fun id => (s.tunnels id).any fun r => r.registered && r.info.hostId == host

/-- `retain`: the tunnels of the host leave the map. -/
def removeHost (s : TunnelManager) (host : HostId) : TunnelManager :=
  { s with
    tunnels := fun id => (s.tunnels id).map fun r =>
      { r with registered := r.registered && r.info.hostId != host } }

/-- Where a call goes after its `close` of `id`. -/
def afterClose (id : Nat) : Option Sweep → CallPc
  | none => .returned .unit
  | some sweep => .next { sweep with closed := sweep.closed ++ [id] }

/-- What the environment decides in a step of a call. -/
inductive CallChoice
  | go
  | bound (localPort : Nat)
  | bindError (error : Text)
  /-- the order of the ids in the map -/
  | ids (ids : List Nat)
deriving DecidableEq, Repr

/-- One step of the call numbered `c`. -/
def callStep (s : TunnelManager) (c : Nat) : CallPc → CallChoice → Option TunnelManager
  | .readConnection host args, .go =>
    match s.connection host with
    | some transport => some (s.go c (.validate host transport args))
    | none => some (s.fail c "not connected".toList)
  | .validate host transport args, .go =>
    match openError args with
    | some message => some (s.fail c message)
    | none => some (s.go c (.bind host transport args))
  | .bind host transport args, .bound localPort => some (s.go c (.spawn host transport args localPort))
  | .bind _ _ args, .bindError error =>
    some (s.fail c ("bind 127.0.0.1:".toList ++ Nat.toDigits 10 args.localPort ++ " failed: ".toList ++ error))
  | .spawn host transport args localPort, .go =>
    let t := s.setTunnel s.nextTunnel (.new host transport localPort args.remoteHost args.remotePort)
    some ({ t with nextTunnel := s.nextTunnel + 1 }.go c (.opening s.nextTunnel))
  | .opening id, .go =>
    if (s.tunnels id).any fun r => r.opener == .opened then some (s.go c (.returned (.opened id))) else none
  | .install host transport, .go =>
    some ({ s with connection := Function.update s.connection host (some transport) }.go c
      (.snapshot host (some transport)))
  | .takeConnection host, .go =>
    some ({ s with connection := Function.update s.connection host none }.go c (.snapshot host none))
  | .snapshot host attached, .ids ids =>
    if ids.Perm (s.hostIds host) then some (s.go c (.next ⟨host, attached, [], ids⟩)) else none
  | .next sweep, .go =>
    match sweep.rest with
    | [] => some (s.go c (.retain sweep))
    | id :: rest => some (s.go c (.lookup id (some { sweep with rest := rest })))
  | .lookup id sweep, .go =>
    match s.tunnels id with
    | some r =>
      if r.registered then
        (runtimeStep r (.close c)).map fun r' => (s.setTunnel id r').go c (.closing id sweep)
      else some (s.go c (afterClose id sweep))
    | none => some (s.go c (afterClose id sweep))
  | .closing id sweep, .go =>
    if (s.tunnels id).any fun r => r.closes c == some .returned then some (s.go c (afterClose id sweep))
    else none
  | .retain sweep, .go => some ((s.removeHost sweep.host).go c (.returned .unit))
  | _, _ => none

end TunnelManager

/-! ## The machine -/

open TunnelManager in
inductive ManagerAction
  | openTunnel (host : HostId) (args : OpenArgs)
  /-- `open` itself, on any transport there has been -/
  | open (host : HostId) (transport : Nat) (args : OpenArgs)
  | close (id : Nat)
  | closeAllForHost (host : HostId)
  | attach (host : HostId)
  | disconnect (host : HostId)
  | call (c : Nat) (choice : CallChoice)
  /-- a task of the tunnel takes a step; its `close` calls start with a lookup -/
  | tunnel (id : Nat) (action : RuntimeAction)
deriving DecidableEq, Repr

def RuntimeAction.isClose : RuntimeAction → Bool
  | .close _ => true
  | _ => false

/-- A new call. -/
def TunnelManager.start (s : TunnelManager) (pc : CallPc) : TunnelManager :=
  { s with calls := s.calls ++ [pc] }

def managerStep (s : TunnelManager) : ManagerAction → Option TunnelManager
  | .openTunnel host args => some (s.start (.readConnection host args))
  | .open host transport args =>
    if transport < s.nextTransport then some (s.start (.validate host transport args)) else none
  | .close id => some (s.start (.lookup id none))
  | .closeAllForHost host => some (s.start (.snapshot host none))
  | .attach host =>
    some { s.start (.install host s.nextTransport) with nextTransport := s.nextTransport + 1 }
  | .disconnect host => some (s.start (.takeConnection host))
  | .call c choice =>
    match s.calls[c]? with
    | some pc => s.callStep c pc choice
    | none => none
  | .tunnel id action =>
    if action.isClose then none
    else (s.tunnels id).bind fun r => (runtimeStep r action).map fun r' => s.setTunnel id r'

def managerMachine : Machine TunnelManager ManagerAction := ⟨managerStep⟩

def FreshManager (s : TunnelManager) : Prop := s = .new

theorem freshManager_new : FreshManager .new := rfl

end KW.Tunnel
