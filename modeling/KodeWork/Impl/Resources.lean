import KodeWork.Impl.Session

/-!
# What a session opens on its transport

The calls of `session.rs` that open something on the stored transport and keep
it in the session: `open_pane`, `sftp_session`, `sftp_manager` and
`herdr_bridge`, with `close_pane` and `herdr_bridge_stop_by_id`, which take
entries out again. None of them takes `connect_guard`. Each reads `connection`,
awaits the remote side and enters its registry in separate steps, beside the
steps of the session (`Impl.Session`).

What was opened is known by the transport it was opened on. What the remote
side answers is in the action.
-/

namespace KW.Session

open ActiveSession

def maxPanesPerHost : Nat := 20

/-- `ActiveBridge`, beside the transport of its owner, which is in
`ActiveSession.herdrBridges`. -/
structure ActiveBridge where
  remotePort : Nat
  generation : Nat
deriving DecidableEq, Repr

/-- What one of the calls returns. -/
inductive ResourceResult
  | pane (pane channel : Nat)
  | sftp (transport : Nat)
  | manager (transport : Nat)
  | bridge (bridge remotePort : Nat)
  | unit
  | error (message : String)
deriving DecidableEq, Repr

/-- The loop over remote ports in `herdr_bridge`, after its reads. -/
structure BridgeLoop where
  transport : Nat
  generation : Nat
  occupied : List Nat
  localPort : Nat
  offset : Nat
  lastError : String
deriving DecidableEq, Repr

/-- The next round, after an error. -/
def BridgeLoop.retry (loop : BridgeLoop) (message : String) : BridgeLoop :=
  { loop with offset := loop.offset + 1, lastError := message }

/-- One of the calls and where it stands. In the steps of `sftp_session`,
`manager` says that the call is made by `sftp_manager`. -/
inductive ResourceCall
  /-- `open_pane`: the read of `connection` -/
  | paneConnection
  /-- `connection.open_pty(cols, rows).await` -/
  | openPty (transport : Nat)
  /-- `next_pane.fetch_add(1)` -/
  | paneId (transport channel : Nat)
  /-- the section under the `panes` lock -/
  | insertPane (transport channel pane : Nat)
  /-- too many panes: `pty.close().await` -/
  | closePty (channel : Nat)
  /-- too many panes: `pending_events.remove(&channel_id)` -/
  | dropPending (channel : Nat)
  /-- `sftp_session`: the read of the cached session -/
  | sftpCached (manager : Bool)
  /-- `sftp_session`: the read of `connection` -/
  | sftpConnection (manager : Bool)
  /-- `connection.sftp().await` -/
  | openSftp (manager : Bool) (transport : Nat)
  /-- `sftp_session`: the section under the `sftp` lock -/
  | insertSftp (manager : Bool) (transport : Nat)
  /-- `sftp_manager`: the read of the slot -/
  | transfersCached
  /-- `sftp_manager`: the section under the `transfers` lock -/
  | insertTransfers (transport : Nat)
  /-- `herdr_bridge`: `client.socket_path().await` -/
  | socketPath (localPort : Nat)
  /-- `client.has_socat().await` -/
  | hasSocat (localPort : Nat)
  /-- `herdr_bridge`: the read of `connection` -/
  | bridgeConnection (localPort : Nat)
  /-- `self.generation(host_id)` -/
  | bridgeGeneration (transport localPort : Nat)
  /-- the ports in use, under the `herdr_bridges` lock -/
  | occupied (transport generation localPort : Nat)
  /-- the head of the loop over the ports -/
  | nextPort (loop : BridgeLoop)
  /-- `connection.exec_owned(..).await` -/
  | execOwned (loop : BridgeLoop) (remotePort : Nat)
  /-- `owner.ensure_running(250 ms).await` -/
  | ensureRunning (loop : BridgeLoop) (remotePort : Nat)
  /-- `self.open_tunnel(..).await` -/
  | openTunnel (loop : BridgeLoop) (remotePort : Nat)
  /-- the insertion under the `herdr_bridges` lock -/
  | insertBridge (loop : BridgeLoop) (remotePort : Nat)
  /-- `close_pane`: `panes.remove(&pane_id)` -/
  | removePane (pane : Nat)
  /-- `close_pane`: `pending_events.remove(&pty.channel_id())` -/
  | removePending (channel : Nat)
  /-- `herdr_bridge_stop_by_id`: `herdr_bridges.remove(&bridge_id)` -/
  | removeBridge (bridge : Nat)
  /-- the tunnel and the owner of a removed bridge are closed -/
  | closeBridge
  | returned (result : ResourceResult)
deriving DecidableEq, Repr

/-- The calls as their callers make them. -/
def ResourceCall.entry : ResourceCall → Bool
  | .paneConnection | .sftpCached false | .transfersCached | .socketPath _ | .removePane _
  | .removeBridge _ => true
  | _ => false

/-- How the remote side answers. -/
inductive Remote
  | go
  | opened (channel : Nat)
  | yes
  | no
  | failed (message : String)
deriving DecidableEq, Repr

/-- A session with the calls that open something on its transport. -/
structure Resources where
  session : ActiveSession
  calls : Nat → Option ResourceCall
  nextPane : Nat
  /-- `BridgeId::new()` makes ids that are not in use. -/
  nextBridge : Nat
  bridges : Nat → Option ActiveBridge
  hostUuid : Nat

namespace Resources

def new (eventBuffer hostUuid : Nat) : Resources where
  session := .new eventBuffer
  calls := fun _ => none
  nextPane := 0
  nextBridge := 0
  bridges := fun _ => none
  hostUuid := hostUuid

/-- `panes.len()`: pane ids come from `next_pane`. -/
def paneCount (s : Resources) : Nat :=
  ((List.range s.nextPane).filter fun pane => (s.session.panes pane).isSome).length

/-- The remote ports of the bridges in the registry. -/
def occupiedPorts (s : Resources) : List Nat :=
  (List.range s.nextBridge).filterMap fun bridge =>
    if (s.session.herdrBridges bridge).isSome then (s.bridges bridge).map (·.remotePort) else none

/-- The remote port of a round of the loop. -/
def remotePort (s : Resources) (offset : Nat) : Nat :=
  28000 + (s.hostUuid % 2000 + offset) % 2000

/-- The call `i` goes on as `call`. -/
def put (s : Resources) (i : Nat) (call : ResourceCall) : Resources :=
  { s with calls := Function.update s.calls i (some call) }

/-- `sftp_session` returns, to its caller or to `sftp_manager`. -/
def sftpReturns (manager : Bool) (transport : Nat) : ResourceCall :=
  if manager then .insertTransfers transport else .returned (.sftp transport)

/-- One step of the call `i`. -/
def callStep (s : Resources) (i : Nat) : ResourceCall → Remote → Option Resources
  | .paneConnection, .go =>
    match s.session.connection with
    | none => some (s.put i (.returned (.error "not connected")))
    | some g => some (s.put i (.openPty g))
  | .openPty g, .opened channel => some (s.put i (.paneId g channel))
  | .openPty _, .failed message => some (s.put i (.returned (.error message)))
  | .paneId g channel, .go =>
    some ({ s with nextPane := s.nextPane + 1 }.put i (.insertPane g channel s.nextPane))
  | .insertPane g channel pane, .go =>
    if maxPanesPerHost ≤ s.paneCount then some (s.put i (.closePty channel))
    else
      let panes := Function.update s.session.panes pane (some ⟨g, channel⟩)
      some ({ s with session := { s.session with panes := panes } }.put i
        (.returned (.pane pane channel)))
  | .closePty channel, .go => some (s.put i (.dropPending channel))
  | .dropPending channel, .go =>
    let pending := Function.update s.session.pendingEvents channel none
    some ({ s with session := { s.session with pendingEvents := pending } }.put i
      (.returned (.error "a host may have at most 20 open terminal panes")))
  | .sftpCached manager, .go =>
    match s.session.sftp with
    | some g => some (s.put i (sftpReturns manager g))
    | none => some (s.put i (.sftpConnection manager))
  | .sftpConnection manager, .go =>
    match s.session.connection with
    | none => some (s.put i (.returned (.error "not connected")))
    | some g => some (s.put i (.openSftp manager g))
  | .openSftp manager g, .yes => some (s.put i (.insertSftp manager g))
  | .openSftp _ _, .failed message => some (s.put i (.returned (.error message)))
  | .insertSftp manager g, .go =>
    match s.session.sftp with
    | some existing => some (s.put i (sftpReturns manager existing))
    | none => some ({ s with session := { s.session with sftp := some g } }.put i (sftpReturns manager g))
  | .transfersCached, .go =>
    match s.session.transfers with
    | some g => some (s.put i (.returned (.manager g)))
    | none => some (s.put i (.sftpCached true))
  | .insertTransfers g, .go =>
    match s.session.transfers with
    | some existing => some (s.put i (.returned (.manager existing)))
    | none =>
      some ({ s with session := { s.session with transfers := some g } }.put i (.returned (.manager g)))
  | .socketPath localPort, .yes => some (s.put i (.hasSocat localPort))
  | .socketPath _, .no =>
    some (s.put i (.returned (.error "远程未发现 herdr socket（需 herdr server 正在运行）")))
  | .socketPath _, .failed message => some (s.put i (.returned (.error message)))
  | .hasSocat localPort, .yes => some (s.put i (.bridgeConnection localPort))
  | .hasSocat _, .no =>
    some (s.put i (.returned (.error "远程需要 socat 才能桥接 herdr socket（apt install socat）")))
  | .hasSocat _, .failed message => some (s.put i (.returned (.error message)))
  | .bridgeConnection localPort, .go =>
    match s.session.connection with
    | none => some (s.put i (.returned (.error "not connected")))
    | some g => some (s.put i (.bridgeGeneration g localPort))
  | .bridgeGeneration g localPort, .go =>
    some (s.put i (.occupied g s.session.controller.generation localPort))
  | .occupied g generation localPort, .go =>
    some (s.put i (.nextPort ⟨g, generation, s.occupiedPorts, localPort, 0,
      "no bridge port candidate succeeded"⟩))
  | .nextPort loop, .go =>
    if 16 ≤ loop.offset then some (s.put i (.returned (.error loop.lastError)))
    else if s.remotePort loop.offset ∈ loop.occupied then
      some (s.put i (.nextPort { loop with offset := loop.offset + 1 }))
    else some (s.put i (.execOwned loop (s.remotePort loop.offset)))
  | .execOwned loop port, .yes => some (s.put i (.ensureRunning loop port))
  | .ensureRunning loop port, .yes => some (s.put i (.openTunnel loop port))
  | .openTunnel loop port, .yes => some (s.put i (.insertBridge loop port))
  | .execOwned loop port, .failed message =>
    some (s.put i (.nextPort (loop.retry s!"socat port {port} failed: {message}")))
  | .ensureRunning loop port, .failed message =>
    some (s.put i (.nextPort (loop.retry s!"socat port {port} exited during startup: {message}")))
  | .openTunnel loop _, .failed message => some (s.put i (.nextPort (loop.retry message)))
  | .insertBridge loop port, .go =>
    let bridge := s.nextBridge
    let herdrBridges := Function.update s.session.herdrBridges bridge (some loop.transport)
    some ({ s with
      session := { s.session with herdrBridges := herdrBridges }
      bridges := Function.update s.bridges bridge (some ⟨port, loop.generation⟩)
      nextBridge := s.nextBridge + 1 }.put i (.returned (.bridge bridge port)))
  | .removePane pane, .go =>
    match s.session.panes pane with
    | none => some (s.put i (.returned .unit))
    | some p =>
      let panes := Function.update s.session.panes pane none
      some ({ s with session := { s.session with panes := panes } }.put i (.removePending p.channel))
  | .removePending channel, .go =>
    let pending := Function.update s.session.pendingEvents channel none
    some ({ s with session := { s.session with pendingEvents := pending } }.put i (.returned .unit))
  | .removeBridge bridge, .go =>
    match s.session.herdrBridges bridge with
    | none => some (s.put i (.returned .unit))
    | some _ =>
      let herdrBridges := Function.update s.session.herdrBridges bridge none
      some ({ s with session := { s.session with herdrBridges := herdrBridges } }.put i .closeBridge)
  | .closeBridge, .yes => some (s.put i (.returned .unit))
  | .closeBridge, .failed message => some (s.put i (.returned (.error message)))
  | _, _ => none

end Resources

/-- A step of the session, a new call, or a step of the call `i`. -/
inductive ResourceAction
  | session (a : Action)
  | call (i : Nat) (call : ResourceCall)
  | step (i : Nat) (answer : Remote)
deriving DecidableEq, Repr

def resourceStep (s : Resources) : ResourceAction → Option Resources
  | .session a => (step s.session a).map fun t => { s with session := t }
  | .call i call => if s.calls i = none ∧ call.entry = true then some (s.put i call) else none
  | .step i answer =>
    match s.calls i with
    | some call => s.callStep i call answer
    | none => none

/-- The session with every interleaving of these calls. -/
def resourceMachine : Machine Resources ResourceAction := ⟨resourceStep⟩

/-- The session as `ensure_session` creates it. -/
def InitialResources (s : Resources) : Prop := ∃ eventBuffer hostUuid, s = .new eventBuffer hostUuid

theorem initResources_new (eventBuffer hostUuid : Nat) :
    InitialResources (.new eventBuffer hostUuid) := ⟨eventBuffer, hostUuid, rfl⟩

end KW.Session
