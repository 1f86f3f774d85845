import KodeWork.Impl.Session

/-!
# The connection supervisor

`start_connection_supervisor`, `reconnect_once`, `connect_host`,
`disconnect_host` and `delete_host` of `src-tauri/src/commands.rs` over the
sessions of all hosts, as a machine. A step is one lock section or one await of
one task: of the supervisor loop, of a reconnect attempt it spawned, or of a
call from the renderer. The steps of `SessionManager::connect` and `disconnect`
inside them are those of `Impl/Session`.

What depends on the database, the secrets, Tailscale or the clock is chosen by
the environment: whether an attempt is prepared, whether a retry is due.
`delete_host` does to this state what `disconnect_host` does.

Two fields are read by no step of the program: `connects` counts the
`connect_host` calls of a host, and `closed` records its value for the last
`disconnect_host` that ended with no `connect_host` beside or after it.
-/

namespace KW.Supervisor

open Session

/-- Where a task stands. -/
inductive TaskPc
  /-- `reconnect_once`: the host is loaded; may it connect unattended? -/
  | attemptLoad
  /-- `reconnect_is_active` -/
  | attemptActive
  /-- `connect_host_inner_with_profile` up to `ensure_session` -/
  | attemptPrepare
  /-- `connect_guard.lock().await` -/
  | attemptConnect
  /-- the attempt holds the guard and connects -/
  | attemptConnecting
  /-- `reconnect_is_active`, after the connection is up -/
  | attemptRecheck
  /-- `sessions.state(host_id) != Ready` -/
  | attemptState
  /-- `sessions.disconnect(host_id)`: `connect_guard.lock().await` -/
  | attemptDisconnect
  /-- the attempt holds the guard and disconnects -/
  | attemptDisconnecting
  /-- `reconnecting.remove(&host_id)`, with the result of the attempt -/
  | attemptRelease (error : Option ConnectErrorKind)
  /-- `reconnect_profiles.contains(&host_id)` -/
  | attemptProfile (error : ConnectErrorKind)
  /-- `mark_waiting_for_credential` or `mark_reconnecting` -/
  | attemptMark (error : ConnectErrorKind)
  | attemptEnded
  /-- `connect_host` up to `ensure_session` -/
  | connectPrepare
  | connectWait
  | connecting
  /-- `reconnect_profiles.insert(host.id)` -/
  | connectRegister
  | connectEnded
  /-- `disconnect_host`: `reconnecting.remove(&host_id)` -/
  | disconnectReconnecting
  /-- `reconnect_profiles.remove(&host_id)`; `mark` is the count of
  `connect_host` calls when the first removal found none of them running -/
  | disconnectProfile (mark : Option Nat)
  | disconnectWait (mark : Option Nat)
  | disconnecting (mark : Option Nat)
  | disconnectEnded
deriving DecidableEq, Repr

structure Task where
  host : HostId
  pc : TaskPc
deriving DecidableEq, Repr

/-- A reconnect attempt that has not finished. -/
def TaskPc.attempting : TaskPc → Bool
  | .attemptLoad | .attemptActive | .attemptPrepare | .attemptConnect | .attemptConnecting
  | .attemptRecheck | .attemptState | .attemptDisconnect | .attemptDisconnecting
  | .attemptRelease _ | .attemptProfile _ | .attemptMark _ => true
  | _ => false

/-- A `connect_host` call that has not returned. -/
def TaskPc.opening : TaskPc → Bool
  | .connectPrepare | .connectWait | .connecting | .connectRegister => true
  | _ => false

/-- Where the supervisor loop stands. -/
inductive SupervisorPc
  /-- `sleep(750 ms).await` -/
  | sleeping
  /-- the hosts of the snapshot that are left to visit -/
  | visit (hosts : List HostId)
  /-- is a retry due? -/
  | due (host : HostId) (hosts : List HostId)
  /-- `reconnecting.insert(host_id)` -/
  | acquire (host : HostId) (hosts : List HostId)
deriving DecidableEq, Repr

structure AppState where
  sessions : HostId → Option ActiveSession
  reconnectProfiles : List HostId
  reconnecting : List HostId
  supervisor : SupervisorPc
  tasks : List Task
  eventBuffer : Nat
  connects : HostId → Nat
  closed : HostId → Option Nat

def AppState.new (eventBuffer : Nat) : AppState where
  sessions := fun _ => none
  reconnectProfiles := []
  reconnecting := []
  supervisor := .sleeping
  tasks := []
  eventBuffer := eventBuffer
  connects := fun _ => 0
  closed := fun _ => none

/-- What the environment decides in a step of a task. -/
inductive TaskChoice
  | go
  /-- the host, a credential or the network path is not there -/
  | fail (error : ConnectErrorKind)
  /-- a step of the guarded call -/
  | op (choice : ActiveSession.OpChoice)
deriving DecidableEq, Repr

namespace AppState

/-- `SessionManager::state`. -/
def state (s : AppState) (h : HostId) : ConnectionState :=
  ((s.sessions h).map fun t => t.controller.state).getD .disconnected

def setSession (s : AppState) (h : HostId) (t : ActiveSession) : AppState :=
  { s with sessions := Function.update s.sessions h (some t) }

/-- `ensure_session`. -/
def ensureSession (s : AppState) (h : HostId) : AppState :=
  s.setSession h ((s.sessions h).getD (.new s.eventBuffer))

/-- The task numbered `i` goes on at `pc`. -/
def goTask (s : AppState) (i : Nat) (task : Task) (pc : TaskPc) : AppState :=
  { s with tasks := s.tasks.set i { task with pc := pc } }

/-- Whether a `connect_host` call of the host is running. -/
def opening (s : AppState) (h : HostId) : Bool :=
  s.tasks.any fun t => t.host == h && t.pc.opening

/-- A `disconnect_host` call ends. -/
def close (s : AppState) (h : HostId) (mark : Option Nat) : AppState :=
  if mark = some (s.connects h) then { s with closed := Function.update s.closed h mark } else s

/-- The guarded call of the session takes a step; `finish` is what follows when
the call returns. -/
def opStep (s : AppState) (h : HostId) (choice : ActiveSession.OpChoice)
    (finish : OpResult → AppState → AppState) : Option AppState :=
  match s.sessions h with
  | none => none
  | some t =>
    match t.opStep choice with
    | none => none
    | some (u, .next op) => some (s.setSession h { u with op := some op })
    | some (u, .done result) => some (finish result (s.setSession h { u with op := none }))

/-- The task waits for the guard of the session, and takes it when it is free. -/
def takeGuard (s : AppState) (i : Nat) (task : Task) (op : Op) (pc : TaskPc) : Option AppState :=
  ((s.sessions task.host).bind fun t => t.acquireGuard op).map fun t =>
    (s.setSession task.host t).goTask i task pc

/-- Where an attempt goes after its connect call. -/
def afterConnect : OpResult → TaskPc
  | .connected _ => .attemptRecheck
  | .failed kind => .attemptRelease (some kind)
  | .disconnected => .attemptRelease (some .internal)

/-- One step of the task numbered `i`. -/
def taskStep (s : AppState) (i : Nat) (task : Task) : TaskPc → TaskChoice → Option AppState
  | .attemptLoad, .go => some (s.goTask i task .attemptActive)
  | .attemptLoad, .fail kind => some (s.goTask i task (.attemptRelease (some kind)))
  | .attemptActive, .go =>
    if task.host ∈ s.reconnecting then some (s.goTask i task .attemptPrepare)
    else some (s.goTask i task (.attemptRelease (some .cancelled)))
  | .attemptPrepare, .go => some ((s.ensureSession task.host).goTask i task .attemptConnect)
  | .attemptPrepare, .fail kind => some (s.goTask i task (.attemptRelease (some kind)))
  | .attemptConnect, .go => s.takeGuard i task (.connect .resolve) .attemptConnecting
  | .attemptConnecting, .op c => s.opStep task.host c fun r t => t.goTask i task (afterConnect r)
  | .attemptRecheck, .go =>
    if task.host ∈ s.reconnecting then some (s.goTask i task .attemptState)
    else some (s.goTask i task .attemptDisconnect)
  | .attemptState, .go =>
    if s.state task.host = .ready then some (s.goTask i task (.attemptRelease none))
    else some (s.goTask i task .attemptDisconnect)
  | .attemptDisconnect, .go => s.takeGuard i task (.disconnect .reserve) .attemptDisconnecting
  | .attemptDisconnecting, .op c => s.opStep task.host c fun _ t =>
    t.goTask i task (.attemptRelease (some .cancelled))
  | .attemptRelease error, .go =>
    let t := { s with reconnecting := s.reconnecting.filter (· ≠ task.host) }
    match error with
    | some kind => some (t.goTask i task (.attemptProfile kind))
    | none => some (t.goTask i task .attemptEnded)
  | .attemptProfile kind, .go =>
    if task.host ∈ s.reconnectProfiles then some (s.goTask i task (.attemptMark kind))
    else some (s.goTask i task .attemptEnded)
  | .attemptMark kind, .go =>
    let marked := (s.sessions task.host).map fun t =>
      if kind = .credentialRequired ∨ kind = .authentication then t.markWaitingForCredential
      else if kind.retryable then t.markReconnecting
      else t
    some ({ s with sessions := Function.update s.sessions task.host marked }.goTask i task .attemptEnded)
  | .connectPrepare, .go => some ((s.ensureSession task.host).goTask i task .connectWait)
  | .connectPrepare, .fail _ => some (s.goTask i task .connectEnded)
  | .connectWait, .go => s.takeGuard i task (.connect .resolve) .connecting
  | .connecting, .op c => s.opStep task.host c fun r t => t.goTask i task (match r with
    | .connected _ => .connectRegister
    | _ => .connectEnded)
  | .connectRegister, .go =>
    some ({ s with reconnectProfiles := s.reconnectProfiles.insert task.host }.goTask i task .connectEnded)
  | .disconnectReconnecting, .go =>
    let mark := if s.opening task.host then none else some (s.connects task.host)
    some ({ s with reconnecting := s.reconnecting.filter (· ≠ task.host) }.goTask i task
      (.disconnectProfile mark))
  | .disconnectProfile mark, .go =>
    some ({ s with reconnectProfiles := s.reconnectProfiles.filter (· ≠ task.host) }.goTask i task
      (.disconnectWait mark))
  | .disconnectWait mark, .go =>
    match s.sessions task.host with
    | none => some ((s.close task.host mark).goTask i task .disconnectEnded)
    | some _ => s.takeGuard i task (.disconnect .reserve) (.disconnecting mark)
  | .disconnecting mark, .op c => s.opStep task.host c fun _ t =>
    (t.close task.host mark).goTask i task .disconnectEnded
  | _, _ => none

/-- One step of the supervisor loop; `due` is the answer of the schedule. -/
def superviseStep (s : AppState) (due : Bool) : Option AppState :=
  match s.supervisor with
  | .sleeping => none
  | .visit [] => some { s with supervisor := .sleeping }
  | .visit (h :: hosts) =>
    if s.state h = .reconnecting then some { s with supervisor := .due h hosts }
    else some { s with supervisor := .visit hosts }
  | .due h hosts =>
    if due then some { s with supervisor := .acquire h hosts }
    else some { s with supervisor := .visit hosts }
  | .acquire h hosts =>
    if h ∈ s.reconnecting then some { s with supervisor := .visit hosts }
    else some { s with
      supervisor := .visit hosts
      reconnecting := h :: s.reconnecting
      tasks := s.tasks ++ [⟨h, .attemptLoad⟩] }

end AppState

/-- Steps of a session that belong to no task here. -/
def unguarded : Session.Action → Bool
  | .pump _ _ | .subscribe _ | .receive _ | .dropReceiver _ => true
  | _ => false

inductive Action
  /-- The loop wakes up and takes the set of profiles, in some order. -/
  | snapshot (hosts : List HostId)
  | supervise (due : Bool)
  | connectHost (h : HostId)
  | disconnectHost (h : HostId)
  | task (i : Nat) (choice : TaskChoice)
  | session (h : HostId) (a : Session.Action)

def step (s : AppState) : Action → Option AppState
  | .snapshot hosts =>
    if s.supervisor = .sleeping ∧ hosts.isPerm s.reconnectProfiles then
      some { s with supervisor := .visit hosts }
    else none
  | .supervise due => s.superviseStep due
  | .connectHost h =>
    some { s with
      tasks := s.tasks ++ [⟨h, .connectPrepare⟩]
      connects := Function.update s.connects h (s.connects h + 1) }
  | .disconnectHost h => some { s with tasks := s.tasks ++ [⟨h, .disconnectReconnecting⟩] }
  | .task i choice =>
    match s.tasks[i]? with
    | some task => s.taskStep i task task.pc choice
    | none => none
  | .session h a =>
    if unguarded a then
      ((s.sessions h).bind fun t => Session.step t a).map fun t => s.setSession h t
    else none

def machine : Machine AppState Action := ⟨step⟩

def Initial (s : AppState) : Prop := ∃ eventBuffer, s = .new eventBuffer

theorem init_new (eventBuffer : Nat) : Initial (.new eventBuffer) := ⟨eventBuffer, rfl⟩

end KW.Supervisor
