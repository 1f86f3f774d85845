import KodeWork.Framework.Machine
import KodeWork.Framework.Utf8
import KodeWork.Impl.Host
import KodeWork.Impl.Path

/-!
# The managed Tailscale daemon

`TailscaleRuntime` of `kodework-tailscale/src/runtime.rs` with the calls of
`status_for_config`, `ensure` and `shutdown` that run on it at the same time, as a
machine. A step is one section under the lock of `inner`, one request to a daemon, or
taking or giving back `lifecycle`. What the operating system, the CLI and the clock
give is in the action: a daemon exits by itself (`exit`), a request is answered by a
running daemon that listens on its socket, `try_wait` and the rest may fail, and a call
may be dropped where it waits.

A daemon that is killed stops at once. The files beside the state (the lock, the lease
and the one for the auth key) count only in that a call may fail at them.

`Answer.child` and the child beside a cached answer are read by no step: they record
which daemon answered, and which one was held when the answer was taken from the cache.
-/

namespace KW.Tailscale

/-! ## Status and errors -/

structure TailscaleNode where
  hostName : Option Text
  dnsName : Option Text
  online : Option Bool
  tailscaleIps : List Text
deriving DecidableEq, Repr

structure TailscaleStatus where
  backendState : Option Text
  selfNode : Option TailscaleNode
  peers : List (Text × TailscaleNode)
deriving DecidableEq, Repr

inductive TailscaleError
  | invalidJson
  | missingStateDirectory
  | invalidStatePath
  | spawn (message : String)
  | outputRead (message : String)
  | outputTooLarge (limit : Nat)
  | timeout
  | commandFailed (exitCode : Int) (stderr : String)
  | daemonUnavailable (message : String)
deriving DecidableEq, Repr

/-- `to_string`. -/
def TailscaleError.text : TailscaleError → String
  | .invalidJson => "tailscale status output is invalid JSON"
  | .missingStateDirectory => "embedded userspace backend requires an explicit private state directory"
  | .invalidStatePath => "tailscale state path must be absolute"
  | .spawn message => "failed to spawn tailscale: " ++ message
  | .outputRead message => "failed to read tailscale process output: " ++ message
  | .outputTooLarge limit =>
    "tailscale process output exceeded the " ++ toString limit ++ "-byte safety limit"
  | .timeout => "tailscale command timed out"
  | .commandFailed exitCode stderr =>
    "tailscale command failed with code " ++ toString exitCode ++ ": " ++ stderr
  | .daemonUnavailable message => "tailscale daemon is unavailable: " ++ message

def isRetryableStartupError : TailscaleError → Bool
  | .daemonUnavailable _ | .invalidJson => true
  | _ => false

def isRunning (status : TailscaleStatus) : Bool :=
  status.backendState.any (fun state => state.map Char.toLower == "running".toList) ||
    status.selfNode.any fun node => node.online.getD false

/-- `u8::is_ascii_whitespace`. -/
def isAsciiWhitespace (b : UInt8) : Bool := b == 32 || b == 9 || b == 10 || b == 12 || b == 13

def validateAuthKey (authKey : List UInt8) : Except TailscaleError Unit :=
  if authKey.isEmpty || authKey.any isAsciiWhitespace then
    .error (.commandFailed (-1) "Tailscale auth key is empty or contains whitespace")
  else .ok ()

/-! ## Paths -/

/-- What the runtime is made with, and where it runs. -/
structure Setup where
  windows : Bool
  processId : Nat
  fallbackStateRoot : Text
deriving DecidableEq, Repr

/-- The hash in the name of the pipe. -/
def pipeHash (statePath : Text) : UInt64 :=
  (Utf8.encode statePath).foldl (fun hash byte => (hash ^^^ byte.toUInt64) * 0x100000001b3)
    0xcbf29ce484222325

namespace Setup

def socketPath (setup : Setup) (statePath : Text) : Text :=
  if setup.windows then
    let digits := Nat.toDigits 16 (pipeHash statePath).toNat
    "\\\\.\\pipe\\Kodework-Tailscale-".toList ++ List.replicate (16 - digits.length) '0' ++ digits ++
      '-' :: Nat.toDigits 10 setup.processId
  else Path.withExtension false statePath "sock".toList

def statePath (setup : Setup) (config : TailscaleConfig) : Except TailscaleError Text :=
  let path := match config.stateDir.filter fun value => !Text.isBlank value with
    | some value => value
    | none => Path.push setup.windows setup.fallbackStateRoot "tailscale.state".toList
  if Path.isAbsolute setup.windows path then .ok path else .error .invalidStatePath

end Setup

/-! ## The runtime -/

/-- `STARTUP_TIMEOUT`, in milliseconds. -/
def startupTimeout : Nat := 20 * 1000

/-- `STATUS_CACHE_TTL`, in milliseconds. -/
def statusCacheTtl : Nat := 30 * 1000

/-- A status, and the daemon that gave it. -/
structure Answer where
  child : Nat
  status : TailscaleStatus
deriving DecidableEq, Repr

structure CachedStatus where
  statePath : Text
  capturedAt : Nat
  answer : Answer
deriving DecidableEq, Repr

/-- What a call returns. -/
inductive Returned
  | error (error : TailscaleError)
  | status (status : TailscaleStatus)
  /-- the status of the cache, taken while `held` was the child -/
  | cached (answer : Answer) (held : Option Nat)
  /-- of `shutdown` -/
  | unit
deriving DecidableEq, Repr

/-- Where a call stands. -/
inductive Pc
  /-- `status_for_config`, up to its section on `inner` -/
  | status (config : Option TailscaleConfig)
  /-- `status_for_config`: `self.embedded_cli(socket).status()` -/
  | statusQuery (config : TailscaleConfig) (expectedState socket : Text)
  /-- `status_for_config`: `self.cache_status(&expected_state, &status)` -/
  | statusStore (config : TailscaleConfig) (expectedState : Text) (answer : Answer)
  /-- the status of the system daemon -/
  | systemStatus
  /-- `ensure`, up to `self.lifecycle.lock()` -/
  | ensure (config : TailscaleConfig) (authKey : Option (List UInt8))
  /-- `ensure_child(&state_path)` -/
  | ensureChild (statePath : Text) (authKey : Option (List UInt8))
  /-- `ensure`: `self.cached_status(&state_path)` -/
  | ensureLookup (statePath socket : Text) (authKey : Option (List UInt8))
  /-- the loop of `wait_until_reachable` -/
  | reachable (statePath socket : Text) (authKey : Option (List UInt8)) (deadline : Nat)
  /-- `write_auth_file` and `up_with_auth_key_file` -/
  | up (statePath socket : Text) (authKey : List UInt8)
  /-- the loop of `wait_until_running` -/
  | running (statePath socket : Text) (deadline : Nat)
  /-- `ensure`: `self.cache_status(&state_path, &status)` -/
  | ensureStore (statePath : Text) (answer : Answer)
  /-- `shutdown`, up to `self.lifecycle.lock()` -/
  | shutdown
  /-- `shutdown`: its section on `inner` -/
  | shutdownTake
  /-- `shutdown`: `child.start_kill()` -/
  | shutdownKill (child : Nat)
  | returned (result : Returned)
  | dropped
deriving DecidableEq, Repr

/-- Whether the call holds `lifecycle`. -/
def Pc.locked : Pc → Bool
  | .ensureChild .. | .ensureLookup .. | .reachable .. | .up .. | .running .. | .ensureStore ..
  | .shutdownTake | .shutdownKill _ => true
  | _ => false

/-- A `tailscaled`. -/
structure Daemon where
  socket : Text
  running : Bool
deriving DecidableEq, Repr

structure TailscaleRuntime where
  /-- the call that holds `lifecycle` -/
  lifecycle : Option Nat
  child : Option Nat
  socket : Option Text
  statePath : Option Text
  cachedStatus : Option CachedStatus
  now : Nat
  /-- the daemons the runtime has started, by their numbers -/
  daemons : List Daemon
  calls : List Pc
deriving DecidableEq, Repr

/-- What comes from outside of the runtime in a step of a call. -/
inductive Outcome
  | go
  /-- `try_wait` fails, or not -/
  | tryWait (failed : Bool)
  /-- the same in `ensure_child`, and what fails where a daemon is started -/
  | start (tryWaitFailed : Bool) (failure : Option TailscaleError)
  /-- the daemon of this number answers -/
  | answered (child : Nat) (status : TailscaleStatus)
  | failed (error : TailscaleError)
  /-- the system daemon -/
  | system (result : Except TailscaleError TailscaleStatus)
deriving DecidableEq, Repr

namespace TailscaleRuntime

def new : TailscaleRuntime := ⟨none, none, none, none, none, 0, [], []⟩

def setCall (s : TailscaleRuntime) (i : Nat) (pc : Pc) : TailscaleRuntime := { s with calls := s.calls.set i pc }

/-- The call returns, and does not hold `lifecycle`. -/
def returns (s : TailscaleRuntime) (i : Nat) (result : Returned) : TailscaleRuntime := s.setCall i (.returned result)

/-- The call takes `lifecycle`. -/
def lock (s : TailscaleRuntime) (i : Nat) (pc : Pc) : TailscaleRuntime := { s with lifecycle := some i }.setCall i pc

/-- The call returns, and gives `lifecycle` back. -/
def unlock (s : TailscaleRuntime) (i : Nat) (result : Returned) : TailscaleRuntime :=
  { s with lifecycle := none }.setCall i (.returned result)

def isAlive (s : TailscaleRuntime) (child : Nat) : Bool := (s.daemons[child]?).any (·.running)

/-- A running daemon listens on the socket. -/
def listens (s : TailscaleRuntime) (child : Nat) (socket : Text) : Bool := s.daemons[child]? == some ⟨socket, true⟩

/-- The daemon ends. -/
def stop (s : TailscaleRuntime) (child : Nat) : TailscaleRuntime :=
  { s with daemons := s.daemons.modify child fun daemon => { daemon with running := false } }

/-- `cache_status`. -/
def cacheStatus (s : TailscaleRuntime) (statePath : Text) (answer : Answer) : TailscaleRuntime :=
  { s with cachedStatus := some ⟨statePath, s.now, answer⟩ }

/-- What is cached for the path, and not too old. -/
def cachedFor (setup : Setup) (s : TailscaleRuntime) (statePath : Text) : Option CachedStatus :=
  s.cachedStatus.filter fun cached =>
    Path.same setup.windows cached.statePath statePath && decide (s.now - cached.capturedAt ≤ statusCacheTtl)

/-- `matches!(child.try_wait(), Ok(None))`, of the child that is held. -/
def childAlive (s : TailscaleRuntime) (tryWaitFailed : Bool) : Bool :=
  s.child.any fun child => !tryWaitFailed && s.isAlive child

/-- The section of `status_for_config` on `inner`, and what follows it at once. -/
def statusSection (setup : Setup) (s : TailscaleRuntime) (i : Nat) (config : TailscaleConfig) (expectedState : Text)
    (tryWaitFailed : Bool) : TailscaleRuntime :=
  match if s.childAlive tryWaitFailed then s.cachedFor setup expectedState else none with
  | some cached => s.returns i (.cached cached.answer s.child)
  | none =>
    match s.socket with
    | none => s.returns i (.error (.daemonUnavailable "managed userspace daemon has not been started"))
    | some socket =>
      if s.statePath.any fun active => Path.same setup.windows active expectedState then
        s.setCall i (.statusQuery config expectedState socket)
      else s.returns i (.error (.daemonUnavailable "another embedded Tailscale state is already active"))

/-- The child that is not running any more is forgotten; it is dropped, and so killed. -/
def forgetChild (s : TailscaleRuntime) (child : Nat) : TailscaleRuntime :=
  { s.stop child with child := none, socket := none, statePath := none, cachedStatus := none }

def spawnChild (s : TailscaleRuntime) (statePath socket : Text) : TailscaleRuntime :=
  { s with
    child := some s.daemons.length
    socket := some socket
    statePath := some statePath
    cachedStatus := none
    daemons := s.daemons ++ [⟨socket, true⟩] }

/-- `ensure_child`, where no child is held any more. -/
def startChild (setup : Setup) (s : TailscaleRuntime) (statePath : Text) :
    Option TailscaleError → TailscaleRuntime × Except TailscaleError Text
  | some error => (s, .error error)
  | none => (s.spawnChild statePath (setup.socketPath statePath), .ok (setup.socketPath statePath))

/-- The section of `ensure_child` on `inner`. -/
def ensureChild (setup : Setup) (s : TailscaleRuntime) (statePath : Text) (tryWaitFailed : Bool)
    (failure : Option TailscaleError) : TailscaleRuntime × Except TailscaleError Text :=
  match s.child with
  | none => s.startChild setup statePath failure
  | some child =>
    if s.childAlive tryWaitFailed then
      if s.statePath.any fun active => !Path.same setup.windows active statePath then
        (s, .error (.daemonUnavailable "another embedded Tailscale state is already active"))
      else
        let socket := setup.socketPath statePath
        ({ s with socket := some socket }, .ok socket)
    else (s.forgetChild child).startChild setup statePath failure

/-- A request fails in `wait_until_reachable` or `wait_until_running`: it is made again until
the deadline. -/
def retry (s : TailscaleRuntime) (i : Nat) (deadline : Nat) (message : String) : TailscaleRuntime :=
  if deadline ≤ s.now then s.unlock i (.error (.daemonUnavailable message)) else s

/-- One step of a call. -/
def callStep (setup : Setup) (s : TailscaleRuntime) (i : Nat) : Pc → Outcome → Option TailscaleRuntime
  | .status config, .tryWait failed =>
    match config.filter fun value => value.enabled && value.mode == .embeddedUserspace with
    | none => some (s.setCall i .systemStatus)
    | some config =>
      match setup.statePath config with
      | .error error => some (s.returns i (.error error))
      | .ok expectedState => some (s.statusSection setup i config expectedState failed)
  | .statusQuery config expectedState socket, .answered child status =>
    if s.listens child socket then some (s.setCall i (.statusStore config expectedState ⟨child, status⟩))
    else none
  | .statusQuery .., .failed error => some (s.returns i (.error error))
  | .statusStore _ expectedState answer, .go =>
    some ((s.cacheStatus expectedState answer).returns i (.status answer.status))
  | .systemStatus, .system (.ok status) => some (s.returns i (.status status))
  | .systemStatus, .system (.error error) => some (s.returns i (.error error))
  | .ensure config authKey, .go =>
    if !config.enabled || config.mode == .disabled then
      some (s.returns i (.error (.daemonUnavailable "tailscale integration is disabled")))
    else if config.mode == .systemDaemon then some (s.setCall i .systemStatus)
    else if s.lifecycle = none then
      match setup.statePath config with
      -- the lock is taken, and given back at once
      | .error error => some (s.returns i (.error error))
      | .ok statePath => some (s.lock i (.ensureChild statePath authKey))
    else none
  -- `create_dir_all`
  | .ensureChild .., .failed error => some (s.unlock i (.error error))
  | .ensureChild statePath authKey, .start tryWaitFailed failure =>
    match s.ensureChild setup statePath tryWaitFailed failure with
    | (s, .error error) => some (s.unlock i (.error error))
    | (s, .ok socket) => some (s.setCall i (.ensureLookup statePath socket authKey))
  | .ensureLookup statePath socket authKey, .go =>
    match s.cachedFor setup statePath with
    | some cached => some (s.unlock i (.cached cached.answer s.child))
    | none => some (s.setCall i (.reachable statePath socket authKey (s.now + startupTimeout)))
  | .reachable statePath socket authKey _, .answered child status =>
    if s.listens child socket then
      if isRunning status then some (s.setCall i (.ensureStore statePath ⟨child, status⟩))
      else
        match authKey with
        | none =>
          some (s.unlock i
            (.error (.daemonUnavailable "managed userspace daemon needs a Tailscale auth key")))
        | some authKey =>
          match validateAuthKey authKey with
          | .error error => some (s.unlock i (.error error))
          | .ok () => some (s.setCall i (.up statePath socket authKey))
    else none
  | .reachable _ _ _ deadline, .failed error =>
    if isRetryableStartupError error then some (s.retry i deadline error.text)
    else some (s.unlock i (.error error))
  | .up .., .failed error => some (s.unlock i (.error error))
  | .up statePath socket _, .go => some (s.setCall i (.running statePath socket (s.now + startupTimeout)))
  | .running statePath socket deadline, .answered child status =>
    if s.listens child socket then
      if isRunning status then some (s.setCall i (.ensureStore statePath ⟨child, status⟩))
      else some (s.retry i deadline
        (match status.backendState with
          | some state => String.ofList state
          | none => "userspace daemon is not running"))
    else none
  | .running _ _ deadline, .failed error => some (s.retry i deadline error.text)
  | .ensureStore statePath answer, .go =>
    some ((s.cacheStatus statePath answer).unlock i (.status answer.status))
  | .shutdown, .go => if s.lifecycle = none then some (s.lock i .shutdownTake) else none
  | .shutdownTake, .go =>
    let taken := { s with child := none, socket := none, statePath := none, cachedStatus := none }
    match s.child with
    | some child => some (taken.setCall i (.shutdownKill child))
    | none => some (taken.unlock i .unit)
  | .shutdownKill child, .go => some ((s.stop child).unlock i .unit)
  | _, _ => none

/-- The future of a call is dropped: what it holds goes with it. -/
def dropCall (s : TailscaleRuntime) (i : Nat) (pc : Pc) : TailscaleRuntime :=
  let s := match pc with
    | .shutdownKill child => s.stop child
    | _ => s
  (if pc.locked then { s with lifecycle := none } else s).setCall i .dropped

end TailscaleRuntime

inductive Event
  | statusForConfig (config : Option TailscaleConfig)
  | ensure (config : TailscaleConfig) (authKey : Option (List UInt8))
  | shutdown
  | call (i : Nat) (outcome : Outcome)
  | drop (i : Nat)
  /-- a daemon exits by itself -/
  | exit (child : Nat)
  | tick (milliseconds : Nat)
deriving DecidableEq, Repr

def step (setup : Setup) (s : TailscaleRuntime) : Event → Option TailscaleRuntime
  | .statusForConfig config => some { s with calls := s.calls ++ [.status config] }
  | .ensure config authKey => some { s with calls := s.calls ++ [.ensure config authKey] }
  | .shutdown => some { s with calls := s.calls ++ [.shutdown] }
  | .call i outcome =>
    match s.calls[i]? with
    | some pc => s.callStep setup i pc outcome
    | none => none
  | .drop i =>
    match s.calls[i]? with
    | some (.returned _) | some .dropped | none => none
    | some pc => some (s.dropCall i pc)
  | .exit child => some (s.stop child)
  | .tick milliseconds => some { s with now := s.now + milliseconds }

def machine (setup : Setup) : Machine TailscaleRuntime Event := ⟨step setup⟩

end KW.Tailscale
