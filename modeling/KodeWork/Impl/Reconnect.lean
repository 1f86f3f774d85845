import KodeWork.Impl.Host
import KodeWork.Impl.Supervisor

/-!
# One unattended attempt

`reconnect_once`, `connect_host_inner_with_profile` and `resolve_auth_methods`
of `src-tauri/src/commands.rs`, and what the supervisor does with the result, for
one host and one attempt that runs by itself. What the attempt finds on its way
is in `Findings`: the rows of the database, the secret store, the Tailscale
runtime, the files, and how its guarded calls go. `HostState` is what the
program keeps for the host.

The connect call and the disconnect call are those of `Impl/Session`, run to
their end (`runCall`). The locks around `reconnecting`, `reconnect_profiles` and
the schedule are taken for one access each and are never poisoned; those of the
database and of the secret store may be.
-/

namespace KW.Reconnect

open Session

structure ConnectError where
  kind : ConnectErrorKind
  detail : Text
deriving DecidableEq, Repr

/-- `AppError::StatePoisoned` as a `ConnectError`. -/
def statePoisoned : ConnectError :=
  ⟨.internal, "application state lock is poisoned".toList⟩

/-- What `database.lock()?.get_host(id)` gives. -/
inductive HostRow
  | poisoned
  | error (message : Text)
  | row (host : Option Host)
deriving DecidableEq, Repr

/-- The secret store behind its lock. -/
structure SecretStore where
  poisoned : Bool
  get : CredentialRef → Except Text (List UInt8)

/-- What an attempt meets outside the program, in the order it meets it. -/
structure Findings where
  /-- the row `reconnect_once` reads, and the one the connect path reads again -/
  firstRow : HostRow
  secondRow : HostRow
  /-- what the two looks into `reconnecting` find -/
  activeBefore : Bool
  activeAfter : Bool
  /-- `secrets::provider()` of this platform -/
  provider : CredentialProvider
  secrets : SecretStore
  /-- `tailscale.ensure(config, key).await` -/
  ensure : TailscaleConfig → Option (List UInt8) → Except Text Unit
  homeDir : Option Text
  isFile : Text → Bool
  /-- how the resolver and the candidates answer the connect call -/
  choices : List ActiveSession.OpChoice
  /-- the text of an error of the connect call -/
  connectDetail : Text
  /-- what happens to the session between the connect call and the second look -/
  events : List Session.Action

/-- What the program keeps for the host. -/
structure HostState where
  session : ActiveSession
  /-- the host is in `reconnect_profiles` -/
  profile : Bool
  /-- the host is in `reconnecting` -/
  reconnecting : Bool
  /-- `retry_schedule`: attempts so far, and when the next one is due -/
  schedule : Option (Nat × Nat)

/-! ## Credentials -/

inductive AuthMethod
  | password (secret : List UInt8)
  | publicKey (keyPath : Text) (passphrase : Option (List UInt8))
  | sshAgent
  | keyboardInteractive
deriving DecidableEq, Repr

def isManagedReference (f : Findings) (reference : CredentialRef) : Bool :=
  reference.provider == f.provider

/-- `Path::join`: an absolute path replaces the base. -/
def joinPath (base rest : Text) : Text :=
  if Text.startsWith rest ['/'] then rest
  else if base.getLast? = some '/' then base ++ rest
  else base ++ '/' :: rest

def expandUserPath (f : Findings) (value : Text) : Text :=
  let trimmed := (value.dropWhile Text.isWhitespace).rdropWhile Text.isWhitespace
  if trimmed = ['~'] then f.homeDir.getD trimmed
  else if Text.startsWith trimmed ['~', '/'] || Text.startsWith trimmed ['~', '\\'] then
    match f.homeDir with
    | some home => joinPath home (trimmed.drop 2)
    | none => trimmed
  else trimmed

/-- The key file of a host: the configured one, or the default of OpenSSH. -/
def keyPath (f : Findings) (privateKeyPath : Option Text) : Text :=
  match privateKeyPath.filter fun path => !Text.isBlank path with
  | some path => expandUserPath f path
  | none =>
    match f.homeDir with
    | some home => joinPath (joinPath home ".ssh".toList) "id_ed25519".toList
    | none => ".ssh/id_ed25519".toList

/-- The secret a reference names, if there is a reference. -/
def storedSecret (f : Findings) : Option CredentialRef → Except ConnectError (Option (List UInt8))
  | none => .ok none
  | some reference =>
    if isManagedReference f reference then
      if f.secrets.poisoned then .error statePoisoned
      else
        match f.secrets.get reference with
        | .error message => .error ⟨.credentialRequired, "credential lookup failed: ".toList ++ message⟩
        | .ok secret =>
          if secret = [] then .error ⟨.credentialRequired, "stored credential is empty".toList⟩
          else .ok (some secret)
    else .error ⟨.invalidConfiguration, "credential provider ".toList ++ reference.provider.debug ++
      " is not supported for SSH authentication".toList⟩

def resolveAuthMethods (f : Findings) (mode : AuthenticationMode) (privateKeyPath : Option Text)
    (authRef : Option CredentialRef) (suppliedSecret : Option (List UInt8)) :
    Except ConnectError (List AuthMethod) := do
  let secret ←
    match suppliedSecret with
    | some secret => .ok (some secret)
    | none => storedSecret f authRef
  match mode with
  | .password =>
    match secret with
    | some secret => .ok [.password secret]
    | none => .error ⟨.credentialRequired, "password is required".toList⟩
  | .publicKey =>
    let path := keyPath f privateKeyPath
    if f.isFile path then .ok [.publicKey path secret]
    else .error ⟨.invalidConfiguration, "private key does not exist: ".toList ++ path⟩
  | .sshAgent => .ok [.sshAgent]
  | .keyboardInteractive => .ok [.keyboardInteractive]

/-! ## The connect path -/

def loadHost : HostRow → Except ConnectError Host
  | .poisoned => .error statePoisoned
  | .error message => .error ⟨.internal, message⟩
  | .row none => .error ⟨.invalidConfiguration, "host does not exist".toList⟩
  | .row (some host) => .ok host

/-- The Tailscale runtime that the host wants Kodework to start. -/
def embeddedTailscale (host : Host) : Option TailscaleConfig :=
  host.tailscale.filter fun config => config.enabled && config.mode == .embeddedUserspace

/-- The auth key of the runtime, if it has one on this platform. -/
def tailscaleKey (f : Findings) (config : TailscaleConfig) :
    Except ConnectError (Option (List UInt8)) :=
  match config.authKeyRef.filter (isManagedReference f) with
  | none => .ok none
  | some reference =>
    if f.secrets.poisoned then .error statePoisoned
    else
      match f.secrets.get reference with
      | .error message => .error ⟨.tailscale, "Tailscale auth key lookup failed: ".toList ++ message⟩
      | .ok secret => .ok (some secret)

def startTailscale (f : Findings) (host : Host) : Except ConnectError Unit :=
  match embeddedTailscale host with
  | none => .ok ()
  | some config => do
    let key ← tailscaleKey f config
    match f.ensure config key with
    | .ok () => .ok ()
    | .error message => .error ⟨.tailscale, "Tailscale userspace startup failed: ".toList ++ message⟩

/-- `connect_host_inner_with_profile` up to the connect call. -/
def prepareConnect (f : Findings) (password : Option (List UInt8)) :
    Except ConnectError (List AuthMethod × Option (List AuthMethod)) := do
  let host ← loadHost f.secondRow
  match validateHost host with
  | .error error => throw ⟨.invalidConfiguration, "invalid host: ".toList ++ error.message⟩
  | .ok () => pure ()
  startTailscale f host
  let auth ← resolveAuthMethods f host.authMode host.privateKeyPath host.authRef
    (password.filter fun value => !value.isEmpty)
  match host.jump with
  | none => pure (auth, none)
  | some jump => do
    let jumpAuth ← resolveAuthMethods f jump.authMode jump.privateKeyPath jump.authRef none
    pure (auth, some jumpAuth)

/-- A guarded call runs by itself until it returns. -/
def runCall : ActiveSession → List ActiveSession.OpChoice → Option (ActiveSession × OpResult)
  | _, [] => none
  | s, c :: cs =>
    match s.opStep c with
    | none => none
    | some (t, .next op) => runCall { t with op := some op } cs
    | some (t, .done result) => if cs.isEmpty then some ({ t with op := none }, result) else none

/-- `connect_host_inner_with_profile`; `none` when `choices` is not a run of the
connect call. -/
def connectHostInnerWithProfile (f : Findings) (s : HostState) (password : Option (List UInt8))
    (registerReconnectProfile : Bool) : Option (HostState × Except ConnectError Text) :=
  match prepareConnect f password with
  | .error error => some (s, .error error)
  | .ok _ =>
    ((s.session.acquireGuard (.connect .resolve)).bind fun t => runCall t f.choices).bind fun r =>
      match r.2 with
      | .connected g => some ({ s with session := r.1, profile := s.profile || registerReconnectProfile },
          .ok ("connected; generation ".toList ++ Nat.toDigits 10 g))
      | .failed kind => some ({ s with session := r.1 }, .error ⟨kind, f.connectDetail⟩)
      | .disconnected => none

/-! ## The attempt -/

def canAttemptUnattended (host : Host) : Bool :=
  match host.authMode with
  | .password => host.authRef.isSome
  | .publicKey | .sshAgent => true
  | .keyboardInteractive => false

/-- `sessions.disconnect(host_id).await`. -/
def disconnect (s : ActiveSession) : Option ActiveSession :=
  (s.acquireGuard (.disconnect .reserve)).bind fun t =>
    (runCall t (List.replicate 11 .go)).map Prod.fst

def reconnectCancelled : ConnectError := ⟨.cancelled, "reconnect cancelled".toList⟩

def reconnectOnce (f : Findings) (s : HostState) : Option (HostState × Except ConnectError Text) :=
  match loadHost f.firstRow with
  | .error error => some (s, .error error)
  | .ok host =>
    if canAttemptUnattended host then
      if f.activeBefore then
        match connectHostInnerWithProfile f s none false with
        | none => none
        | some (t, .error error) => some (t, .error error)
        | some (t, .ok message) =>
          (Session.machine.run (fun _ a => Supervisor.unguarded a = true) t.session f.events).bind fun u =>
            if f.activeAfter ∧ u.controller.state = .ready then some ({ t with session := u }, .ok message)
            else (disconnect u).map fun v => ({ t with session := v }, .error reconnectCancelled)
      else some (s, .error reconnectCancelled)
    else some (s, .error ⟨.credentialRequired,
      "this authentication mode requires user interaction".toList⟩)

/-! ## The supervisor -/

/-- `reconnect_backoff`, in milliseconds. -/
def reconnectBackoff (attempt : Nat) : Nat := 1200 * (1 <<< min (attempt - 1) 4)

/-- What the supervisor does when an attempt has ended. -/
def completeAttempt (now : Nat) (result : Except ConnectError Text) (s : HostState) : HostState :=
  let s := { s with reconnecting := false }
  match result with
  | .ok _ => { s with schedule := none }
  | .error error =>
    if s.profile then
      if error.kind = .credentialRequired ∨ error.kind = .authentication then
        { s with session := s.session.markWaitingForCredential, schedule := none }
      else if error.kind.retryable then
        match s.session.controller.transition .reconnecting with
        | .error _ => { s with schedule := none }
        | .ok c =>
          let attempts := (s.schedule.map fun p => min (p.1 + 1) (UInt32.size - 1)).getD 1
          { s with
            session := { s.session with controller := c }
            schedule := some (attempts, now + reconnectBackoff attempts) }
      else { s with schedule := none }
    else s

/-- An attempt from its start to the end of the task the supervisor spawned. -/
def superviseAttempt (f : Findings) (now : Nat) (s : HostState) :
    Option (HostState × Except ConnectError Text) :=
  (reconnectOnce f { s with reconnecting := true }).map fun r => (completeAttempt now r.2 r.1, r.2)

/-- Whether a round of the supervisor at `now` starts an attempt. -/
def tickRetries (s : HostState) (now : Nat) : Bool :=
  s.profile && s.session.controller.state == .reconnecting &&
    (s.schedule.all fun p => p.2 ≤ now) && !s.reconnecting

end KW.Reconnect
