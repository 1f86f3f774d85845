import KodeWork.Impl.HostKey.Broker
import KodeWork.Impl.KeyboardInteractive
import KodeWork.Impl.Reconnect

/-!
# The addresses of a host, one after the other

`connect_with_jump_auth_typed` of `kodework-core/src/session.rs` with
`SshConnection::connect` of `kodework-ssh/src/connection.rs` inlined: the loop
over the address candidates of a host, and for each of them the name lookup, the
TCP handshake, the key exchange with the host-key check, and the authentication
methods in turn; through a bastion, all of this twice. One step is one await, or
what the call does between two of them.

What an await gives is in the action (`Outcome`): the resolver, the network and
the server, the person who answers prompts, the agent and the key files. An
interactive budget or a deadline may elapse in any await it is around. The
lifecycle state of the session (`set_state`, `attach`) is that of
`Impl/Session`; here those calls work or are refused.

The fields `tried`, `interacted` and `offered` are read by no step; they record
what the statements are about.
-/

namespace KW.Connect

open Reconnect (AuthMethod ConnectError)
open Keyboard (KeyboardPrompt PromptArgs)

/-! ## Errors -/

inductive IoErrorKind
  | connectionRefused
  | timedOut
  | hostUnreachable
  | networkUnreachable
  | notFound
  | other
deriving DecidableEq, Repr

/-- `io::Error`, with its text. -/
structure IoError where
  kind : IoErrorKind
  message : String
deriving DecidableEq, Repr

/-- `From<io::Error> for SshError`. -/
def sshErrorOfIo (error : IoError) : SshError :=
  match error.kind with
  | .connectionRefused => .connectionRefused
  | .timedOut => .timeout
  | .hostUnreachable | .networkUnreachable => .unreachable
  | .notFound => .invalidConfiguration ("path not found: " ++ error.message)
  | .other => .io error.message

/-- `russh::Error`; the cases that are not told apart have their text. -/
inductive RusshError
  | connectionTimeout
  | keepaliveTimeout
  | inactivityTimeout
  | io (error : IoError)
  | keyChanged
  | hup
  | other (message : String)
deriving DecidableEq, Repr

/-- `From<russh::Error> for SshError`. -/
def sshErrorOfRussh : RusshError → SshError
  | .connectionTimeout | .keepaliveTimeout | .inactivityTimeout => .timeout
  | .io error => sshErrorOfIo error
  | .keyChanged => .hostKeyChanged
  | .hup => .channelClosed
  | .other message => .protocol message

/-- `russh::keys::Error`: whether it is `KeyIsEncrypted`, and its text. -/
structure KeysError where
  keyIsEncrypted : Bool
  message : String
deriving DecidableEq, Repr

/-- `From<russh::keys::Error> for SshError`. -/
def sshErrorOfKeys (error : KeysError) : SshError :=
  .invalidConfiguration ("key error: " ++ error.message)

/-- How a host-key check fails: `check_server_key` and `verify_for_connection`. -/
inductive HostKeyFailure
  | certificate
  | storeUnavailable (message : String)
  | changed
  | poisoned
  | rejected
  | decisionTimeout
  /-- the key the user trusts is not saved -/
  | saveFailed (message : String)
deriving DecidableEq, Repr

def HostKeyFailure.error : HostKeyFailure → SshError
  | .certificate => .protocol "server offered a host certificate; only pinned host keys are trusted"
  | .storeUnavailable message => .hostKeyStoreUnavailable message
  | .changed => .hostKeyChanged
  | .poisoned => HostKey.HostKeyBroker.brokerPoisoned
  | .rejected => .hostKeyRejected
  | .decisionTimeout => .hostKeyDecisionTimeout
  | .saveFailed message => .invalidConfiguration message

/-- `Display` of `SshError`. -/
def displaySshError : SshError → Text
  | .hostKeyChanged => "host key changed; connection blocked".toList
  | .hostKeyRejected => "host key was rejected".toList
  | .hostKeyDecisionTimeout => "host key decision timed out".toList
  | .hostKeyStoreUnavailable message => "host-key trust store unavailable: ".toList ++ message.toList
  | .authenticationFailed => "authentication failed".toList
  | .credentialRequired message => "authentication credential is required: ".toList ++ message.toList
  | .authMethodUnavailable message => "authentication method is unavailable: ".toList ++ message.toList
  | .timeout => "connection timed out".toList
  | .connectionRefused => "connection refused by the remote host".toList
  | .unreachable => "remote host is unreachable".toList
  | .nameResolution message => "host name resolution failed: ".toList ++ message.toList
  | .cancelled => "connection was cancelled".toList
  | .invalidConfiguration message => "invalid configuration: ".toList ++ message.toList
  | .protocol message => "ssh protocol error: ".toList ++ message.toList
  | .io message => "io error: ".toList ++ message.toList
  | .missingExitStatus => "remote process ended without an exit status".toList
  | .channelClosed => "channel closed by server".toList

/-- `From<SshError> for ConnectError`. -/
def connectErrorOfSsh (error : SshError) : ConnectError :=
  ⟨.ofSshError error, displaySshError error⟩

/-! ## Options -/

structure ProxySpec where
  program : Text
  args : List Text
deriving DecidableEq, Repr

structure AddressCandidate where
  address : Address
  proxy : Option ProxySpec
deriving DecidableEq, Repr

structure JumpSpec where
  hostname : Text
  port : Nat
  username : Text
  auth : List AuthMethod
deriving DecidableEq, Repr

structure ConnectionOptions where
  hostname : Text
  port : Nat
  username : Text
  uiOwnerHostId : Option HostId
  auth : List AuthMethod
  generation : Nat
  jump : Option JumpSpec
  proxy : Option ProxySpec
deriving DecidableEq, Repr

/-- Which of the connections of one attempt a step is about: the only one, that
to the bastion, or that to the target through the bastion. -/
inductive Hop
  | direct
  | bastion
  | target
deriving DecidableEq, Repr

/-! ## One address -/

/-- Where `authenticate` stands with the method it is trying. -/
inductive AuthPc
  /-- the head of the loop over the methods -/
  | method
  /-- `authenticate_password(..).await` -/
  | password
  /-- `load_secret_key(key_path, passphrase)` -/
  | loadKey (hadPassphrase : Bool) (key : AuthMethod)
  /-- `best_supported_rsa_hash().await` -/
  | rsaHash (key : AuthMethod)
  /-- `authenticate_publickey(..).await` -/
  | publicKey
  /-- `connect_named_pipe(..).await` -/
  | agentPipe
  /-- `connect_pageant().await` -/
  | agentPageant (openSshError : String)
  /-- `request_identities().await` -/
  | agentIdentities
  /-- `best_supported_rsa_hash().await`, with the identities left -/
  | agentHash (identities : Nat)
  /-- `authenticate_publickey_with(..).await`, with the identities left -/
  | agentSign (identities : Nat)
  /-- `authenticate_keyboard_interactive_start(..).await` or `.._respond(..).await` -/
  | keyboard
  /-- `prompt_for_connection(..).await` -/
  | prompt (args : PromptArgs)
deriving DecidableEq, Repr

/-- Whether it is at an await, which the interactive budget may end. -/
def AuthPc.waits : AuthPc → Bool
  | .method | .loadKey .. => false
  | _ => true

/-- Where `SshConnection::connect` stands. -/
inductive DialPc
  /-- the checks of the options -/
  | check
  /-- `spawn_proxy_stream` -/
  | spawn
  /-- `lookup_host(..).await` -/
  | lookup (hop : Hop)
  /-- the head of the loop over the addresses found, or `TcpStream::connect(address).await` -/
  | tcp (hop : Hop) (addresses : Nat) (lastError : SshError)
  /-- `connect_stream(..).await`, up to the host-key check -/
  | exchange (hop : Hop)
  /-- in the host-key check: the user has been asked -/
  | decision (hop : Hop)
  /-- `connect_stream(..).await`, after the host-key check -/
  | exchanged (hop : Hop)
  /-- `authenticate(..).await`, with the methods left and `specific_error` -/
  | auth (hop : Hop) (methods : List AuthMethod) (specificError : Option SshError) (pc : AuthPc)
  /-- `forward_channel(..).await` -/
  | forward
deriving DecidableEq, Repr

/-- What a host-key check finds before it asks anybody. -/
inductive HostKeyCheck
  | trusted
  | unknown
  | refused (failure : HostKeyFailure)
deriving DecidableEq, Repr

/-- How `prompt_for_connection` ends. -/
inductive PromptResult
  | answered (responses : List String)
  | cancelled
  | timedOut
deriving DecidableEq, Repr

/-- What an await gives. -/
inductive Outcome
  /-- it succeeds, or there is nothing to wait for -/
  | go
  /-- `set_state` or `attach` fails -/
  | refused (detail : Text)
  | candidates (candidates : List AddressCandidate)
  | generation (generation : Nat)
  /-- the timeout around it elapses -/
  | elapsed
  | addresses (n : Nat)
  /-- the text of an error of the lookup, the proxy or the agent -/
  | failure (message : String)
  | io (error : IoError)
  | russh (error : RusshError)
  | poisoned
  | hostKey (check : HostKeyCheck)
  | decided (result : Except HostKeyFailure Unit)
  | reply (success : Bool)
  | keyError (error : KeysError)
  | identities (n : Nat)
  | infoRequest (name instructions : String) (prompts : List KeyboardPrompt)
  | prompted (result : PromptResult)
deriving DecidableEq, Repr

/-- What one step of an attempt comes to. -/
inductive Move
  | goto (pc : DialPc)
  /-- from here on a person or a credential is involved -/
  | interact (pc : DialPc)
  /-- a credential is sent: a password, a signature, the answers to a prompt -/
  | offer (method : AuthMethod) (pc : DialPc)
  | connected
  | fail (error : SshError)
deriving DecidableEq, Repr

def invalid (message : String) : Move := .fail (.invalidConfiguration message)

/-- The checks at the head of `connect_direct`. -/
def connectDirect (hop : Hop) (hostname : Text) (port : Nat) (username : Text)
    (auth : List AuthMethod) (proxy : Option ProxySpec) : Move :=
  if Text.isBlank hostname || port == 0 then invalid "hostname must not be empty and port must be non-zero"
  else if Text.isBlank username then invalid "username must not be empty"
  else if auth.isEmpty then invalid "at least one auth method required"
  else if proxy.isSome then .goto .spawn
  else .goto (.lookup hop)

/-- `connect` up to its first await. -/
def connect (o : ConnectionOptions) : Move :=
  match o.jump with
  | none => connectDirect .direct o.hostname o.port o.username o.auth o.proxy
  | some jump =>
    if o.proxy.isSome then invalid "proxy transport cannot be combined with a jump host"
    else if Text.isBlank jump.hostname || jump.port == 0 || Text.isBlank jump.username then
      invalid "jump host requires hostname, port and username"
    else if jump.auth.isEmpty then invalid "jump host requires at least one auth method"
    else connectDirect .bastion jump.hostname jump.port jump.username jump.auth none

/-- The methods `authenticate` tries on a hop. -/
def ConnectionOptions.authOf (o : ConnectionOptions) : Hop → List AuthMethod
  | .direct | .target => o.auth
  | .bastion => (o.jump.map (·.auth)).getD []

/-- `authenticate` has succeeded on a hop. -/
def authenticated : Hop → Move
  | .direct | .target => .connected
  | .bastion => .goto .forward

def isUtf8 (bytes : List UInt8) : Bool := ByteArray.validateUTF8 ⟨bytes.toArray⟩

def passwordNotUtf8 : SshError := .invalidConfiguration "password is not valid UTF-8"

def passphraseNotUtf8 : SshError := .invalidConfiguration "private-key passphrase is not valid UTF-8"

def agentUnavailable : SshError :=
  .authMethodUnavailable "Windows SSH agent authentication is only available on Windows"

/-- One step of `authenticate` on a hop: `methods` are left after the one it is
trying, and `specific` is what the methods before left in `specific_error`. -/
def authStep (windows : Bool) (o : ConnectionOptions) (hop : Hop) (methods : List AuthMethod)
    (specific : Option SshError) : AuthPc → Outcome → Option Move :=
  let here (pc : AuthPc) : DialPc := .auth hop methods specific pc
  -- `continue`, with `specific_error.get_or_insert(error)`
  let next (error : Option SshError) : DialPc := .auth hop methods (specific.or error) .method
  let after (success : Bool) : Move := if success then authenticated hop else .goto (next none)
  fun
  | .method, .go =>
    match methods with
    | [] => some (.fail (specific.getD .authenticationFailed))
    | .password secret :: rest =>
      if isUtf8 secret then some (.offer (.password secret) (.auth hop rest specific .password))
      else some (.goto (.auth hop rest (specific.or (some passwordNotUtf8)) .method))
    | .publicKey path passphrase :: rest =>
      if passphrase.all isUtf8 then
        some (.goto (.auth hop rest specific (.loadKey passphrase.isSome (.publicKey path passphrase))))
      else some (.goto (.auth hop rest (specific.or (some passphraseNotUtf8)) .method))
    | .sshAgent :: rest =>
      if windows then some (.goto (.auth hop rest specific .agentPipe))
      else some (.goto (.auth hop rest (specific.or (some agentUnavailable)) .method))
    | .keyboardInteractive :: rest => some (.goto (.auth hop rest specific .keyboard))
  | .password, .reply success => some (after success)
  | .loadKey _ key, .go => some (.goto (here (.rsaHash key)))
  | .loadKey hadPassphrase _, .keyError error =>
    if error.keyIsEncrypted ∧ hadPassphrase = false then
      some (.fail (.credentialRequired "private-key passphrase"))
    else some (.goto (next (some (sshErrorOfKeys error))))
  | .rsaHash key, .go => some (.offer key (here .publicKey))
  | .publicKey, .reply success => some (after success)
  | .agentPipe, .go => some (.goto (here .agentIdentities))
  | .agentPipe, .failure message => some (.goto (here (.agentPageant message)))
  | .agentPageant _, .go => some (.goto (here .agentIdentities))
  | .agentPageant openSshError, .failure message =>
    some (.goto (next (some (.invalidConfiguration ("no usable Windows SSH agent (OpenSSH: " ++
      openSshError ++ "; Pageant: " ++ message ++ ")")))))
  | .agentIdentities, .identities 0 =>
    some (.goto (next (some (.invalidConfiguration "SSH agent contains no identities"))))
  | .agentIdentities, .identities n => some (.goto (here (.agentHash n)))
  | .agentIdentities, .failure message =>
    some (.goto (next (some (.protocol ("SSH agent identity request failed: " ++ message)))))
  | .agentHash n, .go => some (.offer .sshAgent (here (.agentSign (n - 1))))
  | .agentHash _, .russh error => some (.goto (next (some (sshErrorOfRussh error))))
  | .agentSign _, .reply true => some (authenticated hop)
  | .agentSign 0, .reply false => some (.goto (next none))
  | .agentSign (n + 1), .reply false => some (.goto (here (.agentHash (n + 1))))
  | .agentSign _, .failure message =>
    some (.goto (next (some (.protocol ("SSH agent signing failed: " ++ message)))))
  | .keyboard, .reply success => some (after success)
  | .keyboard, .infoRequest name instructions prompts =>
    if 32 < prompts.length then some (.fail Keyboard.KeyboardInteractiveBroker.tooManyPrompts)
    else some (.goto (here (.prompt ⟨o.uiOwnerHostId, o.generation, name, instructions, prompts⟩)))
  | .prompt args, .prompted (.answered responses) =>
    if responses.length = args.prompts.length then some (.offer .keyboardInteractive (here .keyboard))
    else some (invalid "keyboard-interactive response count mismatch")
  | .prompt _, .prompted .cancelled => some (.fail .cancelled)
  | .prompt _, .prompted .timedOut => some (.fail .timeout)
  | .password, .russh error | .rsaHash _, .russh error | .publicKey, .russh error
  | .keyboard, .russh error => some (.fail (sshErrorOfRussh error))
  | pc, .elapsed => if pc.waits then some (.fail .timeout) else none
  | _, _ => none

/-- One step of `SshConnection::connect`. -/
def dialStep (windows : Bool) (o : ConnectionOptions) : DialPc → Outcome → Option Move
  | .check, .go => some (connect o)
  | .spawn, .go => some (.goto (.exchange .direct))
  | .spawn, .failure message => some (.fail (.io message))
  | .lookup _, .addresses 0 => some (.fail (.nameResolution "resolver returned no addresses"))
  | .lookup hop, .addresses n => some (.goto (.tcp hop n .unreachable))
  | .lookup _, .failure message => some (.fail (.nameResolution message))
  | .lookup _, .elapsed => some (.fail .timeout)
  | .tcp _ 0 lastError, .go => some (.fail lastError)
  | .tcp hop (_ + 1) _, .go => some (.goto (.exchange hop))
  | .tcp hop (n + 1) _, .io error => some (.goto (.tcp hop n (sshErrorOfIo error)))
  | .tcp _ (_ + 1) _, .elapsed => some (.fail .timeout)
  | .exchange hop, .hostKey .trusted => some (.goto (.exchanged hop))
  | .exchange hop, .hostKey .unknown => some (.interact (.decision hop))
  | .exchange _, .hostKey (.refused failure) => some (.fail failure.error)
  | .exchange _, .russh error => some (.fail (sshErrorOfRussh error))
  | .exchange _, .elapsed => some (.fail .timeout)
  | .decision hop, .decided (.ok ()) => some (.goto (.exchanged hop))
  | .decision _, .decided (.error failure) => some (.fail failure.error)
  | .decision _, .elapsed => some (.fail .timeout)
  | .exchanged hop, .go => some (.interact (.auth hop (o.authOf hop) none .method))
  | .exchanged _, .russh error => some (.fail (sshErrorOfRussh error))
  | .exchanged _, .elapsed => some (.fail .timeout)
  | .auth hop methods specific pc, a => authStep windows o hop methods specific pc a
  | .forward, .go => some (.goto (.exchange .target))
  | .forward, .russh error => some (.fail (sshErrorOfRussh error))
  | .forward, .poisoned => some (.fail .cancelled)
  | _, _ => none

/-! ## The addresses -/

/-- Where `connect_with_jump_auth_typed` stands. -/
inductive Pc
  /-- `set_state(ResolvingAddress)` -/
  | resolving
  /-- `resolver.candidates(host).await` -/
  | candidates
  /-- `next_generation` -/
  | reserve
  /-- the credentials of the jump host -/
  | jumpAuth
  /-- the head of the loop; `set_state(Connecting)` -/
  | next
  /-- `SshConnection::connect(options).await` -/
  | dial (options : ConnectionOptions) (pc : DialPc)
  | attach
  /-- `set_state(Ready)` -/
  | setReady
  /-- `set_state(Failed)`, then the error is returned -/
  | setFailed (error : ConnectError)
  | returned (result : Except ConnectError Nat)
deriving DecidableEq, Repr

/-- A credential sent while the address numbered `attempt` was tried. -/
structure Offer where
  attempt : Nat
  hop : Hop
  method : AuthMethod
deriving DecidableEq, Repr

/-- A call of `connect_with_jump_auth_typed`. -/
structure ConnectCall where
  hostId : HostId
  host : Host
  auth : List AuthMethod
  jumpAuth : Option (List AuthMethod)
  /-- The build is for Windows. -/
  windows : Bool
  pc : Pc
  generation : Nat
  /-- What the resolver returned, and the part of it the loop has left. -/
  candidates : List AddressCandidate
  left : List AddressCandidate
  lastError : ConnectError
  tried : List AddressCandidate
  /-- The attempt has asked the user about a host key, or authentication has begun. -/
  interacted : Bool
  offered : List Offer

def ConnectCall.new (hostId : HostId) (host : Host) (auth : List AuthMethod)
    (jumpAuth : Option (List AuthMethod)) (windows : Bool) : ConnectCall where
  hostId := hostId
  host := host
  auth := auth
  jumpAuth := jumpAuth
  windows := windows
  pc := .resolving
  generation := 0
  candidates := []
  left := []
  lastError := ⟨.internal, "no candidate attempted".toList⟩
  tried := []
  interacted := false
  offered := []

namespace ConnectCall

def invalidConfiguration (message : String) : ConnectError := ⟨.invalidConfiguration, message.toList⟩

/-- The options for a candidate. -/
def optionsFor (s : ConnectCall) (candidate : AddressCandidate) : ConnectionOptions where
  hostname := candidate.address.hostnameOrIp
  port := candidate.address.port
  username := s.host.username
  uiOwnerHostId := some s.hostId
  auth := s.auth
  generation := s.generation
  jump := s.host.jump.map fun jump => ⟨jump.hostname, jump.port, jump.username, s.jumpAuth.getD []⟩
  proxy := if s.host.jump.isNone then candidate.proxy else none

/-- The call returns the error of `set_state` or `attach`. -/
def stateRefused (s : ConnectCall) (detail : Text) : ConnectCall :=
  { s with pc := .returned (.error ⟨.internal, detail⟩) }

/-- The loop goes on with the next candidate. -/
def tryNext (s : ConnectCall) (candidate : AddressCandidate) (left : List AddressCandidate) :
    ConnectCall :=
  { s with
    pc := .dial (s.optionsFor candidate) .check
    left := left
    tried := s.tried ++ [candidate]
    interacted := false }

/-- `SshConnection::connect` has failed. -/
def failed (s : ConnectCall) (o : ConnectionOptions) (error : SshError) : ConnectCall :=
  let lastError := connectErrorOfSsh error
  { s with
    lastError := lastError
    pc :=
      if addressFallbackIsRetryable error then .next
      else .setFailed ⟨lastError.kind,
        "candidate ".toList ++ o.hostname ++ ": ".toList ++ lastError.detail⟩ }

def hopOf : DialPc → Hop
  | .check | .spawn => .direct
  | .lookup hop | .tcp hop .. | .exchange hop | .decision hop | .exchanged hop | .auth hop .. => hop
  | .forward => .bastion

def apply (s : ConnectCall) (o : ConnectionOptions) : Move → ConnectCall
  | .goto pc => { s with pc := .dial o pc }
  | .interact pc => { s with pc := .dial o pc, interacted := true }
  | .offer method pc =>
    { s with
      pc := .dial o pc
      offered := s.offered ++ [⟨s.tried.length, hopOf pc, method⟩] }
  | .connected => { s with pc := .attach }
  | .fail error => s.failed o error

end ConnectCall

open ConnectCall

/-- Whether the credentials a jump host needs are there. -/
def jumpReady (s : ConnectCall) : Bool :=
  s.host.jump.isNone || s.jumpAuth.any fun auth => !auth.isEmpty

def step (s : ConnectCall) (a : Outcome) : Option ConnectCall :=
  match s.pc, a with
  | .resolving, .go => some { s with pc := .candidates }
  | .candidates, .candidates candidates =>
    if candidates.isEmpty then
      some { s with pc := .setFailed (invalidConfiguration "no enabled address candidates") }
    else some { s with pc := .reserve, candidates := candidates, left := candidates }
  | .reserve, .generation g => some { s with pc := .jumpAuth, generation := g }
  | .jumpAuth, .go =>
    if jumpReady s then some { s with pc := .next }
    else some { s with pc := .setFailed (invalidConfiguration
      "jump host requires its own credentials; target credentials are never reused") }
  | .next, a =>
    match s.left, a with
    | [], .go => some { s with pc := .setFailed ⟨s.lastError.kind,
        "all candidates failed: ".toList ++ s.lastError.detail⟩ }
    | candidate :: left, .go => some (s.tryNext candidate left)
    | _ :: _, .refused detail => some (s.stateRefused detail)
    | _, _ => none
  | .dial o pc, a => (dialStep s.windows o pc a).map (s.apply o)
  | .attach, .go => some { s with pc := .setReady }
  | .setReady, .go => some { s with pc := .returned (.ok s.generation) }
  | .setFailed error, .go => some { s with pc := .returned (.error error) }
  | .resolving, .refused detail | .attach, .refused detail | .setReady, .refused detail
  | .setFailed _, .refused detail => some (s.stateRefused detail)
  | _, _ => none

def machine : Machine ConnectCall Outcome := ⟨step⟩

/-- A call for any host, with any credentials, on any platform. -/
def Initial (s : ConnectCall) : Prop :=
  ∃ hostId host auth jumpAuth windows, s = .new hostId host auth jumpAuth windows

end KW.Connect
