import KodeWork.Impl.Text
import KodeWork.Impl.Domain

/-!
# Host records

`Host` of `kodework-domain` with what it refers to, and `validate_host`. The
columns that no modelled function reads (the ids and kinds of addresses, their
priorities, the default runtime) are left out; a row is always looked up by its
id, which is therefore not a field.
-/

namespace KW

inductive CredentialProvider
  | windowsCredentialManager
  | dpapiFile
  | nativeKeyring
  | test
deriving DecidableEq, Repr

/-- The name of the variant, as `Debug` prints it. -/
def CredentialProvider.debug : CredentialProvider → Text
  | .windowsCredentialManager => "WindowsCredentialManager".toList
  | .dpapiFile => "DpapiFile".toList
  | .nativeKeyring => "NativeKeyring".toList
  | .test => "Test".toList

/-- An opaque reference into the store of a provider. -/
structure CredentialRef where
  provider : CredentialProvider
  opaqueId : Text
deriving DecidableEq, Repr

inductive AuthenticationMode
  | password
  | publicKey
  | sshAgent
  | keyboardInteractive
deriving DecidableEq, Repr

inductive TailscaleMode
  | disabled
  | systemDaemon
  | embeddedUserspace
deriving DecidableEq, Repr

structure TailscaleConfig where
  enabled : Bool
  mode : TailscaleMode
  deviceName : Option Text
  authKeyRef : Option CredentialRef
  stateDir : Option Text
deriving DecidableEq, Repr

structure Address where
  hostnameOrIp : Text
  port : Nat
deriving DecidableEq, Repr

structure JumpHost where
  hostname : Text
  port : Nat
  username : Text
  authRef : Option CredentialRef
  authMode : AuthenticationMode
  privateKeyPath : Option Text
deriving DecidableEq, Repr

structure Host where
  label : Text
  username : Text
  port : Nat
  authRef : Option CredentialRef
  authMode : AuthenticationMode
  privateKeyPath : Option Text
  defaultRemotePath : Text
  jump : Option JumpHost
  addresses : List Address
  tailscale : Option TailscaleConfig
deriving DecidableEq, Repr

inductive DomainError
  | emptyField (field : Text)
  | invalidPort
  | unsafeAddress
  | invalidRemotePath
deriving DecidableEq, Repr

/-- The text of `DomainError`'s `Display`. -/
def DomainError.message : DomainError → Text
  | .emptyField field => field ++ " must not be empty".toList
  | .invalidPort => "port must be between 1 and 65535".toList
  | .unsafeAddress => "address contains shell control characters".toList
  | .invalidRemotePath =>
    "remote path must be ~, absolute, or start with ~/ and must not contain control characters".toList

/-- `is_shell_control`: blanks, `;`, `|`, `&`, the backquote and `$`. -/
def isShellControl (c : Char) : Bool :=
  [' ', '\t', '\r', '\n', ';', '|', '&', Char.ofNat 0x60, '$'].contains c

def validateRemotePath (path : Text) : Except DomainError Unit :=
  if !(path == ['~'] || Text.startsWith path ['~', '/'] || Text.startsWith path ['/']) ||
      path.any Text.isControl ||
      (path.splitOn '/').any fun component => component == ['.'] || component == ['.', '.']
    then .error .invalidRemotePath
  else .ok ()

def validateAddress (address : Address) : Except DomainError Unit :=
  if Text.isBlank address.hostnameOrIp then .error (.emptyField "address".toList)
  else if address.port = 0 then .error .invalidPort
  else if address.hostnameOrIp.any isShellControl then .error .unsafeAddress
  else .ok ()

def validateJump (jump : JumpHost) : Except DomainError Unit :=
  if Text.isBlank jump.hostname || Text.isBlank jump.username then .error (.emptyField "jump host".toList)
  else if jump.port = 0 then .error .invalidPort
  else if jump.hostname.any isShellControl || jump.username.any isShellControl then .error .unsafeAddress
  else .ok ()

def validateHost (host : Host) : Except DomainError Unit := do
  if Text.isBlank host.label then throw (.emptyField "label".toList)
  if host.label.any Text.isControl then throw .unsafeAddress
  if Text.isBlank host.username then throw (.emptyField "username".toList)
  if host.username.any isShellControl then throw .unsafeAddress
  if !Text.startsWith host.defaultRemotePath ['/'] then throw .invalidRemotePath
  validateRemotePath host.defaultRemotePath
  if host.port = 0 then throw .invalidPort
  for address in host.addresses do
    validateAddress address
  match host.jump with
  | some jump => validateJump jump
  | none => pure ()

end KW
