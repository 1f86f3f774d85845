import KodeWork.Impl.Domain
import KodeWork.Impl.Host

/-!
# A host with all its columns

`Host`, `Address` and `AddressKind` of `kodework-domain` with every field, where the
records of `Impl/Host` keep those that the validation reads.
-/

namespace KW.HostRecord

structure AddressId where
  uuid : Nat
deriving DecidableEq, Repr

inductive AddressKind
  | lan
  | tailscale
  /-- `Public` -/
  | publicKind
  | jumpHost
  | manual
deriving DecidableEq, Repr

structure Address where
  id : AddressId
  kind : AddressKind
  hostnameOrIp : Text
  port : UInt16
  priority : Int32
  enabled : Bool
deriving DecidableEq, Repr

inductive RuntimeKind
  | tmux
  | herdr
  | plainShell
deriving DecidableEq, Repr

structure JumpHost where
  hostname : Text
  port : UInt16
  username : Text
  authRef : Option CredentialRef
  authMode : AuthenticationMode
  privateKeyPath : Option Text
deriving DecidableEq, Repr

structure Host where
  id : HostId
  label : Text
  username : Text
  port : UInt16
  authRef : Option CredentialRef
  authMode : AuthenticationMode
  privateKeyPath : Option Text
  defaultRemotePath : Text
  jump : Option JumpHost
  addresses : List Address
  tailscale : Option TailscaleConfig
  defaultRuntime : RuntimeKind
deriving DecidableEq, Repr

end KW.HostRecord
