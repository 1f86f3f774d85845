import Mathlib.Tactic.Common

/-!
# Connection errors

`SshError` (`kodework-ssh`), which of its cases allow the next address
candidate to be tried (`addressFallbackIsRetryable`), and the typed kinds the
session manager and the supervisor act on (`ConnectErrorKind`).
-/

namespace KW

inductive SshError
  | hostKeyChanged
  | hostKeyRejected
  | hostKeyDecisionTimeout
  | hostKeyStoreUnavailable (message : String)
  | authenticationFailed
  | credentialRequired (message : String)
  | authMethodUnavailable (message : String)
  | timeout
  | connectionRefused
  | unreachable
  | nameResolution (message : String)
  | cancelled
  | invalidConfiguration (message : String)
  | protocol (message : String)
  | io (message : String)
  | missingExitStatus
  | channelClosed
deriving DecidableEq, Repr

/-- Whether another address of the same host may be tried after the error. -/
def addressFallbackIsRetryable : SshError → Bool
  | .timeout | .connectionRefused | .unreachable | .nameResolution _ => true
  | _ => false

inductive ConnectErrorKind
  | network
  | timeout
  | tailscale
  | authentication
  | credentialRequired
  | hostKey
  | invalidConfiguration
  | cancelled
  | protocol
  | internal
deriving DecidableEq, Repr

/-- Whether the supervisor keeps retrying after an error of this kind. -/
def ConnectErrorKind.retryable : ConnectErrorKind → Bool
  | .network | .timeout | .tailscale => true
  | _ => false

/-- The kind of `From<SshError> for ConnectError`. -/
def ConnectErrorKind.ofSshError : SshError → ConnectErrorKind
  | .timeout => .timeout
  | .connectionRefused | .unreachable | .nameResolution _ => .network
  | .authenticationFailed => .authentication
  | .credentialRequired _ => .credentialRequired
  | .hostKeyChanged | .hostKeyRejected | .hostKeyDecisionTimeout | .hostKeyStoreUnavailable _ =>
    .hostKey
  | .cancelled => .cancelled
  | .invalidConfiguration _ | .authMethodUnavailable _ => .invalidConfiguration
  | .protocol _ | .missingExitStatus | .channelClosed => .protocol
  | .io _ => .internal

end KW
