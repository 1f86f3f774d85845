import Mathlib.Tactic.Common

/-!
# Domain types and lifecycle relations

The identifiers, the connection states and the run states that the other
parts of the program share (`kodework-domain`), with the two relations that
say which state may follow which: `connectionTransition` for a session and
`runTransition` for a persisted run.
-/

namespace KW

/-- A workstation. Ids are UUIDs in the source; only their equality is used. -/
structure HostId where
  uuid : Nat
deriving DecidableEq, Repr

/-- A file transfer. -/
structure TransferId where
  uuid : Nat
deriving DecidableEq, Repr

/-- A persisted run of an action. -/
structure RunId where
  uuid : Nat
deriving DecidableEq, Repr

/-! ## Connection states -/

inductive ConnectionState
  | disconnected
  | resolvingAddress
  | connecting
  | verifyingHostKey
  | authenticating
  | waitingForCredential
  | ready
  | reconnecting
  | failed
deriving DecidableEq, Repr

/-- Whether a session may go from one connection state to another. Staying in
a state is not a transition; `ConnectionStateController.transition` allows it
separately. -/
def connectionTransition : ConnectionState → ConnectionState → Bool
  | .disconnected, .resolvingAddress | .failed, .resolvingAddress => true
  | .waitingForCredential, .resolvingAddress | .ready, .resolvingAddress => true
  | .failed, .waitingForCredential => true
  | .resolvingAddress, .connecting | .resolvingAddress, .resolvingAddress => true
  | .reconnecting, .connecting | .reconnecting, .resolvingAddress => true
  | .connecting, .verifyingHostKey | .connecting, .ready => true
  | .verifyingHostKey, .authenticating => true
  | .authenticating, .ready | .reconnecting, .ready | .waitingForCredential, .ready => true
  | .ready, .reconnecting | .ready, .disconnected => true
  | .authenticating, .disconnected | .authenticating, .failed => true
  | .waitingForCredential, .disconnected | .waitingForCredential, .failed => true
  | .reconnecting, .waitingForCredential | .reconnecting, .failed => true
  | .reconnecting, .disconnected => true
  | .resolvingAddress, .disconnected | .resolvingAddress, .failed => true
  | .connecting, .disconnected | .connecting, .failed => true
  | .verifyingHostKey, .disconnected | .verifyingHostKey, .failed => true
  | .failed, .reconnecting | .failed, .disconnected => true
  | _, _ => false

/-! ## Run states -/

/-- How an action is executed. -/
inductive ActionMode
  | interactive
  | quick
  | background
deriving DecidableEq, Repr

inductive RunStatus
  | created
  | confirming
  | queued
  | running
  | succeeded
  | failed
  | cancelled
  | timedOut
  | interrupted
  | unknown
deriving DecidableEq, Repr

/-- Whether a persisted run may go from one state to another. Terminal states
are final, and writing the state a run already has is always allowed. -/
def runTransition (current target : RunStatus) : Bool :=
  current == target ||
  match current, target with
  | .created, .confirming | .created, .queued | .created, .running | .created, .failed => true
  | .confirming, .queued | .confirming, .failed | .confirming, .cancelled => true
  | .queued, .running | .queued, .succeeded | .queued, .failed | .queued, .cancelled => true
  | .queued, .interrupted | .queued, .unknown => true
  | .running, .succeeded | .running, .failed | .running, .cancelled | .running, .timedOut => true
  | .running, .interrupted | .running, .unknown => true
  | .unknown, .running | .unknown, .succeeded | .unknown, .failed | .unknown, .cancelled => true
  | _, _ => false

/-- The states no transition leaves. -/
def RunStatus.terminal : RunStatus → Bool
  | .succeeded | .failed | .cancelled | .timedOut | .interrupted => true
  | _ => false

theorem runTransition_terminal {current target : RunStatus} (h : runTransition current target = true)
    (ht : current.terminal = true) : target = current := by
  cases current <;> cases target <;> simp_all [runTransition, RunStatus.terminal]

end KW
