import KodeWork.Framework.Machine
import KodeWork.Impl.Domain

/-!
# Pausing a transfer

`wait_while_paused` of `kodework-sftp/src/manager.rs` and the calls that are to
end the wait, as a machine. A step is one atomic access, one creation of a
`Notified` future or one `notify_waiters`; the calls and the workers run on
different threads, so any two steps of them may be interleaved.

A worker waits before its attempt and before every chunk; what it does in
between, and how its transfer ends, is the environment's choice. After a wait it
looks at `cancelled` and at `pump_alive`, in this order, in all three places.
`notify_waiters` wakes the futures that exist when it is called, and stores
nothing for later ones.
-/

namespace KW.Transfer.Pause

/-- Where a worker stands. -/
inductive WaitPc
  /-- between two waits -/
  | transferring
  /-- `paused.load` at the head of the loop -/
  | load
  /-- `paused` was set: `resume_notify.notified()` -/
  | register
  /-- `notified.await`; `woken` says that the future has been notified -/
  | parked (woken : Bool)
  /-- `cancelled.load` after the wait -/
  | checkCancelled
  /-- `pump_alive.load` after the wait -/
  | checkPump
  | stopped
deriving DecidableEq, Repr

/-- Where a call of `resume` or of `cancel` stands. -/
inductive ControlPc
  /-- `resume`: `paused.store(false)` -/
  | storeResumed
  /-- `cancel`: `cancelled.store(true)` -/
  | storeCancelled
  /-- `resume_notify.notify_waiters()` -/
  | notify
  | returned
deriving DecidableEq, Repr

/-- The controls of one transfer, its workers and the calls on it. -/
structure PauseState where
  paused : Bool
  cancelled : Bool
  pumpAlive : Bool
  workers : List WaitPc
  calls : List ControlPc
deriving DecidableEq, Repr

def PauseState.new : PauseState where
  paused := false
  cancelled := false
  pumpAlive := true
  workers := []
  calls := []

/-- `notify_waiters`: every future that exists is woken. -/
def WaitPc.wake : WaitPc → WaitPc
  | .parked _ => .parked true
  | pc => pc

namespace PauseState

/-- The next place of a worker; `none` while it sleeps. -/
def workerNext (s : PauseState) : WaitPc → Option WaitPc
  | .transferring => some .load
  | .load => if s.paused then some .register else some .checkCancelled
  | .register => some (.parked false)
  | .parked true => some .load
  | .parked false => none
  | .checkCancelled => if s.cancelled then some .stopped else some .checkPump
  | .checkPump => if s.pumpAlive then some .transferring else some .stopped
  | .stopped => none

/-- One step of the call numbered `c`. -/
def callStep (s : PauseState) (c : Nat) : ControlPc → Option PauseState
  | .storeResumed => some { s with paused := false, calls := s.calls.set c .notify }
  | .storeCancelled => some { s with cancelled := true, calls := s.calls.set c .notify }
  | .notify => some { s with workers := s.workers.map WaitPc.wake, calls := s.calls.set c .returned }
  | .returned => none

end PauseState

inductive Action
  /-- a worker of the transfer starts `attempt_transfer` -/
  | start
  | pause
  | resume
  | cancel
  | eventPumpStopped
  | call (c : Nat)
  | worker (i : Nat)
  /-- the transfer of a worker ends -/
  | finish (i : Nat)
deriving DecidableEq, Repr

def step (s : PauseState) : Action → Option PauseState
  | .start => some { s with workers := s.workers ++ [.load] }
  | .pause => some { s with paused := true }
  | .resume => some { s with calls := s.calls ++ [.storeResumed] }
  | .cancel => some { s with calls := s.calls ++ [.storeCancelled] }
  | .eventPumpStopped => some { s with pumpAlive := false }
  | .call c => s.calls[c]?.bind fun pc => s.callStep c pc
  | .worker i => s.workers[i]?.bind fun pc =>
    (s.workerNext pc).map fun pc' => { s with workers := s.workers.set i pc' }
  | .finish i =>
    if s.workers[i]? = some .transferring then some { s with workers := s.workers.set i .stopped } else none

def machine : Machine PauseState Action := ⟨step⟩

def Initial (s : PauseState) : Prop := s = .new

theorem init_new : Initial .new := rfl

end KW.Transfer.Pause
