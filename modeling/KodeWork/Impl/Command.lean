import KodeWork.Framework.Machine
import KodeWork.Impl.Error
import KodeWork.Impl.History.Commands

/-!
# A remote command

`run_command_tracked` of `kodework-ssh/src/connection.rs`: one exec channel, its messages
and the deadline of the whole call. What the transport and the server do is the event of
a step; the deadline can fire wherever the call waits.

`ActionRunError::from_command` of `kodework-core/src/session/run.rs` keeps of an error
whether the request may have been dispatched, which decides what is persisted of the
run (`History.runUpdate`).
-/

namespace KW.Command

/-- `russh::ChannelMsg`; the messages that are ignored are one. -/
inductive ChannelMsg
  | success
  | failure
  | data (data : List UInt8)
  | extendedData (data : List UInt8) (ext : UInt32)
  | exitStatus (exitStatus : UInt32)
  | eof
  | close
  | other
deriving DecidableEq, Repr

structure CommandOutput where
  stdout : List UInt8
  stderr : List UInt8
  exitCode : Option Int32
  stdoutTruncated : Bool
  stderrTruncated : Bool
deriving DecidableEq, Repr

structure CommandExecutionError where
  source : SshError
  dispatched : Bool
deriving DecidableEq, Repr

/-- What the loop over the messages keeps. -/
structure Reader where
  stdout : List UInt8
  stderr : List UInt8
  stdoutTruncated : Bool
  stderrTruncated : Bool
  exitCode : Option UInt32
  sawEof : Bool
deriving DecidableEq, Repr

def Reader.new : Reader := ⟨[], [], false, false, none, false⟩

/-- Where the call waits. -/
inductive Pc
  /-- `channel_open_session().await` -/
  | opening
  /-- `channel.exec(..).await` -/
  | sending
  /-- `channel.wait().await` -/
  | reading (r : Reader)
  | returned (result : Except CommandExecutionError CommandOutput)
deriving DecidableEq, Repr

structure Call where
  /-- the `AtomicBool` -/
  dispatched : Bool
  pc : Pc
deriving DecidableEq, Repr

def Call.new : Call := ⟨false, .opening⟩

inductive Event
  /-- the channel is open, or is not; `poisoned` says so of the lock of the filtered channels -/
  | opened (result : Except SshError Unit) (poisoned : Bool)
  /-- the exec request is handed to the transport, or is not -/
  | sent (result : Except SshError Unit)
  | message (message : ChannelMsg)
  /-- there are no more messages -/
  | ended
  /-- `tokio::time::timeout` -/
  | deadline
deriving DecidableEq, Repr

/-- `i32::try_from(code).unwrap_or(-1)`. -/
def exitCodeOf (code : UInt32) : Int32 := if code.toNat < 0x80000000 then Int32.ofNat code.toNat else -1

def Reader.output (r : Reader) : CommandOutput :=
  ⟨r.stdout, r.stderr, r.exitCode.map exitCodeOf, r.stdoutTruncated, r.stderrTruncated⟩

def Call.fail (c : Call) (source : SshError) : Call := { c with pc := .returned (.error ⟨source, c.dispatched⟩) }

/-- `break`. -/
def Call.finish (c : Call) (r : Reader) : Call := { c with pc := .returned (.ok r.output) }

/-- One turn of the loop. -/
def Call.receive (maxCapture : Nat) (c : Call) (r : Reader) : ChannelMsg → Call
  | .success => ⟨true, .reading r⟩
  | .failure => Call.fail ⟨false, c.pc⟩ (.protocol "remote rejected exec request")
  | .data data =>
    if r.stdout.length < maxCapture then ⟨true, .reading { r with stdout := r.stdout ++ data }⟩
    else ⟨true, .reading { r with stdoutTruncated := true }⟩
  | .extendedData data ext =>
    if ext = 1 then
      if r.stderr.length < maxCapture then ⟨true, .reading { r with stderr := r.stderr ++ data }⟩
      else ⟨true, .reading { r with stderrTruncated := true }⟩
    else { c with pc := .reading r }
  | .exitStatus exitStatus =>
    let r' := { r with exitCode := some exitStatus }
    if r.sawEof then Call.finish ⟨true, c.pc⟩ r' else ⟨true, .reading r'⟩
  | .eof =>
    let r' := { r with sawEof := true }
    if r.exitCode.isSome then Call.finish ⟨true, c.pc⟩ r' else ⟨true, .reading r'⟩
  | .close => if c.dispatched then c.finish r else c.fail .channelClosed
  | .other => { c with pc := .reading r }

def Call.step (maxCapture : Nat) (c : Call) : Event → Option Call
  | .deadline =>
    match c.pc with
    | .returned _ => none
    | _ => some (c.fail .timeout)
  | .opened result poisoned =>
    match c.pc with
    | .opening =>
      match result with
      | .error e => some (c.fail e)
      | .ok () => if poisoned then some (c.fail .cancelled) else some { c with pc := .sending }
    | _ => none
  | .sent result =>
    match c.pc with
    | .sending =>
      match result with
      | .error e => some (c.fail e)
      | .ok () => some ⟨true, .reading .new⟩
    | _ => none
  | .message message =>
    match c.pc with
    | .reading r => some (c.receive maxCapture r message)
    | _ => none
  | .ended =>
    match c.pc with
    | .reading r => some (c.finish r)
    | _ => none

/-- `run_command_tracked`. -/
def runCommandTracked (maxCapture : Nat) : Machine Call Event := ⟨Call.step maxCapture⟩

/-- `ActionRunError::from_command`. -/
def fromCommand (error : CommandExecutionError) : History.ActionRunError := ⟨error.dispatched⟩

end KW.Command
