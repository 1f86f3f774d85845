import KodeWork.Framework.Machine
import KodeWork.Impl.Session

/-!
# The channels of one connection

The calls of `SshConnection` that open a channel (`open_pty`, `exec`,
`run_command_tracked`, `exec_owned`, `forward_channel` and `sftp` of
`kodework-ssh/src/connection.rs`) next to the handler of its transport
(`handler.rs`), which sends the events of every channel that is not in
`filtered_channels` on the terminal event stream. A step is one section under the
lock of that set, one await of a call or of a callback, or the drop of a value that
holds a channel.

The transport gives each channel a number of its own. It calls the handler for one
packet after the other; what `wait` hands to a call is in the action, since the
packets are mirrored into the buffer of the channel as well. The lock is never
poisoned: its sections only look up, insert and remove a number.

`Call.channel` stays when the call is over, and `reaped` lists the numbers that the
handler removed. Neither is read by a step; statements are about them.
-/

namespace KW.Channels

open Session (SessionEvent sessionEventChannel)

/-! ## Packets -/

/-- What the server sends on a channel (`russh::ChannelMsg`). -/
inductive Packet
  | success
  | failure
  | data (bytes : List UInt8)
  | extendedData (ext : Nat) (bytes : List UInt8)
  | exitStatus (status : Nat)
  | exitSignal (signal : String)
  | eof
  | close
  | other
deriving DecidableEq, Repr

/-- The event its callback makes of a packet. -/
def Packet.event (channel : Nat) : Packet → Option SessionEvent
  | .data bytes => some (.data channel bytes)
  | .extendedData ext bytes => some (.extendedData channel ext bytes)
  | .exitStatus status => some (.exitStatus channel status)
  | .exitSignal signal => some (.exitSignal channel signal)
  | .close => some (.channelClosed channel)
  | .success | .failure | .eof | .other => none

/-! ## The output of a command -/

/-- The locals of the loop of `run_command_tracked`. -/
structure Capture where
  dispatched : Bool
  stdout : List UInt8
  stderr : List UInt8
  stdoutTruncated : Bool
  stderrTruncated : Bool
  exitCode : Option Nat
  sawEof : Bool
deriving DecidableEq, Repr

def Capture.new : Capture := ⟨true, [], [], false, false, none, false⟩

structure CommandOutput where
  stdout : List UInt8
  stderr : List UInt8
  exitCode : Option Int
  stdoutTruncated : Bool
  stderrTruncated : Bool
deriving DecidableEq, Repr

def i32Max : Nat := 2147483647

/-- `i32::try_from(code).unwrap_or(-1)`. -/
def exitCodeOf (code : Nat) : Int := if code ≤ i32Max then code else -1

def Capture.output (capture : Capture) : CommandOutput where
  stdout := capture.stdout
  stderr := capture.stderr
  exitCode := capture.exitCode.map exitCodeOf
  stdoutTruncated := capture.stdoutTruncated
  stderrTruncated := capture.stderrTruncated

structure CommandExecutionError where
  source : SshError
  dispatched : Bool
deriving DecidableEq, Repr

inductive Round
  /-- the loop goes on -/
  | next (capture : Capture)
  | done (result : Except CommandExecutionError CommandOutput)
deriving Repr

/-- One round of the loop, on the message of `wait`. -/
def Capture.receive (capture : Capture) (maxCapture : Nat) : Packet → Round
  | .success => .next { capture with dispatched := true }
  | .failure => .done (.error ⟨.protocol "remote rejected exec request", false⟩)
  | .data bytes =>
    if capture.stdout.length < maxCapture then
      .next { capture with dispatched := true, stdout := capture.stdout ++ bytes }
    else .next { capture with dispatched := true, stdoutTruncated := true }
  | .extendedData ext bytes =>
    if ext = 1 then
      if capture.stderr.length < maxCapture then
        .next { capture with dispatched := true, stderr := capture.stderr ++ bytes }
      else .next { capture with dispatched := true, stderrTruncated := true }
    else .next capture
  | .exitStatus status =>
    let capture := { capture with dispatched := true, exitCode := some status }
    if capture.sawEof then .done (.ok capture.output) else .next capture
  | .eof =>
    let capture := { capture with dispatched := true, sawEof := true }
    if capture.exitCode.isSome then .done (.ok capture.output) else .next capture
  | .close =>
    if capture.dispatched then .done (.ok capture.output) else .done (.error ⟨.channelClosed, false⟩)
  | .exitSignal _ | .other => .next capture

/-! ## Calls -/

/-- The methods that open a channel. -/
inductive Opener
  | openPty
  | exec
  | runCommandTracked (maxCapture : Nat)
  | execOwned
  | forwardChannel
  | sftp
deriving DecidableEq, Repr

/-- The methods that keep their channel off the terminal event stream. -/
def Opener.tracked : Opener → Bool
  | .openPty | .exec => false
  | .runCommandTracked _ | .execOwned | .forwardChannel | .sftp => true

inductive Reply
  | output (result : Except CommandExecutionError CommandOutput)
  | failed (error : SshError)
  /-- the future was dropped by its owner, or what it returned was -/
  | dropped
deriving Repr

/-- Where a call stands. -/
inductive Pc
  /-- `channel_open_session().await`, `channel_open_direct_tcpip().await` -/
  | opening
  /-- the section that inserts the channel -/
  | insert
  /-- `request_pty`, `request_shell`, `exec`, `request_subsystem`: `.await` -/
  | request
  /-- `channel.wait().await` -/
  | wait (capture : Capture)
  /-- `SftpSession::new_with_config().await` -/
  | sftpInit
  /-- `release_filtered_channel`, also as the drop of a guard -/
  | release (reply : Reply)
  /-- what was returned is alive: `SshPty`, `SshExec`, `Channel` or `SftpSession` -/
  | holding
  /-- the value is dropped and its channel is not released -/
  | abandoned
  | returned (reply : Reply)
deriving Repr

/-- After the channel is open: what is inserted before its request is sent. -/
def Opener.opened : Opener → Pc
  | .runCommandTracked _ | .forwardChannel => .insert
  | .openPty | .exec | .execOwned | .sftp => .request

/-- After the channel is inserted. -/
def Opener.inserted : Opener → Pc
  | .runCommandTracked _ => .request
  | .sftp => .sftpInit
  | .openPty | .exec | .execOwned | .forwardChannel => .holding

/-- After the request was sent; `forward_channel` sends none. -/
def Opener.requested : Opener → Pc
  | .runCommandTracked _ => .wait .new
  | .execOwned | .forwardChannel | .sftp => .insert
  | .openPty | .exec => .holding

/-- What an error makes a call return, before its command was dispatched. -/
def Opener.failure (error : SshError) : Opener → Reply
  | .runCommandTracked _ => .output (.error ⟨error, false⟩)
  | .openPty | .exec | .execOwned | .forwardChannel | .sftp => .failed error

/-- The request came to nothing; only `run_command_tracked` has a guard by then. -/
def Opener.unrequested (reply : Reply) : Opener → Pc
  | .runCommandTracked _ => .release reply
  | .openPty | .exec | .execOwned | .forwardChannel | .sftp => .returned reply

/-- What holds the channel is dropped. `SshExec` of `exec_owned` and the guard of
`run_command_tracked` release it, and the owner of a forwarded one does it when the
stream is closed. -/
def Opener.dropped : Opener → Pc
  | .runCommandTracked _ | .execOwned | .forwardChannel => .release .dropped
  | .sftp => .abandoned
  | .openPty | .exec => .returned .dropped

/-- The methods with a deadline of their own. -/
def Opener.timed : Opener → Bool
  | .runCommandTracked _ => true
  | .openPty | .exec | .execOwned | .forwardChannel | .sftp => false

structure Call where
  opener : Opener
  pc : Pc
  channel : Option Nat
deriving Repr

/-- What the environment decides in a step of a call. -/
inductive Choice
  | go
  /-- the channel was opened, under this number -/
  | opened (channel : Nat)
  | failed (error : SshError)
  /-- `wait` returns a message -/
  | message (packet : Packet)
  /-- `wait` returns `None` -/
  | ended
  /-- the deadline of `run_command_tracked` passes -/
  | elapsed
  /-- the future, or what it returned, is dropped -/
  | dropped
deriving DecidableEq, Repr

/-! ## The handler -/

/-- Where the transport stands with a packet. -/
inductive Driver
  | idle
  /-- a callback: `is_sftp_channel` -/
  | lookup (channel : Nat) (packet : Packet)
  /-- `channel_close`: `guard.remove` -/
  | reap (channel : Nat) (filtered : Bool)
  /-- `events.send(event).await` -/
  | send (event : SessionEvent)
  /-- the receiver of the events is gone -/
  | stopped
deriving DecidableEq, Repr

structure Connection where
  filteredChannels : List Nat
  calls : List Call
  driver : Driver
  /-- the terminal event stream -/
  sent : List SessionEvent
  reaped : List Nat

namespace Connection

def goTo (s : Connection) (i : Nat) (c : Call) (pc : Pc) : Connection :=
  { s with calls := s.calls.set i { c with pc := pc } }

def insertChannel (s : Connection) (channel : Nat) : Connection :=
  { s with filteredChannels := s.filteredChannels.insert channel }

/-- `release_filtered_channel`. -/
def releaseFilteredChannel (s : Connection) (channel : Option Nat) : Connection :=
  { s with filteredChannels := s.filteredChannels.filter fun n => channel ≠ some n }

/-- One step of the call numbered `i`. -/
def callStep (s : Connection) (i : Nat) (c : Call) : Pc → Choice → Option Connection
  | .opening, .opened channel =>
    if s.calls.any fun d : Call => d.channel == some channel then none
    else some (s.goTo i { c with channel := some channel } c.opener.opened)
  | .opening, .failed error => some (s.goTo i c (.returned (c.opener.failure error)))
  | .opening, .elapsed =>
    if c.opener.timed then some (s.goTo i c (.returned (c.opener.failure .timeout))) else none
  | .opening, .dropped => some (s.goTo i c (.returned .dropped))
  | .insert, .go =>
    match c.channel with
    | some channel => some ((s.insertChannel channel).goTo i c c.opener.inserted)
    | none => none
  -- the future goes no further than the await before the section
  | .insert, .elapsed =>
    if c.opener.timed then some (s.goTo i c (.returned (c.opener.failure .timeout))) else none
  | .insert, .dropped => some (s.goTo i c (.returned .dropped))
  | .request, .go => some (s.goTo i c c.opener.requested)
  | .request, .failed error => some (s.goTo i c (c.opener.unrequested (c.opener.failure error)))
  | .request, .elapsed =>
    if c.opener.timed then some (s.goTo i c (c.opener.unrequested (c.opener.failure .timeout))) else none
  | .request, .dropped => some (s.goTo i c (c.opener.unrequested .dropped))
  | .wait capture, .message packet =>
    match c.opener with
    | .runCommandTracked maxCapture =>
      match capture.receive maxCapture packet with
      | .next capture => some (s.goTo i c (.wait capture))
      | .done result => some (s.goTo i c (.release (.output result)))
    | _ => none
  | .wait capture, .ended => some (s.goTo i c (.release (.output (.ok capture.output))))
  | .wait capture, .elapsed =>
    some (s.goTo i c (.release (.output (.error ⟨.timeout, capture.dispatched⟩))))
  | .wait _, .dropped => some (s.goTo i c (.release .dropped))
  | .sftpInit, .go => some (s.goTo i c .holding)
  | .sftpInit, .failed error => some (s.goTo i c (.release (.failed error)))
  | .sftpInit, .dropped => some (s.goTo i c .abandoned)
  | .release reply, .go => some ((s.releaseFilteredChannel c.channel).goTo i c (.returned reply))
  | .holding, .dropped => some (s.goTo i c c.opener.dropped)
  | _, _ => none

/-- One step of the transport; `sent` is false when the receiver of the events is gone. -/
def driverStep (s : Connection) (sent : Bool) : Driver → Option Connection
  | .lookup channel packet =>
    let filtered := decide (channel ∈ s.filteredChannels)
    match packet with
    | .close => some { s with driver := .reap channel filtered }
    | _ =>
      match packet.event channel with
      | some event => some { s with driver := if filtered then .idle else .send event }
      | none => some { s with driver := .idle }
  | .reap channel filtered =>
    some { s.releaseFilteredChannel (some channel) with
      driver := if filtered then .idle else .send (.channelClosed channel)
      reaped := if channel ∈ s.filteredChannels then channel :: s.reaped else s.reaped }
  | .send event =>
    if sent then some { s with driver := .idle, sent := s.sent ++ [event] }
    else some { s with driver := .stopped }
  | _ => none

end Connection

inductive Event
  | call (opener : Opener)
  | step (i : Nat) (choice : Choice)
  /-- a packet of an open channel arrives -/
  | packet (channel : Nat) (packet : Packet)
  | driver (sent : Bool)
deriving Repr

def step (s : Connection) : Event → Option Connection
  | .call opener => some { s with calls := s.calls ++ [⟨opener, .opening, none⟩] }
  | .step i choice =>
    match s.calls[i]? with
    | some c => s.callStep i c c.pc choice
    | none => none
  | .packet channel packet =>
    if s.driver = .idle ∧ s.calls.any fun c : Call => c.channel == some channel then
      some { s with driver := .lookup channel packet }
    else none
  | .driver sent => s.driverStep sent s.driver

def machine : Machine Connection Event := ⟨step⟩

/-- A new connection. -/
def Initial (s : Connection) : Prop :=
  s.filteredChannels = [] ∧ s.calls = [] ∧ s.driver = .idle ∧ s.sent = [] ∧ s.reaped = []

end KW.Channels
