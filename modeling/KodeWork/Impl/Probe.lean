import KodeWork.Framework.Utf8
import KodeWork.Impl.History.Commands
import KodeWork.Impl.Text

/-!
# The probe of remote runs

`build_remote_run_probe_command` and `parse_epoch_seconds` of
`kodework-core/src/session/run.rs`, and `reconcile_remote_runs` of
`kodework-core/src/session.rs` behind the command it runs: the script that asks for the
runs of a batch, and what is made of the bytes it prints. `cleanup_remote_run_metadata` is
here with the command it runs.
-/

namespace KW.Probe

open History (RemoteRunState runKey u64Max)

structure RemoteRunProbeRequest where
  runId : RunId
  mode : ActionMode
deriving DecidableEq, Repr

structure RemoteRunProbe where
  runId : RunId
  state : RemoteRunState
deriving DecidableEq, Repr

/-! ## The script -/

def isAsciiHexdigit (c : Char) : Bool :=
  c.isDigit || ('a'.val ≤ c.val && c.val ≤ 'f'.val) || ('A'.val ≤ c.val && c.val ≤ 'F'.val)

def modeText : ActionMode → Text
  | .background => "background".toList
  | .quick | .interactive => "quick".toList

/-- What the script does for a run, before the word of its mode. -/
def askFiles : Text :=
  ("base=\"$HOME/.cache/kodework/runs/$id\"; if [ -f \"$base/exit_code\" ]; then " ++
    "printf '%s\\tcompleted\\t%s\\t%s\\t%s\\n' \"$id\" \"$(cat -- \"$base/exit_code\" 2>/dev/null || true)\" " ++
    "\"$(cat -- \"$base/started_at_s\" 2>/dev/null || true)\" " ++
    "\"$(cat -- \"$base/finished_at_s\" 2>/dev/null || true)\"; elif [ '").toList

/-- What it does behind the word of the mode. -/
def askSession : Text :=
  ("' = 'background' ] && tmux has-session -t \"kodework-run-$id\" >/dev/null 2>&1; then " ++
    "dead=$(tmux list-panes -t \"kodework-run-$id\" -F '#\x7bpane_dead\x7d' 2>/dev/null | head -n 1); " ++
    "if [ \"$dead\" = \"0\" ]; then printf '%s\\trunning\\n' \"$id\"; else printf '%s\\tunknown\\n' \"$id\"; fi; " ++
    "else printf '%s\\tunknown\\n' \"$id\"; fi; ").toList

/-- What the script does for a run. -/
def probeText (id mode : Text) : Text :=
  "id='".toList ++ id ++ "'; ".toList ++ askFiles ++ mode ++ askSession

def probePart (request : RemoteRunProbeRequest) : Except Text Text :=
  let id := (runKey request.runId).toList
  if id.length ≠ 32 || !id.all isAsciiHexdigit then .error "remote run id is not a safe UUID token".toList
  else .ok (probeText id (modeText request.mode))

def buildRemoteRunProbeCommand (requests : List RemoteRunProbeRequest) : Except Text Text := do
  let parts ← requests.mapM probePart
  .ok ("set -f; ".toList ++ parts.flatten)

/-- The command of `cleanup_remote_run_metadata`. -/
def buildCleanupCommand (runId : RunId) : Except Text Text :=
  let id := (runKey runId).toList
  if id.length ≠ 32 || !id.all isAsciiHexdigit then .error "remote run id is not a safe UUID token".toList
  else .ok ("base=\"$HOME/.cache/kodework/runs/".toList ++ id ++ "\"; rm -rf -- \"$base\"".toList)

/-! ## Numbers -/

/-- A number of decimal digits, up to a largest one. -/
def parseDigits (largest : Nat) (digits : Text) : Option Nat :=
  if digits = [] || !digits.all Char.isDigit then none
  else
    let value := Nat.ofDigitChars 10 digits 0
    if value ≤ largest then some value else none

/-- `parse::<u64>()`. -/
def parseU64 : Text → Option Nat
  | '+' :: digits => parseDigits u64Max digits
  | digits => parseDigits u64Max digits

/-- `parse::<i32>()`. -/
def parseI32 : Text → Option Int32
  | '-' :: digits => (parseDigits 2147483648 digits).map fun n => Int32.ofInt (-(n : Int))
  | '+' :: digits => (parseDigits 2147483647 digits).map fun n => Int32.ofNat n
  | digits => (parseDigits 2147483647 digits).map fun n => Int32.ofNat n

/-- `checked_mul(1_000)`. -/
def checkedMillis (seconds : Nat) : Option Nat := if seconds * 1000 ≤ u64Max then some (seconds * 1000) else none

def parseEpochSeconds (value : Option Text) : Option Nat := (value.bind parseU64).bind checkedMillis

/-! ## The answer -/

/-- The fields of a line behind the first, for a request. -/
def lineState (mode : ActionMode) : List Text → RemoteRunState
  | [] => .unknown
  | kind :: fields =>
    if kind = "completed".toList then
      match (fields[0]?).bind parseI32 with
      | some exitCode => .completed exitCode (parseEpochSeconds fields[1]?) (parseEpochSeconds fields[2]?)
      | none => .unknown
    else if kind = "running".toList ∧ mode = .background then .running
    else .unknown

/-- What a line says: of which request, and what. -/
def readLine (requests : List RemoteRunProbeRequest) (line : Text) : Option (RunId × RemoteRunState) :=
  match line.splitOn '\t' with
  | [] => none
  | id :: fields =>
    (requests.find? fun request => (runKey request.runId).toList == id).map fun request =>
      (request.runId, lineState request.mode fields)

def insertLine (requests : List RemoteRunProbeRequest) (parsed : List (RunId × RemoteRunState)) (line : Text) :
    List (RunId × RemoteRunState) :=
  match readLine requests line with
  | some entry => entry :: parsed
  | none => parsed

/-- The table of the lines, the last one first. -/
def parseLines (requests : List RemoteRunProbeRequest) (lines : List Text) : List (RunId × RemoteRunState) :=
  lines.foldl (insertLine requests) []

/-- `reconcile_remote_runs`, behind the command it runs. -/
def reconcileRemoteRuns (requests : List RemoteRunProbeRequest) (stdout : List UInt8) : List RemoteRunProbe :=
  let parsed := parseLines requests (Text.lines (Utf8.lossy stdout))
  requests.map fun request => ⟨request.runId, (parsed.lookup request.runId).getD .unknown⟩

end KW.Probe
