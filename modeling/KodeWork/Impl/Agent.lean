import KodeWork.Framework.Utf8
import KodeWork.Impl.Text

/-!
# The remote agent

`kodework-agent/src/main.rs`: `capture`, which collects the output of a command, and the check of
the token in `handle_connection`. What a reader gives is in the order it comes; where the list
ends the stream does.
-/

namespace KW.Agent

def maxOutput : Nat := 256 * 1024
def maxRequestLine : Nat := 1024 * 1024
def maxTokenBytes : Nat := 4096
def minTokenBytes : Nat := 32

inductive ErrorKind
  | timedOut
  | unexpectedEof
  | invalidData
  | other
deriving DecidableEq, Repr

structure IoError where
  kind : ErrorKind
  message : String
deriving DecidableEq, Repr

/-- What a read returns: the bytes, none at the end of the stream. -/
inductive ReadResult
  | ok (bytes : List UInt8)
  | err (error : IoError)
deriving DecidableEq, Repr

/-! ## The output of a command -/

/-- The loop of `capture`; no bytes and an error end it. -/
def readLoop (buffer : List UInt8) (truncated : Bool) : List ReadResult → List UInt8 × Bool
  | .ok (b :: bytes) :: reads =>
    if maxOutput < buffer.length + (b :: bytes).length then readLoop buffer true reads
    else readLoop (buffer ++ b :: bytes) truncated reads
  | _ => (buffer, truncated)

def capture (reads : List ReadResult) : Text × Bool :=
  let (buffer, truncated) := readLoop [] false reads
  (Utf8.lossy buffer, truncated)

/-! ## The token -/

def validateToken (token : Text) : Except String Unit :=
  let len := (Utf8.encode token).length
  if !(minTokenBytes ≤ len && len ≤ maxTokenBytes) then
    .error "token length must be between 32 and 4096 bytes"
  else if token.any Text.isWhitespace || token.any Text.isControl then
    .error "token must not contain whitespace or control characters"
  else .ok ()

/-- What a connection waits for: the next bytes, or the end of the time a line may take. -/
inductive Arrival
  | read (result : ReadResult)
  | deadline
deriving DecidableEq, Repr

def lineFeed : UInt8 := 10
def carriageReturn : UInt8 := 13

/-- The bytes of a chunk that were not consumed. -/
def unread (bytes : List UInt8) (arrivals : List Arrival) : List Arrival :=
  if bytes.isEmpty then arrivals else .read (.ok bytes) :: arrivals

/-- `take(limit).read_until(b'\n', &mut bytes)`, and what is left of the stream; at the limit
nothing more is waited for. -/
def readUntil (limit : Nat) (bytes : List UInt8) (arrivals : List Arrival) :
    Except IoError (List UInt8 × List Arrival) :=
  if limit = 0 then .ok (bytes, arrivals)
  else match arrivals with
    | .read (.ok (b :: chunk)) :: arrivals =>
      let available := (b :: chunk).take limit
      let line := available.takeWhile (· != lineFeed)
      if line.length < available.length then
        .ok (bytes ++ line ++ [lineFeed], unread ((b :: chunk).drop (line.length + 1)) arrivals)
      else if limit < (b :: chunk).length then
        .ok (bytes ++ available, .read (.ok ((b :: chunk).drop limit)) :: arrivals)
      else readUntil (limit - available.length) (bytes ++ available) arrivals
    | [] => .ok (bytes, [])
    | .read (.ok []) :: arrivals => .ok (bytes, .read (.ok []) :: arrivals)
    | .read (.err error) :: _ => .error error
    | .deadline :: _ => .error ⟨.timedOut, "protocol read timed out"⟩

def isLineEnd (b : UInt8) : Bool := b == lineFeed || b == carriageReturn

/-- The line without its end. -/
def stripLineEnd (bytes : List UInt8) : List UInt8 := bytes.rdropWhile isLineEnd

def readLineLimited (maxBytes : Nat) (arrivals : List Arrival) : Except IoError (Text × List Arrival) :=
  match readUntil (maxBytes + 1) [] arrivals with
  | .error error => .error error
  | .ok (bytes, arrivals) =>
    if bytes.isEmpty then .error ⟨.unexpectedEof, "connection closed before a complete line"⟩
    else if maxBytes < bytes.length || bytes.getLast? != some lineFeed then
      .error ⟨.invalidData, "protocol line exceeds the size limit"⟩
    else match Utf8.decode (stripLineEnd bytes) with
      | some line => .ok (line, arrivals)
      | none => .error ⟨.invalidData, "line is not UTF-8"⟩

def tokenMatches (provided expected : Text) : Bool :=
  let provided := Utf8.encode provided
  let expected := Utf8.encode expected
  provided.length == expected.length && provided == expected

/-- Whether the first line is the token, and what comes behind it. -/
def checkToken (token : Text) (arrivals : List Arrival) : Except IoError (Bool × List Arrival) := do
  let (providedToken, arrivals) ← readLineLimited maxTokenBytes arrivals
  pure (tokenMatches providedToken token, arrivals)

/-- What a connection comes to, if no read of it fails. -/
inductive Outcome
  | invalidToken
  | dispatched (requestLine : Text)
deriving DecidableEq, Repr

def handleConnection (token : Text) (arrivals : List Arrival) : Except IoError Outcome := do
  let (matched, arrivals) ← checkToken token arrivals
  if !matched then pure .invalidToken
  else
    let (requestLine, _) ← readLineLimited maxRequestLine arrivals
    pure (.dispatched requestLine)

end KW.Agent
