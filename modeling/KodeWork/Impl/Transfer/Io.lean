import KodeWork.Framework.Wp
import KodeWork.Impl.Transfer.Request
import Mathlib.Logic.Function.Basic

/-!
# What a transfer does to the files

`run_transfer`, `attempt_transfer`, `upload` and `download` of
`kodework-sftp/src/manager.rs` with the backend of `backend.rs`, as programs on
the files of the two machines.

The environment answers each operation (`Choice`): whether it fails and how,
how many bytes a read returns, what another task stored in a flag. A failed
`write` may have written a part of its bytes; any other failed operation has
changed nothing, so a rename is atomic. Names are not aliases of each other,
and no other task changes the files. A handle of a file that nobody changes is
the bytes it has left to read.

`wait_while_paused` returns at some time and changes nothing. The event channel
accepts an event or not, which is up to its consumer.
-/

namespace KW.Transfer

abbrev Bytes := List UInt8

/-! ## Files -/

inductive Side
  /-- the machine the program runs on -/
  | desktop
  /-- the machine behind the SFTP backend -/
  | remote
deriving DecidableEq, Repr

/-- What a name stands for. -/
inductive Node
  | file (bytes : Bytes) (modified : Option Nat)
  | dir (size : Nat) (modified : Option Nat)
deriving DecidableEq, Repr

namespace Node

def isDir : Node → Bool
  | .file _ _ => false
  | .dir _ _ => true

def bytes : Node → Bytes
  | .file bytes _ => bytes
  | .dir _ _ => []

def len : Node → Nat
  | .file bytes _ => bytes.length
  | .dir size _ => size

def modified : Node → Option Nat
  | .file _ modified | .dir _ modified => modified

end Node

abbrev Files := Text → Option Node

/-- The bytes of a file after `buf` was written at `pos`. -/
def writeAt (bytes : Bytes) (pos : Nat) (buf : Bytes) : Bytes :=
  bytes.take pos ++ List.replicate (pos - bytes.length) 0 ++ buf ++ bytes.drop (pos + buf.length)

/-- `rename`: a file replaces a file, and nothing replaces a directory. -/
def renameNode (files : Files) (source target : Text) : Option Files :=
  match files source, files target with
  | none, _ => none
  | some _, some (.dir _ _) => none
  | some node, _ => some (Function.update (Function.update files source none) target (some node))

inductive IoError
  | notFound
  | storageFull
  | writeZero
  | other (message : Text)
deriving DecidableEq, Repr

def IoError.message : IoError → Text
  | .notFound => "entity not found".toList
  | .storageFull => "no storage space".toList
  | .writeZero => "write zero".toList
  | .other message => message

/-- The environment's answer to one operation. -/
structure Choice where
  fault : Bool
  error : IoError
  backendError : SftpError
  /-- How much is read, or written by a failed write. -/
  amount : Nat
  /-- The value of a flag that other tasks store. -/
  flag : Bool
  /-- The clock. -/
  stamp : Nat
  /-- `replace_local_file` on Windows: the second rename fails. -/
  moveFault : Bool
  /-- `replace_local_file` on Windows: the third operation fails. -/
  restoreFault : Bool
deriving Repr

structure World where
  files : Side → Files
  transferred : Nat
  retriesLeft : Nat
  /-- The events the channel took. -/
  events : List TransferEvent
  env : Nat → Choice
  tick : Nat

/-- What does not change during a transfer. -/
structure Platform where
  windows : Bool
  processId : Nat
  /-- The remote home directory, which the server gives as an absolute path. -/
  home : Text
  home_absolute : home.head? = some '/'
  chunkSize : Nat

/-- The files of one side after `f`. -/
def World.setFiles (w : World) (side : Side) (files : Files) : World :=
  { w with files := Function.update w.files side files }

variable {ε : Type}

/-- The environment's next answer. -/
def choose : Prog ε World Choice := do
  let w ← get
  modify fun w => { w with tick := w.tick + 1 }
  pure (w.env w.tick)

/-- An operation on a local file, which may fail. -/
def localOp : Prog IoError World Choice := do
  let c ← choose
  failIf c.fault c.error
  pure c

/-- An operation of the backend, which may fail. -/
def backendOp : Prog SftpError World Choice := do
  let c ← choose
  failIf c.fault c.backendError
  pure c

/-- A flag that other tasks store. -/
def loadFlag : Prog ε World Bool := do
  let c ← choose
  pure c.flag

def waitWhilePaused : Prog ε World PUnit := do
  let _ ← choose
  pure ⟨⟩

/-- `emit`: the event is taken if the pump is alive and the channel has room. -/
def emit (event : TransferEvent) : Prog ε World PUnit := do
  let c ← choose
  modify fun w => if c.flag && !c.fault then { w with events := w.events ++ [event] } else w

def storeTransferred (n : Nat) : Prog ε World PUnit := modify fun w => { w with transferred := n }

/-! ## Handles -/

/-- A handle for reading: the node it was opened on and the bytes left. -/
structure Reader where
  node : Node
  rest : Bytes

def Reader.ofNode (node : Node) : Reader := ⟨node, node.bytes⟩

/-- The position after `n` more bytes. -/
def Reader.advance (r : Reader) (n : Nat) : Reader := { r with rest := r.rest.drop n }

def Reader.seek (r : Reader) (offset : Nat) : Reader := { r with rest := r.node.bytes.drop offset }

/-- A handle for writing, at a position. -/
structure Writer where
  side : Side
  path : Text
  pos : Nat

/-- What a read returns: a prefix of what is left. -/
abbrev Chunk (r : Reader) := { chunk : Bytes // chunk <+: r.rest }

/-- A read returns at least one byte and at most `cap`, up to the end of the
file. -/
def Choice.chunk (c : Choice) (r : Reader) (cap : Nat) : Chunk r :=
  let most := min cap r.rest.length
  ⟨r.rest.take (if most = 0 then 0 else 1 + c.amount % most), List.take_prefix _ _⟩

/-- The file behind the handle after `buf` was written at its position. -/
def World.write (w : World) (writer : Writer) (buf : Bytes) (stamp : Nat) : World :=
  match w.files writer.side writer.path with
  | some (.file bytes _) =>
    w.setFiles writer.side (Function.update (w.files writer.side) writer.path
      (some (.file (writeAt bytes writer.pos buf) (some stamp))))
  | _ => w

/-- `write_all`: all of `buf`, or a part of it and an error. -/
def writeAll (error : Choice → ε) (writer : Writer) (buf : Bytes) : Prog ε World Writer := do
  let c ← choose
  if c.fault then do
    modify fun w => w.write writer (buf.take (c.amount % (buf.length + 1))) c.stamp
    throw (error c)
  else do
    modify fun w => w.write writer buf c.stamp
    pure { writer with pos := writer.pos + buf.length }

/-! ## Local files -/

/-- `tokio::fs::File::open`. -/
def fileOpen (path : Text) : Prog IoError World Reader := do
  let _ ← localOp
  let w ← get
  match w.files .desktop path with
  | some node => pure (.ofNode node)
  | none => throw .notFound

def localRead (r : Reader) (cap : Nat) : Prog IoError World (Chunk r) := do
  let c ← localOp
  failIf r.node.isDir c.error
  pure (c.chunk r cap)

/-- `LocalFileIdentity`. -/
structure LocalFileIdentity where
  len : Nat
  modified : Option Nat
deriving DecidableEq, Repr

def LocalFileIdentity.ofNode (node : Node) : LocalFileIdentity := ⟨node.len, node.modified⟩

/-- `File::metadata` of an open handle. -/
def handleMetadata (r : Reader) : Prog IoError World LocalFileIdentity := do
  let _ ← localOp
  pure (.ofNode r.node)

/-- `tokio::fs::metadata`. -/
def pathMetadata (path : Text) : Prog IoError World LocalFileIdentity := do
  let _ ← localOp
  let w ← get
  match w.files .desktop path with
  | some node => pure (.ofNode node)
  | none => throw .notFound

def localSeek (r : Reader) (offset : Nat) : Prog IoError World Reader := do
  let _ ← localOp
  pure (r.seek offset)

/-- The file a handle is opened on for writing: created if it is not there,
emptied if `truncate`. -/
def openNode (node : Option Node) (truncate : Bool) (stamp : Nat) : Option Node :=
  match node with
  | none => some (.file [] (some stamp))
  | some (.file bytes modified) =>
    some (if truncate then .file [] (some stamp) else .file bytes modified)
  | some (.dir _ _) => none

/-- `OpenOptions::new().create(true).write(true).truncate(..).open(..)`. -/
def localOpenWrite (path : Text) (truncate : Bool) : Prog IoError World Writer := do
  let c ← localOp
  let w ← get
  match openNode (w.files .desktop path) truncate c.stamp with
  | some node => do
    modify fun w => w.setFiles .desktop (Function.update (w.files .desktop) path (some node))
    pure ⟨.desktop, path, 0⟩
  | none => throw c.error

/-- `std::fs::rename`, with its failure given. -/
def localRename (fault : Bool) (error : IoError) (source target : Text) : Prog IoError World PUnit := do
  failIf fault error
  let w ← get
  match renameNode (w.files .desktop) source target with
  | some files => modify fun w => w.setFiles .desktop files
  | none => throw error

/-! ## The backend -/

/-- The name the backend uses for a path. -/
def resolved (home path : Text) : Text :=
  if path = ['~'] then home
  else if Text.startsWith path ['~', '/'] then
    if (path.drop 2).isEmpty then home else Text.trimEndMatches home '/' ++ ['/'] ++ path.drop 2
  else path

/-- `resolve_path`: only a path below `~` asks the server for its home. -/
def resolvePath (p : Platform) (path : Text) : Prog SftpError World Text :=
  if path = ['~'] ∨ Text.startsWith path ['~', '/'] then do
    let _ ← backendOp
    pure (resolved p.home path)
  else pure (resolved p.home path)

/-- `RemoteFileMeta`, without the name. -/
structure RemoteFileMeta where
  size : Nat
  isDir : Bool
  modifiedMs : Option Nat
deriving DecidableEq, Repr

def RemoteFileMeta.ofNode (node : Node) : RemoteFileMeta := ⟨node.len, node.isDir, node.modified⟩

def backendStat (p : Platform) (path : Text) : Prog SftpError World (Option RemoteFileMeta) := do
  let path ← resolvePath p path
  let _ ← backendOp
  let w ← get
  pure ((w.files .remote path).map .ofNode)

def backendRename (p : Platform) (source target : Text) : Prog SftpError World PUnit := do
  let source ← resolvePath p source
  let target ← resolvePath p target
  let c ← backendOp
  let w ← get
  match renameNode (w.files .remote) source target with
  | some files => modify fun w => w.setFiles .remote files
  | none => throw c.backendError

def backendOpenRead (p : Platform) (path : Text) : Prog SftpError World Reader := do
  let path ← resolvePath p path
  let c ← backendOp
  let w ← get
  match w.files .remote path with
  | some node => pure (.ofNode node)
  | none => throw c.backendError

def backendOpenWrite (p : Platform) (path : Text) (truncate : Bool) :
    Prog SftpError World Writer := do
  let path ← resolvePath p path
  let c ← backendOp
  let w ← get
  match openNode (w.files .remote path) truncate c.stamp with
  | some node => do
    modify fun w => w.setFiles .remote (Function.update (w.files .remote) path (some node))
    pure ⟨.remote, path, 0⟩
  | none => throw c.backendError

def backendRead (r : Reader) (cap : Nat) : Prog SftpError World (Chunk r) := do
  let c ← backendOp
  failIf r.node.isDir c.backendError
  pure (c.chunk r cap)

def backendWriterSeek (writer : Writer) (offset : Nat) : Prog SftpError World Writer := do
  let _ ← backendOp
  pure { writer with pos := offset }

def backendReaderSeek (r : Reader) (offset : Nat) : Prog SftpError World Reader := do
  let _ ← backendOp
  pure (r.seek offset)

/-- `flush` or `close` of a handle of the backend. -/
def backendFlush : Prog SftpError World PUnit := do
  let _ ← backendOp
  pure ⟨⟩

/-! ## Errors -/

def backendText (what : String) (error : IoError) : SftpError :=
  .backend (what.toList ++ error.message)

/-- A missing file is the given error, any other error a backend error. -/
def notFoundAs (missing : SftpError) (what : String) : IoError → SftpError
  | .notFound => missing
  | error => backendText what error

def mapDiskError : SftpError → SftpError
  | .backend message =>
    if Text.contains message "No space left".toList then .diskFull else .backend message
  | other => other

def localWriteError : IoError → SftpError
  | .storageFull | .writeZero => .diskFull
  | error => backendText "local write: " error

/-! ## Resuming -/

/-- The loop of `upload_prefix_matches` and `download_prefix_matches`: `left`
bytes have to agree. Each round but the last compares at least one byte, so
`length` rounds are enough. -/
def prefixLoop (readLocal readRemote : (r : Reader) → Nat → Prog SftpError World (Chunk r)) :
    Nat → Reader → Reader → Nat → Prog SftpError World Bool
  | 0, _, _, left => pure (left == 0)
  | rounds + 1, a, b, left =>
    if left = 0 then pure true
    else do
      let wanted := min left (64 * 1024)
      let x ← readLocal a wanted
      let y ← readRemote b wanted
      if x.val ≠ y.val then pure false
      else if x.val = [] then pure false
      else
        prefixLoop readLocal readRemote rounds (a.advance x.val.length) (b.advance y.val.length)
          (left - x.val.length)

def uploadPrefixMatches (p : Platform) (localPath remotePart : Text) (length : Nat) :
    Prog SftpError World Bool := do
  let a ← mapErr (backendText "prefix local open: ") (fileOpen localPath)
  let b ← backendOpenRead p remotePart
  let equal ← prefixLoop (fun r n => mapErr (backendText "prefix local read: ") (localRead r n))
    backendRead length a b length
  backendFlush
  pure equal

def downloadPrefixMatches (p : Platform) (localPart remotePath : Text) (length : Nat) :
    Prog SftpError World Bool := do
  let a ← mapErr (backendText "prefix local part open: ") (fileOpen localPart)
  let b ← backendOpenRead p remotePath
  let equal ← prefixLoop
    (fun r n => mapErr (backendText "prefix local part read: ") (localRead r n))
    backendRead length a b length
  backendFlush
  pure equal

def existingPartSize (p : Platform) (part : Text) : Prog SftpError World Nat := do
  let node ← backendStat p part
  pure ((node.map RemoteFileMeta.size).getD 0)

def localPartSize (part : Text) : Prog SftpError World Nat := do
  let r ← observe (pathMetadata part)
  match r with
  | .ok node => pure node.len
  | .error .notFound => pure 0
  | .error error => throw (backendText "part metadata: " error)

/-- Where a transfer starts: after a `.part` that is a prefix of the source,
else at 0. -/
def resumeOffset (resume : Bool) (total : Nat) (partSize : Prog SftpError World Nat)
    (prefixMatches : Nat → Prog SftpError World Bool) : Prog SftpError World Nat :=
  if resume then do
    let existing ← partSize
    if existing > total then pure 0
    else if existing > 0 then do
      let same ← prefixMatches existing
      pure (if same then existing else 0)
    else pure existing
  else pure 0

/-! ## Copying -/

/-- A progress event; the throttle and the speed depend on the clock only. -/
def emitProgress (id : TransferId) (transferred total : Nat) : Prog ε World PUnit := do
  let c ← choose
  if c.flag then emit (.progress id ⟨transferred, some total, c.amount⟩) else pure ⟨⟩

/-- The loop of `upload` and `download`, with their reads and writes. Each
round but the last reads at least one byte, so `rounds` beyond the length of
the source are enough (`copyLoop_rounds`). -/
def copyLoop (p : Platform) (id : TransferId) (total : Nat)
    (read : (r : Reader) → Nat → Prog SftpError World (Chunk r))
    (write : Writer → Bytes → Prog SftpError World Writer) :
    Nat → Reader → Writer → Nat → Prog SftpError World Nat
  | 0, _, _, transferred => pure transferred
  | rounds + 1, r, writer, transferred => do
    waitWhilePaused
    let cancelled ← loadFlag
    failIf cancelled .cancelled
    let pumpAlive ← loadFlag
    failIf (!pumpAlive) .cancelled
    let chunk ← read r p.chunkSize
    if chunk.val = [] then pure transferred
    else do
      let writer ← write writer chunk.val
      let transferred := transferred + chunk.val.length
      storeTransferred transferred
      emitProgress id transferred total
      copyLoop p id total read write rounds (r.advance chunk.val.length) writer transferred

/-- Both handles are moved to the offset, if it is not 0. -/
def seekBoth (offset : Nat) (a : Prog SftpError World Writer) (b : Prog SftpError World Reader)
    (writer : Writer) (reader : Reader) : Prog SftpError World (Writer × Reader) :=
  if offset > 0 then do
    let writer ← a
    let reader ← b
    pure (writer, reader)
  else pure (writer, reader)

/-- `upload` up to its last check: the remote `.part` is complete. -/
def stageUpload (p : Platform) (id : TransferId) (request : TransferRequest) :
    Prog SftpError World PUnit := do
  let source ← mapErr (notFoundAs .sourceNotFound "local open: ") (fileOpen request.localPath)
  let handleIdentity ← mapErr (backendText "local metadata: ") (handleMetadata source)
  let total := handleIdentity.len
  let identity ← mapErr (notFoundAs .sourceChanged "local path metadata: ")
    (pathMetadata request.localPath)
  let remotePart := partPath request.remotePath
  let offset ← resumeOffset request.resume total (existingPartSize p remotePart)
    (uploadPrefixMatches p request.localPath remotePart)
  let writer ← backendOpenWrite p remotePart (offset == 0)
  let handles ← seekBoth offset (backendWriterSeek writer offset)
    (mapErr (backendText "local seek: ") (localSeek source offset)) writer source
  storeTransferred offset
  let transferred ← copyLoop p id total
    (fun r n => mapErr (backendText "local read: ") (localRead r n))
    (fun writer buf => mapErr mapDiskError (writeAll Choice.backendError writer buf))
    (source.node.len + 1) handles.2 handles.1 offset
  backendFlush
  backendFlush
  let finalHandle ← mapErr (backendText "local final handle metadata: ") (handleMetadata source)
  let final ← mapErr (notFoundAs .sourceChanged "local final metadata: ")
    (pathMetadata request.localPath)
  failIf (transferred != total || finalHandle != handleIdentity || final != identity) .sourceChanged

def upload (p : Platform) (id : TransferId) (request : TransferRequest) :
    Prog SftpError World PUnit := do
  stageUpload p id request
  mapErr mapDiskError (backendRename p (partPath request.remotePath) request.remotePath)

/-- `download` up to its last check: the local `.part` is complete. -/
def stageDownload (p : Platform) (id : TransferId) (request : TransferRequest) :
    Prog SftpError World PUnit := do
  let found ← backendStat p request.remotePath
  match found with
  | none => throw .sourceNotFound
  | some source => do
    failIf source.isDir (.backend "remote path is a directory".toList)
    let total := source.size
    let localPart := partPath request.localPath
    let offset ← resumeOffset request.resume total (localPartSize localPart)
      (downloadPrefixMatches p localPart request.remotePath)
    let reader ← backendOpenRead p request.remotePath
    let writer ← mapErr (backendText "local create: ") (localOpenWrite localPart (offset == 0))
    let handles ← seekBoth offset
      (mapErr (backendText "local seek: ") (do let _ ← localOp; pure { writer with pos := offset }))
      (backendReaderSeek reader offset) writer reader
    storeTransferred offset
    let transferred ← copyLoop p id total backendRead
      (fun writer buf => mapErr localWriteError (writeAll Choice.error writer buf))
      (reader.node.len + 1) handles.2 handles.1 offset
    mapErr (backendText "local flush: ") (do let _ ← localOp; pure ⟨⟩)
    mapErr (backendText "local sync: ") (do let _ ← localOp; pure ⟨⟩)
    backendFlush
    let final ← backendStat p request.remotePath
    failIf (transferred != total ||
      !(final.any fun current => !current.isDir && current.size == source.size &&
        current.modifiedMs == source.modifiedMs)) .sourceChanged

/-! ## Replacing the destination -/

def isSeparator (c : Char) : Bool := c == '/' || c == '\\'

/-- A path without trailing separators, as its directory and its last
component. That is where `with_file_name` puts a name, but for a target that ends
in `.` or `..`, or is a name behind a drive letter (`C:foo`). -/
def splitFileName (path : Text) : Text × Text :=
  let path := path.rdropWhile isSeparator
  (path.rdropWhile fun c => !isSeparator c, path.rtakeWhile fun c => !isSeparator c)

/-- The name the old destination is moved to. -/
def backupPath (target : Text) (processId stamp : Nat) : Text :=
  let (parent, name) := splitFileName target
  parent ++ ['.'] ++ name ++ ".kodework-old-".toList ++ Nat.toDigits 10 processId ++ ['-'] ++
    Nat.toDigits 10 stamp

/-- `replace_local_file`. On Windows the old destination is moved aside first
and moved back when the new one cannot take its place. -/
def replaceLocalFile (p : Platform) (source target : Text) : Prog IoError World PUnit := do
  let c ← choose
  let w ← get
  if p.windows ∧ (w.files .desktop target).isSome ∧ c.flag then do
    let backup := backupPath target p.processId c.stamp
    localRename c.fault c.error target backup
    let moved ← observe (localRename c.moveFault c.error source target)
    match moved with
    | .ok _ =>
      modify fun w => if c.restoreFault then w
        else w.setFiles .desktop (Function.update (w.files .desktop) backup none)
    | .error error => do
      let _ ← (observe (localRename c.restoreFault c.error backup target) :
        Prog IoError World (Except IoError PUnit))
      throw error
  else localRename c.fault c.error source target

def download (p : Platform) (id : TransferId) (request : TransferRequest) :
    Prog SftpError World PUnit := do
  stageDownload p id request
  mapErr (backendText "local rename: ")
    (replaceLocalFile p (partPath request.localPath) request.localPath)

/-! ## Attempts -/

def attemptTransfer (p : Platform) (id : TransferId) (request : TransferRequest) :
    Prog SftpError World PUnit := do
  waitWhilePaused
  let cancelled ← loadFlag
  failIf cancelled .cancelled
  emit (.state id .transferring)
  let pumpAlive ← loadFlag
  failIf (!pumpAlive) .cancelled
  match request.direction with
  | .upload => upload p id request
  | .download => download p id request

/-- `run_transfer` returns the error of an attempt. -/
def giveUp (id : TransferId) (error : SftpError) : Prog SftpError World PUnit := do
  emit (.failed id error.message)
  emit (.state id .failed)
  throw error

/-- The first two checks after a failed attempt: a cancelled transfer and one
whose error is not retryable are not tried again. -/
def checkFailure (id : TransferId) (error : SftpError) : Prog SftpError World PUnit := do
  let cancelled ← loadFlag
  if error = .cancelled ∨ cancelled = true then do
    emit (.state id .cancelled)
    throw .cancelled
  else if error.isRetryable then pure ⟨⟩
  else giveUp id error

/-- The loop of `run_transfer` after an attempt, with the retries left. -/
def retryLoop (p : Platform) (id : TransferId) (request : TransferRequest) :
    Nat → Except SftpError PUnit → Prog SftpError World PUnit
  | _, .ok _ => emit (.state id .completed)
  | 0, .error error => do
    checkFailure id error
    giveUp id error
  | retriesLeft + 1, .error error => do
    checkFailure id error
    modify fun w => { w with retriesLeft := retriesLeft }
    emit (.state id .retrying)
    let outcome ← observe (attemptTransfer p id request)
    retryLoop p id request retriesLeft outcome

/-- `run_transfer`: no other task stores `retries_left` while it runs. -/
def runTransfer (p : Platform) (id : TransferId) (request : TransferRequest) :
    Prog SftpError World PUnit := do
  let outcome ← observe (attemptTransfer p id request)
  let w ← get
  retryLoop p id request w.retriesLeft outcome

/-! ## The names of a request -/

namespace TransferRequest

def sourceSide (request : TransferRequest) : Side :=
  match request.direction with
  | .upload => .desktop
  | .download => .remote

def destinationSide (request : TransferRequest) : Side :=
  match request.direction with
  | .upload => .remote
  | .download => .desktop

/-- The name of the source on its side. -/
def source (p : Platform) (request : TransferRequest) : Text :=
  match request.direction with
  | .upload => request.localPath
  | .download => resolved p.home request.remotePath

/-- The name of the destination on its side. -/
def destination (p : Platform) (request : TransferRequest) : Text :=
  match request.direction with
  | .upload => resolved p.home request.remotePath
  | .download => request.localPath

/-- The name of the destination's `.part` on its side. -/
def part (p : Platform) (request : TransferRequest) : Text :=
  match request.direction with
  | .upload => resolved p.home (partPath request.remotePath)
  | .download => partPath request.localPath

end TransferRequest

end KW.Transfer
