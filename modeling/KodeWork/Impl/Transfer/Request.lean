import KodeWork.Impl.Text
import KodeWork.Impl.Domain

/-!
# Transfer requests, errors and events

`TransferRequest`, its validation, the errors and the events of `kodework-sftp`.
-/

namespace KW.Transfer

inductive SftpError
  | emptyLocalPath
  | invalidRemotePath
  | cancelled
  | paused
  | diskFull
  | sourceNotFound
  | destinationBusy
  | sourceChanged
  | retriesExhausted (retries : Nat)
  | unknownTransfer
  | backend (message : Text)
deriving DecidableEq, Repr

/-- Whether an automatic retry is safe. -/
def SftpError.isRetryable : SftpError → Bool
  | .backend _ => true
  | _ => false

inductive TransferDirection
  | upload
  | download
deriving DecidableEq, Repr

structure TransferRequest where
  localPath : Text
  remotePath : Text
  direction : TransferDirection
  /-- Whether an interrupted transfer may resume from the existing `.part`. -/
  resume : Bool
deriving DecidableEq, Repr

def validateRequest (request : TransferRequest) : Except SftpError Unit :=
  if Text.isBlank request.localPath || request.localPath.any Text.isControl then
    .error .emptyLocalPath
  else if !(request.remotePath == ['~'] || Text.startsWith request.remotePath ['~', '/'] ||
        Text.startsWith request.remotePath ['/']) ||
      request.remotePath.any Text.isControl ||
      (request.remotePath.splitOn '/').any fun component => component == ['.'] || component == ['.', '.']
    then .error .invalidRemotePath
  else .ok ()

/-- The name a transfer writes to until it is complete. -/
def partPath (path : Text) : Text := path ++ ['.', 'p', 'a', 'r', 't']

inductive TransferStatus
  | queued
  | hashing
  | transferring
  | paused
  | retrying
  | completed
  | cancelled
  | failed
deriving DecidableEq, Repr

structure TransferProgress where
  transferred : Nat
  total : Option Nat
  speedBps : Nat
deriving DecidableEq, Repr

inductive TransferEvent
  | progress (id : TransferId) (progress : TransferProgress)
  | state (id : TransferId) (status : TransferStatus)
  | failed (id : TransferId) (message : Text)
deriving DecidableEq, Repr

/-- The text of `SftpError`'s `Display`. -/
def SftpError.message : SftpError → Text
  | .emptyLocalPath => "local path must not be empty".toList
  | .invalidRemotePath => "remote path must be ~, absolute, or start with ~/ ".toList
  | .cancelled => "transfer cancelled".toList
  | .paused => "transfer paused".toList
  | .diskFull => "local or remote disk is full".toList
  | .sourceNotFound => "source file not found".toList
  | .destinationBusy => "transfer destination is already busy".toList
  | .sourceChanged => "source changed during transfer".toList
  | .retriesExhausted n => "transfer failed after ".toList ++ Nat.toDigits 10 n ++ " retries".toList
  | .unknownTransfer => "unknown transfer id".toList
  | .backend message => "backend error: ".toList ++ message

end KW.Transfer
