import KodeWork.Framework.Machine
import KodeWork.Impl.Host

/-!
# Host records and their secrets

`save_host`, `save_host_password`, `save_tailscale_auth_key` and `delete_host` of
`src-tauri/src/commands.rs`, for any number of calls at the same time, on the
`hosts` table (`get_host`, `upsert_host`, `delete_host` of `kodework-storage`) and
the secret store of the platform. A step is one section under the database lock
or the lock of the secret store, or the await in `delete_host`; what such a
section does may fail, and its lock may be poisoned.

A row is the record `get_host` reads back; its columns and the rows of its
addresses are written and removed with it. Of the run history only the number of
runs is kept.

`saved` of a call, `written` and `forgotten` are not in the program and are read
by no step: they record what `save_host` found and stored, which secrets were
written, and which were deleted by which call.
-/

namespace KW.Hosts

/-! ## References -/

/-- The fields of a record that refer to a secret. -/
inductive CredentialField
  | ssh
  | tailscale
  | jump
deriving DecidableEq, Repr

def reference (host : Host) : CredentialField → Option CredentialRef
  | .ssh => host.authRef
  | .tailscale => host.tailscale.bind (·.authKeyRef)
  | .jump => host.jump.bind (·.authRef)

/-- The digits of a UUID, `8-4-4-4-12`. -/
def uuidText (id : HostId) : Text :=
  let digits := Nat.toDigits 16 id.uuid
  let padded := List.replicate (32 - digits.length) '0' ++ digits
  padded.take 8 ++ '-' :: (padded.drop 8).take 4 ++ '-' :: (padded.drop 12).take 4 ++
    '-' :: (padded.drop 16).take 4 ++ '-' :: padded.drop 20

/-- The reference a command makes for a kind of credential of a host. -/
def credentialRef (provider : CredentialProvider) (kind : String) (id : HostId) : CredentialRef :=
  ⟨provider, kind.toList ++ '/' :: uuidText id⟩

/-- `is_managed_reference`, on a platform with this provider. -/
def isManagedReference (provider : CredentialProvider) (reference : CredentialRef) : Bool :=
  reference.provider == provider

/-! ## Texts -/

/-- `AppError::StatePoisoned`. -/
def statePoisoned : Text := "application state lock is poisoned".toList

def hostMissing : Text := "host does not exist".toList

/-- `AppError::InvalidHost`. -/
def invalidHost (error : DomainError) : Text := "invalid host: ".toList ++ error.message

def runsRemain (runs : Nat) : Text :=
  "无法删除工作站：该工作站仍有 ".toList ++ Nat.toDigits 10 runs ++
    " 条运行历史。请先保留或清理运行历史后再删除。".toList

/-! ## What the commands compute between two sections -/

/-- The record `save_host` stores: what was sent, with the references that are stored
already. A reference has meaning only inside its authentication mode. -/
def preserveReferences (existing : Option Host) (host : Host) : Host :=
  match existing with
  | some existing =>
    { host with
      authRef := if existing.authMode = host.authMode then existing.authRef else none
      tailscale := host.tailscale.map fun config =>
        { config with authKeyRef := existing.tailscale.bind (·.authKeyRef) }
      jump := host.jump.map fun jump =>
        { jump with authRef :=
            if existing.jump.any fun old => old.authMode = jump.authMode
            then existing.jump.bind (·.authRef) else none } }
  | none =>
    { host with
      authRef := none
      tailscale := host.tailscale.map fun config => { config with authKeyRef := none }
      jump := host.jump.map fun jump => { jump with authRef := none } }

/-- The secret `save_host` deletes for a field. -/
def droppedReference (provider : CredentialProvider) (previous : Option Host) (host : Host)
    (field : CredentialField) : Option CredentialRef :=
  let old := previous.bind fun host => reference host field
  if old ≠ reference host field then old.filter (isManagedReference provider) else none

/-- The secrets `save_host` deletes, in their order. -/
def droppedReferences (provider : CredentialProvider) (previous : Option Host) (host : Host) :
    List CredentialRef :=
  [CredentialField.ssh, .tailscale, .jump].filterMap (droppedReference provider previous host)

/-- A secret on its way into the store and a record. -/
structure SecretWrite where
  /-- the record, with the reference to the secret -/
  host : Host
  /-- the record as it was read -/
  previous : Host
  reference : CredentialRef
  secret : Text
  /-- the reference whose secret is kept for a rollback -/
  backup : Option CredentialRef
  /-- what is deleted when the record is stored -/
  drop : List CredentialRef
  /-- how the error of a write that fails begins -/
  failure : Text
deriving DecidableEq, Repr

/-- `save_host_password` up to its second section. -/
def planPassword (provider : CredentialProvider) (id : HostId) (password : Text) :
    Option Host → Except Text SecretWrite
  | none => .error hostMissing
  | some host =>
    match validateHost host with
    | .error error => .error (invalidHost error)
    | .ok () =>
      if password = [] then .error "password must not be empty".toList
      else
        let plan (kind : String) : SecretWrite :=
          let reference := credentialRef provider kind id
          { host := { host with authRef := some reference }
            previous := host
            reference := reference
            secret := password
            backup := if host.authRef = some reference then some reference else none
            drop :=
              if host.authRef = some reference then []
              else (host.authRef.filter (isManagedReference provider)).toList
            failure := "credential write failed: ".toList }
        match host.authMode with
        | .password => .ok (plan "ssh-password")
        | .publicKey => .ok (plan "ssh-key-passphrase")
        | .sshAgent | .keyboardInteractive =>
          .error "selected authentication mode does not accept a saved password".toList

def defaultTailscale : TailscaleConfig := ⟨true, .systemDaemon, none, none, none⟩

/-- `save_tailscale_auth_key` up to its second section. -/
def planTailscale (provider : CredentialProvider) (id : HostId) (authKey : Text) :
    Option Host → Except Text SecretWrite
  | none => .error hostMissing
  | some host =>
    let config := host.tailscale.getD defaultTailscale
    let reference := credentialRef provider "tailscale-auth" id
    let old := config.authKeyRef.filter (isManagedReference provider)
    .ok
      { host := { host with
          tailscale := some { config with enabled := true, authKeyRef := some reference } }
        previous := host
        reference := reference
        secret := authKey
        backup := old
        drop := (old.filter (· ≠ reference)).toList
        failure := "Tailscale auth key write failed: ".toList }

def authKeyInvalid : Text := "Tailscale auth key must be non-empty and contain no whitespace".toList

/-! ## Calls -/

inductive Command
  | saveHost (host : Host)
  | saveHostPassword (password : Text)
  | saveTailscaleAuthKey (authKey : Text)
  | deleteHost
deriving DecidableEq, Repr

inductive Reply
  | unit
  | host (host : Host)
  | deleted (deleted : Bool)
deriving DecidableEq, Repr

/-- Where a call stands. -/
inductive Pc
  /-- the first section: `get_host`, and the run count for `delete_host` -/
  | load (command : Command)
  /-- `save_host`: `upsert_host` -/
  | store (previous : Option Host) (host : Host)
  /-- a secret is looked up for the rollback -/
  | backup (write : SecretWrite)
  /-- `secrets.put` -/
  | put (write : SecretWrite) (previousSecret : Option Text)
  /-- `upsert_host`, with the reference to the secret -/
  | update (write : SecretWrite) (previousSecret : Option Text)
  /-- the write to the store is taken back -/
  | rollback (write : SecretWrite) (previousSecret : Option Text) (error : Text)
  /-- `sessions.disconnect(host_id).await`, and what is cancelled before it -/
  | disconnect (references : List CredentialRef)
  /-- `database.delete_host` -/
  | deleteRow (references : List CredentialRef)
  /-- `secrets.delete`, of one reference after the other; `strict` when a poisoned lock is
  an error -/
  | forget (left : List CredentialRef) (strict : Bool) (reply : Reply)
  | returned (result : Except Text Reply)
deriving DecidableEq, Repr

/-- The call goes on to the secrets that are left. -/
def Pc.forgetAll (strict : Bool) (reply : Reply) : List CredentialRef → Pc
  | [] => .returned (.ok reply)
  | left => .forget left strict reply

structure Call where
  host : HostId
  pc : Pc
  /-- `save_host`: the record it found, and the one it stored. -/
  saved : Option (Option Host × Host)
deriving DecidableEq, Repr

structure Forgotten where
  call : Nat
  reference : CredentialRef
deriving DecidableEq, Repr

structure State where
  /-- `secrets::provider()` of this platform. -/
  provider : CredentialProvider
  hosts : HostId → Option Host
  /-- `count_by_host`. -/
  runs : HostId → Nat
  secrets : CredentialRef → Option Text
  calls : List Call
  written : List CredentialRef
  forgotten : List Forgotten

/-- What becomes of a section. -/
inductive Choice
  | go
  /-- what it calls fails -/
  | fault (text : Text)
  /-- its lock is poisoned -/
  | poisoned
deriving DecidableEq, Repr

namespace State

def goTo (s : State) (i : Nat) (c : Call) (pc : Pc) : State :=
  { s with calls := s.calls.set i { c with pc := pc } }

def fail (s : State) (i : Nat) (c : Call) (text : Text) : State := s.goTo i c (.returned (.error text))

def setHost (s : State) (id : HostId) (row : Option Host) : State :=
  { s with hosts := Function.update s.hosts id row }

def setSecret (s : State) (reference : CredentialRef) (value : Option Text) : State :=
  { s with secrets := Function.update s.secrets reference value }

/-- The references `delete_host` reads, in the order it deletes them. -/
def heldReferences (s : State) (id : HostId) : List CredentialRef :=
  [CredentialField.ssh, .tailscale, .jump].filterMap fun field =>
    (s.hosts id).bind fun host => reference host field

/-- The first section of a call. -/
def loadStep (s : State) (i : Nat) (c : Call) : Command → State
  | .saveHost payload =>
    let previous := s.hosts c.host
    let host := preserveReferences previous payload
    match validateHost host with
    | .error error => s.fail i c (invalidHost error)
    | .ok () => s.goTo i c (.store previous host)
  | .saveHostPassword password =>
    match planPassword s.provider c.host password (s.hosts c.host) with
    | .error text => s.fail i c text
    | .ok write => s.goTo i c (if write.backup.isSome then .backup write else .put write none)
  | .saveTailscaleAuthKey authKey =>
    if authKey.isEmpty || authKey.any Text.isWhitespace then s.fail i c authKeyInvalid
    else
      match planTailscale s.provider c.host authKey (s.hosts c.host) with
      | .error text => s.fail i c text
      | .ok write => s.goTo i c (if write.backup.isSome then .backup write else .put write none)
  | .deleteHost =>
    if 0 < s.runs c.host then s.fail i c (runsRemain (s.runs c.host))
    else s.goTo i c (.disconnect (s.heldReferences c.host))

/-- One step of the call numbered `i`. -/
def callStep (s : State) (i : Nat) (c : Call) : Pc → Choice → Option State
  | .load command, .go => some (s.loadStep i c command)
  | .load _, .fault text => some (s.fail i c text)
  | .load _, .poisoned => some (s.fail i c statePoisoned)
  | .store previous host, .go =>
    some ((s.setHost c.host (some host)).goTo i { c with saved := some (previous, host) }
      (.forgetAll false .unit (droppedReferences s.provider previous host)))
  | .store .., .fault text => some (s.fail i c text)
  | .store .., .poisoned => some (s.fail i c statePoisoned)
  | .backup write, .go => some (s.goTo i c (.put write (write.backup.bind s.secrets)))
  | .backup write, _ => some (s.goTo i c (.put write none))
  | .put write previousSecret, .go =>
    some ({ s.setSecret write.reference (some write.secret) with
      written := s.written ++ [write.reference] }.goTo i c (.update write previousSecret))
  | .put write _, .fault text => some (s.fail i c (write.failure ++ text))
  | .put .., .poisoned => some (s.fail i c statePoisoned)
  | .update write _, .go =>
    some ((s.setHost c.host (some write.host)).goTo i c
      (.forgetAll false (.host write.host) write.drop))
  | .update write previousSecret, .fault text => some (s.goTo i c (.rollback write previousSecret text))
  | .update .., .poisoned => some (s.fail i c statePoisoned)
  | .rollback write previousSecret error, .go =>
    some ((s.setSecret write.reference previousSecret).fail i c error)
  | .rollback _ _ error, _ => some (s.fail i c error)
  | .disconnect references, .go => some (s.goTo i c (.deleteRow references))
  | .deleteRow references, .go =>
    if (s.hosts c.host).isSome then
      some ((s.setHost c.host none).goTo i c
        (.forgetAll true (.deleted true) (references.filter (isManagedReference s.provider))))
    else some (s.goTo i c (.returned (.ok (.deleted false))))
  | .deleteRow _, .fault text => some (s.fail i c text)
  | .deleteRow _, .poisoned => some (s.fail i c statePoisoned)
  | .forget (r :: left) strict reply, .go =>
    some ({ s.setSecret r none with
      forgotten := s.forgotten ++ [(⟨i, r⟩ : Forgotten)] }.goTo i c (.forgetAll strict reply left))
  | .forget (_ :: left) strict reply, .fault _ => some (s.goTo i c (.forgetAll strict reply left))
  | .forget (_ :: left) strict reply, .poisoned =>
    if strict then some (s.fail i c statePoisoned) else some (s.goTo i c (.forgetAll strict reply left))
  | _, _ => none

end State

inductive Event
  | call (host : HostId) (command : Command)
  | step (i : Nat) (choice : Choice)
  /-- the run history changes -/
  | setRuns (runs : HostId → Nat)

def step (s : State) : Event → Option State
  | .call host command => some { s with calls := s.calls ++ [⟨host, .load command, none⟩] }
  | .step i choice =>
    match s.calls[i]? with
    | some c => s.callStep i c c.pc choice
    | none => none
  | .setRuns runs => some { s with runs := runs }

def machine : Machine State Event := ⟨step⟩

/-- No call has been made yet, over any database and any secret store. -/
def Initial (s : State) : Prop := s.calls = [] ∧ s.written = [] ∧ s.forgotten = []

end KW.Hosts
