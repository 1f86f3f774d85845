import KodeWork.Impl.History.Rows
import KodeWork.Impl.HostRecord
import Mathlib.Data.Char
import Mathlib.Data.List.Lex
import Mathlib.Data.List.Sort

/-!
# The rows of a host

`upsert_host` and `get_host` of `kodework-storage/src/lib.rs` (with `load_addresses` and
`read_host_row`) on the tables `hosts` and `addresses` as SQLite has them: a host is
fourteen columns and the rows of its addresses. A row can hold any values; what is read
from them may fail.

`serde_json` and the order in which SQLite sorts values are parameters (`HostJson`,
`ValueOrder`). `faults` says of each statement of a transaction whether SQLite fails in it
for a reason of its own (a full disk, another writer).
-/

namespace KW.HostRows

open HostRecord (AddressId AddressKind RuntimeKind)
open RunRows (Value StorageError Storage)

/-- What `serde_json` does with a type. -/
structure Json (α : Type) where
  toText : α → Text
  fromText : Text → Option α
  from_to (a : α) : fromText (toText a) = some a

structure HostJson where
  credential : Json CredentialRef
  tailscale : Json TailscaleConfig
  runtime : Json RuntimeKind
  jump : Json HostRecord.JumpHost
  authMode : Json AuthenticationMode
  addressKind : Json AddressKind

/-- The order of the values of SQLite: among integers that of the numbers, among texts that
of their bytes. -/
structure ValueOrder where
  le : Value → Value → Bool
  total (a b : Value) : le a b = true ∨ le b a = true
  trans {a b c : Value} : le a b = true → le b c = true → le a c = true
  integer (m n : Int) : le (.integer m) (.integer n) = true ↔ m ≤ n
  text (s t : Text) : le (.text s) (.text t) = true ↔ s ≤ t

/-! ## Rows -/

structure HostRow where
  id : HostId
  label : Value
  username : Value
  port : Value
  authRef : Value
  tailscaleJson : Value
  defaultRuntime : Value
  jumpHostname : Value
  jumpPort : Value
  jumpUsername : Value
  jumpAuthJson : Value
  authMode : Value
  privateKeyPath : Value
  defaultRemotePath : Value
deriving DecidableEq, Repr

structure AddressRow where
  /-- none where the bytes are no UUID -/
  id : Option AddressId
  hostId : HostId
  kind : Value
  hostnameOrIp : Value
  port : Value
  priority : Value
  enabled : Value
deriving DecidableEq, Repr

structure Tables where
  hosts : List HostRow
  addresses : List AddressRow
deriving DecidableEq, Repr

/-! ## Values -/

def getText : Value → Except StorageError Text
  | .text t => .ok t
  | _ => .error .sqlite

def getOptionText : Value → Except StorageError (Option Text)
  | .null => .ok none
  | value => (getText value).map some

def getU16 : Value → Except StorageError UInt16
  | .integer n => if 0 ≤ n ∧ n < 65536 then .ok (UInt16.ofNat n.toNat) else .error .sqlite
  | _ => .error .sqlite

def getOptionU16 : Value → Except StorageError (Option UInt16)
  | .null => .ok none
  | value => (getU16 value).map some

def getI32 : Value → Except StorageError Int32
  | .integer n => if -2147483648 ≤ n ∧ n < 2147483648 then .ok (Int32.ofInt n) else .error .sqlite
  | _ => .error .sqlite

def getBool : Value → Except StorageError Bool
  | .integer n => .ok (n != 0)
  | _ => .error .sqlite

def ofU16 (n : UInt16) : Value := .integer n.toNat

def ofBool (b : Bool) : Value := .integer (if b then 1 else 0)

def ofOptionText : Option Text → Value
  | none => .null
  | some t => .text t

/-! ## Writing -/

variable (J : HostJson)

/-- `optional_json`. -/
def optionalJson {α : Type} (json : Json α) : Option α → Value
  | none => .null
  | some a => .text (json.toText a)

def hostRow (host : HostRecord.Host) : HostRow where
  id := host.id
  label := .text host.label
  username := .text host.username
  port := ofU16 host.port
  authRef := optionalJson J.credential host.authRef
  tailscaleJson := optionalJson J.tailscale host.tailscale
  defaultRuntime := .text (J.runtime.toText host.defaultRuntime)
  jumpHostname := ofOptionText (host.jump.map (·.hostname))
  jumpPort := (host.jump.map fun jump => ofU16 jump.port).getD .null
  jumpUsername := ofOptionText (host.jump.map (·.username))
  jumpAuthJson := optionalJson J.jump host.jump
  authMode := .text (J.authMode.toText host.authMode)
  privateKeyPath := ofOptionText host.privateKeyPath
  defaultRemotePath := .text host.defaultRemotePath

def addressRow (hostId : HostId) (address : HostRecord.Address) : AddressRow where
  id := some address.id
  hostId := hostId
  kind := .text (J.addressKind.toText address.kind)
  hostnameOrIp := .text address.hostnameOrIp
  port := ofU16 address.port
  priority := .integer address.priority.toInt
  enabled := ofBool address.enabled

abbrev Statement := Tables → Except StorageError (Unit × Tables)

/-- `INSERT INTO hosts .. ON CONFLICT(id) DO UPDATE SET ..`. -/
def insertHost (host : HostRecord.Host) : Statement := fun tables =>
  let row := hostRow J host
  let hosts :=
    if tables.hosts.any fun r => r.id = host.id then tables.hosts.map fun r => if r.id = host.id then row else r
    else tables.hosts ++ [row]
  .ok ((), { tables with hosts := hosts })

/-- `DELETE FROM addresses WHERE host_id = ?1`. -/
def deleteAddresses (id : HostId) : Statement := fun tables =>
  .ok ((), { tables with addresses := tables.addresses.filter fun r => r.hostId ≠ id })

/-- `INSERT INTO addresses ..`; the ids are a primary key. -/
def insertAddress (hostId : HostId) (address : HostRecord.Address) : Statement := fun tables =>
  if tables.addresses.any fun r => r.id = some address.id then .error .sqlite
  else .ok ((), { tables with addresses := tables.addresses ++ [addressRow J hostId address] })

/-- The statement with this number, unless SQLite fails in it. -/
def guarded (faults : Nat → Bool) (number : Nat) (f : Statement) : Statement := fun tables =>
  if faults number then .error .sqlite else f tables

/-- The `for` loop over the addresses; `number` is that of the next statement. -/
def insertAddresses (faults : Nat → Bool) (hostId : HostId) :
    Nat → List HostRecord.Address → Prog StorageError (Connection Tables) Unit
  | _, [] => pure ()
  | number, address :: addresses => do
    statement (guarded faults number (insertAddress J hostId address))
    insertAddresses faults hostId (number + 1) addresses

/-- The end of the transaction. -/
def commit : Statement := fun tables => .ok ((), tables)

/-- The statements of `upsert_host`. -/
def writeHost (faults : Nat → Bool) (host : HostRecord.Host) : Prog StorageError (Connection Tables) Unit := do
  statement (guarded faults 0 (insertHost J host))
  statement (guarded faults 1 (deleteAddresses host.id))
  insertAddresses J faults host.id 2 host.addresses
  statement (guarded faults (host.addresses.length + 2) commit)

def upsertHost (faults : Nat → Bool) (host : HostRecord.Host) : Prog StorageError (Connection Tables) Unit :=
  transaction .sqlite (writeHost J faults host)

/-! ## Reading -/

def fromText {α : Type} (json : Json α) (raw : Text) : Except StorageError α :=
  match json.fromText raw with
  | some a => .ok a
  | none => .error .sqlite

/-- `optional_from_json`. -/
def optionalFromJson {α : Type} (json : Json α) : Option Text → Except StorageError (Option α)
  | none => .ok none
  | some raw => (fromText json raw).map some

/-- The runtime of a row; rows of the third version have its name without quotes. -/
def readRuntime (raw : Text) : RuntimeKind :=
  match J.runtime.fromText raw with
  | some runtime => runtime
  | none =>
    if raw = "Herdr".toList then .herdr
    else if raw = "PlainShell".toList then .plainShell
    else .tmux

/-- The authentication mode of a row; rows of the seventh version have its name without
quotes. -/
def readAuthMode (raw : Text) : Except StorageError AuthenticationMode :=
  match J.authMode.fromText raw with
  | some mode => .ok mode
  | none =>
    if raw = "Password".toList then .ok .password
    else if raw = "PublicKey".toList then .ok .publicKey
    else if raw = "SshAgent".toList then .ok .sshAgent
    else if raw = "KeyboardInteractive".toList then .ok .keyboardInteractive
    else .error .sqlite

/-- The jump host of a row of the fifth version. -/
def legacyJump : Option Text → Option UInt16 → Option Text → Option HostRecord.JumpHost
  | some hostname, some port, some username => some ⟨hostname, port, username, none, .sshAgent, none⟩
  | _, _, _ => none

def readHostRow (row : HostRow) : Except StorageError HostRecord.Host := do
  let authRef ← optionalFromJson J.credential (← getOptionText row.authRef)
  let tailscale ← optionalFromJson J.tailscale (← getOptionText row.tailscaleJson)
  let runtimeJson ← getText row.defaultRuntime
  let jumpHostname ← getOptionText row.jumpHostname
  let jumpPort ← getOptionU16 row.jumpPort
  let jumpUsername ← getOptionText row.jumpUsername
  let jumpAuth ← optionalFromJson J.jump (← getOptionText row.jumpAuthJson)
  let authMode ← readAuthMode J (← getText row.authMode)
  let label ← getText row.label
  let username ← getText row.username
  let port ← getU16 row.port
  let privateKeyPath ← getOptionText row.privateKeyPath
  let defaultRemotePath ← getText row.defaultRemotePath
  .ok
    { id := row.id
      label := label
      username := username
      port := port
      authRef := authRef
      authMode := authMode
      privateKeyPath := privateKeyPath
      defaultRemotePath := defaultRemotePath
      jump := jumpAuth.or (legacyJump jumpHostname jumpPort jumpUsername)
      addresses := []
      tailscale := tailscale
      defaultRuntime := readRuntime J runtimeJson }

def readAddressRow (row : AddressRow) : Except StorageError HostRecord.Address := do
  let id ←
    match row.id with
    | some id => .ok id
    | none => .error .sqlite
  let kind ← fromText J.addressKind (← getText row.kind)
  let hostnameOrIp ← getText row.hostnameOrIp
  let port ← getU16 row.port
  let priority ← getI32 row.priority
  let enabled ← getBool row.enabled
  .ok ⟨id, kind, hostnameOrIp, port, priority, enabled⟩

/-- `ORDER BY priority, hostname_or_ip`. -/
def AddressRow.Before (order : ValueOrder) (a b : AddressRow) : Prop :=
  order.le a.priority b.priority = true ∧
    (order.le b.priority a.priority = true → order.le a.hostnameOrIp b.hostnameOrIp = true)

instance (order : ValueOrder) : DecidableRel (AddressRow.Before order) :=
  fun _ _ => inferInstanceAs (Decidable (_ ∧ _))

def loadAddresses (order : ValueOrder) (tables : Tables) (host : HostRecord.Host) :
    Except StorageError HostRecord.Host := do
  let rows := (tables.addresses.filter fun r => r.hostId = host.id).insertionSort (AddressRow.Before order)
  let addresses ← rows.mapM (readAddressRow J)
  .ok { host with addresses := addresses }

def getHost (order : ValueOrder) (id : HostId) (tables : Tables) : Except StorageError (Option HostRecord.Host) :=
  match tables.hosts.find? fun r => r.id = id with
  | none => .ok none
  | some row => do
    let host ← readHostRow J row
    let loaded ← loadAddresses J order tables host
    .ok (some loaded)

end KW.HostRows
