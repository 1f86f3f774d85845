import KodeWork.Impl.Domain
import KodeWork.Impl.Error
import Mathlib.Logic.Function.Basic

/-!
# Trusted host keys

The two tables of host keys (`kodework-storage/src/host_keys.rs`), the
lookups and writes of `SqliteKnownHosts` on them (`src-tauri/src/host_keys.rs`),
and what `verify_for_connection` makes of the record it finds
(`kodework-ssh/src/host_key.rs`). `MemoryKnownHosts` has the same two maps and
the same lookups.

A query may fail: its `Fault` is the message, and is chosen by the environment.
A failed write has not happened. The time stamps of the rows are left out; no
lookup reads them.
-/

namespace KW.HostKey

/-- What the broker reads of a presented `PublicKey`. -/
structure PublicKey where
  algorithm : String
  fingerprint : String
  keyBlobBase64 : String
deriving DecidableEq, Repr

structure HostKeyInfo where
  hostname : String
  port : Nat
  algorithm : String
  fingerprint : String
  keyBlobBase64 : String
deriving DecidableEq, Repr

def HostKeyInfo.key (i : HostKeyInfo) : PublicKey := ⟨i.algorithm, i.fingerprint, i.keyBlobBase64⟩

/-! ## The tables -/

/-- A row of `host_key_identities`; its host and algorithm are the primary key. -/
structure HostKeyIdentityRecord where
  fingerprint : String
  keyBlobBase64 : String
deriving DecidableEq, Repr

structure Database where
  /-- `host_keys`, by host name and port. -/
  hostKeys : String × Nat → Option PublicKey
  /-- `host_key_identities`, by host and algorithm. -/
  hostKeyIdentities : HostId × String → Option HostKeyIdentityRecord

namespace Database

def get (db : Database) (hostname : String) (port : Nat) : Option HostKeyInfo :=
  (db.hostKeys (hostname, port)).map fun r =>
    ⟨hostname, port, r.algorithm, r.fingerprint, r.keyBlobBase64⟩

def getForHost (db : Database) (host : HostId) (algorithm : String) : Option HostKeyIdentityRecord :=
  db.hostKeyIdentities (host, algorithm)

/-- The upsert on `(hostname, port)`. -/
def save (db : Database) (hostname : String) (port : Nat) (info : HostKeyInfo) : Database :=
  { db with hostKeys := Function.update db.hostKeys (hostname, port) (some info.key) }

/-- The upsert on `(host_id, algorithm)`. -/
def saveForHost (db : Database) (host : HostId) (info : HostKeyInfo) : Database :=
  let record : HostKeyIdentityRecord := ⟨info.fingerprint, info.keyBlobBase64⟩
  { db with
    hostKeyIdentities := Function.update db.hostKeyIdentities (host, info.algorithm) (some record) }

end Database

/-! ## Lookups -/

/-- The message of a query that fails. -/
abbrev Fault := Option String

inductive KnownHostMatch
  | hostScoped (info : HostKeyInfo)
  | legacyEndpoint (info : HostKeyInfo)
deriving DecidableEq, Repr

def KnownHostMatch.info : KnownHostMatch → HostKeyInfo
  | .hostScoped info | .legacyEndpoint info => info

/-- `lookup`. -/
def Database.lookup (db : Database) (hostname : String) (port : Nat) :
    Fault → Except String (Option HostKeyInfo)
  | some message => .error message
  | none => .ok (db.get hostname port)

/-- `lookup_for_host_match_algorithm`: the identity of the host for this
algorithm, else the record of the endpoint if it is for this algorithm. -/
def Database.lookupForHostMatchAlgorithm (db : Database) (host : HostId) (hostname : String)
    (port : Nat) (algorithm : String) (identity endpoint : Fault) :
    Except String (Option KnownHostMatch) :=
  match identity with
  | some message => .error message
  | none =>
    match db.getForHost host algorithm with
    | some record =>
      .ok (some (.hostScoped ⟨hostname, port, algorithm, record.fingerprint, record.keyBlobBase64⟩))
    | none =>
      match endpoint with
      | some message => .error message
      | none =>
        match db.get hostname port with
        | none => .ok none
        | some legacy =>
          if legacy.algorithm ≠ algorithm then .ok none else .ok (some (.legacyEndpoint legacy))

/-! ## One verification, up to its prompt -/

/-- The arguments of `verify_for_connection`. -/
structure VerifyRequest where
  hostId : Option HostId
  ownerHostId : Option HostId
  connectionGeneration : Nat
  hostname : String
  port : Nat
  key : PublicKey
deriving DecidableEq, Repr

/-- What the record found says about the presented key. -/
inductive Verdict
  | accept
  /-- an endpoint record with the same key: `promote_legacy_for_host` -/
  | promote (host : HostId)
  | changed
  | prompt
deriving DecidableEq, Repr

namespace VerifyRequest

def info (r : VerifyRequest) : HostKeyInfo :=
  ⟨r.hostname, r.port, r.key.algorithm, r.key.fingerprint, r.key.keyBlobBase64⟩

/-- The lookup of the scope of the request: the host and the key's algorithm,
or the endpoint. -/
def lookup (r : VerifyRequest) (db : Database) (identity endpoint : Fault) :
    Except String (Option KnownHostMatch) :=
  match r.hostId with
  | some host =>
    db.lookupForHostMatchAlgorithm host r.hostname r.port r.info.algorithm identity endpoint
  | none => (db.lookup r.hostname r.port endpoint).map (Option.map .hostScoped)

def verdict (r : VerifyRequest) : Option KnownHostMatch → Verdict
  | none => .prompt
  | some savedMatch =>
    let saved := savedMatch.info
    if saved.fingerprint = r.key.fingerprint ∧ saved.keyBlobBase64 ≠ "" then
      if saved.keyBlobBase64 = r.key.keyBlobBase64 then
        match r.hostId, savedMatch with
        | some host, .legacyEndpoint _ => .promote host
        | _, _ => .accept
      else .changed
    else if saved.fingerprint = r.key.fingerprint then .accept
    else .changed

/-- The write of `TrustAndSave`; `promote_legacy_for_host` is `save_for_host`. -/
def store (r : VerifyRequest) (db : Database) : Database :=
  match r.hostId with
  | some host => db.saveForHost host r.info
  | none => db.save r.hostname r.port r.info

/-- `verify_for_connection` up to its prompt: what it returns without one, and
the store it leaves. `write` is the fault of the promotion. -/
def verifyKnown (r : VerifyRequest) (db : Database) (identity endpoint write : Fault) :
    Option (Except SshError Bool) × Database :=
  match r.lookup db identity endpoint with
  | .error message => (some (.error (.hostKeyStoreUnavailable message)), db)
  | .ok saved =>
    match r.verdict saved with
    | .accept => (some (.ok true), db)
    | .promote host =>
      match write with
      | some message => (some (.error (.hostKeyStoreUnavailable message)), db)
      | none => (some (.ok true), db.saveForHost host r.info)
    | .changed => (some (.error .hostKeyChanged), db)
    | .prompt => (none, db)

end VerifyRequest

end KW.HostKey
