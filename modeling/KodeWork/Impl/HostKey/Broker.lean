import KodeWork.Framework.Machine
import KodeWork.Impl.HostKey.Store

/-!
# The host-key broker

`HostKeyBroker` of `kodework-ssh/src/host_key.rs` with the calls that run on it
at the same time, as a machine. A step is one lock section, one atomic access,
one query of the store or one await of one call:

* a verification (`verify_for_connection`), which may wait for the user's
  decision, time out there, or be dropped there with its task;
* `answer`, `answer_for_owner` and `cancel_for_owner`, and `drain_requests`.

The request and its decision meet in a `oneshot` channel, named by the request
id. What the environment decides (a query that fails, a poisoned lock, the
timeout) is in the action.

The fields `looked`, `prompt`, `decision`, `promoted`, `saved` and `stale` of a
verification and `delivered` of the broker are read by no step; they record what
the statements are about.
-/

namespace KW.HostKey

inductive HostKeyDecision
  | trustOnce
  | trustAndSave
  | reject
deriving DecidableEq, Repr

structure HostKeyRequest where
  requestId : Nat
  ownerHostId : Option HostId
  connectionGeneration : Nat
  info : HostKeyInfo
deriving DecidableEq, Repr

/-- The `oneshot` channel of a request. -/
structure Channel where
  value : Option HostKeyDecision
  senderDropped : Bool
  receiverDropped : Bool
deriving DecidableEq, Repr

def Channel.new : Channel := ⟨none, false, false⟩

/-! ## Verifications -/

/-- Where `verify_for_connection` stands; `id` is its request. -/
inductive VerifyPc
  | lookup
  /-- `promote_legacy_for_host` -/
  | promote (host : HostId)
  /-- `next_id.fetch_add(1)` -/
  | nextId
  /-- `requests.insert(request_id, sender)` -/
  | insert (id : Nat)
  /-- `pending.push_back(..)` -/
  | push (id : Nat)
  /-- `timeout(decision_timeout, receiver).await` -/
  | wait (id : Nat)
  /-- `save_for_host` or `save` -/
  | save (id : Nat)
  /-- the cleanup guard: `requests.remove`; no result when the task was dropped -/
  | forgetRequest (id : Nat) (result : Option (Except SshError Bool))
  /-- the cleanup guard: `pending.retain` -/
  | forgetPending (id : Nat) (result : Option (Except SshError Bool))
  | returned (result : Except SshError Bool)
  | dropped

/-- A call of `verify_for_connection`. -/
structure Verification where
  request : VerifyRequest
  pc : VerifyPc
  /-- The store at its lookup, and the faults of the lookup. -/
  looked : Option (Database × Fault × Fault)
  /-- The id of its prompt. -/
  prompt : Option Nat
  /-- The decision it received. -/
  decision : Option HostKeyDecision
  /-- How its promotion ended. -/
  promoted : Option (Except String Unit)
  /-- How its save ended. -/
  saved : Option (Except String Unit)
  /-- Another verification has stored a different key for the same scope since
  the lookup. -/
  stale : Bool

def Verification.new (r : VerifyRequest) : Verification :=
  ⟨r, .lookup, none, none, none, none, none, false⟩

/-- The scope a key is trusted for. -/
inductive Scope
  | host (host : HostId) (algorithm : String)
  | endpoint (hostname : String) (port : Nat)
deriving DecidableEq, Repr

/-- The scope a verification stores its key for. -/
def VerifyRequest.scope (r : VerifyRequest) : Scope :=
  match r.hostId with
  | some host => .host host r.key.algorithm
  | none => .endpoint r.hostname r.port

/-- The verification after `r` has stored its key. -/
def Verification.overtake (w : Verification) (r : VerifyRequest) : Verification :=
  if w.looked.isSome ∧ w.request.scope = r.scope ∧ w.request.key ≠ r.key then { w with stale := true }
  else w

/-! ## Answers -/

/-- Where a call that answers requests stands. -/
inductive AnswerPc
  /-- `cancel_for_owner`: `pending_for_owner` -/
  | cancel (host : HostId)
  /-- `answer_for_owner`: is the request pending for this owner? -/
  | owner (host : HostId) (id : Nat) (decision : HostKeyDecision)
  /-- `answer`: `requests.remove(&request_id)` -/
  | remove (id : Nat) (decision : HostKeyDecision)
  /-- `answer`: `sender.send(decision)` -/
  | send (id : Nat) (decision : HostKeyDecision)
  /-- `answer`: `pending.retain(..)` -/
  | retain (id : Nat)
  | returned (applied : Bool)
deriving DecidableEq, Repr

/-- A call of `answer` or `answer_for_owner`, or of `cancel_for_owner` with the
requests it has left to reject. -/
structure AnswerCall where
  pc : AnswerPc
  left : List (HostId × Nat)
deriving DecidableEq, Repr

structure HostKeyBroker where
  known : Database
  /-- `requests`: the ids whose sender is in the map. -/
  requests : List Nat
  pending : List HostKeyRequest
  nextId : Nat
  channels : Nat → Channel
  verifications : List Verification
  answers : List AnswerCall
  delivered : List (Nat × HostKeyDecision)

def HostKeyBroker.new (known : Database) : HostKeyBroker where
  known := known
  requests := []
  pending := []
  nextId := 1
  channels := fun _ => .new
  verifications := []
  answers := []
  delivered := []

/-- What the environment decides in a step of a call. -/
inductive Choice
  | go
  /-- the faults of a lookup -/
  | faults (identity endpoint : Fault)
  /-- the write fails -/
  | fault (message : String)
  /-- the lock is poisoned -/
  | poisoned
  | timeout
  /-- the task of the call is dropped -/
  | abort
deriving DecidableEq, Repr

namespace HostKeyBroker

def goVerify (s : HostKeyBroker) (i : Nat) (v : Verification) (pc : VerifyPc) : HostKeyBroker :=
  { s with verifications := s.verifications.set i { v with pc := pc } }

/-- The verification stores its key. -/
def write (s : HostKeyBroker) (r : VerifyRequest) : HostKeyBroker :=
  { s with
    known := r.store s.known
    verifications := s.verifications.map fun w => w.overtake r }

def dropReceiver (s : HostKeyBroker) (id : Nat) : HostKeyBroker :=
  { s with
    channels := Function.update s.channels id { s.channels id with receiverDropped := true } }

/-- The sender leaves the map and is dropped. -/
def dropSender (s : HostKeyBroker) (id : Nat) : HostKeyBroker :=
  if id ∈ s.requests then
    { s with
      requests := s.requests.filter (· ≠ id)
      channels := Function.update s.channels id { s.channels id with senderDropped := true } }
  else s

/-- `pending.retain(|request| request.request_id != request_id)`. -/
def dropPending (s : HostKeyBroker) (id : Nat) : HostKeyBroker :=
  { s with pending := s.pending.filter fun request => request.requestId ≠ id }

def brokerPoisoned : SshError := .invalidConfiguration "host-key broker lock poisoned"

/-- Where a verification goes with what its lookup returned. -/
def afterLookup (r : VerifyRequest) : Except String (Option KnownHostMatch) → VerifyPc
  | .error message => .returned (.error (.hostKeyStoreUnavailable message))
  | .ok saved =>
    match r.verdict saved with
    | .accept => .returned (.ok true)
    | .promote host => .promote host
    | .changed => .returned (.error .hostKeyChanged)
    | .prompt => .nextId

/-- Where a verification goes with the decision it received. -/
def afterDecision (id : Nat) : HostKeyDecision → VerifyPc
  | .trustOnce => .forgetRequest id (some (.ok true))
  | .trustAndSave => .save id
  | .reject => .forgetRequest id (some (.error .hostKeyRejected))

/-- One step of the verification numbered `i`. -/
def verifyStep (s : HostKeyBroker) (i : Nat) (v : Verification) : VerifyPc → Choice → Option HostKeyBroker
  | .lookup, .faults identity endpoint =>
    some (s.goVerify i { v with looked := some (s.known, identity, endpoint) }
      (afterLookup v.request (v.request.lookup s.known identity endpoint)))
  | .lookup, .abort => some (s.goVerify i v .dropped)
  | .promote _, .go =>
    some ((s.write v.request).goVerify i { v with promoted := some (.ok ()) } (.returned (.ok true)))
  | .promote _, .fault message =>
    some (s.goVerify i { v with promoted := some (.error message) }
      (.returned (.error (.hostKeyStoreUnavailable message))))
  | .nextId, .go =>
    some ({ s with nextId := s.nextId + 1 }.goVerify i { v with prompt := some s.nextId }
      (.insert s.nextId))
  | .insert id, .go => some ({ s with requests := s.requests.insert id }.goVerify i v (.push id))
  | .insert _, .poisoned => some (s.goVerify i v (.returned (.error brokerPoisoned)))
  | .push id, .go =>
    let r := v.request
    let request : HostKeyRequest := ⟨id, r.ownerHostId, r.connectionGeneration, r.info⟩
    some ({ s with pending := s.pending ++ [request] }.goVerify i v (.wait id))
  | .push id, .poisoned => some (s.goVerify i v (.forgetRequest id (some (.error brokerPoisoned))))
  | .wait id, .go =>
    match (s.channels id).value with
    | some decision =>
      some ((s.dropReceiver id).goVerify i { v with decision := some decision } (afterDecision id decision))
    | none =>
      if (s.channels id).senderDropped then
        some ((s.dropReceiver id).goVerify i v (.forgetRequest id (some (.error .hostKeyRejected))))
      else none
  | .wait id, .timeout =>
    some ((s.dropReceiver id).goVerify i v (.forgetRequest id (some (.error .hostKeyDecisionTimeout))))
  | .wait id, .abort => some ((s.dropReceiver id).goVerify i v (.forgetRequest id none))
  | .save id, .go =>
    some ((s.write v.request).goVerify i { v with saved := some (.ok ()) }
      (.forgetRequest id (some (.ok true))))
  | .save id, .fault message =>
    some (s.goVerify i { v with saved := some (.error message) }
      (.forgetRequest id (some (.error (.invalidConfiguration message)))))
  | .forgetRequest id result, .go => some ((s.dropSender id).goVerify i v (.forgetPending id result))
  | .forgetRequest id result, .poisoned => some (s.goVerify i v (.forgetPending id result))
  | .forgetPending id result, .go =>
    some (((s.dropPending id).dropReceiver id).goVerify i v (result.elim .dropped .returned))
  | .forgetPending id result, .poisoned =>
    some ((s.dropReceiver id).goVerify i v (result.elim .dropped .returned))
  | _, _ => none

def goAnswer (s : HostKeyBroker) (i : Nat) (a : AnswerCall) (pc : AnswerPc) : HostKeyBroker :=
  { s with answers := s.answers.set i { a with pc := pc } }

/-- One step of the answering call numbered `i`. -/
def answerStep (s : HostKeyBroker) (i : Nat) (a : AnswerCall) : AnswerPc → Choice → Option HostKeyBroker
  | .cancel host, .go =>
    let ids := (s.pending.filter fun request => request.ownerHostId = some host).map (·.requestId)
    some (s.goAnswer i { a with left := ids.map fun id => (host, id) } (.returned false))
  | .cancel _, .poisoned => some (s.goAnswer i a (.returned false))
  | .owner host id decision, .go =>
    if s.pending.any fun request => request.requestId = id ∧ request.ownerHostId = some host then
      some (s.goAnswer i a (.remove id decision))
    else some (s.goAnswer i a (.returned false))
  | .owner .., .poisoned => some (s.goAnswer i a (.returned false))
  | .remove id decision, .go =>
    if id ∈ s.requests then
      some ({ s with requests := s.requests.filter (· ≠ id) }.goAnswer i a (.send id decision))
    else some (s.goAnswer i a (.returned false))
  | .remove .., .poisoned => some (s.goAnswer i a (.returned false))
  | .send id decision, .go =>
    if (s.channels id).receiverDropped then some (s.goAnswer i a (.returned false))
    else
      some ({ s with
        channels := Function.update s.channels id { s.channels id with value := some decision }
        delivered := s.delivered ++ [(id, decision)] }.goAnswer i a (.retain id))
  | .retain id, .go => some ((s.dropPending id).goAnswer i a (.returned true))
  | .retain _, .poisoned => some (s.goAnswer i a (.returned true))
  | .returned _, .go =>
    match a.left with
    | [] => none
    | (host, id) :: left => some (s.goAnswer i { a with left := left } (.owner host id .reject))
  | _, _ => none

end HostKeyBroker

inductive Action
  | verifyForConnection (request : VerifyRequest)
  | answer (id : Nat) (decision : HostKeyDecision)
  | answerForOwner (host : HostId) (id : Nat) (decision : HostKeyDecision)
  | cancelForOwner (host : HostId)
  | drainRequests
  | verify (i : Nat) (choice : Choice)
  | reply (i : Nat) (choice : Choice)
deriving DecidableEq, Repr

def step (s : HostKeyBroker) : Action → Option HostKeyBroker
  | .verifyForConnection r => some { s with verifications := s.verifications ++ [.new r] }
  | .answer id decision => some { s with answers := s.answers ++ [⟨.remove id decision, []⟩] }
  | .answerForOwner host id decision =>
    some { s with answers := s.answers ++ [⟨.owner host id decision, []⟩] }
  | .cancelForOwner host => some { s with answers := s.answers ++ [⟨.cancel host, []⟩] }
  | .drainRequests => some { s with pending := [] }
  | .verify i choice =>
    match s.verifications[i]? with
    | some v => s.verifyStep i v v.pc choice
    | none => none
  | .reply i choice =>
    match s.answers[i]? with
    | some a => s.answerStep i a a.pc choice
    | none => none

def machine : Machine HostKeyBroker Action := ⟨step⟩

/-- A broker without calls, over any store. -/
def Initial (s : HostKeyBroker) : Prop := ∃ known, s = .new known

theorem init_new (known : Database) : Initial (.new known) := ⟨known, rfl⟩

end KW.HostKey
