import KodeWork.Framework.OneShot
import KodeWork.Impl.Domain
import KodeWork.Impl.Error

/-!
# The keyboard-interactive broker

`KeyboardInteractiveBroker` of `kodework-ssh/src/keyboard_interactive.rs` with
the calls that run on it at the same time, as a machine. A step is one lock
section, one atomic access or one await of one call:

* a prompt (`prompt_for_connection`), which may be answered, cancelled, time out
  while it waits, or be dropped there with its task;
* `answer` with `deliver_answer`, `answer_for_owner`, `cancel_for_owner` and
  `drain_requests`.

The locks are taken to work: they are poisoned by a panic under them only, and
no section under them has one. What is left of an answer that is not delivered
(it is wiped) is not kept.

The fields `request` and `answer` of a prompt and `delivered` of the broker are
read by no step; they record what the statements are about.
-/

namespace KW.Keyboard

open OneShot (Channel)

structure KeyboardPrompt where
  prompt : String
  echo : Bool
deriving DecidableEq, Repr

structure KeyboardInteractiveRequest where
  requestId : Nat
  ownerHostId : Option HostId
  connectionGeneration : Nat
  name : String
  instructions : String
  prompts : List KeyboardPrompt
deriving DecidableEq, Repr

/-! ## Prompts -/

/-- The arguments of `prompt_for_connection`. -/
structure PromptArgs where
  ownerHostId : Option HostId
  connectionGeneration : Nat
  name : String
  instructions : String
  prompts : List KeyboardPrompt
deriving DecidableEq, Repr

/-- Where `prompt_for_connection` stands; `id` is its request. -/
inductive PromptPc
  /-- `prompts.len() > 32`, then `next_id.fetch_add(1)` -/
  | nextId
  /-- `requests.insert(request_id, sender)` -/
  | insert (id : Nat)
  /-- `pending.push_back(..)` -/
  | push (id : Nat)
  /-- `timeout(self.timeout, receiver).await` -/
  | wait (id : Nat)
  /-- the cleanup guard: `requests.remove`; no result when the task was dropped -/
  | forgetRequest (id : Nat) (result : Option (Except SshError (List String)))
  /-- the cleanup guard: `pending.retain` -/
  | forgetPending (id : Nat) (result : Option (Except SshError (List String)))
  | returned (result : Except SshError (List String))
  | dropped

/-- A call of `prompt_for_connection`. -/
structure Prompt where
  args : PromptArgs
  pc : PromptPc
  /-- The id of its request. -/
  request : Option Nat
  /-- The answer it received. -/
  answer : Option (List String)

def Prompt.new (args : PromptArgs) : Prompt := ⟨args, .nextId, none, none⟩

/-! ## Answers -/

/-- Where a call that answers or cancels requests stands. -/
inductive AnswerPc
  /-- `answer_for_owner`: is the request pending for this owner? -/
  | owner (host : HostId) (id : Nat) (responses : List String)
  /-- `answer`: `requests.remove(&request_id)` -/
  | remove (id : Nat) (responses : List String)
  /-- `deliver_answer`: `sender.send(responses)` -/
  | send (id : Nat) (responses : List String)
  /-- `answer`: `pending.retain(..)` -/
  | retain (id : Nat)
  /-- `cancel_for_owner`: `pending_for_owner` -/
  | cancel (host : HostId)
  /-- `cancel_for_owner`: `requests.remove(&id)`, with the ids left -/
  | cancelRequest (id : Nat) (left : List Nat)
  /-- `cancel_for_owner`: `pending.retain(..)` -/
  | cancelPending (id : Nat) (left : List Nat)
  | returned (applied : Bool)
deriving DecidableEq, Repr

/-- The head of the loop of `cancel_for_owner`. -/
def AnswerPc.cancelNext : List Nat → AnswerPc
  | [] => .returned false
  | id :: left => .cancelRequest id left

structure KeyboardInteractiveBroker where
  /-- `requests`: the ids whose sender is in the map. -/
  requests : List Nat
  pending : List KeyboardInteractiveRequest
  nextId : Nat
  channels : Nat → Channel (List String)
  prompts : List Prompt
  answers : List AnswerPc
  delivered : List (Nat × List String)

def KeyboardInteractiveBroker.new : KeyboardInteractiveBroker where
  requests := []
  pending := []
  nextId := 1
  channels := fun _ => .new
  prompts := []
  answers := []
  delivered := []

/-- What the environment decides in a step of a call. -/
inductive Choice
  | go
  | timeout
  /-- the task of the prompt is dropped -/
  | abort
deriving DecidableEq, Repr

namespace KeyboardInteractiveBroker

def goPrompt (s : KeyboardInteractiveBroker) (i : Nat) (p : Prompt) (pc : PromptPc) :
    KeyboardInteractiveBroker :=
  { s with prompts := s.prompts.set i { p with pc := pc } }

def goAnswer (s : KeyboardInteractiveBroker) (i : Nat) (pc : AnswerPc) : KeyboardInteractiveBroker :=
  { s with answers := s.answers.set i pc }

def setChannel (s : KeyboardInteractiveBroker) (id : Nat) (c : Channel (List String)) :
    KeyboardInteractiveBroker :=
  { s with channels := Function.update s.channels id c }

def dropReceiver (s : KeyboardInteractiveBroker) (id : Nat) : KeyboardInteractiveBroker :=
  s.setChannel id { s.channels id with receiverDropped := true }

/-- `requests.remove(&id)`: the sender leaves the map, if it is there, and is
dropped. -/
def dropSender (s : KeyboardInteractiveBroker) (id : Nat) : KeyboardInteractiveBroker :=
  if id ∈ s.requests then
    { s with requests := s.requests.filter (· ≠ id) }.setChannel id
      { s.channels id with senderDropped := true }
  else s

/-- `pending.retain(|request| request.request_id != id)`. -/
def dropPending (s : KeyboardInteractiveBroker) (id : Nat) : KeyboardInteractiveBroker :=
  { s with pending := s.pending.filter fun request => request.requestId ≠ id }

/-- `pending_for_owner`, the ids. -/
def pendingForOwner (s : KeyboardInteractiveBroker) (host : HostId) : List Nat :=
  (s.pending.filter fun request => request.ownerHostId = some host).map (·.requestId)

def tooManyPrompts : SshError := .invalidConfiguration "keyboard-interactive prompt count exceeds 32"

/-- One step of the prompt numbered `i`. -/
def promptStep (s : KeyboardInteractiveBroker) (i : Nat) (p : Prompt) :
    PromptPc → Choice → Option KeyboardInteractiveBroker
  | .nextId, .go =>
    if 32 < p.args.prompts.length then some (s.goPrompt i p (.returned (.error tooManyPrompts)))
    else
      some ({ s with nextId := s.nextId + 1 }.goPrompt i { p with request := some s.nextId }
        (.insert s.nextId))
  | .insert id, .go => some ({ s with requests := s.requests.insert id }.goPrompt i p (.push id))
  | .push id, .go =>
    let a := p.args
    let request : KeyboardInteractiveRequest :=
      ⟨id, a.ownerHostId, a.connectionGeneration, a.name, a.instructions, a.prompts⟩
    some ({ s with pending := s.pending ++ [request] }.goPrompt i p (.wait id))
  | .wait id, .go =>
    match (s.channels id).value with
    | some responses =>
      some ((s.dropReceiver id).goPrompt i { p with answer := some responses }
        (.forgetRequest id (some (.ok responses))))
    | none =>
      if (s.channels id).senderDropped then
        some ((s.dropReceiver id).goPrompt i p (.forgetRequest id (some (.error .cancelled))))
      else none
  | .wait id, .timeout =>
    some ((s.dropReceiver id).goPrompt i p (.forgetRequest id (some (.error .timeout))))
  | .wait id, .abort => some ((s.dropReceiver id).goPrompt i p (.forgetRequest id none))
  | .forgetRequest id result, .go => some ((s.dropSender id).goPrompt i p (.forgetPending id result))
  | .forgetPending id result, .go =>
    some ((s.dropPending id).goPrompt i p (result.elim .dropped .returned))
  | _, _ => none

/-- One step of the answering call numbered `i`. -/
def answerStep (s : KeyboardInteractiveBroker) (i : Nat) : AnswerPc → Option KeyboardInteractiveBroker
  | .owner host id responses =>
    if s.pending.any fun request => request.requestId = id ∧ request.ownerHostId = some host then
      some (s.goAnswer i (.remove id responses))
    else some (s.goAnswer i (.returned false))
  | .remove id responses =>
    if id ∈ s.requests then
      some ({ s with requests := s.requests.filter (· ≠ id) }.goAnswer i (.send id responses))
    else some (s.goAnswer i (.returned false))
  | .send id responses =>
    if (s.channels id).receiverDropped then some (s.goAnswer i (.returned false))
    else
      some ({ s.setChannel id { s.channels id with value := some responses } with
        delivered := s.delivered ++ [(id, responses)] }.goAnswer i (.retain id))
  | .retain id => some ((s.dropPending id).goAnswer i (.returned true))
  | .cancel host => some (s.goAnswer i (.cancelNext (s.pendingForOwner host)))
  | .cancelRequest id left => some ((s.dropSender id).goAnswer i (.cancelPending id left))
  | .cancelPending id left => some ((s.dropPending id).goAnswer i (.cancelNext left))
  | .returned _ => none

end KeyboardInteractiveBroker

inductive Action
  | promptForConnection (args : PromptArgs)
  | answer (id : Nat) (responses : List String)
  | answerForOwner (host : HostId) (id : Nat) (responses : List String)
  | cancelForOwner (host : HostId)
  | drainRequests
  | prompt (i : Nat) (choice : Choice)
  | reply (i : Nat)
deriving DecidableEq, Repr

def step (s : KeyboardInteractiveBroker) : Action → Option KeyboardInteractiveBroker
  | .promptForConnection args => some { s with prompts := s.prompts ++ [.new args] }
  | .answer id responses => some { s with answers := s.answers ++ [.remove id responses] }
  | .answerForOwner host id responses =>
    some { s with answers := s.answers ++ [.owner host id responses] }
  | .cancelForOwner host => some { s with answers := s.answers ++ [.cancel host] }
  | .drainRequests => some { s with pending := [] }
  | .prompt i choice =>
    match s.prompts[i]? with
    | some p => s.promptStep i p p.pc choice
    | none => none
  | .reply i =>
    match s.answers[i]? with
    | some pc => s.answerStep i pc
    | none => none

def machine : Machine KeyboardInteractiveBroker Action := ⟨step⟩

/-- A broker without calls. -/
def FreshBroker (s : KeyboardInteractiveBroker) : Prop := s = .new

theorem freshBroker_new : FreshBroker .new := rfl

end KW.Keyboard
