import KodeWork.Impl.Actions.Action

/-!
# The command that runs an action

`run_action` of `src-tauri/src/commands.rs` with `run_action_with_id` of
`kodework-core/src/session.rs`, for any number of calls at the same time. A step
is one section under the database lock, one lookup of a pane or a connection, or
one await of one call. Beside them other commands change the two tables an
action is loaded from, and the table of runs, in any way.

What a call does with the table of runs is that of `Impl/History` (`queuedRun`,
`runUpdate`); the columns of a run that are written once are in `snapshots`.

`read` of a call and `sent` are not in the program and are read by no step: they
record the tables a call loaded its action from, and the lines that were sent.
-/

namespace KW.Actions

open History (Runs RunOutcome CommandOutput RunReconciliationUpdate StorageError)

/-- What is stored under a key. -/
inductive Stored (β : Type)
  | missing
  /-- a column does not decode -/
  | malformed (message : Text)
  | row (value : β)
deriving DecidableEq, Repr

/-- The tables an action is loaded from. -/
structure Tables where
  actions : ActionId → Stored Action
  projects : ProjectId → Stored Project

/-- `repository.get(id)`, with the text for a missing row. -/
def Stored.get {β : Type} (missing : Text) : Stored β → Except Text β
  | .missing => .error missing
  | .malformed message => .error message
  | .row value => .ok value

/-- The first section of `run_action`: the stored action, if it belongs to the host. -/
def Tables.loadAction (tables : Tables) (host : HostId) (id : ActionId) : Except Text Action := do
  let stored ← (tables.actions id).get "action does not exist".toList
  let project ← (tables.projects stored.projectId).get "action project does not exist".toList
  if project.hostId = host then .ok stored
  else .error "action does not belong to the selected host".toList

/-- `run_action` up to its second section. -/
def Tables.admit (tables : Tables) (host : HostId) (payload : Action) (confirmed : Bool) :
    Except Text Action := do
  let action ← tables.loadAction host payload.id
  match validateAction action with
  | .error error => .error error.message
  | .ok () =>
    if actionRequiresConfirmation action && !confirmed then .error confirmationRequired
    else .ok action

/-- What a call of `run_action` returns when it fails. -/
inductive RunError
  | message (text : Text)
  | storage (error : StorageError)
deriving DecidableEq, Repr

/-- The fields of `ActionRunError` that are persisted or returned. -/
structure ActionRunError where
  text : Text
  dispatched : Bool
deriving DecidableEq, Repr

/-- As the run history knows it. -/
def ActionRunError.persisted (error : ActionRunError) : History.ActionRunError := ⟨error.dispatched⟩

/-- `error.to_string()`, as `run_action` returns it. -/
def ActionRunError.returned (error : ActionRunError) : RunError := .message error.text

def beforeDispatch (text : Text) : Except ActionRunError RunOutcome := .error ⟨text, false⟩

/-- Where a call of `run_action` stands; `run` is the run it has created. -/
inductive CallPc
  | load
  | create (action : Action)
  /-- `run_action_with_id` up to the call that sends the line -/
  | dispatch (action : Action) (run : Option RunId)
  /-- `pty.write(..).await` or `run_command_tracked(..).await` -/
  | sending (action : Action) (run : Option RunId)
  /-- `run_action_with_id` has returned; the clock is read -/
  | ended (action : Action) (run : Option RunId) (outcome : Except ActionRunError RunOutcome)
  | finish (update : RunReconciliationUpdate) (outcome : Except ActionRunError RunOutcome)
  | returned (result : Except RunError RunOutcome)
deriving DecidableEq, Repr

/-- A call of `run_action`. -/
structure Call where
  host : HostId
  /-- The action as the renderer sent it. -/
  payload : Action
  confirmed : Bool
  pc : CallPc
  /-- The tables at its first section. -/
  read : Option Tables

def Call.new (host : HostId) (payload : Action) (confirmed : Bool) : Call :=
  ⟨host, payload, confirmed, .load, none⟩

/-- The columns of a run that `create` writes and nothing changes. -/
structure Snapshot where
  run : RunId
  actionId : ActionId
  projectId : ProjectId
  actionName : Text
  command : Text
  cwd : Option Text
deriving DecidableEq, Repr

/-- A line sent by a call. -/
structure Sent where
  call : Nat
  line : CommandLine
deriving DecidableEq, Repr

structure RunState where
  tables : Tables
  runs : Runs
  snapshots : List Snapshot
  calls : List Call
  sent : List Sent

/-- What the environment decides in a step of a call. -/
inductive Choice
  | go
  /-- a lock, the clock or SQLite fails -/
  | fault (text : Text)
  /-- the new run, and the clock -/
  | created (run : RunId) (now : Nat)
  /-- an id for a run that has none -/
  | fresh (run : RunId)
  /-- there is no session, no pane or no connection -/
  | unavailable (fresh : RunId) (text : Text)
  /-- how the line typed into the pane, or the command, ends -/
  | remote (result : Except ActionRunError CommandOutput)
  | time (now : Nat)
deriving DecidableEq, Repr

namespace RunState

def go (s : RunState) (i : Nat) (c : Call) (pc : CallPc) : RunState :=
  { s with calls := s.calls.set i { c with pc := pc } }

def fail (s : RunState) (i : Nat) (c : Call) (text : Text) : RunState :=
  s.go i c (.returned (.error (.message text)))

def snapshot (run : RunId) (action : Action) : Snapshot :=
  ⟨run, action.id, action.projectId, action.name, action.command, action.cwd⟩

/-- `run_action_with_id` returns. An interactive action is not persisted. -/
def afterDispatch (action : Action) (run : Option RunId) (outcome : Except ActionRunError RunOutcome) :
    CallPc :=
  match run with
  | none => .returned (outcome.mapError ActionRunError.returned)
  | some _ => .ended action run outcome

/-- What `run_action_with_id` makes of the end of the command. -/
def outcomeOf (action : Action) (run : Option RunId) (remote : Except ActionRunError CommandOutput) :
    Except ActionRunError RunOutcome :=
  match remote with
  | .error error => .error error
  | .ok output =>
    match History.runActionWithId action.mode (run.getD (⟨0⟩ : RunId)) (.ok output) with
    | .error error => .error ⟨[], error.dispatched⟩
    | .ok outcome => .ok outcome

/-- One step of the call numbered `i`. -/
def callStep (s : RunState) (i : Nat) (c : Call) : CallPc → Choice → Option RunState
  | .load, .go =>
    let c := { c with read := some s.tables }
    match s.tables.admit c.host c.payload c.confirmed with
    | .error text => some (s.fail i c text)
    | .ok action =>
      if action.mode = .interactive then some (s.go i c (.dispatch action none))
      else some (s.go i c (.create action))
  | .load, .fault text => some (s.fail i c text)
  | .create action, .created run now =>
    match s.runs.create (History.RunState.queuedRun ⟨c.host, action.mode, run, .create⟩ now) with
    | .error error => some (s.go i c (.returned (.error (.storage error))))
    | .ok runs =>
      some ({ s with runs := runs, snapshots := s.snapshots ++ [snapshot run action] }.go i c
        (.dispatch action (some run)))
  | .create _, .fault text => some (s.fail i c text)
  | .dispatch action run, .fresh fresh =>
    match commandLine action c.confirmed run fresh with
    | .error text => some (s.go i c (afterDispatch action run (beforeDispatch text)))
    | .ok line => some ({ s with sent := s.sent ++ [(⟨i, line⟩ : Sent)] }.go i c (.sending action run))
  | .dispatch action run, .unavailable fresh text =>
    match commandLine action c.confirmed run fresh with
    | .error refusal => some (s.go i c (afterDispatch action run (beforeDispatch refusal)))
    | .ok _ => some (s.go i c (afterDispatch action run (beforeDispatch text)))
  | .sending action run, .remote result =>
    some (s.go i c (afterDispatch action run (outcomeOf action run result)))
  | .ended action run outcome, .time now =>
    let update := History.runUpdate action.mode (run.getD (⟨0⟩ : RunId)) now
      (outcome.mapError ActionRunError.persisted)
    some (s.go i c (.finish update outcome))
  | .ended .., .fault text => some (s.fail i c text)
  | .finish update outcome, .go =>
    match s.runs.finish update with
    | .error error => some (s.go i c (.returned (.error (.storage error))))
    | .ok runs =>
      some ({ s with runs := runs }.go i c
        (.returned (outcome.mapError ActionRunError.returned)))
  | .finish .., .fault text => some (s.fail i c text)
  | _, _ => none

end RunState

inductive Event
  | runAction (host : HostId) (payload : Action) (confirmed : Bool)
  | call (i : Nat) (choice : Choice)
  /-- other commands -/
  | setTables (tables : Tables)
  | setRuns (runs : Runs)

def step (s : RunState) : Event → Option RunState
  | .runAction host payload confirmed => some { s with calls := s.calls ++ [.new host payload confirmed] }
  | .call i choice =>
    match s.calls[i]? with
    | some c => s.callStep i c c.pc choice
    | none => none
  | .setTables tables => some { s with tables := tables }
  | .setRuns runs => some { s with runs := runs }

def machine : Machine RunState Event := ⟨step⟩

/-- No call has been made yet, over any tables. -/
def Initial (s : RunState) : Prop := s.calls = [] ∧ s.sent = []

end KW.Actions
