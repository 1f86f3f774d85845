import KodeWork.Impl.Actions.Run

/-!
# Running an action by its id

A call of `run_action` uses the id of the action it is sent, and nothing else of
it: `step_blur` says so of one step of any interleaving, and `Machine.run_map_congr`
of two runs. `Cleared` is what the first section of a call establishes of the
stored action; a call that has sent a line was cleared (`runInv_step`), so an
unconfirmed line is of an action of the host that needs no confirmation.
-/

namespace KW.Actions

open RunState
open History.RunState (queuedRun)

/-! ## What is not used -/

/-- The action with its id only. -/
def Action.blur (a : Action) : Action where
  id := a.id
  projectId := ⟨0⟩
  name := []
  command := []
  mode := .quick
  cwd := none
  timeoutMs := none
  dangerLevel := .safe
  confirmation := .never
  env := []

def Call.blur (c : Call) : Call := { c with payload := c.payload.blur }

/-- The state, but for what the calls were sent beside the id of an action. -/
def RunState.blur (s : RunState) : RunState := { s with calls := s.calls.map Call.blur }

def Event.blur : Event → Event
  | .runAction host payload confirmed => .runAction host payload.blur confirmed
  | e => e

theorem go_blur (s : RunState) (i : Nat) (c : Call) (pc : CallPc) :
    s.blur.go i c.blur pc = (s.go i c pc).blur := by
  simp only [RunState.go, RunState.blur, List.map_set]
  rfl

theorem callStep_blur (s : RunState) (i : Nat) (c : Call) (pc : CallPc) (choice : Choice) :
    s.blur.callStep i c.blur pc choice = (s.callStep i c pc choice).map RunState.blur := by
  have go : ∀ (s' : RunState) (c' : Call) (pc' : CallPc),
      some (s'.blur.go i c'.blur pc') = (some (s'.go i c' pc')).map RunState.blur :=
    fun s' c' pc' => congrArg some (go_blur s' i c' pc')
  cases pc with
  | load =>
    cases choice with
    | go =>
      -- the payload is used for its id only
      have hadmit : s.blur.tables.admit c.blur.host c.blur.payload c.blur.confirmed =
          s.tables.admit c.host c.payload c.confirmed := rfl
      cases h : s.tables.admit c.host c.payload c.confirmed with
      | error text =>
        simp only [callStep, hadmit.trans h, h]
        exact go s { c with read := some s.tables } _
      | ok action =>
        simp only [callStep, hadmit.trans h, h]
        split <;> exact go s { c with read := some s.tables } _
    | fault text => exact go s c _
    | _ => rfl
  | create action =>
    cases choice with
    | created run now =>
      have hcreate : s.blur.runs.create (queuedRun ⟨c.blur.host, action.mode, run, .create⟩ now) =
          s.runs.create (queuedRun ⟨c.host, action.mode, run, .create⟩ now) := rfl
      cases h : s.runs.create (queuedRun ⟨c.host, action.mode, run, .create⟩ now) with
      | error error =>
        simp only [callStep, hcreate.trans h, h]
        exact go s c _
      | ok runs =>
        simp only [callStep, hcreate.trans h, h]
        exact go { s with runs := runs, snapshots := s.snapshots ++ [snapshot run action] } c _
    | fault text => exact go s c _
    | _ => rfl
  | dispatch action run =>
    cases choice with
    | fresh fresh =>
      have hline : commandLine action c.blur.confirmed run fresh = commandLine action c.confirmed run fresh := rfl
      cases h : commandLine action c.confirmed run fresh with
      | error text =>
        simp only [callStep, hline.trans h, h]
        exact go s c _
      | ok line =>
        simp only [callStep, hline.trans h, h]
        exact go { s with sent := s.sent ++ [(⟨i, line⟩ : Sent)] } c _
    | unavailable fresh text =>
      have hline : commandLine action c.blur.confirmed run fresh = commandLine action c.confirmed run fresh := rfl
      cases h : commandLine action c.confirmed run fresh with
      | error refusal =>
        simp only [callStep, hline.trans h, h]
        exact go s c _
      | ok line =>
        simp only [callStep, hline.trans h, h]
        exact go s c _
    | _ => rfl
  | sending action run =>
    cases choice with
    | remote result => exact go s c _
    | _ => rfl
  | ended action run outcome =>
    cases choice with
    | time now => exact go s c _
    | fault text => exact go s c _
    | _ => rfl
  | finish update outcome =>
    cases choice with
    | go =>
      have hfinish : s.blur.runs.finish update = s.runs.finish update := rfl
      cases h : s.runs.finish update with
      | error error =>
        simp only [callStep, hfinish.trans h, h]
        exact go s c _
      | ok runs =>
        simp only [callStep, hfinish.trans h, h]
        exact go { s with runs := runs } c _
    | fault text => exact go s c _
    | _ => rfl
  | returned result => cases choice <;> rfl

/-- A step does not depend on a payload beside its id. -/
theorem step_blur (s : RunState) (e : Event) :
    machine.step s.blur e.blur = (machine.step s e).map RunState.blur := by
  cases e with
  | runAction host payload confirmed =>
    simp only [machine, step, Event.blur, RunState.blur, Option.map_some, List.map_append]
    rfl
  | call i choice =>
    have hcall : s.blur.calls[i]? = (s.calls[i]?).map Call.blur := List.getElem?_map
    cases hc : s.calls[i]? with
    | none =>
      simp only [machine, step, Event.blur, hcall, hc, Option.map_none]
    | some c =>
      simp only [machine, step, Event.blur, hcall, hc, Option.map_some]
      exact callStep_blur s i c c.pc choice
  | setTables tables | setRuns runs => rfl

/-! ## What is checked -/

/-- The stored action of a call, and that the call may run it. -/
def Cleared (c : Call) (action : Action) : Prop :=
  ∃ tables, c.read = some tables ∧ tables.loadAction c.host c.payload.id = .ok action ∧
    (actionRequiresConfirmation action = true → c.confirmed = true)

theorem cleared_of_admit {tables : Tables} {c : Call} {action : Action}
    (h : tables.admit c.host c.payload c.confirmed = .ok action) (hread : c.read = some tables) :
    Cleared c action := by
  refine ⟨tables, hread, ?_⟩
  cases hload : tables.loadAction c.host c.payload.id with
  | error text =>
    simp only [hload, Tables.admit] at h
    cases h
  | ok stored =>
    simp only [hload, Tables.admit, bind, Except.bind] at h
    split at h
    · cases h
    · split at h
      · cases h
      · rename_i hc
        cases h
        exact ⟨rfl, fun hr => by simpa [hr] using hc⟩

/-- The stored action belongs to a project of the host. -/
theorem row_of_loadAction {tables : Tables} {host : HostId} {id : ActionId} {action : Action}
    (h : tables.loadAction host id = .ok action) :
    tables.actions id = .row action ∧
      ∃ project, tables.projects action.projectId = .row project ∧ project.hostId = host := by
  have get_ok : ∀ {β : Type} {missing : Text} {x : Stored β} {value : β},
      x.get missing = .ok value → x = .row value := by
    rintro β missing x value hx
    cases x <;> cases hx
    rfl
  simp only [Tables.loadAction, bind, Except.bind] at h
  split at h
  · cases h
  · rename_i stored hstored
    split at h
    · cases h
    · rename_i project hproject
      split at h
      · rename_i hhost
        cases h
        exact ⟨get_ok hstored, project, get_ok hproject, hhost⟩
      · cases h

/-- The action a call has loaded and not yet done with. -/
def CallPc.action : CallPc → Option Action
  | .create action | .dispatch action _ | .sending action _ | .ended action _ _ => some action
  | .load | .finish .. | .returned _ => none

/-- What a step of the call numbered `i` does: it keeps what it was sent and what it has
read, goes on with a stored action that it may run, and sends at most that action. -/
structure CallSpec (s : RunState) (i : Nat) (c : Call) (t : RunState) (c' : Call) : Prop where
  calls : t.calls = s.calls.set i c'
  host : c'.host = c.host
  id : c'.payload = c.payload
  confirmed : c'.confirmed = c.confirmed
  loaded : c'.pc ≠ .load
  read : c.pc ≠ .load → c'.read = c.read
  cleared : ∀ action, c'.pc.action = some action → Cleared c' action
  sent : t.sent = s.sent ∨ ∃ line action run fresh, t.sent = s.sent ++ [⟨i, line⟩] ∧ Cleared c' action ∧
    commandLine action c'.confirmed run fresh = .ok line

section

variable {s t : RunState} {i : Nat} {c : Call} {choice : Choice}

/-- A step that sends nothing and keeps the action the call has. -/
theorem CallSpec.go {s' : RunState} {pc : CallPc} (hc : ∀ action, c.pc.action = some action → Cleared c action)
    (hcalls : s'.calls = s.calls) (hsent : s'.sent = s.sent) (hload : pc ≠ .load)
    (haction : ∀ action, pc.action = some action → c.pc.action = some action) :
    CallSpec s i c (s'.go i c pc) { c with pc := pc } where
  calls := by rw [← hcalls]; rfl
  host := rfl
  id := rfl
  confirmed := rfl
  loaded := hload
  read := fun _ => rfl
  cleared := fun action h => hc action (haction action h)
  sent := .inl hsent

theorem afterDispatch_spec (action : Action) (run : Option RunId)
    (outcome : Except ActionRunError History.RunOutcome) :
    afterDispatch action run outcome ≠ .load ∧
      ∀ a, (afterDispatch action run outcome).action = some a → a = action := by
  cases run with
  | none => exact ⟨by rintro ⟨⟩, by rintro a ⟨⟩⟩
  | some run => exact ⟨by rintro ⟨⟩, by rintro a ⟨⟩; rfl⟩

theorem callStep_spec (hc : ∀ action, c.pc.action = some action → Cleared c action)
    (h : s.callStep i c c.pc choice = some t) : ∃ c', CallSpec s i c t c' := by
  -- the call ends
  have ends : ∀ (s' : RunState) (r : Except RunError History.RunOutcome), s'.calls = s.calls →
      s'.sent = s.sent → some (s'.go i c (.returned r)) = some t → ∃ c', CallSpec s i c t c' := by
    rintro s' r hcalls hsent ⟨⟩
    exact ⟨_, .go hc hcalls hsent (by rintro ⟨⟩) (by rintro a ⟨⟩)⟩
  -- `run_action_with_id` has returned
  have after : ∀ action run outcome, c.pc.action = some action →
      some (s.go i c (afterDispatch action run outcome)) = some t → ∃ c', CallSpec s i c t c' := by
    rintro action run outcome hpc ⟨⟩
    obtain ⟨hload, haction⟩ := afterDispatch_spec action run outcome
    exact ⟨_, .go hc rfl rfl hload fun a ha => (haction a ha) ▸ hpc⟩
  cases hpc : c.pc with
  | load =>
    rw [hpc] at h hc
    cases choice with
    | go =>
      have spec : ∀ pc, pc ≠ .load → (∀ action, pc.action = some action →
          Cleared { c with read := some s.tables } action) →
          some (s.go i { c with read := some s.tables } pc) = some t → ∃ c', CallSpec s i c t c' := by
        rintro pc hload hcleared ⟨⟩
        exact ⟨{ c with read := some s.tables, pc := pc }, rfl, rfl, rfl, rfl, hload,
          fun hn => absurd hpc hn, hcleared, .inl rfl⟩
      cases hadmit : s.tables.admit c.host c.payload c.confirmed with
      | error text =>
        simp only [callStep, hadmit] at h
        exact spec _ (by rintro ⟨⟩) (by rintro a ⟨⟩) h
      | ok action =>
        have hcleared : Cleared { c with read := some s.tables } action := cleared_of_admit hadmit rfl
        simp only [callStep, hadmit] at h
        split at h <;>
        · refine spec _ (by rintro ⟨⟩) ?_ h
          rintro a ⟨⟩
          exact hcleared
    | fault text => exact ends s _ rfl rfl h
    | _ => cases h
  | create action =>
    rw [hpc] at h
    cases choice with
    | created run now =>
      simp only [callStep] at h
      split at h
      · exact ends s _ rfl rfl h
      · cases h
        refine ⟨_, .go hc rfl rfl (by rintro ⟨⟩) ?_⟩
        rw [hpc]
        exact fun a ha => ha
    | fault text => exact ends s _ rfl rfl h
    | _ => cases h
  | dispatch action run =>
    have haction : c.pc.action = some action := by rw [hpc]; rfl
    rw [hpc] at h
    cases choice with
    | fresh fresh =>
      simp only [callStep] at h
      split at h
      · exact after action run _ haction h
      · rename_i line hline
        cases h
        exact ⟨{ c with pc := .sending action run }, rfl, rfl, rfl, rfl, by rintro ⟨⟩, fun _ => rfl,
          by rintro a ⟨⟩; exact hc action haction,
          .inr ⟨line, action, run, fresh, rfl, hc action haction, hline⟩⟩
    | unavailable fresh text =>
      simp only [callStep] at h
      split at h <;> exact after action run _ haction h
    | _ => cases h
  | sending action run =>
    have haction : c.pc.action = some action := by rw [hpc]; rfl
    rw [hpc] at h
    cases choice with
    | remote result => exact after action run _ haction h
    | _ => cases h
  | ended action run outcome =>
    rw [hpc] at h
    cases choice with
    | time now =>
      cases h
      exact ⟨_, .go hc rfl rfl (by rintro ⟨⟩) (by rintro a ⟨⟩)⟩
    | fault text => exact ends s _ rfl rfl h
    | _ => cases h
  | finish update outcome =>
    rw [hpc] at h
    cases choice with
    | go =>
      simp only [callStep] at h
      split at h
      · exact ends s _ rfl rfl h
      · rename_i runs _
        exact ends { s with runs := runs } _ rfl rfl h
    | fault text => exact ends s _ rfl rfl h
    | _ => cases h
  | returned result =>
    rw [hpc] at h
    cases choice <;> cases h

end

/-- Every call goes on with an action it may run, and every line sent is of one. -/
structure RunInv (s : RunState) : Prop where
  cleared : ∀ c ∈ s.calls, ∀ action, c.pc.action = some action → Cleared c action
  sent : ∀ d ∈ s.sent, ∃ c action run fresh, s.calls[d.call]? = some c ∧ c.pc ≠ .load ∧
    Cleared c action ∧ commandLine action c.confirmed run fresh = .ok d.line

theorem runInv_step {s t : RunState} {e : Event} (hi : RunInv s) (h : machine.step s e = some t) :
    RunInv t := by
  cases e with
  | runAction host payload confirmed =>
    cases h
    refine ⟨fun c hc => ?_, fun d hd => ?_⟩
    · rcases List.mem_append.mp hc with hc | hc
      · exact hi.cleared c hc
      · rw [List.mem_singleton.mp hc]
        rintro a ⟨⟩
    · obtain ⟨c, action, run, fresh, hc, hrest⟩ := hi.sent d hd
      exact ⟨c, action, run, fresh, by rw [List.getElem?_append_left (List.getElem?_eq_some_iff.mp hc).1, hc],
        hrest⟩
  | call i choice =>
    simp only [machine, step] at h
    split at h
    · rename_i c hc
      have hmem := List.mem_of_getElem? hc
      have hlt := (List.getElem?_eq_some_iff.mp hc).1
      obtain ⟨c', hspec⟩ := callStep_spec (hi.cleared c hmem) h
      refine ⟨fun x hx => ?_, fun d hd => ?_⟩
      · rw [hspec.calls] at hx
        rcases List.mem_or_eq_of_mem_set hx with hx | rfl
        · exact hi.cleared x hx
        · exact hspec.cleared
      · rw [hspec.calls]
        -- a line sent before is still of the same call
        have hold : d ∈ s.sent → ∃ c action run fresh, (s.calls.set i c')[d.call]? = some c ∧
            c.pc ≠ .load ∧ Cleared c action ∧ commandLine action c.confirmed run fresh = .ok d.line := by
          intro hd
          obtain ⟨x, action, run, fresh, hx, hload, ⟨tables, hread, hcleared⟩, hline⟩ := hi.sent d hd
          by_cases hi' : d.call = i
          · rw [hi', hc] at hx
            cases hx
            refine ⟨c', action, run, fresh, by rw [hi', List.getElem?_set_self hlt], hspec.loaded,
              ⟨tables, (hspec.read hload).trans hread, ?_⟩, by rw [hspec.confirmed]; exact hline⟩
            rw [hspec.host, hspec.id, hspec.confirmed]
            exact hcleared
          · exact ⟨x, action, run, fresh, by rw [List.getElem?_set_ne (Ne.symm hi'), hx], hload,
              ⟨tables, hread, hcleared⟩, hline⟩
        rcases hspec.sent with hs | ⟨line, action, run, fresh, hs, hcleared, hline⟩
        · exact hold (hs ▸ hd)
        · rw [hs] at hd
          rcases List.mem_append.mp hd with hd | hd
          · exact hold hd
          · cases List.mem_singleton.mp hd
            exact ⟨c', action, run, fresh, List.getElem?_set_self hlt, hspec.loaded, hcleared, hline⟩
    · cases h
  | setTables tables | setRuns runs =>
    cases h
    exact ⟨hi.cleared, hi.sent⟩

theorem reach_runInv {s : RunState} (h : machine.Reach Machine.free Initial s) : RunInv s := by
  refine h.invariant (I := RunInv) (fun s hs => ⟨?_, ?_⟩) fun _ _ _ hi _ hstep => runInv_step hi hstep
  · rw [hs.1]
    rintro c ⟨⟩
  · rw [hs.2]
    rintro d ⟨⟩

/-- An action that needs no confirmation. -/
theorem safe_of_unconfirmed {action : Action} (h : actionRequiresConfirmation action = false) :
    action.confirmation ≠ .always ∧ classifyDanger action.command = .safe := by
  unfold actionRequiresConfirmation at h
  cases hp : action.confirmation with
  | always =>
    rw [hp] at h
    cases h
  | never | onDangerous =>
    rw [hp] at h
    exact ⟨by rintro ⟨⟩, by simpa using h⟩

/-- Two runs of any interleaving, from the same state, with calls that were sent actions
of the same ids, go the same way: the same lines are sent, and each call returns the
same. And a line that a call sends without confirmation is of the action stored under
the id at its first section, which belongs to a project of the host, whose policy is
not to ask always and whose command is safe. -/
theorem run_action_runs_stored_action :
    (∀ (s s' : RunState) (es es' : List Event), s.blur = s'.blur → es.map Event.blur = es'.map Event.blur →
      (machine.run Machine.free s es).map RunState.blur =
        (machine.run Machine.free s' es').map RunState.blur) ∧
    ∀ s, machine.Reach Machine.free Initial s → ∀ d ∈ s.sent, ∃ c, s.calls[d.call]? = some c ∧
      (c.confirmed = false → ∃ tables action project run fresh, c.read = some tables ∧
        tables.actions c.payload.id = .row action ∧ tables.projects action.projectId = .row project ∧
        project.hostId = c.host ∧ action.confirmation ≠ .always ∧
        classifyDanger action.command = .safe ∧ commandLine action false run fresh = .ok d.line) := by
  refine ⟨fun s s' es es' hs hes => Machine.run_map_congr step_blur hs hes, fun s hs d hd => ?_⟩
  obtain ⟨c, action, run, fresh, hc, -, ⟨tables, hread, hload, hconfirmed⟩, hline⟩ :=
    (reach_runInv hs).sent d hd
  refine ⟨c, hc, fun hf => ?_⟩
  obtain ⟨hrow, project, hproject, hhost⟩ := row_of_loadAction hload
  have hsafe : actionRequiresConfirmation action = false := by
    refine eq_false_of_ne_true fun hr => ?_
    rw [hconfirmed hr] at hf
    cases hf
  obtain ⟨hpolicy, hdanger⟩ := safe_of_unconfirmed hsafe
  exact ⟨tables, action, project, run, fresh, hread, hrow, hproject, hhost, hpolicy, hdanger, hf ▸ hline⟩

/-! ## A renderer that lies -/

def storedAction : Action :=
  ⟨⟨1⟩, ⟨2⟩, "status".toList, "git status".toList, .quick, none, none, .safe, .onDangerous, []⟩

/-- What the renderer sends under the same id. -/
def forgedAction : Action :=
  ⟨⟨1⟩, ⟨3⟩, "status".toList, "rm -rf /".toList, .interactive, none, none, .safe, .never, []⟩

def sampleTables : Tables where
  actions id := if id = ⟨1⟩ then .row storedAction else .missing
  projects id := if id = ⟨2⟩ then .row ⟨⟨2⟩, ⟨7⟩⟩ else .missing

/-- The renderer sends another command under the id of a stored action: a line of the
stored action is sent. -/
theorem forged_action_ignored :
    ∃ s d c, machine.Reach Machine.free Initial s ∧ s.sent = [d] ∧ s.calls[d.call]? = some c ∧
      c.payload = forgedAction ∧ ∃ tables action run fresh, c.read = some tables ∧
        tables.actions forgedAction.id = .row action ∧ classifyDanger action.command = .safe ∧
        commandLine action false run fresh = .ok d.line := by
  have hinit : Initial ⟨sampleTables, [], [], [], []⟩ := ⟨rfl, rfl⟩
  obtain ⟨s, hs, hp⟩ := Machine.Reach.of_run machine Machine.free hinit
    [.runAction ⟨7⟩ forgedAction false, .call 0 .go, .call 0 (.created ⟨17⟩ 1000), .call 0 (.fresh ⟨0⟩)]
    (fun s => decide (s.sent.map (·.call) = [0]) &&
      (s.calls[0]?).any fun c : Call => c.payload == forgedAction && c.confirmed == false)
    (by decide)
  simp only [Bool.and_eq_true, decide_eq_true_eq, Option.any_eq_true, beq_iff_eq] at hp
  obtain ⟨hsent, c, hc, hpayload, hconfirmed⟩ := hp
  obtain ⟨d, hd, hcall⟩ := List.map_eq_singleton_iff.mp hsent
  obtain ⟨c', hc', hsafe⟩ := run_action_runs_stored_action.2 s hs d (by rw [hd]; exact List.mem_singleton_self d)
  rw [hcall, hc] at hc'
  cases hc'
  obtain ⟨tables, action, _, run, fresh, hread, hrow, -, -, -, hdanger, hline⟩ := hsafe hconfirmed
  rw [hpayload] at hrow
  exact ⟨s, d, c, hs, hd, by rw [hcall, hc], hpayload, tables, action, run, fresh, hread, hrow, hdanger, hline⟩

end KW.Actions
