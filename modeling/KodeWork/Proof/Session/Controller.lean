import KodeWork.Impl.Controller
import KodeWork.Proof.Session.Steps

/-!
# Stale calls on the controller

`transition_for_generation` loads the generation and then enters the section
under the mutex; `install_generation` loads it and then stores. A generation
reserved between the two accesses is not noticed: the stale call still sets
the state, or puts the generation back (`stale_call_takes_effect`).

`fenced_iff_not_overtaken` says that this is all: in any run, state changes of
`transition_for_generation(g, …)` happen at generation `g` and the generation
never decreases, if and only if no such call that was overtaken between its
two accesses goes on to change something, and no generation is reserved at the
end of `u64`. The two properties agree on each step from a state in which a
call is overtaken exactly when the generation is past its own
(`ControllerInv`).
-/

namespace KW.Session

open SharedController

/-- What the controller is to guarantee, of one step: a state change on behalf
of `transition_for_generation(g, …)` happens at generation `g`, and the
generation does not decrease. -/
def Fenced (s : SharedController) (a : ControllerAction) (t : SharedController) : Prop :=
  (∀ i g target o, a = .access i → s.calls i = some (.checked g target o) →
    t.cell.state ≠ s.cell.state → s.cell.generation = g) ∧
  s.cell.generation ≤ t.cell.generation

/-- A call overtaken between its load and its second access does nothing there,
and no generation is reserved at the end of `u64`. -/
def NotOvertaken (s : SharedController) : ControllerAction → Prop
  | .access i =>
    match s.calls i with
    | some (.checked _ target overtaken) => overtaken = true →
        s.cell.state = target ∨ connectionTransition s.cell.state target = false
    | some (.installing _ overtaken) => overtaken = false
    | some .reserveGeneration => s.cell.generation + 1 < UInt64.size
    | _ => True
  | .call _ _ => True

/-! ## The invariant -/

/-- A call past its load is overtaken if and only if the generation is past
its own; the generations calls work with are `u64` values. -/
def CallInv (generation : Nat) : Call → Prop
  | .checked g _ overtaken => if overtaken then g < generation else generation = g
  | .installing g overtaken =>
    g < UInt64.size ∧ if overtaken then g < generation else generation ≤ g
  | .installGeneration g => g < UInt64.size
  | _ => True

structure ControllerInv (s : SharedController) : Prop where
  size : s.cell.generation < UInt64.size
  calls : ∀ i call, s.calls i = some call → CallInv s.cell.generation call

theorem controllerInv_new : ControllerInv .new := ⟨by decide, nofun⟩

theorem CallInv.entry {call : Call} (h : call.entry = true) (generation : Nat) :
    CallInv generation call := by
  cases call with
  | installGeneration g =>
    have hg : g < UInt64.size := by simpa [Call.entry] using h
    exact hg
  | checked _ _ _ | installing _ _ => cases h
  | transition _ | transitionForGeneration _ _ | reserveGeneration | snapshot | snapshotLoad _ | state
  | stateLoad _ | generation | returned _ => trivial

/-- A write that does not decrease the generation overtakes exactly the calls
it passes. -/
theorem CallInv.overtake {generation written : Nat} {call : Call} (h : CallInv generation call)
    (hle : generation ≤ written) : CallInv written (call.overtake written) := by
  cases call with
  | checked g target o =>
    cases o with
    | true =>
      have hg : g < generation := h
      show g < written
      omega
    | false =>
      have hg : generation = g := h
      by_cases e : written = g
      · simp only [Call.overtake, CallInv, e, bne_self_eq_false, Bool.or_false, Bool.false_eq_true,
          if_false]
      · have hlt : g < written := by omega
        simpa [Call.overtake, CallInv, e] using hlt
  | installing g o =>
    obtain ⟨hsize, ho⟩ := h
    refine ⟨hsize, ?_⟩
    cases o with
    | true =>
      have hg : g < generation := ho
      show g < written
      omega
    | false =>
      have hg : generation ≤ g := ho
      by_cases e : g < written
      · simp [e]
      · simpa [e] using Nat.le_of_not_lt e
  | installGeneration g => exact h
  | transition _ | transitionForGeneration _ _ | reserveGeneration | snapshot | snapshotLoad _ | state
  | stateLoad _ | generation | returned _ => trivial

theorem ControllerInv.put {s : SharedController} (hi : ControllerInv s) (i : Nat) {call : Call}
    (hc : CallInv s.cell.generation call) : ControllerInv (s.put i call) := by
  refine ⟨hi.size, fun j c hj => ?_⟩
  rcases entry_of_update hj with ⟨-, ⟨⟩⟩ | ⟨-, hj⟩
  · exact hc
  · exact hi.calls j c hj

theorem ControllerInv.write {s : SharedController} (hi : ControllerInv s) {generation : Nat}
    (hle : s.cell.generation ≤ generation) (hsize : generation < UInt64.size) :
    ControllerInv (s.write generation) := by
  refine ⟨hsize, fun i c hc => ?_⟩
  obtain ⟨call, hcall, rfl⟩ := Option.map_eq_some_iff.mp hc
  exact (hi.calls i call hcall).overtake hle

/-! ## The section under the mutex -/

/-- The section sets the state if the transition is one, and leaves the
generation alone. -/
theorem transitionSection_cases (s : SharedController) (i : Nat) (target : ConnectionState) :
    ∃ result, (s.transitionSection i target = { s with
        cell := { s.cell with state := target } }.put i (.returned result) ∧
        (s.cell.state = target ∨ connectionTransition s.cell.state target = true)) ∨
      (s.transitionSection i target = s.put i (.returned result) ∧
        connectionTransition s.cell.state target = false) := by
  simp only [transitionSection]
  cases h : s.cell.transition target with
  | ok cell =>
    refine ⟨.unit, .inl ⟨by rw [transition_ok h], ?_⟩⟩
    by_contra hne
    rw [not_or, Bool.not_eq_true] at hne
    simp [ConnectionStateController.transition, hne] at h
  | error e =>
    refine ⟨.error e, .inr ⟨rfl, ?_⟩⟩
    by_contra hne
    simp [ConnectionStateController.transition, hne] at h

theorem ControllerInv.transitionSection {s : SharedController} (hi : ControllerInv s) (i : Nat)
    (target : ConnectionState) : ControllerInv (s.transitionSection i target) := by
  obtain ⟨result, ⟨e, -⟩ | ⟨e, -⟩⟩ := transitionSection_cases s i target <;> rw [e]
  · exact ControllerInv.put (s := { s with cell := { s.cell with state := target } })
      ⟨hi.size, hi.calls⟩ i trivial
  · exact hi.put i trivial

theorem transitionSection_generation (s : SharedController) (i : Nat) (target : ConnectionState) :
    (s.transitionSection i target).cell.generation = s.cell.generation := by
  obtain ⟨result, ⟨e, -⟩ | ⟨e, -⟩⟩ := transitionSection_cases s i target <;> rw [e] <;> rfl

/-- The section changes the state if and only if the state is another one and
the transition is allowed. -/
theorem transitionSection_changes (s : SharedController) (i : Nat) (target : ConnectionState) :
    (s.transitionSection i target).cell.state ≠ s.cell.state ↔
      ¬ (s.cell.state = target ∨ connectionTransition s.cell.state target = false) := by
  obtain ⟨result, ⟨e, h⟩ | ⟨e, h⟩⟩ := transitionSection_cases s i target <;> rw [e]
  · constructor
    · rintro hne (rfl | hf)
      · exact hne rfl
      · rcases h with rfl | h
        · exact hne rfl
        · rw [hf] at h
          cases h
    · intro hne he
      exact hne (.inl he.symm)
  · exact ⟨fun hne => absurd rfl hne, fun hne => absurd (.inr h) hne⟩

/-! ## One step -/

theorem reserve_monotone {generation : Nat} (hsize : generation < UInt64.size) :
    generation ≤ (generation + 1) % UInt64.size ↔ generation + 1 < UInt64.size := by
  constructor
  · intro h
    by_contra hlt
    have e : generation + 1 = UInt64.size := by omega
    rw [e, Nat.mod_self] at h
    have : UInt64.size = 0x10000000000000000 := rfl
    omega
  · intro h
    rw [Nat.mod_eq_of_lt h]
    omega

/-- A step that leaves the controller's fields alone, and is not the second
access of `transition_for_generation`, is always fenced. -/
theorem fenced_of_cell {s t : SharedController} {a : ControllerAction} (h : t.cell = s.cell) :
    Fenced s a t :=
  ⟨fun _ _ _ _ _ _ hne => absurd (congrArg (·.state) h) hne, Nat.le_of_eq (by rw [h])⟩

theorem fenced_iff {s t : SharedController} {a : ControllerAction} (hi : ControllerInv s)
    (h : controllerStep s a = some t) : Fenced s a t ↔ NotOvertaken s a := by
  cases a with
  | call i call =>
    simp only [controllerStep] at h
    split at h <;> cases h
    exact ⟨fun _ => trivial, fun _ => fenced_of_cell rfl⟩
  | access i =>
    simp only [controllerStep] at h
    cases hc : s.calls i with
    | none => simp only [hc, reduceCtorEq] at h
    | some call =>
      simp only [hc] at h
      have hcall := hi.calls i call hc
      simp only [NotOvertaken, hc]
      cases call with
      | transition target =>
        cases h
        refine ⟨fun _ => trivial, fun _ => ⟨fun j g x o hj hg => ?_, ?_⟩⟩
        · cases hj
          rw [hc] at hg
          cases hg
        · exact Nat.le_of_eq (transitionSection_generation s i target).symm
      | checked g target o =>
        cases h
        constructor
        · rintro ⟨hf, -⟩ rfl
          by_contra hne
          have hg : s.cell.generation = g :=
            hf i g target true rfl hc ((transitionSection_changes s i target).mpr hne)
          have hlt : g < s.cell.generation := hcall
          omega
        · intro ho
          refine ⟨fun j g' x o' hj hg hne => ?_, ?_⟩
          · cases hj
            rw [hc] at hg
            cases hg
            cases o with
            | true => exact absurd (ho rfl) ((transitionSection_changes s i target).mp hne)
            | false => exact hcall
          · exact Nat.le_of_eq (transitionSection_generation s i target).symm
      | reserveGeneration =>
        cases h
        refine Iff.trans ⟨fun hf => hf.2, fun hle => ⟨fun j g x o hj hg => ?_, hle⟩⟩
          (reserve_monotone hi.size)
        cases hj
        rw [hc] at hg
        cases hg
      | installing g o =>
        cases h
        obtain ⟨-, ho⟩ := hcall
        constructor
        · rintro ⟨-, hle⟩
          cases o with
          | true =>
            have hlt : g < s.cell.generation := ho
            have hge : s.cell.generation ≤ g := hle
            omega
          | false => rfl
        · rintro rfl
          refine ⟨fun j g' x o hj hg => ?_, ho⟩
          cases hj
          rw [hc] at hg
          cases hg
      | transitionForGeneration g target =>
        simp only [callStep] at h
        split at h <;> cases h <;> exact ⟨fun _ => trivial, fun _ => fenced_of_cell rfl⟩
      | installGeneration g =>
        simp only [callStep] at h
        split at h <;> cases h <;> exact ⟨fun _ => trivial, fun _ => fenced_of_cell rfl⟩
      | snapshot | snapshotLoad _ | state | stateLoad _ | generation =>
        cases h
        exact ⟨fun _ => trivial, fun _ => fenced_of_cell rfl⟩
      | returned r => cases h

theorem controllerInv_step {s t : SharedController} {a : ControllerAction} (hi : ControllerInv s)
    (h : controllerStep s a = some t) (hf : Fenced s a t) : ControllerInv t := by
  cases a with
  | call i call =>
    simp only [controllerStep] at h
    split at h <;> cases h
    rename_i hcall
    exact hi.put i (CallInv.entry hcall.2 _)
  | access i =>
    simp only [controllerStep] at h
    cases hc : s.calls i with
    | none => simp only [hc, reduceCtorEq] at h
    | some call =>
      simp only [hc] at h
      have hcall := hi.calls i call hc
      cases call with
      | transition target | checked _ target _ =>
        cases h
        exact hi.transitionSection i target
      | reserveGeneration =>
        cases h
        exact (hi.write hf.2 (Nat.mod_lt _ (by decide))).put i trivial
      | installing g o =>
        cases h
        exact (hi.write hf.2 hcall.1).put i trivial
      | transitionForGeneration g target =>
        simp only [callStep] at h
        split at h <;> cases h
        · exact hi.put i trivial
        · rename_i he
          have hg : s.cell.generation = g := Decidable.not_not.mp he
          exact hi.put i hg
      | installGeneration g =>
        simp only [callStep] at h
        split at h <;> cases h
        · exact hi.put i trivial
        · rename_i he
          exact hi.put i ⟨hcall, Nat.le_of_not_lt he⟩
      | snapshot | snapshotLoad _ | state | stateLoad _ | generation =>
        cases h
        exact hi.put i trivial
      | returned r => cases h

/-! ## Every run -/

/-- In every run of calls on a new controller: every step is fenced, if and
only if no call overtaken between its two accesses changes anything, and no
generation is reserved at the end of `u64`. -/
theorem fenced_iff_not_overtaken (as : List ControllerAction) :
    controllerMachine.Along Fenced .new as ↔
      controllerMachine.Along (fun s a _ => NotOvertaken s a) .new as :=
  Machine.along_congr (I := ControllerInv) (fun _ _ _ hi h => fenced_iff hi h)
    (fun _ _ _ hi h hf => controllerInv_step hi h hf) as controllerInv_new

/-- A session reaches `Ready` in generation 1; its pump loads the generation,
and a `disconnect` reserves the next one. -/
def staleTransitionTrace : List ControllerAction :=
  [.call 0 .reserveGeneration, .access 0,
    .call 1 (.transition .resolvingAddress), .access 1, .call 2 (.transition .connecting), .access 2,
    .call 3 (.transition .ready), .access 3,
    .call 4 (.transitionForGeneration 1 .reconnecting), .access 4,
    .call 5 .reserveGeneration, .access 5]

/-- A generation is reserved between the load and the store of an
`install_generation` of the one before it. -/
def staleInstallTrace : List ControllerAction :=
  [.call 0 .reserveGeneration, .access 0, .call 1 (.installGeneration 1), .access 1,
    .call 2 .reserveGeneration, .access 2]

/-- Whether the call `i` stands at `call`, and its next access takes the
controller from `before` to `after`. -/
def accessIn (i : Nat) (call : Call) (before after : ConnectionStateController)
    (s : SharedController) : Bool :=
  s.calls i == some call && s.cell == before &&
    (controllerStep s (.access i)).any fun t => t.cell == after

theorem accessIn_iff {i : Nat} {call : Call} {before after : ConnectionStateController}
    {s : SharedController} (h : accessIn i call before after s = true) :
    s.calls i = some call ∧ s.cell = before ∧
      ∃ t, controllerStep s (.access i) = some t ∧ t.cell = after := by
  simp only [accessIn, Bool.and_eq_true, Option.any_eq_true, beq_iff_eq] at h
  exact ⟨h.1.1, h.1.2, h.2⟩

/-- The stale call's second access sets the state at generation 2 on behalf of
generation 1; and another one puts the generation back from 2 to 1. -/
theorem stale_call_takes_effect :
    (∃ s, controllerMachine.Reach Machine.free FreshController s ∧
      s.calls 4 = some (.checked 1 .reconnecting true) ∧ s.cell = ⟨.ready, 2⟩ ∧
      ∃ t, controllerStep s (.access 4) = some t ∧ t.cell = ⟨.reconnecting, 2⟩) ∧
    ∃ s, controllerMachine.Reach Machine.free FreshController s ∧
      s.calls 1 = some (.installing 1 true) ∧ s.cell = ⟨.disconnected, 2⟩ ∧
      ∃ t, controllerStep s (.access 1) = some t ∧ t.cell = ⟨.disconnected, 1⟩ := by
  have hnew : FreshController .new := rfl
  constructor
  · obtain ⟨s, hs, hp⟩ := Machine.Reach.of_run controllerMachine Machine.free hnew
      staleTransitionTrace (accessIn 4 (.checked 1 .reconnecting true) ⟨.ready, 2⟩ ⟨.reconnecting, 2⟩)
      (by decide)
    exact ⟨s, hs, accessIn_iff hp⟩
  · obtain ⟨s, hs, hp⟩ := Machine.Reach.of_run controllerMachine Machine.free hnew
      staleInstallTrace (accessIn 1 (.installing 1 true) ⟨.disconnected, 2⟩ ⟨.disconnected, 1⟩)
      (by decide)
    exact ⟨s, hs, accessIn_iff hp⟩

end KW.Session
