import KodeWork.Proof.Gate.Order

/-!
# The operations of a host, one at a time

In every run of the gate an operation is called after all earlier ones of its host have
ended (`Inv.one_at_a_time`); the jobs run out (`jobs_run_out`), and when none is left,
what an operation waits for is an operation or a connect of its own host
(`Inv.blocked`), and both maps are free of what has settled (`Inv.clean`).

An operation of `enqueueAfterConnect` waits for one connect, the last one tracked, and
so not for one that was tracked before it and is still in flight (`earlier_connect`).
`Covered` says when one is enough.
-/

namespace KW.DisconnectGate

open Promises Gate Machine

/-! ## Runs -/

/-- Of the connects tracked for the host, a call of `enqueueAfterConnect` has only to wait for the
last one, and for those that an earlier operation of the host awaits. -/
def Covered (g : Gate) : Event → Prop
  | .enqueueAfterConnect hostId => ∀ c ∈ g.tracked hostId, (g.world.outcome c).isSome ∨
      (g.tracked hostId).getLast? = some c ∨ ∃ op ∈ g.operations, op.hostId = hostId ∧ op.connect = some c
  | _ => True

instance (g : Gate) (e : Event) : Decidable (Covered g e) := by
  cases e <;> simp only [Covered] <;> infer_instance

/-- What was tracked before an operation is settled, or awaited by it or by an earlier one of its host. -/
def Awaited (g : Gate) : Prop :=
  ∀ (k : Nat) op, g.operations[k]? = some op → ∀ c ∈ op.tracked, g.world.Done c ∨
    ∃ (j : Nat) (op' : Operation), j ≤ k ∧ g.operations[j]? = some op' ∧ op'.hostId = op.hostId ∧ op'.connect = some c

theorem step_awaited {g g' : Gate} {e : Event} (hg : Inv g) (ha : Awaited g) (hok : Covered g e)
    (h : machine.step g e = some g') : Awaited g' := by
  obtain ⟨-, hgrows, hops⟩ := step_inv hg h
  rcases hops with hops | ⟨hostId, op, hhost, hops, hcall⟩
  · intro k op hop c hc
    rw [hops] at hop ⊢
    exact (ha k op hop c hc).imp_left hgrows.done
  · have hold {j : Nat} {op' : Operation} (hop : g.operations[j]? = some op') : g'.operations[j]? = some op' := by
      rw [hops, List.getElem?_append_left (List.getElem?_eq_some_iff.mp hop).1]
      exact hop
    intro k op' hop c hc
    rcases entry_of_concat (hops ▸ hop) with hop' | ⟨rfl, rfl⟩
    · refine (ha k op' hop' c hc).imp hgrows.done ?_
      rintro ⟨j, op'', hj, hop'', hrest⟩
      exact ⟨j, op'', hj, hold hop'', hrest⟩
    · rcases hcall with ⟨-, htracked⟩ | ⟨rfl, hconnect, htracked⟩
      · rw [htracked] at hc
        cases hc
      · rw [htracked] at hc
        rcases hok c hc with hdone | hlast | ⟨op'', hop'', hhost'', hconnect''⟩
        · obtain ⟨o, ho⟩ := Option.isSome_iff_exists.mp hdone
          exact .inl (hgrows.done ⟨o, World.outcome_eq_some.mp ho⟩)
        · rcases hg.order.lastTracked _ c hlast with hdone | hstored
          · exact .inl (hgrows.done hdone)
          · exact .inr ⟨_, op', Nat.le_refl _, hop, rfl, hconnect.trans hstored⟩
        · obtain ⟨j, hj⟩ := List.mem_iff_getElem?.mp hop''
          exact .inr ⟨j, op'', Nat.le_of_lt (List.getElem?_eq_some_iff.mp hj).1, hold hj, hhost''.trans hhost.symm,
            hconnect''⟩

theorem reach_inv {ok : Gate → Event → Prop} {g : Gate} (h : machine.Reach ok Initial g) : Inv g := by
  refine h.invariant ?_ fun s e t hs _ hstep => (step_inv hs hstep).1
  rintro s rfl
  exact new_inv

theorem reach_awaited {g : Gate} (h : machine.Reach Covered Initial g) : Awaited g := by
  have hboth : Inv g ∧ Awaited g := by
    refine h.invariant (I := fun g => Inv g ∧ Awaited g) ?_ fun s e t hs hok hstep =>
      ⟨(step_inv hs.1 hstep).1, step_awaited hs.1 hs.2 hok hstep⟩
    rintro s rfl
    refine ⟨new_inv, ?_⟩
    intro k op hop
    cases hop
  exact hboth.2

/-- The operations of a host are called one after the other, in the order of the calls of `enqueue`. -/
theorem Inv.one_at_a_time {g : Gate} (hg : Inv g) {j k : Nat} {opj opk : Operation} (hjk : j < k)
    (hj : g.operations[j]? = some opj) (hk : g.operations[k]? = some opk) (hhost : opj.hostId = opk.hostId)
    (hstarted : (g.stage k).started = true) : g.finished j = true :=
  hg.flow.finished hj (earlier_ended hg.flow hg.order k opk hk (hg.flow.earlier_done hk hstarted) j opj hjk hj hhost)

theorem Flow.finished_started {g : Gate} {k : Nat} (h : g.finished k = true) : (g.stage k).started = true := by
  rw [Gate.finished] at h
  split at h
  · rename_i hstage
    rw [hstage]
    rfl
  · rename_i hstage
    rw [hstage]
    rfl
  all_goals cases h

/-- An operation is called after the connects that were tracked before. -/
theorem Inv.after_connects {g : Gate} (hg : Inv g) (ha : Awaited g) {k : Nat} {op : Operation}
    (hop : g.operations[k]? = some op) (hstarted : (g.stage k).started = true) {c : Nat} (hc : c ∈ op.tracked) :
    g.world.Done c := by
  rcases ha k op hop c hc with hdone | ⟨j, op', hj, hop', hhost, hconnect⟩
  · exact hdone
  · rcases Nat.lt_or_eq_of_le hj with hj | rfl
    · exact hg.flow.connect_done hop' (Flow.finished_started (hg.one_at_a_time hj hop' hop hhost hstarted)) hconnect
    · cases hop.symm.trans hop'
      exact hg.flow.connect_done hop hstarted hconnect

/-! ## With no jobs left -/

/-- What was resolved with a settled promise has settled. -/
theorem resolving_done {w : World Callback} (hw : Sound w) (hjobs : w.jobs = []) {d source : Nat}
    (h : w.Resolving d source) (hdone : w.Done source) : w.Done d := by
  obtain ⟨o, ho⟩ := hdone
  rcases h with h | h | ⟨h, -⟩
  · cases (hw.waits hjobs h rfl).1
  · cases (World.outcome_eq_some.mpr ho).symm.trans (hw.waits hjobs h rfl).2
  · exact h

theorem Called.current_done {w : World Callback} {op : Operation} {d : Nat} (hw : Sound w) (hjobs : w.jobs = [])
    (h : Called w op d) (hdone : w.Done d) : w.Done op.current := by
  rcases h.current with rfl | hcurrent
  · exact hdone
  · exact resolving_done hw hjobs hcurrent hdone

/-- An operation that has started, and not ended; or its connect has not. -/
def Blocking (g : Gate) (k : Nat) (op : Operation) : Prop :=
  (g.stage k).started = true ∧ g.finished k = false ∨
    (g.stage k).started = false ∧ ∃ c, op.connect = some c ∧ c ∈ g.tracked op.hostId ∧ g.world.outcome c = none

/-- An operation whose turn it is has started, or awaits its connect. -/
theorem Inv.turn {g : Gate} (hg : Inv g) (hjobs : g.world.jobs = []) {k : Nat} {op : Operation}
    (hop : g.operations[k]? = some op) (hearlier : g.world.Done op.earlier) (hcurrent : ¬ g.world.Done op.current) :
    Blocking g k op := by
  have hw := hg.flow.world
  have hplaced := hg.flow.placed k op hop
  rw [Blocking, Gate.finished]
  generalize g.stage k = st at hplaced
  cases hplaced with
  | queued hs =>
    have hopen := (hw.waits hjobs hs rfl).2
    rcases hg.flow.caught k op hop with hcaught | ⟨hcaught, -⟩
    · obtain ⟨o, ho⟩ := hearlier
      cases (World.outcome_eq_some.mpr ho).symm.trans (hw.waits hjobs hcaught rfl).2
    · cases (World.outcome_eq_some.mpr hcaught).symm.trans hopen
  | awaiting inner c hcaught hconnect hresolving hinner =>
    exact .inr ⟨rfl, c, hconnect, hg.order.awaited k op c hop hconnect, (hw.waits hjobs hinner rfl).2⟩
  | running d h hd => exact .inl ⟨rfl, rfl⟩
  | returned d result h hd =>
    refine .inl ⟨rfl, ?_⟩
    cases ho : g.world.outcome result with
    | none => exact Option.isSome_eq_false_iff.mpr (by rw [ho]; rfl)
    | some o =>
      have hdone := resolving_done hw hjobs hd ⟨o, World.outcome_eq_some.mp ho⟩
      exact absurd (h.current_done hw hjobs hdone) hcurrent
  | threw d h hd => exact absurd (h.current_done hw hjobs hd) hcurrent

/-- What an operation waits for is an operation, or a connect, of its own host. -/
theorem Inv.blocked {g : Gate} (hg : Inv g) (hjobs : g.world.jobs = []) :
    ∀ (k : Nat) (op : Operation), g.operations[k]? = some op → ¬ g.world.Done op.current →
      ∃ j opj, j ≤ k ∧ g.operations[j]? = some opj ∧ opj.hostId = op.hostId ∧ Blocking g j opj := by
  intro k
  induction k using Nat.strongRecOn with
  | ind k ih =>
    intro op hop hcurrent
    by_cases hall : ∀ (j : Nat) op', j < k → g.operations[j]? = some op' → op'.hostId = op.hostId → g.world.Done op'.current
    · have hearlier : g.world.Done op.earlier := by
        rcases hg.order.behind k op hop with ⟨hearlier, -⟩ | ⟨m, opm, hm, hopm, hhost, hearlier, -⟩
        · exact hearlier
        · exact hearlier ▸ hall m opm hm hopm hhost
      exact ⟨k, op, Nat.le_refl _, hop, rfl, hg.turn hjobs hop hearlier hcurrent⟩
    · simp only [not_forall] at hall
      obtain ⟨j, op', hj, hop', hhost, hopen⟩ := hall
      obtain ⟨i, opi, hi, hopi, hhosti, hblocking⟩ := ih j hj op' hop' hopen
      exact ⟨i, opi, Nat.le_trans hi (Nat.le_of_lt hj), hopi, hhosti.trans hhost, hblocking⟩

/-- Nothing that has settled is left in the maps. -/
theorem Inv.clean {g : Gate} (hg : Inv g) (hjobs : g.world.jobs = []) {h : String} {p : Nat}
    (hp : g.pending h = some p ∨ g.connects h = some p) : g.world.outcome p = none := by
  rcases hp with hp | hp
  · obtain ⟨x, p', ⟨⟩, hx⟩ := hg.order.releasePending h p hp
    exact (hg.flow.world.waits hjobs hx rfl).2
  · obtain ⟨x, p', ⟨⟩, hx⟩ := hg.order.releaseConnect h p hp
    exact (hg.flow.world.waits hjobs hx rfl).2

/-! ## The jobs run out -/

/-- What a callback can still do, with the jobs of the promise it makes. -/
def Callback.weight : Option Callback → Nat
  | some (.afterConnect ..) => 8
  | _ => 4

/-- What the jobs of a promise can still do. -/
def weight : Option (State Callback) → Nat
  | some (.derived _ onFulfilled onRejected) => Callback.weight onFulfilled + Callback.weight onRejected
  | some .called => 3
  | some (.adopts _) => 2
  | some (.follows _) => 1
  | some .external | some (.settled _) | none => 0

def Gate.work (g : Gate) : Nat := total weight g.world.state g.world.made

theorem four_le_weight (c : Option Callback) : 4 ≤ Callback.weight c := by
  rw [Callback.weight.eq_def]
  split <;> decide

theorem weight_handler {f r c : Option Callback} {o : Outcome} (h : handler f r o = c) (p : Nat) :
    Callback.weight c + 4 ≤ weight (some (.derived p f r)) := by
  have hf := four_le_weight f
  have hr := four_le_weight r
  subst h
  change Callback.weight (handler f r o) + 4 ≤ Callback.weight f + Callback.weight r
  cases o <;> simp only [handler] <;> omega

/-- A job leaves less to do. -/
theorem work_job {g g' : Gate} (hg : Inv g) (h : g.job = some g') : g'.work < g.work := by
  obtain ⟨⟨w, call⟩, hrun, rfl⟩ := Option.map_eq_some_iff.mp h
  obtain ⟨hw, d, hother, hmoves⟩ := runJob_sound hg.flow.world hrun
  have hmade := runJob_made hrun
  have hstate : ∃ s, g.world.state d = some s := by
    cases hmoves with
    | passes _ _ _ _ hd | calls _ _ _ _ _ hd | adopts _ hd | follows _ _ hd => exact ⟨_, hd⟩
  obtain ⟨s, hs⟩ := hstate
  have hd : d < g.world.made := hg.flow.world.bound d s hs
  have hwork : total weight w.state g.world.made + weight (g.world.state d) = g.work + weight (w.state d) :=
    total_change hd fun x hx _ => hother x hx
  -- a callback that settles `d`
  have hsettle (hd' : w.state d = some .called) (f r : Option Callback) (p : Nat)
      (hderived : g.world.state d = some (.derived p f r)) :
      total weight (w.become d (.settled .fulfilled)).state (w.become d (.settled .fulfilled)).made < g.work := by
    have hchange : total weight (w.become d (.settled .fulfilled)).state g.world.made + weight (w.state d) =
        total weight w.state g.world.made + weight ((w.become d (.settled .fulfilled)).state d) :=
      total_change hd fun x hx _ => become_other hx
    rw [become_self, hd'] at hchange
    rw [hderived, hd'] at hwork
    have hweight := weight_handler (f := f) (r := r) (o := .fulfilled) rfl p
    rw [World.become_made, hmade]
    have hzero : weight (some (.settled .fulfilled) : Option (State Callback)) = 0 := rfl
    omega
  cases hmoves with
  | passes p f r o hderived _ hnone hd' =>
    rw [hderived, hd'] at hwork
    have hweight := weight_handler hnone p
    change total weight w.state w.made < g.work
    rw [hmade]
    have hzero : weight (some (.settled o) : Option (State Callback)) = 0 := rfl
    omega
  | adopts p hadopts hd' =>
    rw [hadopts, hd'] at hwork
    change total weight w.state w.made < g.work
    rw [hmade]
    simp only [weight] at hwork
    omega
  | follows p o hfollows _ hd' =>
    rw [hfollows, hd'] at hwork
    change total weight w.state w.made < g.work
    rw [hmade]
    simp only [weight] at hwork
    omega
  | calls p f r o c hderived _ hc hd' =>
    have hweight := weight_handler hc p
    cases c with
    | ignore | releasePending | releaseConnect => exact hsettle hd' f r p hderived
    | operation k =>
      rw [hderived, hd'] at hwork
      change total weight w.state w.made < g.work
      rw [hmade]
      simp only [weight, Callback.weight] at hwork hweight
      omega
    | afterConnect k e =>
      have hne : w.made ≠ d := Ne.symm (made_ne hw hd')
      have hworld : ({ g with world := w }.call d (.afterConnect k e)).world =
          (w.derive e (some (.operation k)) (some (.operation k))).become d (.adopts w.made) := by
        change World.resolve .. = _
        rw [World.resolve, if_neg hne]
      have hlast : ((w.derive e (some (.operation k)) (some (.operation k))).become d (.adopts w.made)).state
          g.world.made = some (.derived e (some (.operation k)) (some (.operation k))) := by
        rw [← hmade, become_other hne, World.derive_state, Function.update_self]
      have hchange : total weight
            ((w.derive e (some (.operation k)) (some (.operation k))).become d (.adopts w.made)).state g.world.made +
              weight (w.state d) =
          total weight w.state g.world.made +
            weight (((w.derive e (some (.operation k)) (some (.operation k))).become d (.adopts w.made)).state d) := by
        refine total_change hd fun x hx hlt => ?_
        rw [become_other hx, World.derive_state, Function.update_of_ne (hmade ▸ Nat.ne_of_lt hlt)]
      rw [become_self, hd'] at hchange
      rw [hderived, hd'] at hwork
      have hnew : (w.derive e (some (.operation k)) (some (.operation k))).made = g.world.made + 1 := by
        rw [World.derive, World.become_made, World.make_made, hmade]
      rw [Gate.work, hworld, World.become_made, hnew, total, hlast]
      simp only [weight, Callback.weight] at hchange hwork hweight ⊢
      omega

/-- Run after run, the jobs get to an end, or call an operation. -/
theorem jobs_run_out {g : Gate} (hg : Inv g) :
    ∃ g', machine.Path (fun _ e => e = .job) g g' ∧ (g'.world.jobs = [] ∨ g'.running ≠ none) := by
  generalize hn : g.work = n
  induction n using Nat.strongRecOn generalizing g with
  | ind n ih =>
    by_cases hend : g.world.jobs = [] ∨ g.running ≠ none
    · exact ⟨g, .refl g, hend⟩
    · simp only [not_or, not_not] at hend
      obtain ⟨hjobs, hidle⟩ := hend
      obtain ⟨w, call, hrun⟩ := runJob_enabled hg.flow.world hjobs
      obtain ⟨g₁, hjob⟩ : ∃ g₁, g.job = some g₁ := ⟨_, Option.map_eq_some_iff.mpr ⟨_, hrun, rfl⟩⟩
      have hstep : machine.step g .job = some g₁ := (if_pos hidle).trans hjob
      have hless : g₁.work < n := hn ▸ work_job hg hjob
      obtain ⟨g', hpath, hend'⟩ := ih g₁.work hless (step_inv hg hstep).1 rfl
      have hfirst : machine.Path (fun _ e => e = .job) g g₁ := .single (a := .job) rfl hstep
      exact ⟨g', hfirst.trans hpath, hend'⟩

/-! ## The gate -/

theorem isSome_of_done {w : World Callback} {p : Nat} (h : w.Done p) : (w.outcome p).isSome := by
  obtain ⟨o, ho⟩ := h
  rw [World.outcome_eq_some.mpr ho]
  rfl

/-- An operation is called after all earlier ones of its host have ended, and after the connects
tracked before the call of `enqueueAfterConnect`. The jobs run out; then an operation that has not
been called waits for an operation or a connect of its own host, and the maps hold nothing that
has settled. -/
theorem operations_in_order {g : Gate} (h : machine.Reach Covered Initial g) :
    (∀ (j k : Nat) (opj opk : Operation), j < k → g.operations[j]? = some opj → g.operations[k]? = some opk →
      opj.hostId = opk.hostId → (g.stage k).started = true → g.finished j = true) ∧
    (∀ (k : Nat) (op : Operation), g.operations[k]? = some op → (g.stage k).started = true →
      ∀ c ∈ op.tracked, (g.world.outcome c).isSome) ∧
    (∃ g', machine.Path (fun _ e => e = .job) g g' ∧ (g'.world.jobs = [] ∨ g'.running ≠ none)) ∧
    (g.world.jobs = [] →
      (∀ (k : Nat) (op : Operation), g.operations[k]? = some op → (g.stage k).started = false →
        ∃ j opj, j ≤ k ∧ g.operations[j]? = some opj ∧ opj.hostId = op.hostId ∧ Blocking g j opj) ∧
      ∀ hostId p, g.pending hostId = some p ∨ g.connects hostId = some p → g.world.outcome p = none) := by
  have hg := reach_inv h
  have ha := reach_awaited h
  refine ⟨fun j k opj opk hjk hj hk => hg.one_at_a_time hjk hj hk, fun k op hop hstarted c hc => ?_, jobs_run_out hg,
    fun hjobs => ⟨fun k op hop hstarted => ?_, fun hostId p => hg.clean hjobs⟩⟩
  · exact isSome_of_done (hg.after_connects ha hop hstarted hc)
  · refine hg.blocked hjobs k op hop fun hdone => ?_
    rw [Flow.finished_started (hg.flow.finished hop hdone)] at hstarted
    cases hstarted

/-- A teardown that waits for a connect, one behind it, and one of another host, which is called. -/
def twoHosts : List Event :=
  [.promise, .promise, .trackConnect "a" 0, .enqueueAfterConnect "a", .enqueue "a", .enqueue "b", .job, .job, .job,
    .job, .returns 1, .job, .job]

theorem operations_in_order_two_hosts :
    ∃ g op, machine.Reach Covered Initial g ∧ g.world.jobs = [] ∧ (g.stage 2).started = true ∧
      g.operations[1]? = some op ∧ op.hostId = "a" ∧ (g.stage 1).started = false ∧
      ∃ j opj, j ≤ 1 ∧ g.operations[j]? = some opj ∧ opj.hostId = op.hostId ∧ Blocking g j opj := by
  have hnew : Initial .new := rfl
  obtain ⟨g, hg, hp⟩ := Reach.of_run machine Covered hnew twoHosts
    (fun g => decide (g.world.jobs = [] ∧ (g.stage 2).started = true ∧ (g.stage 1).started = false ∧
      g.operations[1]? = some (⟨"a", none, 5, 7, 8, []⟩ : Operation))) (by decide)
  obtain ⟨hjobs, hstarted, hqueued, hop⟩ := of_decide_eq_true hp
  obtain ⟨-, -, -, hend⟩ := operations_in_order hg
  exact ⟨g, _, hg, hjobs, hstarted, hop, rfl, hqueued, (hend hjobs).1 1 _ hop hqueued⟩

/-- Two connects of one host are in flight; the teardown waits for the second one only. -/
def overlapping : List Event :=
  [.promise, .promise, .trackConnect "a" 0, .trackConnect "a" 1, .enqueueAfterConnect "a", .settle 1 .fulfilled, .job,
    .job, .job, .job]

/-- It is called while the first connect is in flight. -/
theorem earlier_connect :
    ∃ g op, machine.Reach free Initial g ∧ g.operations[0]? = some op ∧ op.hostId = "a" ∧ 0 ∈ op.tracked ∧
      (g.stage 0).started = true ∧ g.world.outcome 0 = none := by
  have hnew : Initial .new := rfl
  obtain ⟨g, hg, hp⟩ := Reach.of_run machine free hnew overlapping
    (fun g => decide ((g.stage 0).started = true ∧ g.world.outcome 0 = none ∧
      g.operations[0]? = some (⟨"a", some 1, 4, 5, 6, [0, 1]⟩ : Operation))) (by decide)
  obtain ⟨hstarted, hopen, hop⟩ := of_decide_eq_true hp
  exact ⟨g, _, hg, hop, rfl, List.mem_cons_self, hstarted, hopen⟩

end KW.DisconnectGate
