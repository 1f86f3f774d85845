import KodeWork.Impl.DisconnectGate

/-!
# What an operation waits for

`Flow` relates the stage of each operation of the gate to the promises that its call of
`enqueue` has made: it is called in a job of `caught`, or of the connect it awaits
(`At`), and only once, as the promise that holds its callback has one reaction
(`held`). So it is called after `earlier` has settled (`Flow.earlier_done`) and after
its connect has (`Flow.connect_done`), and `current` settles after it has ended
(`Flow.finished`).
-/

namespace KW.DisconnectGate

open Promises Gate

/-! ## The promises of an operation -/

/-- It has been called; what it returns, if it does, counts. -/
def Stage.started : Stage → Bool
  | .running _ | .returned _ | .threw => true
  | .queued | .awaiting _ => false

/-- It has been called, and has thrown an exception, or its promise has settled. -/
def Gate.finished (g : Gate) (k : Nat) : Bool :=
  match g.stage k with
  | .returned result => (g.world.outcome result).isSome
  | .threw => true
  | .queued | .awaiting _ | .running _ => false

/-- The operation that a callback calls, now or later. -/
def Callback.owner? : Callback → Option Nat
  | .operation k | .afterConnect k _ => some k
  | .ignore | .releasePending .. | .releaseConnect .. => none

/-- `earlier.catch(() => {})` is not rejected, and settles after `earlier`. -/
def Caught (w : World Callback) (op : Operation) : Prop :=
  w.state op.caught = some (.derived op.earlier none (some .ignore)) ∨
    w.state op.caught = some (.settled .fulfilled) ∧ w.Done op.earlier

/-- The operation may be called, or has been, for the promise `d`. -/
structure Called (w : World Callback) (op : Operation) (d : Nat) : Prop where
  caught : w.Done op.caught
  connect : ∀ c, op.connect = some c → w.Done c
  current : op.current = d ∨ w.Resolving op.current d

/-- The promises of the operation `k`, at each of its stages. -/
inductive At (w : World Callback) (k : Nat) (op : Operation) : Stage → Prop
  | queued (hcurrent : w.state op.current = some (.derived op.caught (some (callback k op.connect)) none)) :
    At w k op .queued
  | awaiting (inner c : Nat) (hcaught : w.Done op.caught) (hconnect : op.connect = some c)
    (hcurrent : w.Resolving op.current inner)
    (hinner : w.state inner = some (.derived c (some (.operation k)) (some (.operation k)))) :
    At w k op (.awaiting inner)
  | running (d : Nat) (h : Called w op d) (hd : w.state d = some .called) : At w k op (.running d)
  | returned (d result : Nat) (h : Called w op d) (hd : w.Resolving d result) : At w k op (.returned result)
  | threw (d : Nat) (h : Called w op d) (hd : w.Done d) : At w k op .threw

/-- The promise whose callback calls the operation, or is the operation. -/
def held (op : Operation) : Stage → Option Nat
  | .queued => some op.current
  | .awaiting inner => some inner
  | .running d => some d
  | .returned _ | .threw => none

theorem Called.keep {w w' : World Callback} {op : Operation} {d : Nat} (h : Called w op d) (hgrows : Grows w w') :
    Called w' op d :=
  ⟨hgrows.done h.caught, fun c hc => hgrows.done (h.connect c hc), h.current.imp_right (hgrows.resolving _ _)⟩

theorem Caught.keep {w w' : World Callback} {op : Operation} (h : Caught w op) (hgrows : Grows w w')
    (hsame : w'.state op.caught = w.state op.caught) : Caught w' op :=
  h.imp hsame.trans fun ⟨hcaught, hearlier⟩ => ⟨hgrows.settled _ _ hcaught, hgrows.done hearlier⟩

theorem At.keep {w w' : World Callback} {k : Nat} {op : Operation} {st : Stage} (h : At w k op st)
    (hgrows : Grows w w') (hsame : ∀ x, held op st = some x → w'.state x = w.state x) : At w' k op st := by
  cases h with
  | queued hcurrent => exact .queued ((hsame _ rfl).trans hcurrent)
  | awaiting inner c hcaught hconnect hcurrent hinner =>
    exact .awaiting inner c (hgrows.done hcaught) hconnect (hgrows.resolving _ _ hcurrent) ((hsame _ rfl).trans hinner)
  | running d h hd => exact .running d (h.keep hgrows) ((hsame _ rfl).trans hd)
  | returned d result h hd => exact .returned d result (h.keep hgrows) (hgrows.resolving _ _ hd)
  | threw d h hd => exact .threw d (h.keep hgrows) (hgrows.done hd)

theorem At.called {w : World Callback} {k : Nat} {op : Operation} {st : Stage} (h : At w k op st)
    (hst : st.started = true) : ∃ d, Called w op d := by
  cases h with
  | queued | awaiting => cases hst
  | running d h | returned d _ h | threw d h => exact ⟨d, h⟩

theorem Caught.fulfilled {w : World Callback} {op : Operation} (h : Caught w op) {o : Outcome}
    (ho : w.outcome op.caught = some o) : o = .fulfilled ∧ w.Done op.earlier := by
  have ho := World.outcome_eq_some.mp ho
  rcases h with h | ⟨h, hearlier⟩
  · cases h.symm.trans ho
  · cases h.symm.trans ho
    exact ⟨rfl, hearlier⟩

theorem Caught.earlier {w : World Callback} {op : Operation} (h : Caught w op) (hdone : w.Done op.caught) :
    w.Done op.earlier := by
  obtain ⟨o, ho⟩ := hdone
  exact (h.fulfilled (World.outcome_eq_some.mpr ho)).2

/-- The promise that is held is not settled, and not resolved. -/
theorem At.held_state {w : World Callback} {k : Nat} {op : Operation} {st : Stage} (h : At w k op st) {x : Nat}
    (hx : held op st = some x) :
    w.state x = some .called ∧ st = .running x ∨
      ∃ source onFulfilled onRejected, w.state x = some (.derived source onFulfilled onRejected) := by
  cases h with
  | queued hcurrent =>
    cases hx
    exact .inr ⟨_, _, _, hcurrent⟩
  | awaiting inner c hcaught hconnect hcurrent hinner =>
    cases hx
    exact .inr ⟨_, _, _, hinner⟩
  | running d h hd =>
    cases hx
    exact .inl ⟨hd, rfl⟩
  | returned | threw => cases hx

/-- A job of the promise that is held calls a callback of the operation. -/
theorem At.handler {w : World Callback} {k : Nat} {op : Operation} {st : Stage} (h : At w k op st)
    (hcaught : Caught w op) {x source : Nat} {onFulfilled onRejected : Option Callback} {o : Outcome}
    (hx : held op st = some x) (hstate : w.state x = some (.derived source onFulfilled onRejected))
    (ho : w.outcome source = some o) : ∃ c, handler onFulfilled onRejected o = some c ∧ c.owner? = some k := by
  cases h with
  | queued hcurrent =>
    cases hx
    cases hcurrent.symm.trans hstate
    obtain ⟨rfl, -⟩ := hcaught.fulfilled ho
    refine ⟨_, rfl, ?_⟩
    cases op.connect <;> rfl
  | awaiting inner c _ hconnect hcurrent hinner =>
    cases hx
    cases hinner.symm.trans hstate
    exact ⟨.operation k, by cases o <;> rfl, rfl⟩
  | running d h hd =>
    cases hx
    cases hd.symm.trans hstate
  | returned | threw => cases hx

/-! ## The invariant -/

structure Flow (g : Gate) : Prop where
  world : Sound g.world
  caught : ∀ (k : Nat) op, g.operations[k]? = some op → Caught g.world op
  placed : ∀ (k : Nat) op, g.operations[k]? = some op → At g.world k op (g.stage k)
  made : ∀ (k : Nat) op c, g.operations[k]? = some op → op.connect = some c → (g.world.state c).isSome
  running : ∀ k d, g.stage k = .running d → g.running = some (k, d)
  runs : ∀ k d, g.running = some (k, d) → g.stage k = .running d ∧ ∃ op, g.operations[k]? = some op
  later : ∀ k, g.operations.length ≤ k → g.stage k = .queued
  owner : ∀ x source onFulfilled onRejected o c (k : Nat),
    g.world.state x = some (.derived source onFulfilled onRejected) →
    handler onFulfilled onRejected o = some c → c.owner? = some k →
    ∃ op, g.operations[k]? = some op ∧ held op (g.stage k) = some x

theorem Flow.earlier_done {g : Gate} (hg : Flow g) {k : Nat} {op : Operation} (hop : g.operations[k]? = some op)
    (h : (g.stage k).started = true) : g.world.Done op.earlier := by
  obtain ⟨d, hd⟩ := (hg.placed k op hop).called h
  exact (hg.caught k op hop).earlier hd.caught

theorem Flow.connect_done {g : Gate} (hg : Flow g) {k : Nat} {op : Operation} (hop : g.operations[k]? = some op)
    (h : (g.stage k).started = true) {c : Nat} (hc : op.connect = some c) : g.world.Done c := by
  obtain ⟨d, hd⟩ := (hg.placed k op hop).called h
  exact hd.connect c hc

/-- The promise of the operation that is being called. -/
theorem Flow.called_running {g : Gate} (hg : Flow g) {k d : Nat} (h : g.running = some (k, d)) :
    g.world.state d = some .called := by
  obtain ⟨hstage, op, hop⟩ := hg.runs k d h
  have hplaced := hg.placed k op hop
  rw [hstage] at hplaced
  cases hplaced with
  | running _ _ hd => exact hd

theorem Called.done {w : World Callback} {op : Operation} {d : Nat} (h : Called w op d) (hdone : w.Done op.current) :
    w.Done d := by
  rcases h.current with rfl | hcurrent
  · exact hdone
  · exact hcurrent.done hdone

/-- `current` settles after the operation has ended. -/
theorem Flow.finished {g : Gate} (hg : Flow g) {k : Nat} {op : Operation} (hop : g.operations[k]? = some op)
    (hdone : g.world.Done op.current) : g.finished k = true := by
  have h := hg.placed k op hop
  rw [Gate.finished]
  generalize g.stage k = st at h
  obtain ⟨o, ho⟩ := id hdone
  cases h with
  | queued hcurrent => cases hcurrent.symm.trans ho
  | awaiting inner c hcaught hconnect hcurrent hinner =>
    obtain ⟨o', ho'⟩ := hcurrent.done hdone
    cases hinner.symm.trans ho'
  | running d h hd =>
    obtain ⟨o', ho'⟩ := h.done hdone
    cases hd.symm.trans ho'
  | returned d result h hd =>
    obtain ⟨o', ho'⟩ := hd.done (h.done hdone)
    exact Option.isSome_iff_exists.mpr ⟨o', World.outcome_eq_some.mpr ho'⟩
  | threw => rfl

/-! ## Steps -/

/-- A step that changes the promise `d`, makes new ones, and moves the operations `m`, whose
promise `d` is. -/
theorem Flow.keep {g g' : Gate} {d : Nat} {m : Nat → Prop} (hg : Flow g) (hworld : Sound g'.world)
    (hgrows : Grows g.world g'.world)
    (hother : ∀ x s, x ≠ d → g.world.state x = some s → g'.world.state x = some s)
    (hself : (g'.world.state d).isSome) (hops : g'.operations = g.operations) (hstage : ∀ k, ¬ m k → g'.stage k = g.stage k)
    (hmoved : ∀ k, m k → ∃ op, g.operations[k]? = some op ∧ held op (g.stage k) = some d)
    (hheld : ∀ (k : Nat) op, ¬ m k → g.operations[k]? = some op → held op (g.stage k) ≠ some d)
    (hcaught : ∀ (k : Nat) op, g.operations[k]? = some op → op.caught = d → Caught g'.world op)
    (hplaced : ∀ (k : Nat) op, m k → g.operations[k]? = some op → At g'.world k op (g'.stage k))
    (hrunning : ∀ k e, g'.stage k = .running e → g'.running = some (k, e))
    (hruns : ∀ k e, g'.running = some (k, e) → g'.stage k = .running e ∧ ∃ op, g.operations[k]? = some op)
    (howner : ∀ x source onFulfilled onRejected o c (k : Nat),
      g'.world.state x = some (.derived source onFulfilled onRejected) →
      handler onFulfilled onRejected o = some c → c.owner? = some k →
      x ≠ d ∧ g.world.state x = some (.derived source onFulfilled onRejected) ∨
        ∃ op, g.operations[k]? = some op ∧ held op (g'.stage k) = some x) : Flow g' where
  world := hworld
  caught k op hop := by
    rw [hops] at hop
    by_cases hd : op.caught = d
    · exact hcaught k op hop hd
    · have h := hg.caught k op hop
      refine h.keep hgrows ?_
      rcases h with h | ⟨h, -⟩ <;> exact (hother _ _ hd h).trans h.symm
  placed k op hop := by
    rw [hops] at hop
    by_cases hk : m k
    · exact hplaced k op hk hop
    · have h := hg.placed k op hop
      rw [hstage k hk]
      refine h.keep hgrows fun x hx => ?_
      have hd : x ≠ d := fun e => hheld k op hk hop (e ▸ hx)
      rcases h.held_state hx with ⟨hs, -⟩ | ⟨_, _, _, hs⟩ <;> exact (hother x _ hd hs).trans hs.symm
  made k op c hop hc := by
    rw [hops] at hop
    by_cases hd : c = d
    · rwa [hd]
    · obtain ⟨s, hs⟩ := Option.isSome_iff_exists.mp (hg.made k op c hop hc)
      exact Option.isSome_iff_exists.mpr ⟨s, hother c s hd hs⟩
  running := hrunning
  runs k e he := by
    rw [hops]
    exact hruns k e he
  later k hk := by
    rw [hops] at hk
    refine (hstage k fun hm => ?_).trans (hg.later k hk)
    obtain ⟨op, hop, -⟩ := hmoved k hm
    exact absurd (List.getElem?_eq_some_iff.mp hop).1 (Nat.not_lt.mpr hk)
  owner x source onFulfilled onRejected o c k hx hc hk := by
    rw [hops]
    rcases howner x source onFulfilled onRejected o c k hx hc hk with ⟨hd, hx⟩ | h
    · obtain ⟨op, hop, hop'⟩ := hg.owner x source onFulfilled onRejected o c k hx hc hk
      by_cases hm : m k
      · obtain ⟨op', hop'', hd'⟩ := hmoved k hm
        cases hop.symm.trans hop''
        exact absurd (Option.some.inj (hop'.symm.trans hd')) hd
      · exact ⟨op, hop, by rwa [hstage k hm]⟩
    · exact h

/-- The same for a step that moves no operation. -/
theorem Flow.quiet {g g' : Gate} {d : Nat} (hg : Flow g) (hworld : Sound g'.world) (hgrows : Grows g.world g'.world)
    (hother : ∀ x s, x ≠ d → g.world.state x = some s → g'.world.state x = some s)
    (hself : (g'.world.state d).isSome) (hops : g'.operations = g.operations) (hstage : g'.stage = g.stage)
    (hrunning : g'.running = g.running)
    (hheld : ∀ (k : Nat) op, g.operations[k]? = some op → held op (g.stage k) ≠ some d)
    (hcaught : ∀ (k : Nat) op, g.operations[k]? = some op → op.caught = d → Caught g'.world op)
    (howner : ∀ x source onFulfilled onRejected o c (k : Nat),
      g'.world.state x = some (.derived source onFulfilled onRejected) →
      handler onFulfilled onRejected o = some c → c.owner? = some k →
      x ≠ d ∧ g.world.state x = some (.derived source onFulfilled onRejected)) : Flow g' := by
  refine hg.keep (m := fun _ => False) hworld hgrows hother hself hops (fun k _ => congrFun hstage k)
    (fun k h => h.elim) (fun k op _ => hheld k op) hcaught (fun k op h => h.elim) ?_ ?_ ?_
  · intro k e he
    rw [hrunning]
    exact hg.running k e (hstage ▸ he)
  · intro k e he
    rw [hstage]
    exact hg.runs k e (hrunning ▸ he)
  · intro x source onFulfilled onRejected o c k hx hc hk
    exact .inl (howner x source onFulfilled onRejected o c k hx hc hk)

/-- What a promise in the hands of the program is not. -/
theorem Flow.fresh {g : Gate} (hg : Flow g) {d : Nat}
    (hd : ∀ s, g.world.state d = some s → s = .external) {k : Nat} {op : Operation}
    (hop : g.operations[k]? = some op) : held op (g.stage k) ≠ some d ∧ op.caught ≠ d := by
  constructor
  · intro hheld
    rcases (hg.placed k op hop).held_state hheld with ⟨hs, -⟩ | ⟨_, _, _, hs⟩ <;> cases hd _ hs
  · rintro rfl
    rcases hg.caught k op hop with hs | ⟨hs, -⟩ <;> cases hd _ hs

theorem made_fresh {w : World Callback} (hw : Sound w) (s : State Callback) (h : w.state w.made = some s) :
    s = .external := absurd rfl (made_ne hw h)

theorem Flow.promise {g : Gate} (hg : Flow g) : Flow { g with world := g.world.make } := by
  have hextends := make_extends hg.world
  have hfresh {k : Nat} {op : Operation} (hop : g.operations[k]? = some op) := hg.fresh (made_fresh hg.world) hop
  refine hg.quiet (d := g.world.made) (make_sound hg.world) hextends.grows (fun x s _ => hextends x s)
    (by rw [make_external]; rfl) rfl rfl rfl (fun k op hop => (hfresh hop).1)
    (fun k op hop hd => absurd hd (hfresh hop).2) ?_
  intro x source onFulfilled onRejected o c k hx hc hk
  rcases entry_of_update hx with ⟨-, ⟨⟩⟩ | h
  exact h

theorem become_derived {w : World Callback} {d x source : Nat} {s : State Callback}
    {onFulfilled onRejected : Option Callback} (hs : ∀ p f r, s ≠ .derived p f r)
    (h : (w.become d s).state x = some (.derived source onFulfilled onRejected)) :
    x ≠ d ∧ w.state x = some (.derived source onFulfilled onRejected) := by
  rw [World.become_state] at h
  rcases entry_of_update h with ⟨-, h⟩ | h
  · exact absurd (Option.some.inj h) (hs _ _ _)
  · exact h

theorem become_other {w : World Callback} {d x : Nat} {s : State Callback} (h : x ≠ d) :
    (w.become d s).state x = w.state x := by
  rw [World.become_state, Function.update_of_ne h]

theorem become_self (w : World Callback) (d : Nat) (s : State Callback) : (w.become d s).state d = some s := by
  rw [World.become_state, Function.update_self]

theorem Flow.settle {g : Gate} (hg : Flow g) {p : Nat} (hp : g.world.state p = some .external) (o : Outcome) :
    Flow { g with world := g.world.become p (.settled o) } := by
  have hopen : g.world.outcome p = none := World.outcome_eq_none hp (by rintro _ ⟨⟩)
  have hfresh {k : Nat} {op : Operation} (hop : g.operations[k]? = some op) :=
    hg.fresh (fun s hs => Option.some.inj (hs.symm.trans hp)) hop
  refine hg.quiet (d := p) (settle_sound hg.world hp rfl hopen o)
    (grows_of_idle (fun x hx => become_other (s := .settled o) hx) hp rfl (by rintro _ ⟨⟩))
    (fun x s hx hs => (become_other (s := .settled o) hx).trans hs) (by rw [become_self]; rfl) rfl rfl rfl
    (fun k op hop => (hfresh hop).1) (fun k op hop hd => absurd hd (hfresh hop).2) ?_
  intro x source onFulfilled onRejected o' c k hx hc hk
  exact become_derived (s := .settled o) (by rintro _ _ _ ⟨⟩) hx

theorem handler_self (c : Callback) (o : Outcome) : handler (some c) (some c) o = some c := by
  cases o <;> rfl

theorem Flow.trackConnect {g : Gate} (hg : Flow g) {connect : Nat} (h : (g.world.state connect).isSome)
    (hostId : String) : Flow (g.trackConnect hostId connect) := by
  have hextends := derive_extends hg.world connect (some (.releaseConnect hostId connect))
    (some (.releaseConnect hostId connect))
  have hfresh {k : Nat} {op : Operation} (hop : g.operations[k]? = some op) := hg.fresh (made_fresh hg.world) hop
  refine hg.quiet (d := g.world.made) (derive_sound hg.world h ..) hextends.grows (fun x s _ => hextends x s)
    ?_ rfl rfl rfl (fun k op hop => (hfresh hop).1) (fun k op hop hd => absurd hd (hfresh hop).2) ?_
  · change ((g.world.derive ..).state g.world.made).isSome = true
    rw [World.derive_state, Function.update_self]
    rfl
  · intro x source onFulfilled onRejected o c k hx hc hk
    change (g.world.derive ..).state x = _ at hx
    rw [World.derive_state] at hx
    rcases entry_of_update hx with ⟨-, hs⟩ | hx
    · cases hs
      rw [handler_self] at hc
      cases hc
      cases hk
    · exact hx

/-! ## Jobs -/

section

variable {g : Gate} {w : World Callback} {d : Nat} {call : Option (Nat × Callback)}

/-- A job of the promise an operation holds calls a callback of this operation. -/
theorem Flow.held_calls (hg : Flow g) (hmoves : JobMoves g.world w d call) {k : Nat} {op : Operation}
    (hop : g.operations[k]? = some op) (hheld : held op (g.stage k) = some d) :
    ∃ c, call = some (d, c) ∧ c.owner? = some k := by
  have hplaced := hg.placed k op hop
  have hcaught := hg.caught k op hop
  cases hmoves with
  | passes source onFulfilled onRejected o hd ho hnone =>
    obtain ⟨c, hc, -⟩ := hplaced.handler hcaught hheld hd ho
    cases hnone.symm.trans hc
  | calls source onFulfilled onRejected o c hd ho hc =>
    obtain ⟨c', hc', hk⟩ := hplaced.handler hcaught hheld hd ho
    cases hc.symm.trans hc'
    exact ⟨c, rfl, hk⟩
  | adopts source hd | follows source o hd =>
    rcases hplaced.held_state hheld with ⟨hs, -⟩ | ⟨_, _, _, hs⟩ <;> cases hd.symm.trans hs

/-- A job of `caught` fulfils it, or calls `() => {}`. -/
theorem Flow.caught_calls (hg : Flow g) (hmoves : JobMoves g.world w d call) {k : Nat} {op : Operation}
    (hop : g.operations[k]? = some op) (hd : op.caught = d) :
    g.world.Done op.earlier ∧
      (call = none ∧ w.state d = some (.settled .fulfilled) ∨ call = some (d, .ignore)) := by
  have hcaught := hg.caught k op hop
  rw [Caught, hd] at hcaught
  cases hmoves with
  | passes source onFulfilled onRejected o hd ho hnone hd' =>
    rcases hcaught with hs | ⟨hs, -⟩
    · cases hs.symm.trans hd
      cases o with
      | fulfilled => exact ⟨⟨_, World.outcome_eq_some.mp ho⟩, .inl ⟨rfl, hd'⟩⟩
      | rejected => cases hnone
    · cases hs.symm.trans hd
  | calls source onFulfilled onRejected o c hd ho hc =>
    rcases hcaught with hs | ⟨hs, -⟩
    · cases hs.symm.trans hd
      cases o with
      | fulfilled => cases hc
      | rejected =>
        cases hc
        exact ⟨⟨_, World.outcome_eq_some.mp ho⟩, .inr rfl⟩
    · cases hs.symm.trans hd
  | adopts source hd | follows source o hd => rcases hcaught with hs | ⟨hs, -⟩ <;> cases hs.symm.trans hd

/-- A job that calls nothing. -/
theorem Flow.job_none (hg : Flow g) (hw : Sound w) (hother : ∀ x, x ≠ d → w.state x = g.world.state x)
    (hmoves : JobMoves g.world w d none) : Flow { g with world := w } := by
  have hgrows := hmoves.grows hother
  have hself : ∃ s, w.state d = some s ∧ ∀ p f r, s ≠ .derived p f r := by
    cases hmoves with
    | passes _ _ _ o _ _ _ hd' | follows _ o _ _ hd' => exact ⟨_, hd', by rintro _ _ _ ⟨⟩⟩
    | adopts _ _ hd' => exact ⟨_, hd', by rintro _ _ _ ⟨⟩⟩
  obtain ⟨s, hs, hderived⟩ := hself
  refine hg.quiet (d := d) hw hgrows (fun x s hx h => (hother x hx).trans h) (by rw [hs]; rfl) rfl rfl rfl ?_ ?_ ?_
  · intro k op hop hheld
    obtain ⟨c, ⟨⟩, -⟩ := hg.held_calls hmoves hop hheld
  · intro k op hop hd
    obtain ⟨hearlier, h⟩ := hg.caught_calls hmoves hop hd
    rw [Caught, hd]
    rcases h with ⟨-, h⟩ | h
    · exact .inr ⟨h, hgrows.done hearlier⟩
    · cases h
  · intro x source onFulfilled onRejected o c k hx hc hk
    have hne : x ≠ d := by
      rintro rfl
      exact hderived _ _ _ (Option.some.inj (hs.symm.trans hx))
    exact ⟨hne, (hother x hne).symm.trans hx⟩

/-- A job whose callback returns at once. -/
theorem Flow.job_returns {g' : Gate} {c : Callback} (hg : Flow g) (hw : Sound w)
    (hother : ∀ x, x ≠ d → w.state x = g.world.state x) (hmoves : JobMoves g.world w d (some (d, c)))
    (hc : c.owner? = none) (hworld : g'.world = w.become d (.settled .fulfilled)) (hops : g'.operations = g.operations)
    (hstage : g'.stage = g.stage) (hrunning : g'.running = g.running) : Flow g' := by
  have hcalled : w.state d = some .called := by
    cases hmoves with
    | calls _ _ _ _ _ _ _ _ hd' => exact hd'
  have hopen : w.outcome d = none := World.outcome_eq_none hcalled (by rintro _ ⟨⟩)
  have hgrows : Grows g.world g'.world := by
    rw [hworld]
    exact (hmoves.grows hother).trans (grows_of_idle (fun x hx => become_other hx) hcalled rfl (by rintro _ ⟨⟩))
  refine hg.quiet (d := d) ?_ hgrows ?_ (by rw [hworld, become_self]; rfl) hops hstage hrunning ?_ ?_ ?_
  · rw [hworld]
    exact settle_sound hw hcalled rfl hopen .fulfilled
  · intro x s hx h
    rw [hworld, become_other hx, hother x hx]
    exact h
  · intro k op hop hheld
    obtain ⟨c', ⟨⟩, hk⟩ := hg.held_calls hmoves hop hheld
    cases hc.symm.trans hk
  · intro k op hop hd
    obtain ⟨hearlier, -⟩ := hg.caught_calls hmoves hop hd
    refine .inr ⟨?_, hgrows.done hearlier⟩
    rw [hd, hworld, become_self]
  · intro x source onFulfilled onRejected o c' k hx _ _
    rw [hworld] at hx
    obtain ⟨hne, hx⟩ := become_derived (by rintro _ _ _ ⟨⟩) hx
    exact ⟨hne, (hother x hne).symm.trans hx⟩

/-- The operation `k` whose callback a job calls, and what has settled before it. -/
theorem Flow.called_by (hg : Flow g) {c : Callback} (hmoves : JobMoves g.world w d (some (d, c))) {k : Nat}
    (hk : c.owner? = some k) :
    ∃ op, g.operations[k]? = some op ∧ held op (g.stage k) = some d ∧ g.world.Done op.caught ∧
      (c = .operation k ∧ (∀ e, op.connect = some e → g.world.Done e) ∧
          (op.current = d ∨ g.world.Resolving op.current d) ∨
        ∃ e, c = .afterConnect k e ∧ op.connect = some e ∧ op.current = d) := by
  cases hmoves with
  | calls source onFulfilled onRejected o _ hd ho hc =>
    obtain ⟨op, hop, hheld⟩ := hg.owner _ _ _ _ _ _ _ hd hc hk
    refine ⟨op, hop, hheld, ?_⟩
    have hplaced := hg.placed k op hop
    generalize g.stage k = st at hheld hplaced
    cases hplaced with
    | queued hcurrent =>
      cases hheld
      cases hcurrent.symm.trans hd
      refine ⟨⟨o, World.outcome_eq_some.mp ho⟩, ?_⟩
      obtain ⟨rfl, -⟩ := (hg.caught k op hop).fulfilled ho
      cases hconnect : op.connect with
      | none =>
        rw [hconnect] at hc
        cases hc
        exact .inl ⟨rfl, by rintro _ ⟨⟩, .inl rfl⟩
      | some e =>
        rw [hconnect] at hc
        cases hc
        exact .inr ⟨e, rfl, rfl, rfl⟩
    | awaiting inner e hcaught hconnect hcurrent hinner =>
      cases hheld
      cases hinner.symm.trans hd
      rw [handler_self] at hc
      cases hc
      refine ⟨hcaught, .inl ⟨rfl, fun e' he => ?_, .inr hcurrent⟩⟩
      cases hconnect.symm.trans he
      exact ⟨o, World.outcome_eq_some.mp ho⟩
    | running _ _ hs =>
      cases hheld
      cases hs.symm.trans hd
    | returned | threw => cases hheld

/-- A job that calls the operation `k`. -/
theorem Flow.job_operation (hg : Flow g) (hidle : g.running = none) (hw : Sound w)
    (hother : ∀ x, x ≠ d → w.state x = g.world.state x) {k : Nat}
    (hmoves : JobMoves g.world w d (some (d, .operation k))) : Flow ({ g with world := w }.call d (.operation k)) := by
  obtain ⟨op, hop, hheld, hcaught, hcase⟩ := hg.called_by hmoves rfl
  obtain ⟨-, hconnect, hcurrent⟩ | ⟨_, ⟨⟩, -⟩ := hcase
  have hcalled : w.state d = some .called := by
    cases hmoves with
    | calls _ _ _ _ _ _ _ _ hd' => exact hd'
  have hgrows := hmoves.grows hother
  refine hg.keep (d := d) (m := (· = k)) hw hgrows (fun x s hx h => (hother x hx).trans h) ?_ rfl
    (fun j hj => Function.update_of_ne hj ..) ?_ ?_ ?_ ?_ ?_ ?_ ?_
  · change (w.state d).isSome = true
    rw [hcalled]
    rfl
  · rintro j rfl
    exact ⟨op, hop, hheld⟩
  · intro j op' hj hop' hheld'
    obtain ⟨_, ⟨⟩, hown⟩ := hg.held_calls hmoves hop' hheld'
    cases hown
    exact hj rfl
  · intro j op' hop' hd
    obtain ⟨-, h⟩ := hg.caught_calls hmoves hop' hd
    rcases h with ⟨⟨⟩, -⟩ | h
    cases h
  · rintro j op' rfl hop'
    cases hop.symm.trans hop'
    change At w j op (Function.update g.stage j (.running d) j)
    rw [Function.update_self]
    exact .running d ⟨hgrows.done hcaught, fun c hc => hgrows.done (hconnect c hc),
      hcurrent.imp_right (hgrows.resolving _ _)⟩ hcalled
  · intro j e hj
    change Function.update g.stage k (.running d) j = _ at hj
    by_cases hjk : j = k
    · subst hjk
      rw [Function.update_self] at hj
      cases hj
      rfl
    · rw [Function.update_of_ne hjk] at hj
      cases hidle.symm.trans (hg.running j e hj)
  · rintro j e ⟨⟩
    exact ⟨Function.update_self .., op, hop⟩
  · intro x source onFulfilled onRejected o c j hx _ _
    have hx : w.state x = some (.derived source onFulfilled onRejected) := hx
    have hne : x ≠ d := by
      rintro rfl
      cases hcalled.symm.trans hx
    exact .inl ⟨hne, (hother x hne).symm.trans hx⟩

/-- A job that calls `connect.then(..)` for the operation `k`. -/
theorem Flow.job_afterConnect (hg : Flow g) (hidle : g.running = none) (hw : Sound w)
    (hother : ∀ x, x ≠ d → w.state x = g.world.state x) {k e : Nat}
    (hmoves : JobMoves g.world w d (some (d, .afterConnect k e))) :
    Flow ({ g with world := w }.call d (.afterConnect k e)) := by
  obtain ⟨op, hop, hheld, hcaught, hcase⟩ := hg.called_by hmoves rfl
  obtain ⟨⟨⟩, -⟩ | ⟨_, ⟨⟩, hconnect, hcurrent⟩ := hcase
  have hcalled : w.state d = some .called := by
    cases hmoves with
    | calls _ _ _ _ _ _ _ _ hd' => exact hd'
  have hne : w.made ≠ d := Ne.symm (made_ne hw hcalled)
  have hmade : (w.state e).isSome := by
    obtain ⟨s, hs⟩ := Option.isSome_iff_exists.mp (hg.made k op e hop hconnect)
    by_cases hed : e = d
    · rw [hed, hcalled]
      rfl
    · rw [hother e hed, hs]
      rfl
  -- the world after `connect.then(..)`, where `d` is still called
  have hinner := derive_sound hw hmade (some (.operation k)) (some (.operation k))
  have hextends := derive_extends hw e (some (.operation k)) (some (.operation k))
  have hresolve : (w.derive e (some (.operation k)) (some (.operation k))).resolve d w.made =
      (w.derive e (some (.operation k)) (some (.operation k))).become d (.adopts w.made) := by
    rw [World.resolve, if_neg hne]
  have hmadeInner : (w.derive e (some (.operation k)) (some (.operation k))).state w.made =
      some (.derived e (some (.operation k)) (some (.operation k))) := by
    rw [World.derive_state, Function.update_self]
  have hworld : ({ g with world := w }.call d (.afterConnect k e)).world =
      (w.derive e (some (.operation k)) (some (.operation k))).become d (.adopts w.made) := hresolve
  have hself : ({ g with world := w }.call d (.afterConnect k e)).world.state d = some (.adopts w.made) := by
    rw [hworld, become_self]
  have hgrows : Grows g.world ({ g with world := w }.call d (.afterConnect k e)).world := by
    rw [hworld]
    exact ((hmoves.grows hother).trans hextends.grows).trans
      (grows_of_idle (fun x hx => become_other hx) (hextends _ _ hcalled) rfl (by rintro _ ⟨⟩))
  refine hg.keep (d := d) (m := (· = k)) ?_ hgrows ?_ (by rw [hself]; rfl) rfl
    (fun j hj => Function.update_of_ne hj ..) ?_ ?_ ?_ ?_ ?_ ?_ ?_
  · rw [hworld]
    refine become_sound hinner (hextends _ _ hcalled) rfl
      (World.outcome_eq_none (hextends _ _ hcalled) (by rintro _ ⟨⟩)) ?_
    rintro p ⟨⟩
    rw [hmadeInner]
    rfl
  · intro x s hx h
    rw [hworld, become_other hx]
    exact hextends x s ((hother x hx).trans h)
  · rintro j rfl
    exact ⟨op, hop, hheld⟩
  · intro j op' hj hop' hheld'
    obtain ⟨_, ⟨⟩, hown⟩ := hg.held_calls hmoves hop' hheld'
    cases hown
    exact hj rfl
  · intro j op' hop' hd
    obtain ⟨-, h⟩ := hg.caught_calls hmoves hop' hd
    rcases h with ⟨⟨⟩, -⟩ | h
    cases h
  · rintro j op' rfl hop'
    cases hop.symm.trans hop'
    change At _ j op (Function.update g.stage j (.awaiting w.made) j)
    rw [Function.update_self]
    refine .awaiting w.made e (hgrows.done hcaught) hconnect (.inl (hcurrent ▸ hself)) ?_
    rw [hworld, become_other hne]
    exact hmadeInner
  · intro j e' hj
    change Function.update g.stage k (.awaiting w.made) j = _ at hj
    by_cases hjk : j = k
    · subst hjk
      rw [Function.update_self] at hj
      cases hj
    · rw [Function.update_of_ne hjk] at hj
      exact hg.running j e' hj
  · intro j e' hj
    cases hidle.symm.trans hj
  · intro x source onFulfilled onRejected o c j hx hc hown
    rw [hworld] at hx
    obtain ⟨hxd, hx⟩ := become_derived (by rintro _ _ _ ⟨⟩) hx
    rw [World.derive_state] at hx
    rcases entry_of_update hx with ⟨rfl, hs⟩ | ⟨-, hx⟩
    · cases hs
      rw [handler_self] at hc
      cases hc
      cases hown
      refine .inr ⟨op, hop, ?_⟩
      change held op (Function.update g.stage k (.awaiting w.made) k) = _
      rw [Function.update_self]
      rfl
    · exact .inl ⟨hxd, (hother x hxd).symm.trans hx⟩

theorem Flow.job {g' : Gate} (hg : Flow g) (hidle : g.running = none) (h : g.job = some g') : Flow g' := by
  obtain ⟨⟨w, call⟩, hrun, rfl⟩ := Option.map_eq_some_iff.mp h
  obtain ⟨hw, d, hother, hmoves⟩ := runJob_sound hg.world hrun
  cases call with
  | none => exact hg.job_none hw hother hmoves
  | some call =>
    obtain ⟨d', c⟩ := call
    obtain rfl : d' = d := by cases hmoves; rfl
    cases c with
    | ignore | releasePending | releaseConnect => exact hg.job_returns hw hother hmoves rfl rfl rfl rfl rfl
    | operation k => exact hg.job_operation hidle hw hother hmoves
    | afterConnect k e => exact hg.job_afterConnect hidle hw hother hmoves

end

/-! ## The end of a call -/

/-- The call of the operation `k` ends: its promise gets the state `s`. -/
theorem Flow.ends {g : Gate} (hg : Flow g) {k d : Nat} (hrunning : g.running = some (k, d)) {s : State Callback}
    (hs : ∀ p, s.refers? = some p → (g.world.state p).isSome) (hderived : ∀ p f r, s ≠ .derived p f r) {st : Stage}
    (hst : ∀ e, st ≠ .running e)
    (hplaced : ∀ op, Called (g.world.become d s) op d → At (g.world.become d s) k op st) :
    Flow { g with
      world := g.world.become d s
      running := none
      stage := Function.update g.stage k st } := by
  obtain ⟨hstage, op, hop⟩ := hg.runs k d hrunning
  have hat := hg.placed k op hop
  rw [hstage] at hat
  cases hat with
  | running _ hcalled hd =>
    have hopen : g.world.outcome d = none := World.outcome_eq_none hd (by rintro _ ⟨⟩)
    have hgrows : Grows g.world (g.world.become d s) :=
      grows_of_idle (fun x hx => become_other hx) hd rfl (by rintro _ ⟨⟩)
    refine hg.keep (d := d) (m := (· = k)) (become_sound hg.world hd rfl hopen hs) hgrows
      (fun x s' hx h => (become_other (s := s) hx).trans h) (by rw [become_self]; rfl) rfl
      (fun j hj => Function.update_of_ne hj ..) ?_ ?_ ?_ ?_ ?_ ?_ ?_
    · rintro j rfl
      exact ⟨op, hop, by rw [hstage]; rfl⟩
    · intro j op' hj hop' hheld
      rcases (hg.placed j op' hop').held_state hheld with ⟨-, hrun⟩ | ⟨_, _, _, hs'⟩
      · cases hrunning.symm.trans (hg.running j d hrun)
        exact hj rfl
      · cases hd.symm.trans hs'
    · intro j op' hop' hcaught
      rcases hg.caught j op' hop' with hs' | ⟨hs', -⟩
      · rw [hcaught] at hs'
        cases hd.symm.trans hs'
      · rw [hcaught] at hs'
        cases hd.symm.trans hs'
    · rintro j op' rfl hop'
      cases hop.symm.trans hop'
      change At _ j op (Function.update g.stage j st j)
      rw [Function.update_self]
      exact hplaced op (hcalled.keep hgrows)
    · intro j e hj
      change Function.update g.stage k st j = _ at hj
      by_cases hjk : j = k
      · subst hjk
        rw [Function.update_self] at hj
        exact absurd hj (hst e)
      · rw [Function.update_of_ne hjk] at hj
        cases hrunning.symm.trans (hg.running j e hj)
        exact absurd rfl hjk
    · rintro j e ⟨⟩
    · intro x source onFulfilled onRejected o c j hx _ _
      exact .inl (become_derived hderived hx)

theorem Flow.returns {g : Gate} (hg : Flow g) {k d : Nat} (hrunning : g.running = some (k, d)) {result : Nat}
    (hresult : (g.world.state result).isSome) :
    Flow { g with
      world := g.world.resolve d result
      running := none
      stage := Function.update g.stage k (.returned result) } := by
  rw [World.resolve]
  by_cases hself : result = d
  · rw [if_pos hself]
    have hdone : (g.world.become d (.settled .rejected)).Done d := ⟨_, become_self ..⟩
    refine hg.ends hrunning (by rintro _ ⟨⟩) (by rintro _ _ _ ⟨⟩) (by rintro _ ⟨⟩) fun op hcalled => ?_
    exact .returned d result hcalled (.inr (.inr ⟨hdone, hself ▸ hdone⟩))
  · rw [if_neg hself]
    refine hg.ends hrunning ?_ (by rintro _ _ _ ⟨⟩) (by rintro _ ⟨⟩) fun op hcalled => ?_
    · rintro p ⟨⟩
      exact hresult
    · exact .returned d result hcalled (.inl (become_self ..))

theorem Flow.throws {g : Gate} (hg : Flow g) {k d : Nat} (hrunning : g.running = some (k, d)) :
    Flow { g with
      world := g.world.become d (.settled .rejected)
      running := none
      stage := Function.update g.stage k .threw } :=
  hg.ends hrunning (by rintro _ ⟨⟩) (by rintro _ _ _ ⟨⟩) (by rintro _ ⟨⟩) fun _ hcalled =>
    .threw d hcalled ⟨_, become_self ..⟩

/-! ## A call of `enqueue` -/

/-- What `enqueue` finds. -/
theorem Flow.earlier {g : Gate} (hg : Flow g) (hpending : ∀ h p, g.pending h = some p → (g.world.state p).isSome)
    (hostId : String) :
    Sound (g.earlier hostId).1 ∧ Extends g.world (g.earlier hostId).1 ∧
      ((g.earlier hostId).1.state (g.earlier hostId).2).isSome ∧
      ∀ x p f r, (g.earlier hostId).1.state x = some (.derived p f r) → g.world.state x = some (.derived p f r) := by
  rw [Gate.earlier]
  split
  · rename_i p hp
    exact ⟨hg.world, fun _ _ h => h, hpending _ p hp, fun _ _ _ _ h => h⟩
  · refine ⟨makeResolved_sound hg.world, makeResolved_extends hg.world, ?_, fun x p f r h => ?_⟩
    · change (g.world.makeResolved.state g.world.made).isSome = true
      rw [World.makeResolved_state, Function.update_self]
      rfl
    · have h : g.world.makeResolved.state x = some (.derived p f r) := h
      rw [World.makeResolved_state] at h
      rcases entry_of_update h with ⟨-, ⟨⟩⟩ | ⟨-, h⟩
      exact h

/-- What a call of `enqueue` makes: the operation `op`, and its promises. -/
structure Enqueued (g g' : Gate) (op : Operation) : Prop where
  operations : g'.operations = g.operations ++ [op]
  earlier : op.earlier = (g.earlier op.hostId).2
  pending : g'.pending = Function.update g.pending op.hostId (some op.current)
  sound : Sound g'.world
  extends' : Extends (g.earlier op.hostId).1 g'.world
  caught : g'.world.state op.caught = some (.derived op.earlier none (some .ignore))
  current : g'.world.state op.current = some (.derived op.caught (some (callback g.operations.length op.connect)) none)
  release : ∃ x, g'.world.state x = some (.derived op.current (some (.releasePending op.hostId op.current))
    (some (.releasePending op.hostId op.current)))
  derived : ∀ x p f r, g'.world.state x = some (.derived p f r) →
    g.world.state x = some (.derived p f r) ∨ x = op.caught ∧ f = none ∧ r = some .ignore ∨
      x = op.current ∧ f = some (callback g.operations.length op.connect) ∧ r = none ∨
      p = op.current ∧ f = some (.releasePending op.hostId op.current) ∧
        r = some (.releasePending op.hostId op.current)
  stage : g'.stage = g.stage
  running : g'.running = g.running
  connects : g'.connects = g.connects
  tracked : g'.tracked = g.tracked

theorem Flow.enqueued {g : Gate} (hg : Flow g) (hpending : ∀ h p, g.pending h = some p → (g.world.state p).isSome)
    (hostId : String) (connect : Option Nat) (tracked : List Nat) :
    ∃ op, op.hostId = hostId ∧ op.connect = connect ∧ op.tracked = tracked ∧
      Enqueued g (g.enqueue hostId connect tracked) op := by
  obtain ⟨hw, -, hmade, hold⟩ := hg.earlier hpending hostId
  generalize he : g.earlier hostId = e at hw hmade hold
  obtain ⟨w, earlier⟩ := e
  let w₁ := w.derive earlier none (some .ignore)
  let w₂ := w₁.derive w.made (some (callback g.operations.length connect)) none
  let release : Callback := .releasePending hostId w₁.made
  have h₁ : Sound w₁ := derive_sound hw hmade ..
  have hcaught : w₁.state w.made = some (.derived earlier none (some .ignore)) := by
    rw [World.derive_state, Function.update_self]
  have h₂ : Sound w₂ := derive_sound h₁ (by rw [hcaught]; rfl) ..
  have hcurrent : w₂.state w₁.made = some (.derived w.made (some (callback g.operations.length connect)) none) := by
    rw [World.derive_state, Function.update_self]
  have h₃ : Sound (w₂.derive w₁.made (some release) (some release)) := derive_sound h₂ (by rw [hcurrent]; rfl) ..
  have hext₁ : Extends w w₁ := derive_extends hw earlier none (some .ignore)
  have hext₂ : Extends w₁ w₂ := derive_extends h₁ w.made (some (callback g.operations.length connect)) none
  have hext₃ : Extends w₂ (w₂.derive w₁.made (some release) (some release)) :=
    derive_extends h₂ w₁.made (some release) (some release)
  have hg' : g.enqueue hostId connect tracked = { g with
      world := w₂.derive w₁.made (some release) (some release)
      pending := Function.update g.pending hostId (some w₁.made)
      operations := g.operations ++ [⟨hostId, connect, earlier, w.made, w₁.made, tracked⟩] } := by
    rw [Gate.enqueue, he]
  rw [hg']
  refine ⟨⟨hostId, connect, earlier, w.made, w₁.made, tracked⟩, rfl, rfl, rfl, rfl, by rw [he], rfl, h₃, ?_, ?_, ?_,
    ?_, ?_, rfl, rfl, rfl, rfl⟩
  · rw [he]
    exact (hext₁.trans hext₂).trans hext₃
  · exact hext₃ _ _ (hext₂ _ _ hcaught)
  · exact hext₃ _ _ hcurrent
  · exact ⟨w₂.made, by rw [World.derive_state, Function.update_self]⟩
  · intro x p f r hx
    have hx : (w₂.derive w₁.made (some release) (some release)).state x = some (.derived p f r) := hx
    rw [World.derive_state] at hx
    rcases entry_of_update hx with ⟨-, hs⟩ | ⟨-, hx⟩
    · cases hs
      exact .inr (.inr (.inr ⟨rfl, rfl, rfl⟩))
    · rw [World.derive_state] at hx
      rcases entry_of_update hx with ⟨hnew, hs⟩ | ⟨-, hx⟩
      · cases hs
        exact .inr (.inr (.inl ⟨hnew, rfl, rfl⟩))
      · rw [World.derive_state] at hx
        rcases entry_of_update hx with ⟨hnew, hs⟩ | ⟨-, hx⟩
        · cases hs
          exact .inr (.inl ⟨hnew, rfl, rfl⟩)
        · exact .inl (hold x p f r hx)

theorem Flow.enqueue {g g' : Gate} {op : Operation} (hg : Flow g) (hextends : Extends g.world g'.world)
    (h : Enqueued g g' op) (hconnect : ∀ c, op.connect = some c → (g.world.state c).isSome) : Flow g' := by
  have hgrows := hextends.grows
  have hentry {k : Nat} {op' : Operation} (hop : g'.operations[k]? = some op') :
      g.operations[k]? = some op' ∨ k = g.operations.length ∧ op' = op := entry_of_concat (h.operations ▸ hop)
  have hold {k : Nat} {op' : Operation} (hop : g.operations[k]? = some op') : g'.operations[k]? = some op' := by
    rw [h.operations, List.getElem?_append_left (List.getElem?_eq_some_iff.mp hop).1]
    exact hop
  have hnew : g'.operations[g.operations.length]? = some op := by
    rw [h.operations]
    exact List.getElem?_concat_length
  have hqueued : g'.stage g.operations.length = .queued := by
    rw [h.stage]
    exact hg.later _ (Nat.le_refl _)
  refine ⟨h.sound, ?_, ?_, ?_, ?_, ?_, ?_, ?_⟩
  · intro k op' hop
    rcases hentry hop with hop | ⟨-, rfl⟩
    · have hcaught := hg.caught k op' hop
      refine hcaught.keep hgrows ?_
      rcases hcaught with hs | ⟨hs, -⟩ <;> exact (hextends _ _ hs).trans hs.symm
    · exact .inl h.caught
  · intro k op' hop
    rcases hentry hop with hop | ⟨rfl, rfl⟩
    · have hplaced := hg.placed k op' hop
      rw [h.stage]
      refine hplaced.keep hgrows fun x hx => ?_
      rcases hplaced.held_state hx with ⟨hs, -⟩ | ⟨_, _, _, hs⟩ <;> exact (hextends x _ hs).trans hs.symm
    · rw [hqueued]
      exact .queued h.current
  · intro k op' c hop hc
    have hmade : (g.world.state c).isSome := by
      rcases hentry hop with hop | ⟨-, rfl⟩
      · exact hg.made k op' c hop hc
      · exact hconnect c hc
    obtain ⟨s, hs⟩ := Option.isSome_iff_exists.mp hmade
    exact Option.isSome_iff_exists.mpr ⟨s, hextends c s hs⟩
  · intro k e he
    rw [h.running]
    exact hg.running k e (h.stage ▸ he)
  · intro k e he
    obtain ⟨hstage, op', hop⟩ := hg.runs k e (h.running ▸ he)
    exact ⟨h.stage ▸ hstage, op', hold hop⟩
  · intro k hk
    rw [h.operations, List.length_append] at hk
    rw [h.stage]
    exact hg.later k (Nat.le_trans (Nat.le_add_right _ _) hk)
  · intro x source onFulfilled onRejected o c k hx hc hk
    rcases h.derived x source onFulfilled onRejected hx with hx | ⟨-, rfl, rfl⟩ | ⟨rfl, rfl, rfl⟩ | ⟨-, rfl, rfl⟩
    · obtain ⟨op', hop, hheld⟩ := hg.owner x _ _ _ o c k hx hc hk
      exact ⟨op', hold hop, h.stage ▸ hheld⟩
    · cases o with
      | fulfilled => cases hc
      | rejected =>
        cases hc
        cases hk
    · cases o with
      | fulfilled =>
        cases hc
        have hkey : (callback g.operations.length op.connect).owner? = some g.operations.length := by
          cases op.connect <;> rfl
        cases hkey.symm.trans hk
        exact ⟨op, hnew, by rw [hqueued]; rfl⟩
      | rejected => cases hc
    · rw [handler_self] at hc
      cases hc
      cases hk

end KW.DisconnectGate
