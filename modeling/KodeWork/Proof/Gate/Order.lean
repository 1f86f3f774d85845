import KodeWork.Proof.Gate.Operations

/-!
# The maps of the gate

`Order` relates the two maps to the calls: `pending` has `current` of the last operation
of a host until it has settled, and each operation is behind the one before it, or came
when all had ended (`Behind`); `connects` has the last connect that was tracked until it
has settled. So all operations before one whose turn it is have ended
(`earlier_ended`). `Inv` is kept by every step (`step_inv`).
-/

namespace KW.DisconnectGate

open Promises Gate Machine

/-! ## The two maps -/

/-- The promise that a `release` waits for. -/
def Callback.released? : Callback → Option Nat
  | .releasePending _ p | .releaseConnect _ p => some p
  | .ignore | .operation _ | .afterConnect .. => none

/-- `release` will be called. -/
def Releasing (w : World Callback) (c : Callback) : Prop :=
  ∃ x p, c.released? = some p ∧ w.state x = some (.derived p (some c) (some c))

/-- The operation `k` was enqueued behind the last one of its host, or when all of them had ended. -/
def Behind (g : Gate) (k : Nat) (op : Operation) : Prop :=
  (g.world.Done op.earlier ∧ ∀ (j : Nat) op', j < k → g.operations[j]? = some op' → op'.hostId = op.hostId →
      g.world.Done op'.current) ∨
    ∃ m op', m < k ∧ g.operations[m]? = some op' ∧ op'.hostId = op.hostId ∧ op.earlier = op'.current ∧
      ∀ (j : Nat) op'', j < k → g.operations[j]? = some op'' → op''.hostId = op.hostId → j ≤ m

structure Order (g : Gate) : Prop where
  behind : ∀ (k : Nat) op, g.operations[k]? = some op → Behind g k op
  last : ∀ h p, g.pending h = some p → ∃ k op, g.operations[k]? = some op ∧ op.hostId = h ∧ op.current = p ∧
    ∀ (j : Nat) op', g.operations[j]? = some op' → op'.hostId = h → j ≤ k
  ended : ∀ h, g.pending h = none → ∀ (k : Nat) op, g.operations[k]? = some op → op.hostId = h →
    g.world.Done op.current
  releasePending : ∀ h p, g.pending h = some p → Releasing g.world (.releasePending h p)
  tracked : ∀ h c, g.connects h = some c → c ∈ g.tracked h
  lastTracked : ∀ h c, (g.tracked h).getLast? = some c → g.world.Done c ∨ g.connects h = some c
  releaseConnect : ∀ h c, g.connects h = some c → Releasing g.world (.releaseConnect h c)
  awaited : ∀ (k : Nat) op c, g.operations[k]? = some op → op.connect = some c → c ∈ g.tracked op.hostId
  releases : ∀ x p f r o c q, g.world.state x = some (.derived p f r) → handler f r o = some c →
    c.released? = some q → p = q

theorem Releasing.made {w : World Callback} (hw : Sound w) {c : Callback} {p : Nat} (h : Releasing w c)
    (hc : c.released? = some p) : (w.state p).isSome := by
  obtain ⟨x, p', hp, hx⟩ := h
  cases hc.symm.trans hp
  exact hw.refers x _ p hx rfl

theorem Order.pending_made {g : Gate} (hg : Order g) (hw : Sound g.world) (h : String) (p : Nat)
    (hp : g.pending h = some p) : (g.world.state p).isSome := (hg.releasePending h p hp).made hw rfl

theorem Order.connect_made {g : Gate} (hg : Order g) (hw : Sound g.world) (h : String) (c : Nat)
    (hc : g.connects h = some c) : (g.world.state c).isSome := (hg.releaseConnect h c hc).made hw rfl

theorem Behind.keep {g g' : Gate} {k : Nat} {op : Operation} (h : Behind g k op) (hgrows : Grows g.world g'.world)
    (hops : ∀ (j : Nat) op', j < k → (g'.operations[j]? = some op' ↔ g.operations[j]? = some op')) : Behind g' k op := by
  rcases h with ⟨hearlier, hall⟩ | ⟨m, op', hm, hop', hhost, hearlier, hlast⟩
  · exact .inl ⟨hgrows.done hearlier, fun j op' hj hop' hhost => hgrows.done (hall j op' hj ((hops j op' hj).mp hop') hhost)⟩
  · exact .inr ⟨m, op', hm, (hops m op' hm).mpr hop', hhost, hearlier,
      fun j op'' hj hop'' => hlast j op'' hj ((hops j op'' hj).mp hop'')⟩

/-- A step that leaves the maps alone. -/
theorem Order.keep {g g' : Gate} (hg : Order g) (hgrows : Grows g.world g'.world) (hops : g'.operations = g.operations)
    (hpending : g'.pending = g.pending) (hconnects : g'.connects = g.connects) (htracked : g'.tracked = g.tracked)
    (hkeep : ∀ c, c.released?.isSome → Releasing g.world c → Releasing g'.world c)
    (hback : ∀ x p f r o c, g'.world.state x = some (.derived p f r) → handler f r o = some c → c.released?.isSome →
      g.world.state x = some (.derived p f r)) : Order g' where
  behind k op hop := by
    rw [hops] at hop
    exact (hg.behind k op hop).keep hgrows fun j op' _ => by rw [hops]
  last h p hp := by
    rw [hops]
    exact hg.last h p (hpending ▸ hp)
  ended h hp k op hop hhost := hgrows.done (hg.ended h (hpending ▸ hp) k op (hops ▸ hop) hhost)
  releasePending h p hp := hkeep _ rfl (hg.releasePending h p (hpending ▸ hp))
  tracked h c hc := by
    rw [htracked]
    exact hg.tracked h c (hconnects ▸ hc)
  lastTracked h c hc := by
    rw [hconnects]
    exact (hg.lastTracked h c (htracked ▸ hc)).imp_left hgrows.done
  releaseConnect h c hc := hkeep _ rfl (hg.releaseConnect h c (hconnects ▸ hc))
  awaited k op c hop hc := by
    rw [htracked]
    exact hg.awaited k op c (hops ▸ hop) hc
  releases x p f r o c q hx hc hq := hg.releases x p f r o c q (hback x p f r o c hx hc (by rw [hq]; rfl)) hc hq

/-- A promise that is not a `release`, and does not become one. -/
theorem releasing_keep {w w' : World Callback} {d : Nat}
    (hother : ∀ x s, x ≠ d → w.state x = some s → w'.state x = some s) {c : Callback}
    (hd : ∀ p, w.state d ≠ some (.derived p (some c) (some c))) (h : Releasing w c) : Releasing w' c := by
  obtain ⟨x, p, hp, hx⟩ := h
  refine ⟨x, p, hp, hother x _ ?_ hx⟩
  rintro rfl
  exact hd p hx

/-! ## In the order of the calls -/

theorem Flow.earlier_of_current {g : Gate} (hg : Flow g) {k : Nat} {op : Operation} (hop : g.operations[k]? = some op)
    (hdone : g.world.Done op.current) : g.world.Done op.earlier := by
  have hfinished := hg.finished hop hdone
  refine hg.earlier_done hop ?_
  rw [Gate.finished] at hfinished
  split at hfinished
  · rename_i hstage
    rw [hstage]
    rfl
  · rename_i hstage
    rw [hstage]
    rfl
  all_goals cases hfinished

/-- When what an operation is behind has settled, all earlier ones of its host have ended. -/
theorem earlier_ended {g : Gate} (hf : Flow g) (hg : Order g) :
    ∀ (k : Nat) (op : Operation), g.operations[k]? = some op → g.world.Done op.earlier →
      ∀ (j : Nat) op', j < k → g.operations[j]? = some op' → op'.hostId = op.hostId → g.world.Done op'.current := by
  intro k
  induction k using Nat.strongRecOn with
  | ind k ih =>
    intro op hop hdone j op' hj hop' hhost
    rcases hg.behind k op hop with ⟨-, hall⟩ | ⟨m, opm, hm, hopm, hhostm, hearlier, hlast⟩
    · exact hall j op' hj hop' hhost
    · have hcurrent : g.world.Done opm.current := hearlier ▸ hdone
      rcases Nat.lt_or_eq_of_le (hlast j op' hj hop' hhost) with hjm | rfl
      · exact ih m hm opm hopm (hf.earlier_of_current hopm hcurrent) j op' hjm hop' (hhost.trans hhostm.symm)
      · cases hopm.symm.trans hop'
        exact hcurrent

/-! ## Steps -/

section

variable {g : Gate} {w : World Callback} {d : Nat} {call : Option (Nat × Callback)}

theorem calls_release {w' : World Callback} (h : JobMoves w w' d call) {p : Nat} {c : Callback}
    (hd : w.state d = some (.derived p (some c) (some c))) : call = some (d, c) := by
  cases h with
  | passes source f r o hd' _ hnone =>
    cases hd.symm.trans hd'
    rw [handler_self] at hnone
    cases hnone
  | calls source f r o c' hd' _ hc =>
    cases hd.symm.trans hd'
    rw [handler_self] at hc
    cases hc
    rfl
  | adopts source hd' | follows source o hd' => cases hd.symm.trans hd'

theorem Order.promise (hf : Flow g) (hg : Order g) : Order { g with world := g.world.make } := by
  have hextends := make_extends hf.world
  refine hg.keep hextends.grows rfl rfl rfl rfl (fun c _ ⟨x, p, hp, hx⟩ => ⟨x, p, hp, hextends x _ hx⟩) ?_
  intro x p f r o c hx hc hq
  rcases entry_of_update hx with ⟨-, ⟨⟩⟩ | ⟨-, h⟩
  exact h

/-- The promise `d` is in the hands of the program, and gets the state `s`. -/
theorem Order.idle (hg : Order g) {g' : Gate} {s s' : State Callback} (hd : g.world.state d = some s')
    (hs' : s'.refers? = none) (hopen : ∀ o, s' ≠ .settled o) (hs : ∀ p f r, s ≠ .derived p f r)
    (hworld : g'.world = g.world.become d s) (hops : g'.operations = g.operations) (hpending : g'.pending = g.pending)
    (hconnects : g'.connects = g.connects) (htracked : g'.tracked = g.tracked) : Order g' := by
  have hother (x : Nat) (hx : x ≠ d) : g'.world.state x = g.world.state x := by rw [hworld, become_other hx]
  refine hg.keep (grows_of_idle hother hd hs' hopen) hops hpending hconnects htracked ?_ ?_
  · intro c _ hc
    refine releasing_keep (d := d) (fun x s hx h => (hother x hx).trans h) (fun p h => ?_) hc
    cases hd.symm.trans h
    cases hs'
  · intro x p f r o c hx _ _
    rw [hworld] at hx
    exact (become_derived hs hx).2

/-- A job that is not a `release`. -/
theorem Order.job_keep (hg : Order g) {g' : Gate} (hother : ∀ x, x ≠ d → w.state x = g.world.state x)
    (hmoves : JobMoves g.world w d call) (hcall : ∀ c, call = some (d, c) → c.released? = none)
    (hgrows : Grows w g'.world) (hother' : ∀ x s, x ≠ d → w.state x = some s → g'.world.state x = some s)
    (hback : ∀ x p f r o c, g'.world.state x = some (.derived p f r) → handler f r o = some c → c.released?.isSome →
      w.state x = some (.derived p f r)) (hd : ∀ p f r, w.state d ≠ some (.derived p f r))
    (hops : g'.operations = g.operations) (hpending : g'.pending = g.pending)
    (hconnects : g'.connects = g.connects) (htracked : g'.tracked = g.tracked) : Order g' := by
  refine hg.keep ((hmoves.grows hother).trans hgrows) hops hpending hconnects htracked ?_ ?_
  · intro c hc hrelease
    refine releasing_keep (d := d) (fun x s hx h => hother' x s hx ((hother x hx).trans h)) (fun p h => ?_) hrelease
    rw [hcall c (calls_release hmoves h)] at hc
    cases hc
  · intro x p f r o c hx hc hq
    have hx := hback x p f r o c hx hc hq
    refine (hother x ?_).symm.trans hx
    rintro rfl
    exact hd p f r hx

theorem JobMoves.not_derived {w' : World Callback} (h : JobMoves w w' d call) (p : Nat) (f r : Option Callback) :
    w'.state d ≠ some (.derived p f r) := by
  intro hs
  cases h with
  | passes _ _ _ _ _ _ _ hd' | calls _ _ _ _ _ _ _ _ hd' | adopts _ _ hd' | follows _ _ _ _ hd' => cases hd'.symm.trans hs

/-- A `release` settles its promise; what it waited for has settled. -/
theorem Order.released (hg : Order g) {c : Callback} {q : Nat} (hq : c.released? = some q)
    (hother : ∀ x, x ≠ d → w.state x = g.world.state x) (hmoves : JobMoves g.world w d (some (d, c))) :
    g.world.Done q ∧ Grows g.world (w.become d (.settled .fulfilled)) ∧
      (∀ c', c' ≠ c → Releasing g.world c' → Releasing (w.become d (.settled .fulfilled)) c') ∧
      ∀ x p f r, (w.become d (.settled .fulfilled)).state x = some (.derived p f r) →
        g.world.state x = some (.derived p f r) := by
  have hgrows := hmoves.grows hother
  have hrelease (c' : Callback) (hne : c' ≠ c) (p : Nat) : g.world.state d ≠ some (.derived p (some c') (some c')) := by
    intro hd
    cases calls_release hmoves hd
    exact hne rfl
  cases hmoves with
  | calls source f r o _ hd ho hc hd' =>
    cases hg.releases d source f r o c q hd hc hq
    refine ⟨⟨o, World.outcome_eq_some.mp ho⟩, hgrows.trans (grows_of_idle (fun x hx => become_other hx) hd' rfl
      (by rintro _ ⟨⟩)), fun c' hne hrel => ?_, fun x p f r hx => ?_⟩
    · refine releasing_keep (d := d) (fun x s hx h => ?_) (hrelease c' hne) hrel
      rw [become_other hx, hother x hx]
      exact h
    · obtain ⟨hne, hx⟩ := become_derived (by rintro _ _ _ ⟨⟩) hx
      exact (hother x hne).symm.trans hx

theorem Order.job_releasePending (hf : Flow g) (hg : Order g) (hother : ∀ x, x ≠ d → w.state x = g.world.state x)
    {h : String} {q : Nat} (hmoves : JobMoves g.world w d (some (d, .releasePending h q))) :
    Order ({ g with world := w }.call d (.releasePending h q)) := by
  obtain ⟨hdone, hgrows, hkeep, hback⟩ := hg.released rfl hother hmoves
  have hpending {h' : String} {p : Nat}
      (hp : (if g.pending h = some q then Function.update g.pending h none else g.pending) h' = some p) :
      g.pending h' = some p ∧ (h', p) ≠ (h, q) := by
    split at hp
    · rcases entry_of_update hp with ⟨-, ⟨⟩⟩ | ⟨hne, hp⟩
      exact ⟨hp, fun e => hne (congrArg Prod.fst e)⟩
    · rename_i hq
      refine ⟨hp, fun e => ?_⟩
      cases e
      exact hq hp
  refine ⟨?_, fun h' p hp => hg.last h' p (hpending hp).1, ?_, ?_, hg.tracked, ?_, ?_, hg.awaited, ?_⟩
  · intro k op hop
    exact (hg.behind k op hop).keep hgrows fun j op' _ => Iff.rfl
  · intro h' hp k op hop hhost
    have hp : (if g.pending h = some q then Function.update g.pending h none else g.pending) h' = none := hp
    split at hp
    · rename_i hq
      by_cases hne : h' = h
      · -- the last operation of the host has ended, and so have all before it
        subst hne
        obtain ⟨m, opm, hopm, hhostm, rfl, hlast⟩ := hg.last h' q hq
        rcases Nat.lt_or_eq_of_le (hlast k op hop hhost) with hkm | rfl
        · exact hgrows.done (earlier_ended hf hg m opm hopm (hf.earlier_of_current hopm hdone) k op hkm hop
            (hhost.trans hhostm.symm))
        · cases hopm.symm.trans hop
          exact hgrows.done hdone
      · rw [Function.update_of_ne hne] at hp
        exact hgrows.done (hg.ended h' hp k op hop hhost)
    · exact hgrows.done (hg.ended h' hp k op hop hhost)
  · intro h' p hp
    obtain ⟨hp, hne⟩ := hpending hp
    refine hkeep _ (fun e => ?_) (hg.releasePending h' p hp)
    cases e
    exact hne rfl
  · exact fun h' c hc => (hg.lastTracked h' c hc).imp_left hgrows.done
  · exact fun h' c hc => hkeep _ (by rintro ⟨⟩) (hg.releaseConnect h' c hc)
  · exact fun x p f r o c p' hx hc hq => hg.releases x p f r o c p' (hback x p f r hx) hc hq

theorem Order.job_releaseConnect (hg : Order g) (hother : ∀ x, x ≠ d → w.state x = g.world.state x)
    {h : String} {q : Nat} (hmoves : JobMoves g.world w d (some (d, .releaseConnect h q))) :
    Order ({ g with world := w }.call d (.releaseConnect h q)) := by
  obtain ⟨hdone, hgrows, hkeep, hback⟩ := hg.released rfl hother hmoves
  have hconnects {h' : String} {c : Nat}
      (hc : (if g.connects h = some q then Function.update g.connects h none else g.connects) h' = some c) :
      g.connects h' = some c ∧ (h', c) ≠ (h, q) := by
    split at hc
    · rcases entry_of_update hc with ⟨-, ⟨⟩⟩ | ⟨hne, hc⟩
      exact ⟨hc, fun e => hne (congrArg Prod.fst e)⟩
    · rename_i hq
      refine ⟨hc, fun e => ?_⟩
      cases e
      exact hq hc
  refine ⟨?_, hg.last, fun h' hp k op hop hhost => hgrows.done (hg.ended h' hp k op hop hhost), ?_,
    fun h' c hc => hg.tracked h' c (hconnects hc).1, ?_, ?_, hg.awaited, ?_⟩
  · intro k op hop
    exact (hg.behind k op hop).keep hgrows fun j op' _ => Iff.rfl
  · exact fun h' p hp => hkeep _ (by rintro ⟨⟩) (hg.releasePending h' p hp)
  · intro h' c hc
    rcases hg.lastTracked h' c hc with hsettled | hstored
    · exact .inl (hgrows.done hsettled)
    · change _ ∨ (if g.connects h = some q then Function.update g.connects h none else g.connects) h' = some c
      split
      · rename_i hq
        by_cases hne : h' = h
        · subst hne
          cases hq.symm.trans hstored
          exact .inl (hgrows.done hdone)
        · rw [Function.update_of_ne hne]
          exact .inr hstored
      · exact .inr hstored
  · intro h' c hc
    obtain ⟨hc, hne⟩ := hconnects hc
    refine hkeep _ (fun e => ?_) (hg.releaseConnect h' c hc)
    cases e
    exact hne rfl
  · exact fun x p f r o c p' hx hc hq => hg.releases x p f r o c p' (hback x p f r hx) hc hq

/-- A callback may make promises, and settles or resolves `d`. -/
theorem call_grows (g : Gate) (hw : Sound w) (hd : w.state d = some .called) (c : Callback) :
    Grows w ({ g with world := w }.call d c).world := by
  cases c with
  | ignore | releasePending | releaseConnect =>
    exact grows_of_idle (fun x hx => become_other (s := .settled .fulfilled) hx) hd rfl (by rintro _ ⟨⟩)
  | operation k => exact .refl w
  | afterConnect k e =>
    have hextends := derive_extends hw e (some (.operation k)) (some (.operation k))
    exact hextends.grows.trans (grows_of_idle (fun x hx => become_other hx) (hextends _ _ hd) rfl (by rintro _ ⟨⟩))

theorem Order.job {g' : Gate} (hf : Flow g) (hg : Order g) (h : g.job = some g') : Order g' := by
  obtain ⟨⟨w, call⟩, hrun, rfl⟩ := Option.map_eq_some_iff.mp h
  obtain ⟨hw, d, hother, hmoves⟩ := runJob_sound hf.world hrun
  have hderived := JobMoves.not_derived hmoves
  cases call with
  | none =>
    exact hg.job_keep hother hmoves (by rintro _ ⟨⟩) (.refl _) (fun x s _ h => h) (fun x p f r o c h _ _ => h)
      hderived rfl rfl rfl rfl
  | some call =>
    obtain ⟨d', c⟩ := call
    obtain rfl : d' = d := by cases hmoves; rfl
    have hcalled : w.state d' = some .called := by
      cases hmoves with
      | calls _ _ _ _ _ _ _ _ hd' => exact hd'
    cases c with
    | ignore =>
      refine hg.job_keep hother hmoves (by rintro _ ⟨⟩; rfl) (call_grows g hw hcalled .ignore) ?_ ?_ hderived
        rfl rfl rfl rfl
      · exact fun x s hx h => (become_other (s := .settled .fulfilled) hx).trans h
      · exact fun x p f r o c hx _ _ => (become_derived (s := .settled .fulfilled) (by rintro _ _ _ ⟨⟩) hx).2
    | operation k =>
      exact hg.job_keep hother hmoves (by rintro _ ⟨⟩; rfl) (.refl _) (fun x s _ h => h)
        (fun x p f r o c h _ _ => h) hderived rfl rfl rfl rfl
    | afterConnect k e =>
      have hextends := derive_extends hw e (some (.operation k)) (some (.operation k))
      have hne : w.made ≠ d' := Ne.symm (made_ne hw hcalled)
      have hworld : ({ g with world := w }.call d' (.afterConnect k e)).world =
          (w.derive e (some (.operation k)) (some (.operation k))).become d' (.adopts w.made) := by
        change World.resolve .. = _
        rw [World.resolve, if_neg hne]
      refine hg.job_keep hother hmoves (by rintro _ ⟨⟩; rfl) (call_grows g hw hcalled (.afterConnect k e)) ?_ ?_
        hderived rfl rfl rfl rfl
      · intro x s hx h
        rw [hworld, become_other hx]
        exact hextends x s h
      · intro x p f r o c hx hc hq
        rw [hworld] at hx
        have hx := (become_derived (by rintro _ _ _ ⟨⟩) hx).2
        rw [World.derive_state] at hx
        rcases entry_of_update hx with ⟨-, hs⟩ | ⟨-, hx⟩
        · cases hs
          rw [handler_self] at hc
          cases hc
          cases hq
        · exact hx
    | releasePending h q => exact hg.job_releasePending hf hother hmoves
    | releaseConnect h q => exact hg.job_releaseConnect hother hmoves

theorem Order.trackConnect (hf : Flow g) (hg : Order g) (hostId : String) (connect : Nat) :
    Order (g.trackConnect hostId connect) := by
  have hextends := derive_extends hf.world connect (some (.releaseConnect hostId connect))
    (some (.releaseConnect hostId connect))
  have hgrows := hextends.grows
  have hnew : (g.trackConnect hostId connect).world.state g.world.made = some (.derived connect
      (some (.releaseConnect hostId connect)) (some (.releaseConnect hostId connect))) := by
    change (World.derive ..).state _ = _
    rw [World.derive_state, Function.update_self]
  have hkeep (c : Callback) (hc : Releasing g.world c) : Releasing (g.trackConnect hostId connect).world c := by
    obtain ⟨x, p, hp, hx⟩ := hc
    exact ⟨x, p, hp, hextends x _ hx⟩
  refine ⟨?_, hg.last, fun h' hp k op hop hhost => hgrows.done (hg.ended h' hp k op hop hhost), ?_, ?_, ?_, ?_, ?_, ?_⟩
  · intro k op hop
    exact (hg.behind k op hop).keep hgrows fun j op' _ => Iff.rfl
  · exact fun h' p hp => hkeep _ (hg.releasePending h' p hp)
  · intro h' c hc
    change c ∈ Function.update g.tracked hostId (g.tracked hostId ++ [connect]) h'
    rcases entry_of_update hc with ⟨rfl, hs⟩ | ⟨hne, hc⟩
    · cases hs
      rw [Function.update_self]
      exact List.mem_append_right _ (List.mem_singleton_self _)
    · rw [Function.update_of_ne hne]
      exact hg.tracked h' c hc
  · intro h' c hc
    have hc : (Function.update g.tracked hostId (g.tracked hostId ++ [connect]) h').getLast? = some c := hc
    by_cases hne : h' = hostId
    · subst hne
      rw [Function.update_self, List.getLast?_concat] at hc
      cases hc
      exact .inr (Function.update_self ..)
    · rw [Function.update_of_ne hne] at hc
      exact (hg.lastTracked h' c hc).imp hgrows.done fun hc => (Function.update_of_ne hne ..).trans hc
  · intro h' c hc
    rcases entry_of_update hc with ⟨rfl, hs⟩ | ⟨-, hc⟩
    · cases hs
      exact ⟨_, _, rfl, hnew⟩
    · exact hkeep _ (hg.releaseConnect h' c hc)
  · intro k op c hop hc
    have hc := hg.awaited k op c hop hc
    change c ∈ Function.update g.tracked hostId (g.tracked hostId ++ [connect]) op.hostId
    by_cases hne : op.hostId = hostId
    · rw [← hne, Function.update_self]
      exact List.mem_append_left _ hc
    · rwa [Function.update_of_ne hne]
  · intro x p f r o c q hx hc hq
    change (World.derive ..).state x = _ at hx
    rw [World.derive_state] at hx
    rcases entry_of_update hx with ⟨-, hs⟩ | ⟨-, hx⟩
    · cases hs
      rw [handler_self] at hc
      cases hc
      cases hq
      rfl
    · exact hg.releases x p f r o c q hx hc hq

theorem Order.enqueue {g' : Gate} {op : Operation} (hg : Order g) (hextends : Extends g.world g'.world)
    (h : Enqueued g g' op) (hconnect : ∀ c, op.connect = some c → c ∈ g.tracked op.hostId) : Order g' := by
  have hgrows := hextends.grows
  have hentry {k : Nat} {op' : Operation} (hop : g'.operations[k]? = some op') :
      g.operations[k]? = some op' ∨ k = g.operations.length ∧ op' = op := entry_of_concat (h.operations ▸ hop)
  have hlt {k : Nat} {op' : Operation} (hop : g.operations[k]? = some op') : k < g.operations.length :=
    (List.getElem?_eq_some_iff.mp hop).1
  have hold (j : Nat) (hj : j < g.operations.length) : g'.operations[j]? = g.operations[j]? := by
    rw [h.operations, List.getElem?_append_left hj]
  have hnew : g'.operations[g.operations.length]? = some op := by
    rw [h.operations]
    exact List.getElem?_concat_length
  have hkeep (c : Callback) (hc : Releasing g.world c) : Releasing g'.world c := by
    obtain ⟨x, p, hp, hx⟩ := hc
    exact ⟨x, p, hp, hextends x _ hx⟩
  refine ⟨?_, ?_, ?_, ?_, ?_, ?_, ?_, ?_, ?_⟩
  · intro k op' hop
    rcases hentry hop with hop | ⟨rfl, rfl⟩
    · exact (hg.behind k op' hop).keep hgrows fun j op'' hj => by rw [hold j (Nat.lt_trans hj (hlt hop))]
    · cases hp : g.pending op'.hostId with
      | none =>
        have hearlier : op'.earlier = g.world.made ∧ (g.earlier op'.hostId).1 = g.world.makeResolved := by
          rw [h.earlier, Gate.earlier, hp]
          exact ⟨rfl, rfl⟩
        refine .inl ⟨⟨.fulfilled, h.extends' _ _ ?_⟩, fun j op'' hj hop'' hhost => ?_⟩
        · rw [hearlier.1, hearlier.2, World.makeResolved_state, Function.update_self]
        · rw [hold j hj] at hop''
          exact hgrows.done (hg.ended _ hp j op'' hop'' hhost)
      | some p =>
        obtain ⟨m, opm, hopm, hhostm, rfl, hlast⟩ := hg.last _ p hp
        refine .inr ⟨m, opm, hlt hopm, (hold m (hlt hopm)).trans hopm, hhostm, ?_, fun j op'' hj hop'' hhost => ?_⟩
        · rw [h.earlier, Gate.earlier, hp]
        · rw [hold j hj] at hop''
          exact hlast j op'' hop'' hhost
  · intro h' p hp
    rw [h.pending] at hp
    rcases entry_of_update hp with ⟨rfl, hs⟩ | ⟨hne, hp⟩
    · cases hs
      refine ⟨g.operations.length, op, hnew, rfl, rfl, fun j op' hop' _ => ?_⟩
      rcases hentry hop' with hop' | ⟨rfl, -⟩
      · exact Nat.le_of_lt (hlt hop')
      · exact Nat.le_refl _
    · obtain ⟨k, opk, hopk, hhost, hcurrent, hlast⟩ := hg.last h' p hp
      refine ⟨k, opk, (hold k (hlt hopk)).trans hopk, hhost, hcurrent, fun j op' hop' hhost' => ?_⟩
      rcases hentry hop' with hop' | ⟨-, rfl⟩
      · exact hlast j op' hop' hhost'
      · exact absurd hhost'.symm hne
  · intro h' hp k op' hop hhost
    rw [h.pending] at hp
    by_cases hne : h' = op.hostId
    · rw [hne, Function.update_self] at hp
      cases hp
    · rw [Function.update_of_ne hne] at hp
      rcases hentry hop with hop | ⟨-, rfl⟩
      · exact hgrows.done (hg.ended h' hp k op' hop hhost)
      · exact absurd hhost.symm hne
  · intro h' p hp
    rw [h.pending] at hp
    rcases entry_of_update hp with ⟨rfl, hs⟩ | ⟨-, hp⟩
    · cases hs
      obtain ⟨x, hx⟩ := h.release
      exact ⟨x, _, rfl, hx⟩
    · exact hkeep _ (hg.releasePending h' p hp)
  · intro h' c hc
    rw [h.tracked]
    exact hg.tracked h' c (h.connects ▸ hc)
  · intro h' c hc
    rw [h.connects]
    exact (hg.lastTracked h' c (h.tracked ▸ hc)).imp_left hgrows.done
  · exact fun h' c hc => hkeep _ (hg.releaseConnect h' c (h.connects ▸ hc))
  · intro k op' c hop hc
    rw [h.tracked]
    rcases hentry hop with hop | ⟨-, rfl⟩
    · exact hg.awaited k op' c hop hc
    · exact hconnect c hc
  · intro x p f r o c q hx hc hq
    rcases h.derived x p f r hx with hx | ⟨-, rfl, rfl⟩ | ⟨-, rfl, rfl⟩ | ⟨rfl, rfl, rfl⟩
    · exact hg.releases x p f r o c q hx hc hq
    · cases o with
      | fulfilled => cases hc
      | rejected =>
        cases hc
        cases hq
    · cases o with
      | fulfilled =>
        cases hc
        cases hconnect : op.connect <;> rw [hconnect] at hq <;> cases hq
      | rejected => cases hc
    · rw [handler_self] at hc
      cases hc
      cases hq
      rfl

end

/-- What every step keeps. -/
structure Inv (g : Gate) : Prop where
  flow : Flow g
  order : Order g

theorem Inv.enqueue {g : Gate} (hg : Inv g) (hostId : String) (connect : Option Nat) (tracked : List Nat)
    (hconnect : ∀ c, connect = some c → g.connects hostId = some c) :
    Inv (g.enqueue hostId connect tracked) ∧ ∃ op, op.hostId = hostId ∧ op.connect = connect ∧ op.tracked = tracked ∧
      (g.enqueue hostId connect tracked).operations = g.operations ++ [op] ∧
      Grows g.world (g.enqueue hostId connect tracked).world := by
  have hpending := hg.order.pending_made hg.flow.world
  obtain ⟨op, rfl, rfl, rfl, h⟩ := hg.flow.enqueued hpending hostId connect tracked
  obtain ⟨-, hextends, -, -⟩ := hg.flow.earlier hpending op.hostId
  have hextends := hextends.trans h.extends'
  refine ⟨⟨hg.flow.enqueue hextends h fun c hc => ?_, hg.order.enqueue hextends h fun c hc => ?_⟩, op, rfl, rfl, rfl,
    h.operations, hextends.grows⟩
  · exact hg.order.connect_made hg.flow.world _ c (hconnect c hc)
  · exact hg.order.tracked _ c (hconnect c hc)

/-- A step keeps the invariant; it adds an operation if it is a call of `enqueue`. -/
theorem step_inv {g g' : Gate} {e : Event} (hg : Inv g) (h : machine.step g e = some g') :
    Inv g' ∧ Grows g.world g'.world ∧
      (g'.operations = g.operations ∨ ∃ hostId op, op.hostId = hostId ∧ g'.operations = g.operations ++ [op] ∧
        (e = .enqueue hostId ∧ op.tracked = [] ∨
          e = .enqueueAfterConnect hostId ∧ op.connect = g.connects hostId ∧ op.tracked = g.tracked hostId)) := by
  have hf := hg.flow
  have ho := hg.order
  cases e with
  | promise =>
    cases h
    exact ⟨⟨hf.promise, ho.promise hf⟩, (make_extends hf.world).grows, .inl rfl⟩
  | settle p o =>
    simp only [machine, step] at h
    split at h
    · rename_i hp
      cases h
      refine ⟨⟨hf.settle hp o, ho.idle (s := .settled o) hp rfl (by rintro _ ⟨⟩) (by rintro _ _ _ ⟨⟩) rfl rfl rfl rfl rfl⟩, ?_, .inl rfl⟩
      exact grows_of_idle (fun x hx => become_other (s := .settled o) hx) hp rfl (by rintro _ ⟨⟩)
    · cases h
  | trackConnect hostId connect =>
    obtain ⟨hmade, h⟩ := Option.ite_none_right_eq_some.mp h
    cases h
    have hextends : Extends g.world (g.trackConnect hostId connect).world :=
      derive_extends hf.world connect (some (.releaseConnect hostId connect)) (some (.releaseConnect hostId connect))
    exact ⟨⟨hf.trackConnect hmade hostId, ho.trackConnect hf hostId connect⟩, hextends.grows, .inl rfl⟩
  | enqueue hostId =>
    cases h
    obtain ⟨hinv, op, hhost, -, htracked, hops, hgrows⟩ := hg.enqueue hostId none [] (by rintro _ ⟨⟩)
    exact ⟨hinv, hgrows, .inr ⟨hostId, op, hhost, hops, .inl ⟨rfl, htracked⟩⟩⟩
  | enqueueAfterConnect hostId =>
    cases h
    obtain ⟨hinv, op, hhost, hconnect, htracked, hops, hgrows⟩ :=
      hg.enqueue hostId (g.connects hostId) (g.tracked hostId) fun c hc => hc
    exact ⟨hinv, hgrows, .inr ⟨hostId, op, hhost, hops, .inr ⟨rfl, hconnect, htracked⟩⟩⟩
  | job =>
    obtain ⟨hidle, h⟩ := Option.ite_none_right_eq_some.mp h
    refine ⟨⟨hf.job hidle h, ho.job hf h⟩, ?_⟩
    obtain ⟨⟨w, call⟩, hrun, rfl⟩ := Option.map_eq_some_iff.mp h
    obtain ⟨hw, d, hother, hmoves⟩ := runJob_sound hf.world hrun
    have hgrows := hmoves.grows hother
    cases hmoves with
    | passes | adopts | follows => exact ⟨hgrows, .inl rfl⟩
    | calls source f r o c hd ho' hc hd' =>
      refine ⟨hgrows.trans (call_grows g hw hd' c), .inl ?_⟩
      cases c <;> rfl
  | returns result =>
    simp only [machine, step] at h
    split at h
    · rename_i k d hrunning
      obtain ⟨hresult, h⟩ := Option.ite_none_right_eq_some.mp h
      cases h
      have hd := hf.called_running hrunning
      refine ⟨⟨hf.returns hrunning hresult, ho.idle hd rfl (by rintro _ ⟨⟩) ?_ rfl rfl rfl rfl rfl⟩, ?_, .inl rfl⟩
      · intro p f r
        split <;> rintro ⟨⟩
      · exact grows_of_idle (fun x hx => become_other hx) hd rfl (by rintro _ ⟨⟩)
    · cases h
  | throws =>
    simp only [machine, step] at h
    split at h
    · rename_i k d hrunning
      cases h
      have hd := hf.called_running hrunning
      refine ⟨⟨hf.throws hrunning, ho.idle (s := .settled .rejected) hd rfl (by rintro _ ⟨⟩) (by rintro _ _ _ ⟨⟩) rfl rfl rfl
        rfl rfl⟩, ?_, .inl rfl⟩
      exact grows_of_idle (fun x hx => become_other (s := .settled .rejected) hx) hd rfl (by rintro _ ⟨⟩)
    · cases h

theorem new_inv : Inv .new := by
  refine ⟨⟨new_sound, ?_, ?_, ?_, ?_, ?_, fun k _ => rfl, ?_⟩, ⟨?_, ?_, ?_, ?_, ?_, ?_, ?_, ?_, ?_⟩⟩
  all_goals intros; contradiction

end KW.DisconnectGate
