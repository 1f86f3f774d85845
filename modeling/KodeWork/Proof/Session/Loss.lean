import KodeWork.Proof.Session.Steps

/-!
# A lost transport and the state `Ready`

`attach` spawns the pump of a new transport before the connect call sets the
state to `Ready`, and the pump only turns `Ready` into `Reconnecting`. A loss
event the pump is through with before that `set_state` therefore leaves no
trace (`lost_before_ready`): the session stays `Ready` over a dead transport.

In every run in which a pump reads the state for a loss event only after the
connect call that attached it has set `Ready` (`LossAfterReady`), a session
whose current pump is through with a loss event is not `Ready`
(`lost_transport_not_ready`). The invariant (`LossInv`) also says that no
connect call is left that could still set `Ready` for that generation.
-/

namespace KW.Session

open ActiveSession

/-- A pump reads the state for a loss event only when the connect call that
attached it is past its `set_state(Ready)`. -/
def LossAfterReady (s : ActiveSession) : Action → Prop
  | .pump g _ => (s.pumps g).map Pump.pc = some .lossState → s.op ≠ some (.connect (.setReady g))
  | _ => True

instance (s : ActiveSession) : ∀ a, Decidable (LossAfterReady s a)
  | .pump g _ => inferInstanceAs
      (Decidable ((s.pumps g).map Pump.pc = some .lossState → s.op ≠ some (.connect (.setReady g))))
  | .connect | .disconnect | .op _ | .subscribe _ | .receive _ | .dropReceiver _
  | .markWaitingForCredential | .markReconnecting => .isTrue trivial

structure LossInv (s : ActiveSession) : Prop where
  owns : ∀ op, s.op = some op → OpOwns s op
  pump_le : ∀ g p, s.pumps g = some p → g ≤ s.controller.generation
  /-- Once the current pump is through with a loss event the state is not
  `Ready`, and no connect call is about to make it so. -/
  lost : ∀ p, s.pumps s.controller.generation = some p → p.lost = true →
    s.controller.state ≠ .ready ∧ s.op ≠ some (.connect (.setReady s.controller.generation))
  flipping : ∀ p, s.pumps s.controller.generation = some p → p.pc.flipping = true →
    s.op ≠ some (.connect (.setReady s.controller.generation))

theorem lossInv_new (eventBuffer : Nat) : LossInv (.new eventBuffer) :=
  ⟨nofun, nofun, nofun, nofun⟩

/-- The invariant only depends on the controller, the guard and the pumps, and
on the state only in so far as it may not become `Ready`. -/
theorem LossInv.congr {s t : ActiveSession} (hi : LossInv s) (ho : t.op = s.op)
    (hp : t.pumps = s.pumps) (hg : t.controller.generation = s.controller.generation)
    (hs : t.controller.state = s.controller.state ∨ t.controller.state ≠ .ready) : LossInv t where
  owns := by
    intro op h g hgen
    rw [hg]
    exact hi.owns op (ho ▸ h) g hgen
  pump_le := by
    rw [hp, hg]
    exact hi.pump_le
  lost := by
    rw [hp, hg, ho]
    intro p h hl
    obtain ⟨hr, hop⟩ := hi.lost p h hl
    exact ⟨hs.elim (fun e => e ▸ hr) id, hop⟩
  flipping := by
    rw [hp, hg, ho]
    exact hi.flipping

/-! ## The pump's own steps -/

/-- A pump is through with a loss event only when its generation is over, or
it has just seen or made the state something else than `Ready`; and it starts
to flip the state only from its reading of it. -/
theorem PumpMoves.loss {s t : ActiveSession} {g : Nat} {p : Pump} (h : PumpMoves s g p t) :
    ∃ q, t.pumps = Function.update s.pumps g (some q) ∧
      (q.lost = true → p.lost = true ∨ s.controller.generation ≠ g ∨
        (t.controller.state ≠ .ready ∧ (p.pc = .lossState ∨ p.pc.flipping = true))) ∧
      (q.pc.flipping = true → p.pc = .lossState ∨ p.pc.flipping = true) := by
  cases h with
  | quiet q _ hl hf => exact ⟨q, rfl, hl, hf⟩
  | publish e => exact ⟨_, rfl, .inl, nofun⟩
  | deliver hpc hd =>
    obtain ⟨-, hl, e⟩ := deliverOne_spec hd
    rw [e]
    exact ⟨_, rfl, fun h => .inl (hl ▸ h), nofun⟩
  | flip hpc => exact ⟨_, rfl, fun _ => .inr (.inr ⟨nofun, .inr (by rw [hpc]; rfl)⟩), nofun⟩

theorem lossInv_pump {s t : ActiveSession} {g : Nat} {p : Pump} {c : PumpChoice} (hi : LossInv s)
    (hok : LossAfterReady s (.pump g c)) (hp : s.pumps g = some p)
    (h : s.pumpStep g p p.pc c = some t) : LossInv t := by
  have hs := (pumpStep_moves h).spec
  obtain ⟨q, hq, hlost, hflip⟩ := (pumpStep_moves h).loss
  have hready : p.pc = .lossState ∨ p.pc.flipping = true → s.controller.generation = g →
      s.op ≠ some (.connect (.setReady g)) := by
    rintro (hl | hf) rfl
    · exact hok (by rw [hp, Option.map_some, hl])
    · exact hi.flipping p hp hf
  have hcur : ∀ k, t.pumps t.controller.generation = some k →
      (s.controller.generation = g ∧ k = q) ∨
      (s.controller.generation ≠ g ∧ s.pumps s.controller.generation = some k) := by
    intro k hk
    rw [hs.generation, hq] at hk
    rcases entry_of_update hk with ⟨e, ⟨⟩⟩ | hk
    · exact .inl ⟨e, rfl⟩
    · exact .inr hk
  have hstate : s.controller.state ≠ .ready → t.controller.state ≠ .ready := by
    intro hr
    rcases hs.state with e | ⟨e, -⟩ <;> rw [e]
    · exact hr
    · nofun
  refine ⟨?_, ?_, ?_, ?_⟩
  · intro op ho k hk
    rw [hs.generation]
    exact hi.owns op (hs.op ▸ ho) k hk
  · intro k r hk
    rw [hs.generation]
    rw [hq] at hk
    rcases entry_of_update hk with ⟨rfl, -⟩ | ⟨-, hk⟩
    · exact hi.pump_le k p hp
    · exact hi.pump_le k r hk
  · intro k hk hl
    rw [hs.op, hs.generation]
    rcases hcur k hk with ⟨e, rfl⟩ | ⟨-, hk'⟩
    · rcases hlost hl with hl' | hne | ⟨hr, hpc⟩
      · obtain ⟨hr, ho⟩ := hi.lost p (e ▸ hp) hl'
        exact ⟨hstate hr, ho⟩
      · exact absurd e hne
      · exact ⟨hr, by rw [e]; exact hready hpc e⟩
    · obtain ⟨hr, ho⟩ := hi.lost k hk' hl
      exact ⟨hstate hr, ho⟩
  · intro k hk hf
    rw [hs.op, hs.generation]
    rcases hcur k hk with ⟨e, rfl⟩ | ⟨-, hk'⟩
    · rw [e]
      exact hready (hflip hf) e
    · exact hi.flipping k hk' hf

/-! ## The guarded calls -/

/-- After a step of a guarded call the current pump is the one it had, in the
same generation, or one that has done nothing yet. -/
theorem opSpec_pump {s t : ActiveSession} {op : Op} {r : Progress} (hi : LossInv s)
    (ho : s.op = some op) (hs : OpSpec s op t r) {p : Pump}
    (hp : t.pumps t.controller.generation = some p) :
    (t.controller.generation = s.controller.generation ∧ t.pumps = s.pumps ∧
      s.pumps s.controller.generation = some p) ∨ p = ⟨.recv, fun _ => none, false⟩ := by
  rcases hs.pumps with e | ⟨g, rfl, e⟩
  · rcases hs.generation with hg | ⟨hg, -⟩
    · exact .inl ⟨hg, e, by rwa [e, hg] at hp⟩
    · rw [e, hg] at hp
      have := hi.pump_le _ _ hp
      omega
  · have hg : s.controller.generation = g := hi.owns _ ho g rfl
    rcases hs.generation with hg' | ⟨-, hn⟩
    · rw [e, hg', hg, Function.update_self] at hp
      exact .inr (Option.some.inj hp).symm
    · cases hn

/-- A call about to set `Ready` has just spawned the current pump. -/
theorem opSpec_setReady {s t : ActiveSession} {op : Op} {r : Progress} (hs : OpSpec s op t r)
    {p : Pump} (hp : t.pumps t.controller.generation = some p)
    (hr : r.op = some (.connect (.setReady t.controller.generation))) :
    p = ⟨.recv, fun _ => none, false⟩ := by
  obtain ⟨-, e⟩ := hs.setReady _ (Progress.eq_next hr)
  rw [e, Function.update_self] at hp
  exact (Option.some.inj hp).symm

theorem lossInv_op {s t : ActiveSession} {op : Op} {r : Progress} (hi : LossInv s)
    (ho : s.op = some op) (hs : OpSpec s op t r) : LossInv { t with op := r.op } := by
  refine ⟨fun op' h => hs.owns op' (Progress.eq_next h), fun k p hp => ?_, fun p hp hl => ?_,
    fun p hp hf hr => ?_⟩
  · have hle : s.controller.generation ≤ t.controller.generation := by
      rcases hs.generation with e | ⟨e, -⟩ <;> omega
    rcases hs.pumps with e | ⟨g, rfl, e⟩
    · exact Nat.le_trans (hi.pump_le k p (e ▸ hp)) hle
    · simp only [e] at hp
      rcases entry_of_update hp with ⟨rfl, -⟩ | ⟨-, hp⟩
      · exact hi.owns _ ho k rfl ▸ hle
      · exact Nat.le_trans (hi.pump_le k p hp) hle
  · rcases opSpec_pump hi ho hs hp with ⟨hg, -, hp'⟩ | rfl
    · obtain ⟨hr, hop⟩ := hi.lost p hp' hl
      refine ⟨fun hready => ?_, fun h => ?_⟩
      · rcases hs.ready hready with h | ⟨g, rfl, -⟩
        · exact hr h
        · exact hop (ho.trans (by rw [hi.owns _ ho g rfl]))
      · rw [opSpec_setReady hs hp h] at hl
        cases hl
    · cases hl
  · rw [opSpec_setReady hs hp hr] at hf
    cases hf

/-! ## Every run -/

theorem lossInv_step {s t : ActiveSession} {a : Action} (hi : LossInv s) (hok : LossAfterReady s a)
    (h : step s a = some t) : LossInv t := by
  rcases step_cases h with ⟨op, hn, rfl, hg, -⟩ | ⟨c, op, u, r, -, ho, hr, rfl⟩ |
    ⟨g, c, p, rfl, hp, hs⟩ | ⟨channel, -, rfl⟩ | ⟨m, hm⟩ | ⟨target, ht, rfl⟩
  · refine ⟨?_, hi.pump_le, fun p hp hl => ⟨(hi.lost p hp hl).1, ?_⟩, fun p hp hf => ?_⟩
    · rintro _ ⟨⟩ g hg'
      rw [hg] at hg'
      cases hg'
    all_goals
      intro h
      rw [Option.some.inj h] at hg
      cases hg
  · exact lossInv_op hi ho (opStep_spec ho (hi.owns op ho) hr)
  · exact lossInv_pump hi hok hp hs
  · exact hi.congr rfl rfl rfl (.inl rfl)
  · rcases hm with hm | hm
    · obtain ⟨b, q, -, rfl⟩ := receive_spec hm
      exact hi.congr rfl rfl rfl (.inl rfl)
    · obtain ⟨b, -, rfl⟩ := dropReceiver_spec hm
      exact hi.congr rfl rfl rfl (.inl rfl)
  · rcases mark_cases s target with e | e <;> rw [e]
    · exact hi.congr rfl rfl rfl (.inr ht)
    · exact hi

/-- In every run in which pumps read the state for a loss event only after
`Ready` was set for their transport: once the pump of the current generation
is through with a `Disconnected` or `Error` event, the state is not `Ready`. -/
theorem lost_transport_not_ready {s : ActiveSession} (h : machine.Reach LossAfterReady Initial s)
    {p : Pump} (hp : s.pumps s.controller.generation = some p) (hl : p.lost = true) :
    s.controller.state ≠ .ready := by
  have hi : LossInv s := h.invariant
    (by rintro s ⟨b, rfl⟩; exact lossInv_new b) (fun _ _ _ hi hok hs => lossInv_step hi hok hs)
  exact (hi.lost p hp hl).1

/-- The pump of generation 1 processes `Disconnected` up to its end. -/
def lossTrace : List Action :=
  .pump 1 (.event (.disconnected "remote peer disconnected")) :: List.replicate 6 (.pump 1 .go)

/-- Whether the current pump is through with a loss event in the given state. -/
def lostIn (state : ConnectionState) (s : ActiveSession) : Bool :=
  s.controller.state == state && (s.pumps s.controller.generation).any Pump.lost

theorem lostIn_iff {state : ConnectionState} {s : ActiveSession} :
    lostIn state s = true ↔ s.controller.state = state ∧
      ∃ p, s.pumps s.controller.generation = some p ∧ p.lost = true := by
  simp [lostIn, Option.any_eq_true]

/-- A transport lost after `Ready` was set is seen as `Reconnecting`. -/
theorem lost_transport_reconnecting :
    ∃ s, machine.Reach LossAfterReady Initial s ∧ s.controller.state = .reconnecting ∧
      s.controller.state ≠ .ready := by
  obtain ⟨s, hs, hp⟩ := Machine.Reach.of_run machine LossAfterReady (init_new 512)
    (List.flatten [attachTrace, [.op .go], lossTrace, [.pump 1 .go, .pump 1 .go]])
    (lostIn .reconnecting)
    (by decide)
  obtain ⟨hr, p, hp, hl⟩ := lostIn_iff.mp hp
  exact ⟨s, hs, hr, lost_transport_not_ready hs hp hl⟩

/-- The transport is lost while the connect call stands before its
`set_state(Ready)`: the pump finds `Connecting`, does nothing, and the session
ends `Ready`. -/
theorem lost_before_ready :
    ∃ s, machine.Reach Machine.free Initial s ∧ s.controller.state = .ready ∧
      ∃ p, s.pumps s.controller.generation = some p ∧ p.lost = true := by
  obtain ⟨s, hs, hp⟩ := Machine.Reach.of_run machine Machine.free (init_new 512)
    (List.flatten [attachTrace, lossTrace, [.op .go]]) (lostIn .ready) (by decide)
  exact ⟨s, hs, lostIn_iff.mp hp⟩

end KW.Session
