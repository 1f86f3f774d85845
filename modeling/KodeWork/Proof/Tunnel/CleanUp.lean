import KodeWork.Proof.Tunnel.Registry

/-!
# The clean-up after a new transport

`attach` stores a new transport and then spawns a `close_all_for_host` call, for
the tunnels of the old one. The call goes by the host alone, and it runs beside
everything that can use the new transport by then: a tunnel that is opened on the
new transport before the call has ended is cancelled with the old ones
(`new_tunnel_closed`).

In every run in which `open` enters a tunnel into the map only when the clean-up
of its transport has ended, no step of a clean-up, nor of a close call it makes,
changes a tunnel of its own transport (`cleanup_spares_new_tunnels`).
-/

namespace KW.Tunnel

open TunnelRuntime TunnelManager

/-- A tunnel is entered into the map only when the clean-up of its transport has
ended. -/
def EnteredAfterCleanUp (s : TunnelManager) : ManagerAction → Prop
  | .tunnel id .opener => ∀ r ∈ s.tunnels id, r.opener = .insert →
      ∀ pc ∈ s.calls, pc.cleanup ≠ some (r.info.hostId, r.transport)
  | _ => True

instance (s : TunnelManager) : ∀ a, Decidable (EnteredAfterCleanUp s a)
  | .tunnel id .opener => inferInstanceAs (Decidable (∀ r ∈ s.tunnels id, r.opener = .insert →
      ∀ pc ∈ s.calls, pc.cleanup ≠ some (r.info.hostId, r.transport)))
  | .openTunnel .. | .open .. | .close _ | .closeAllForHost _ | .attach _ | .disconnect _ | .call ..
  | .tunnel _ (.accept _) | .tunnel _ (.proxy ..) | .tunnel _ (.close _) | .tunnel _ (.closeStep _)
  | .tunnel _ .listReap | .tunnel _ .listInfo | .tunnel _ (.channelClosed _) => .isTrue trivial

/-! ## Transports are drawn in order -/

/-- The transport a call is about to use. -/
def CallPc.uses : CallPc → Option Nat
  | .validate _ transport _ | .bind _ transport _ | .spawn _ transport _ _ | .install _ transport =>
    some transport
  | _ => none

structure Drawn (s : TunnelManager) : Prop where
  tunnels : ∀ id r, s.tunnels id = some r → r.transport < s.nextTransport
  calls : ∀ pc ∈ s.calls, ∀ g, pc.uses = some g → g < s.nextTransport
  connection : ∀ host g, s.connection host = some g → g < s.nextTransport

/-- A call goes on, using a transport that it used before or that is stored. -/
theorem Drawn.go {s u : TunnelManager} (hd : Drawn s) (c : Nat) {pc : CallPc}
    (hu : u.tunnels = s.tunnels) (hc : u.calls = s.calls) (hn : u.nextTransport = s.nextTransport)
    (hx : ∀ host g, u.connection host = some g → g < s.nextTransport)
    (hp : ∀ g, pc.uses = some g → g < s.nextTransport) : Drawn (u.go c pc) where
  tunnels := fun id r h => hn.symm ▸ hd.tunnels id r (hu ▸ h)
  calls := by
    intro x hm g hg
    have hm' : x ∈ u.calls.set c pc := hm
    rw [hc] at hm'
    show g < u.nextTransport
    rw [hn]
    rcases List.mem_or_eq_of_mem_set hm' with hm' | rfl
    · exact hd.calls x hm' g hg
    · exact hp g hg
  connection := fun host g h => hn.symm ▸ hx host g h

theorem Drawn.setTunnel {s : TunnelManager} (hd : Drawn s) {id : Nat} {r : TunnelRuntime}
    (hr : r.transport < s.nextTransport) : Drawn (s.setTunnel id r) where
  tunnels := by
    intro j x h
    rcases entry_of_update h with ⟨-, ⟨⟩⟩ | ⟨-, h⟩
    · exact hr
    · exact hd.tunnels j x h
  calls := hd.calls
  connection := hd.connection

theorem drawn_callStep {s t : TunnelManager} {c : Nat} {pc : CallPc} {choice : CallChoice} (hd : Drawn s)
    (hi : ManagerInv s) (hpc : pc ∈ s.calls) (h : s.callStep c pc choice = some t) : Drawn t := by
  have none : ∀ pc' : CallPc, pc'.uses = none → ∀ g, pc'.uses = some g → g < s.nextTransport := by
    intro pc' e g hg
    rw [e] at hg
    cases hg
  have after : ∀ id sweep, (afterClose id sweep).uses = Option.none := by
    intro id sweep
    cases sweep <;> rfl
  have mine : ∀ g, pc.uses = some g → g < s.nextTransport := hd.calls pc hpc
  cases pc with
  | readConnection host args =>
    cases choice <;> simp only [callStep, reduceCtorEq] at h
    split at h <;> cases h
    · rename_i g hg
      exact hd.go c rfl rfl rfl hd.connection fun g' e => by cases e; exact hd.connection host g hg
    · exact hd.go c rfl rfl rfl hd.connection (none _ rfl)
  | validate host transport args =>
    cases choice <;> simp only [callStep, reduceCtorEq] at h
    split at h <;> cases h
    · exact hd.go c rfl rfl rfl hd.connection (none _ rfl)
    · exact hd.go c rfl rfl rfl hd.connection mine
  | bind host transport args =>
    cases choice <;> cases h
    · exact hd.go c rfl rfl rfl hd.connection mine
    · exact hd.go c rfl rfl rfl hd.connection (none _ rfl)
  | spawn host transport args localPort =>
    cases choice <;> cases h
    have hset : Drawn (s.setTunnel s.nextTunnel
        (.new host transport localPort args.remoteHost args.remotePort)) := hd.setTunnel (mine transport rfl)
    exact (Drawn.mk hset.tunnels hset.calls hset.connection :
      Drawn { s.setTunnel s.nextTunnel (.new host transport localPort args.remoteHost args.remotePort) with
        nextTunnel := s.nextTunnel + 1 }).go c rfl rfl rfl hd.connection (none _ rfl)
  | opening id =>
    cases choice <;> simp only [callStep, reduceCtorEq] at h
    split at h <;> cases h
    exact hd.go c rfl rfl rfl hd.connection (none _ rfl)
  | install host transport =>
    cases choice <;> cases h
    refine hd.go c rfl rfl rfl (fun x g h => ?_) (none _ rfl)
    rcases entry_of_update h with ⟨-, ⟨⟩⟩ | ⟨-, h⟩
    · exact mine transport rfl
    · exact hd.connection x g h
  | takeConnection host =>
    cases choice <;> cases h
    refine hd.go c rfl rfl rfl (fun x g h => ?_) (none _ rfl)
    rcases entry_of_update h with ⟨-, ⟨⟩⟩ | ⟨-, h⟩
    exact hd.connection x g h
  | snapshot host attached =>
    cases choice <;> simp only [callStep, reduceCtorEq] at h
    split at h <;> cases h
    exact hd.go c rfl rfl rfl hd.connection (none _ rfl)
  | next sweep =>
    cases choice <;> simp only [callStep, reduceCtorEq] at h
    split at h <;> cases h <;> exact hd.go c rfl rfl rfl hd.connection (none _ rfl)
  | lookup id sweep =>
    cases choice <;> simp only [callStep, reduceCtorEq] at h
    split at h
    · rename_i r hr
      split at h
      · obtain ⟨r', hr', rfl⟩ := Option.map_eq_some_iff.mp h
        have hk := runtimeStep_later (hi.runtime id r hr) hr'
        have hset := @Drawn.setTunnel s hd id r' (hk.transport ▸ hd.tunnels id r hr)
        exact hset.go c rfl rfl rfl hset.connection (none _ rfl)
      · cases h
        exact hd.go c rfl rfl rfl hd.connection (none _ (after id sweep))
    · cases h
      exact hd.go c rfl rfl rfl hd.connection (none _ (after id sweep))
  | closing id sweep =>
    cases choice <;> simp only [callStep, reduceCtorEq] at h
    split at h <;> cases h
    exact hd.go c rfl rfl rfl hd.connection (none _ (after id sweep))
  | retain sweep =>
    cases choice <;> cases h
    have hrem : Drawn (s.removeHost sweep.host) := by
      refine ⟨fun id r h => ?_, hd.calls, hd.connection⟩
      obtain ⟨r₀, hr₀, rfl⟩ := Option.map_eq_some_iff.mp h
      exact hd.tunnels id r₀ hr₀
    exact hrem.go c rfl rfl rfl hd.connection (none _ rfl)
  | returned result => cases choice <;> cases h

/-- A new call. -/
theorem Drawn.start {s t : TunnelManager} (hd : Drawn s) {pc : CallPc} (ht : t.tunnels = s.tunnels)
    (hc : t.calls = s.calls ++ [pc]) (hx : t.connection = s.connection)
    (hn : s.nextTransport ≤ t.nextTransport) (hp : ∀ g, pc.uses = some g → g < t.nextTransport) :
    Drawn t where
  tunnels := fun id r h => Nat.lt_of_lt_of_le (hd.tunnels id r (ht ▸ h)) hn
  calls := by
    intro x hm g hg
    rw [hc] at hm
    rcases List.mem_append.mp hm with hm | hm
    · exact Nat.lt_of_lt_of_le (hd.calls x hm g hg) hn
    · rw [List.mem_singleton.mp hm] at hg
      exact hp g hg
  connection := fun host g h => Nat.lt_of_lt_of_le (hd.connection host g (hx ▸ h)) hn

theorem drawn_step {s t : TunnelManager} {a : ManagerAction} (hd : Drawn s) (hi : ManagerInv s)
    (h : managerStep s a = some t) : Drawn t := by
  cases a with
  | call c choice =>
    simp only [managerStep] at h
    split at h
    · rename_i pc hpc
      exact drawn_callStep hd hi (List.mem_of_getElem? hpc) h
    · cases h
  | tunnel id action =>
    simp only [managerStep] at h
    split at h
    · cases h
    · obtain ⟨r, hr, h⟩ := Option.bind_eq_some_iff.mp h
      obtain ⟨r', hr', rfl⟩ := Option.map_eq_some_iff.mp h
      have hk := runtimeStep_later (hi.runtime id r hr) hr'
      exact hd.setTunnel (hk.transport ▸ hd.tunnels id r hr)
  | «open» host transport args =>
    simp only [managerStep] at h
    split at h <;> cases h
    rename_i hlt
    exact hd.start rfl rfl rfl (Nat.le_refl _) fun g e => by cases e; exact hlt
  | attach host =>
    cases h
    exact hd.start rfl rfl rfl (Nat.le_succ _) fun g e => by cases e; exact Nat.lt_succ_self _
  | openTunnel host args | close id | closeAllForHost host | disconnect host =>
    cases h
    exact hd.start rfl rfl rfl (Nat.le_refl _) (by rintro _ ⟨⟩)

/-! ## The invariant -/

/-- While a clean-up is under way, the map has no tunnel of its transport. -/
def Spared (s : TunnelManager) : Prop :=
  ∀ pc ∈ s.calls, ∀ host g, pc.cleanup = some (host, g) →
    ∀ id r, s.tunnels id = some r → r.transport = g → r.info.hostId = host → r.opener ≠ .opened

section

variable {s t : TunnelManager} {a : ManagerAction}

/-- A clean-up was under way before the step, or its `attach` has just been called. -/
theorem cleanup_origin (h : managerStep s a = some t) {pc : CallPc} (hpc : pc ∈ t.calls)
    {x : HostId × Nat} (hx : pc.cleanup = some x) :
    (∃ pc₀ ∈ s.calls, pc₀.cleanup = some x) ∨ x.2 = s.nextTransport := by
  have started : ∀ pc' : CallPc, pc ∈ s.calls ++ [pc'] → pc'.cleanup = none ∨
      (∃ host, pc' = .install host s.nextTransport) →
      (∃ pc₀ ∈ s.calls, pc₀.cleanup = some x) ∨ x.2 = s.nextTransport := by
    intro pc' hm hc
    rcases List.mem_append.mp hm with hm | hm
    · exact .inl ⟨pc, hm, hx⟩
    · rw [List.mem_singleton.mp hm] at hx
      rcases hc with hc | ⟨host, rfl⟩
      · rw [hc] at hx
        cases hx
      · cases hx
        exact .inr rfl
  cases a with
  | call c choice =>
    simp only [managerStep] at h
    split at h
    · rename_i pc₁ hpc₁
      obtain ⟨-, pc', hspec⟩ := callStep_spec hpc₁ h
      rw [hspec.calls] at hpc
      rcases List.mem_or_eq_of_mem_set hpc with hpc | rfl
      · exact .inl ⟨pc, hpc, hx⟩
      · exact .inl ⟨pc₁, List.mem_of_getElem? hpc₁, hspec.cleanup x hx⟩
    · cases h
  | tunnel id action =>
    simp only [managerStep] at h
    split at h
    · cases h
    · obtain ⟨r, hr, h⟩ := Option.bind_eq_some_iff.mp h
      obtain ⟨r', hr', rfl⟩ := Option.map_eq_some_iff.mp h
      exact .inl ⟨pc, hpc, hx⟩
  | «open» host transport args =>
    simp only [managerStep] at h
    split at h <;> cases h
    exact started _ hpc (.inl rfl)
  | attach host =>
    cases h
    exact started _ hpc (.inr ⟨host, rfl⟩)
  | openTunnel host args | close id | closeAllForHost host | disconnect host =>
    cases h
    exact started _ hpc (.inl rfl)

theorem spared_step (hs : Spared s) (hi : ManagerInv s) (hd : Drawn s) (hok : EnteredAfterCleanUp s a)
    (h : managerStep s a = some t) : Spared t := by
  have hm := (managerStep_spec h).1
  intro pc hpc host g hx id r' hr' hg hh ho
  rcases hm.origin hr' with ⟨r, hr⟩ | ⟨-, -, _, _, _, _, _, rfl⟩
  · obtain ⟨r₁, hr₁, hk⟩ := hm.kept hi.drawn hi.runtime hr
    rw [hr'] at hr₁
    cases hr₁
    have hg₀ : r.transport = g := hk.transport.symm.trans hg
    have hh₀ : r.info.hostId = host := hk.host.symm.trans hh
    rcases cleanup_origin h hpc hx with ⟨pc₀, hpc₀, hx₀⟩ | hnew
    · by_cases hopen : r.opener = .opened
      · exact hs pc₀ hpc₀ host g hx₀ id r hr hg₀ hh₀ hopen
      · -- the tunnel is entered in this very step
        cases hm with
        | same ht _ =>
          rw [ht, hr] at hr'
          cases hr'
          exact hopen ho
        | made _ _ _ _ _ ht _ =>
          rw [ht, Function.update_of_ne (Nat.ne_of_lt (hi.drawn id r hr)), hr] at hr'
          cases hr'
          exact hopen ho
        | moved j r₁ r₂ b hr₁ hb ha ht _ =>
          rw [ht] at hr'
          rcases entry_of_update hr' with ⟨rfl, ⟨⟩⟩ | ⟨-, hr'⟩
          · rw [hr] at hr₁
            cases hr₁
            rcases ha with rfl | hreg
            · obtain ⟨rfl, hins⟩ := opener_step (hi.runtime id r hr) hb ho hopen
              exact hok r hr hins pc₀ hpc₀ (by rw [hx₀, hg₀, hh₀])
            · exact hopen ((hi.runtime id r hr).opened hreg)
          · rw [hr] at hr'
            cases hr'
            exact hopen ho
        | removed c w _ _ ht _ =>
          rw [ht] at hr'
          obtain ⟨r₂, hr₂, rfl⟩ := Option.map_eq_some_iff.mp hr'
          rw [hr] at hr₂
          cases hr₂
          exact hopen ho
    · have hlt := hd.tunnels id r hr
      have hnew' : g = s.nextTransport := hnew
      omega
  · cases ho

end

/-! ## What a clean-up leaves alone -/

/-- The call a step belongs to: its own steps, and those of its close calls. -/
def ManagerAction.caller : ManagerAction → Option Nat
  | .call c _ | .tunnel _ (.closeStep c) => some c
  | _ => none

/-- In every run in which tunnels are entered after the clean-up of their transport
only, a clean-up changes no tunnel of the transport whose `attach` spawned it. -/
theorem cleanup_spares_new_tunnels {s t : TunnelManager}
    (hr : managerMachine.Reach EnteredAfterCleanUp FreshManager s) {a : ManagerAction}
    (h : managerMachine.step s a = some t) {c : Nat} {pc : CallPc} (hc : s.calls[c]? = some pc)
    (ha : a.caller = some c) {host : HostId} {g : Nat} (hx : pc.cleanup = some (host, g)) {id : Nat}
    {r : TunnelRuntime} (hid : s.tunnels id = some r) (hg : r.transport = g)
    (hh : r.info.hostId = host) : t.tunnels id = some r := by
  obtain ⟨hi, hd, hs⟩ : ManagerInv s ∧ Drawn s ∧ Spared s := by
    refine hr.invariant (I := fun s => ManagerInv s ∧ Drawn s ∧ Spared s) ?_ fun _ _ _ hi hok hstep =>
      ⟨managerInv_step hi.1 hstep, drawn_step hi.2.1 hi.1 hstep, spared_step hi.2.2 hi.1 hi.2.1 hok hstep⟩
    rintro _ rfl
    exact ⟨managerInv_new, ⟨by rintro _ _ ⟨⟩, by rintro _ ⟨⟩, by rintro _ _ ⟨⟩⟩, by rintro _ ⟨⟩⟩
  have hclosed : r.opener ≠ .opened := hs pc (List.mem_of_getElem? hc) host g hx id r hid hg hh
  have hout : r.registered = false := eq_false_of_ne_true fun e => hclosed ((hi.runtime id r hid).opened e)
  cases (managerStep_spec h).1 with
  | same ht _ => rw [ht, hid]
  | made _ _ _ _ _ ht _ => rw [ht, Function.update_of_ne (Nat.ne_of_lt (hi.drawn id r hid)), hid]
  | moved j r₁ r₂ b hr₁ hb hcaller ht _ =>
    by_cases hj : id = j
    · subst hj
      rw [hid] at hr₁
      cases hr₁
      exfalso
      rcases hcaller with rfl | hreg
      · -- a close call on the tunnel has found it in the map
        cases b with
        | closeStep c' =>
          obtain ⟨p, hp, -⟩ := Option.bind_eq_some_iff.mp hb
          exact hclosed ((hi.runtime id r hid).closing c' p hp)
        | _ => cases ha
      · rw [hout] at hreg
        cases hreg
    · rw [ht, Function.update_of_ne hj, hid]
  | removed c w _ _ ht _ =>
    rw [ht]
    show (s.tunnels id).map _ = some r
    rw [hid, Option.map_some, hout, Bool.false_and, ← hout]

/-! ## Traces -/

/-- A new transport, and the clean-up's first steps, up to its last one. -/
def attachTrace (c : Nat) : List ManagerAction :=
  [.attach sampleHost, .call c .go, .call c (.ids []), .call c .go, .call c .go]

/-- While the clean-up of a new transport is under way, a tunnel is bound on that
transport; the last step of the clean-up leaves it alone. -/
theorem bound_tunnel_spared :
    ∃ s t r, managerMachine.Reach EnteredAfterCleanUp FreshManager s ∧
      s.calls[0]? = some (.retain ⟨sampleHost, some 0, [], []⟩) ∧
      managerMachine.step s (.call 0 .go) = some t ∧ s.tunnels 0 = some r ∧ r.transport = 0 ∧
      t.tunnels 0 = some r := by
  obtain ⟨s, hs, hp⟩ := Machine.Reach.of_run managerMachine EnteredAfterCleanUp freshManager_new
    (List.flatten [(attachTrace 0).dropLast, [.openTunnel sampleHost sampleArgs, .call 1 .go, .call 1 .go,
      .call 1 (.bound 40000), .call 1 .go]])
    (fun s => decide (s.calls[0]? = some (.retain ⟨sampleHost, some 0, [], []⟩ : CallPc)) &&
      ((managerMachine.step s (.call 0 .go)).isSome && (s.tunnels 0).any fun r : TunnelRuntime =>
        r.transport == 0 && r.info.hostId == sampleHost)) (by decide)
  simp only [Bool.and_eq_true, Option.any_eq_true, beq_iff_eq, decide_eq_true_eq] at hp
  obtain ⟨hc, ht, r, hr, hg, hh⟩ := hp
  obtain ⟨t, ht⟩ := Option.isSome_iff_exists.mp ht
  exact ⟨s, t, r, hs, hc, ht, hr, hg, cleanup_spares_new_tunnels hs ht hc rfl rfl hr hg hh⟩

/-- A tunnel is opened on the new transport before its clean-up has copied the ids:
the clean-up closes it and takes it out. All calls have returned, and the
transport is the stored one. -/
theorem new_tunnel_closed :
    ∃ s, managerMachine.Reach Machine.free FreshManager s ∧ (∀ pc ∈ s.calls, ∃ r, pc = .returned r) ∧
      s.connection sampleHost = some 0 ∧
      ∃ r, s.tunnels 0 = some r ∧ r.transport = 0 ∧ r.cancelled = true ∧ r.registered = false := by
  obtain ⟨s, hs, hp⟩ := Machine.Reach.of_run managerMachine Machine.free freshManager_new
    (List.flatten [[.attach sampleHost, .call 0 .go, .openTunnel sampleHost sampleArgs, .call 1 .go],
      openTrace 1 0, [.call 0 (.ids [0]), .call 0 .go, .call 0 .go],
      List.replicate 3 (.tunnel 0 (.closeStep 0)), [.tunnel 0 (.accept .cancelled)],
      List.replicate 6 (.tunnel 0 (.closeStep 0)), List.replicate 3 (.call 0 .go)])
    (fun s => decide (s.calls = [.returned .unit, .returned (.opened 0)]) &&
      (decide (s.connection sampleHost = some 0) && (s.tunnels 0).any fun r : TunnelRuntime =>
        r.transport == 0 && (r.cancelled && !r.registered))) (by decide)
  simp only [Bool.and_eq_true, Option.any_eq_true, beq_iff_eq, decide_eq_true_eq,
    Bool.not_eq_true'] at hp
  obtain ⟨hc, hx, r, hr, hg, hcan, hn⟩ := hp
  refine ⟨s, hs, fun pc hpc => ?_, hx, r, hr, hg, hcan, hn⟩
  rw [hc] at hpc
  simp only [List.mem_cons, List.not_mem_nil, or_false] at hpc
  rcases hpc with rfl | rfl <;> exact ⟨_, rfl⟩

end KW.Tunnel
