import KodeWork.Proof.Tunnel.Runtime

/-!
# Closing one tunnel

Every `close` call of a tunnel takes the close lock, ends the accept loop, drains
the connections and waits for the proxies it took out. When the accept loop has
ended and the call that has the lock has waited for all it took, no proxy is left
that has code to run: the tunnel is quiet (`TunnelRuntime.Quiet`), and it stays
quiet. The `store(0)` of the call then writes the number that is there.

`CloseSpec` says what one step of a close call does; `closed_tunnel_quiet` is the
result for every run: after the return of any close call, in every later state,
the tunnel is closed, nothing of it runs, the count is 0 and every channel was
taken out of the filter once.
-/

namespace KW.Tunnel

open TunnelRuntime

/-! ## Steps of the close calls -/

/-- The task is in the hands of the close call. -/
def ClosePc.joins (id : Nat) : ClosePc → Prop
  | .join tasks => id ∈ tasks
  | _ => False

/-- The close of call `c` goes from `pc` to `pc'`. -/
structure CloseSpec (r : TunnelRuntime) (c : Nat) (pc pc' : ClosePc) (t : TunnelRuntime) : Prop where
  eq : t = { r with
    closes := Function.update r.closes c (some pc'), closeLock := t.closeLock, cancelled := t.cancelled
    acceptTask := t.acceptTask, connections := t.connections, activeConnections := t.activeConnections
    info := t.info }
  count : t.activeConnections = r.activeConnections
  stored : r.accept = .ended ∨ pc' = .joinAccept ∨ t.acceptTask = r.acceptTask ∧ pc ≠ .joinAccept
  lock : pc'.holding = true → t.closeLock = some c
  others : ∀ c', c' ≠ c → r.closeLock = some c' → t.closeLock = some c'
  cancelled : r.cancelled = true ∨ pc'.hasCancelled = true → t.cancelled = true
  tracked : ∀ id p, r.proxies id = some p → p.running = true → r.connections id = true ∨ pc.joins id →
    t.connections id = true ∨ pc'.joins id
  holds : pc'.Holds t
  info : r.info.state = .closed ∧ r.info.activeConnections = 0 →
    t.info.state = .closed ∧ t.info.activeConnections = 0
  host : t.info.hostId = r.info.hostId

section

variable {r t : TunnelRuntime} {c : Nat}

/-- Two close calls past the lock are the same. -/
theorem RuntimeInv.one_holder (hi : RuntimeInv r) {c' : Nat} {pc pc' : ClosePc}
    (hc : r.closes c = some pc) (hc' : r.closes c' = some pc') (h : pc.holding = true)
    (h' : pc'.holding = true) : c' = c := by
  have e := hi.lock c pc hc h
  have e' := hi.lock c' pc' hc' h'
  exact Option.some.inj (e'.symm.trans e)

/-- A step that goes on and keeps what the calls share. -/
theorem CloseSpec.go {pc pc' : ClosePc} (hl : pc.holding = true → r.closeLock = some c)
    (hh : pc'.holding = true → pc.holding = true)
    (hc : r.cancelled = true ∨ pc'.hasCancelled = true → r.cancelled = true)
    (hs : r.accept = .ended ∨ pc ≠ .joinAccept)
    (ht : ∀ id p, r.proxies id = some p → p.running = true → pc.joins id → pc'.joins id)
    (hholds : pc'.Holds (r.goClose c pc')) : CloseSpec r c pc pc' (r.goClose c pc') where
  eq := rfl
  count := rfl
  stored := hs.imp_right fun h => .inr ⟨rfl, h⟩
  lock := fun h => hl (hh h)
  others := fun _ _ h => h
  cancelled := hc
  tracked := fun id p hp hrun h => h.imp_right (ht id p hp hrun)
  holds := hholds
  info := fun h => h
  host := rfl

theorem closeStep_spec {pc : ClosePc} (hi : RuntimeInv r) (hpc : r.closes c = some pc)
    (h : r.closeStep c pc = some t) : ∃ pc', CloseSpec r c pc pc' t := by
  have hl : pc.holding = true → r.closeLock = some c := hi.lock c pc hpc
  have hcan : pc.hasCancelled = true → r.cancelled = true := hi.cancelled c pc hpc
  have hholds : pc.Holds r := hi.closes c pc hpc
  cases pc with
  | lock =>
    simp only [closeStep] at h
    split at h <;> cases h
    rename_i hfree
    exact ⟨.cancel, rfl, rfl, .inr (.inr ⟨rfl, by rintro ⟨⟩⟩), fun _ => rfl,
      fun c' _ e => absurd (hfree.symm.trans e) (by rintro ⟨⟩), fun h => h.resolve_right (by rintro ⟨⟩),
      fun _ _ _ _ h => h, trivial, fun h => h, rfl⟩
  | cancel =>
    cases h
    exact ⟨.takeTask, rfl, rfl, .inr (.inr ⟨rfl, by rintro ⟨⟩⟩), fun _ => hl rfl, fun _ _ e => e,
      fun _ => rfl, fun _ _ _ _ h => h, trivial, fun h => h, rfl⟩
  | takeTask =>
    cases h
    have hended : r.acceptTask = false → r.accept = .ended := by
      intro hf
      rcases hi.stored (.inr (hi.closing c _ hpc)) with ht | ha | ⟨c', hj⟩
      · rw [hf] at ht
        cases ht
      · exact ha
      · -- the call that waits for the accept loop has the lock
        have e := hi.one_holder hpc hj rfl rfl
        rw [e, hpc] at hj
        cases hj
    cases hf : r.acceptTask with
    | true =>
      exact ⟨.joinAccept, rfl, rfl, .inr (.inl rfl), fun _ => hl rfl, fun _ _ e => e, fun _ => hcan rfl,
        fun _ _ _ _ h => h.imp_right False.elim, trivial, fun h => h, rfl⟩
    | false =>
      exact ⟨.drain, rfl, rfl, .inl (hended hf), fun _ => hl rfl, fun _ _ e => e, fun _ => hcan rfl,
        fun _ _ _ _ h => h.imp_right False.elim, hended hf, fun h => h, rfl⟩
  | joinAccept =>
    simp only [closeStep] at h
    split at h <;> cases h
    rename_i ha
    exact ⟨_, .go hl (fun _ => rfl) (fun _ => hcan rfl) (.inl ha) (fun _ _ _ _ h => h.elim) ha⟩
  | drain =>
    cases h
    have hin : ∀ id p, r.proxies id = some p → p.running = true → r.connections id = true →
        id ∈ (List.range r.nextConn).filter r.connections :=
      fun id p hp _ hc => List.mem_filter.mpr ⟨List.mem_range.mpr (hi.drawn id p hp), hc⟩
    have hall : ∀ id p, r.proxies id = some p → p.running = true →
        id ∈ (List.range r.nextConn).filter r.connections := by
      intro id p hp hrun
      rcases hi.tracked id p hp hrun with ha | hc | ⟨c', tasks, hj, -⟩
      · rw [show r.accept = .ended from hholds] at ha
        cases ha
      · exact hin id p hp hrun hc
      · have e := hi.one_holder hpc hj rfl rfl
        rw [e, hpc] at hj
        cases hj
    exact ⟨_, rfl, rfl, .inl hholds, fun _ => hl rfl, fun _ _ e => e, fun _ => hcan rfl,
      fun id p hp hrun _ => .inr (hall id p hp hrun), ⟨hholds, hall⟩, fun h => h, rfl⟩
  | join tasks =>
    cases tasks with
    | nil =>
      cases h
      refine ⟨_, .go hl (fun _ => rfl) (fun _ => hcan rfl) (.inl hholds.1) (fun _ _ _ _ h => by cases h)
        ⟨hholds.1, fun id p hp => ?_⟩⟩
      exact eq_false_of_ne_true fun hrun => by cases hholds.2 id p hp hrun
    | cons id tasks =>
      simp only [closeStep] at h
      split at h <;> cases h
      rename_i hf
      have hrest : ∀ j p, r.proxies j = some p → p.running = true → j ∈ id :: tasks → j ∈ tasks := by
        intro j p hp hrun hj
        refine (List.mem_cons.mp hj).resolve_left fun e => ?_
        rw [e, hf] at hp
        cases hp
        cases hrun
      exact ⟨_, .go hl (fun _ => rfl) (fun _ => hcan rfl) (.inl hholds.1) hrest
        ⟨hholds.1, fun j p hp hrun => hrest j p hp hrun (hholds.2 j p hp hrun)⟩⟩
  | storeZero =>
    cases h
    have hq : r.Quiet := hholds
    have hzero : r.activeConnections = 0 := by rw [hi.count, hq.liveGuards]; rfl
    exact ⟨.setClosed, rfl, hzero.symm, .inl hq.accept, fun _ => hl rfl, fun _ _ e => e, fun _ => hcan rfl,
      fun _ _ _ _ h => h.imp_right False.elim, ⟨hq.accept, hq.proxies⟩, fun h => h, rfl⟩
  | setClosed =>
    cases h
    have hq : r.Quiet := hholds
    exact ⟨.unlock, rfl, rfl, .inl hq.accept, fun _ => hl rfl, fun _ _ e => e, fun _ => hcan rfl,
      fun _ _ _ _ h => h.imp_right False.elim, ⟨⟨hq.accept, hq.proxies⟩, rfl, rfl⟩, fun _ => ⟨rfl, rfl⟩, rfl⟩
  | unlock =>
    cases h
    obtain ⟨hq, hs⟩ := hholds
    refine ⟨.returned, rfl, rfl, .inl hq.accept, by rintro ⟨⟩, fun c' hne e => ?_, fun _ => hcan rfl,
      fun _ _ _ _ h => h.imp_right False.elim, ⟨⟨hq.accept, hq.proxies⟩, hs⟩, fun h => h, rfl⟩
    rw [hl rfl] at e
    exact absurd (Option.some.inj e).symm hne
  | returned => cases h

theorem CloseSpec.runtimeInv {pc pc' : ClosePc} (h : CloseSpec r c pc pc' t) (hi : RuntimeInv r)
    (hpc : r.closes c = some pc) : RuntimeInv t := by
  have hcount : t.activeConnections = t.liveGuards := by
    refine hi.sameCount h.count (by rw [h.eq]) fun id => ?_
    rw [guarded, guarded, h.eq]
  have hholds := h.holds
  rw [h.eq] at hcount hholds ⊢
  exact { hi with
    count := hcount
    tracked := by
      intro id p hp hrun
      have keep : (r.connections id = true ∨ pc.joins id) → t.connections id = true ∨
          ∃ c' tasks, Function.update r.closes c (some pc') c' = some (.join tasks) ∧ id ∈ tasks := by
        refine fun hin => (h.tracked id p hp hrun hin).imp_right fun hj => ?_
        cases pc' with
        | join tasks => exact ⟨c, tasks, Function.update_self _ _ _, hj⟩
        | _ => exact hj.elim
      refine (hi.tracked id p hp hrun).imp_right ?_
      rintro (hc | ⟨c', tasks, hj, hmem⟩)
      · exact keep (.inl hc)
      · by_cases hne : c' = c
        · rw [hne, hpc] at hj
          cases hj
          exact keep (.inr hmem)
        · exact .inr ⟨c', tasks, (Function.update_of_ne hne _ _).trans hj, hmem⟩
    closing := by
      intro c' p hc'
      rcases entry_of_update hc' with ⟨-, -⟩ | ⟨-, hc'⟩
      · exact hi.closing c pc hpc
      · exact hi.closing c' p hc'
    stored := by
      intro ho
      rcases h.stored with ha | rfl | ⟨ht, hne⟩
      · exact .inr (.inl ha)
      · exact .inr (.inr ⟨c, Function.update_self _ _ _⟩)
      · rcases hi.stored ho with hs | ha | ⟨c', hj⟩
        · exact .inl (ht.trans hs)
        · exact .inr (.inl ha)
        · have hcc : c' ≠ c := by
            rintro rfl
            rw [hpc] at hj
            exact hne (Option.some.inj hj)
          exact .inr (.inr ⟨c', (Function.update_of_ne hcc _ _).trans hj⟩)
    lock := by
      intro c' p hc' hold
      rcases entry_of_update hc' with ⟨rfl, ⟨⟩⟩ | ⟨hne, hc'⟩
      · exact h.lock hold
      · exact h.others c' hne (hi.lock c' p hc' hold)
    cancelled := by
      intro c' p hc' hcan
      rcases entry_of_update hc' with ⟨-, ⟨⟩⟩ | ⟨-, hc'⟩
      · exact h.cancelled (.inr hcan)
      · exact h.cancelled (.inl (hi.cancelled c' p hc' hcan))
    closes := by
      intro c' p hc'
      rcases entry_of_update hc' with ⟨-, ⟨⟩⟩ | ⟨-, hc'⟩
      · exact hholds
      · exact (hi.closes c' p hc').keep rfl (fun _ q hq hrun => ⟨q, hq, hrun⟩) fun _ hs => h.info hs }

end

/-! ## The other steps -/

theorem RuntimeInv.open {r t : TunnelRuntime} (hi : RuntimeInv r) (h : r.openStep r.opener = some t) :
    RuntimeInv t := by
  -- no call closes a tunnel that `open` has not entered into the map
  have none : r.opener ≠ .opened → ∀ c pc, r.closes c ≠ some pc :=
    fun ho c pc hc => ho (hi.closing c pc hc)
  cases ho : r.opener with
  | resetInfo =>
    rw [ho] at h
    cases h
    have hn := none (by rw [ho]; nofun)
    exact { hi with
      count := hi.sameCount rfl rfl fun _ => rfl
      opened := fun hr => by rw [hi.opened hr] at ho; cases ho
      closing := fun c pc hc => absurd hc (hn c pc)
      stored := by rintro (⟨⟨⟩⟩ | ⟨⟨⟩⟩)
      closes := fun c pc hc => absurd hc (hn c pc) }
  | storeTask =>
    rw [ho] at h
    cases h
    have hn := none (by rw [ho]; nofun)
    exact { hi with
      count := hi.sameCount rfl rfl fun _ => rfl
      opened := fun hr => by rw [hi.opened hr] at ho; cases ho
      closing := fun c pc hc => absurd hc (hn c pc)
      stored := fun _ => .inl rfl
      closes := fun c pc hc => absurd hc (hn c pc) }
  | insert =>
    rw [ho] at h
    cases h
    have hn := none (by rw [ho]; nofun)
    exact { hi with
      count := hi.sameCount rfl rfl fun _ => rfl
      opened := fun _ => rfl
      closing := fun _ _ _ => rfl
      stored := fun _ => hi.stored (.inl ho)
      closes := fun c pc hc => absurd hc (hn c pc) }
  | opened =>
    rw [ho] at h
    cases h

/-- A call finds the tunnel in the map. -/
theorem RuntimeInv.close {r : TunnelRuntime} {c : Nat} (hi : RuntimeInv r) (hr : r.registered = true)
    (hc : r.closes c = none) : RuntimeInv (r.goClose c .lock) :=
  { hi with
    count := hi.sameCount rfl rfl fun _ => rfl
    tracked := by
      intro id p hp hrun
      refine (hi.tracked id p hp hrun).imp_right fun h => h.imp_right ?_
      rintro ⟨c', tasks, hj, hmem⟩
      have hne : c' ≠ c := by
        rintro rfl
        rw [hc] at hj
        cases hj
      exact ⟨c', tasks, (Function.update_of_ne hne _ _).trans hj, hmem⟩
    closing := by
      intro c' p hc'
      rcases entry_of_update hc' with ⟨-, -⟩ | ⟨-, hc'⟩
      · exact hi.opened hr
      · exact hi.closing c' p hc'
    stored := by
      intro ho
      refine (hi.stored ho).imp_right fun h => h.imp_right ?_
      rintro ⟨c', hj⟩
      have hne : c' ≠ c := by
        rintro rfl
        rw [hc] at hj
        cases hj
      exact ⟨c', (Function.update_of_ne hne _ _).trans hj⟩
    lock := by
      intro c' p hc' hold
      rcases entry_of_update hc' with ⟨-, ⟨⟩⟩ | ⟨-, hc'⟩
      · cases hold
      · exact hi.lock c' p hc' hold
    cancelled := by
      intro c' p hc' hcan
      rcases entry_of_update hc' with ⟨-, ⟨⟩⟩ | ⟨-, hc'⟩
      · cases hcan
      · exact hi.cancelled c' p hc' hcan
    closes := by
      intro c' p hc'
      rcases entry_of_update hc' with ⟨-, ⟨⟩⟩ | ⟨-, hc'⟩
      · trivial
      · exact (hi.closes c' p hc').keep rfl (fun _ q hq hrun => ⟨q, hq, hrun⟩) fun _ hs => hs }

theorem runtimeInv_step {r t : TunnelRuntime} {a : RuntimeAction} (hi : RuntimeInv r)
    (h : runtimeStep r a = some t) : RuntimeInv t := by
  cases a with
  | opener => exact hi.open h
  | accept choice => exact hi.accept h
  | proxy id choice =>
    obtain ⟨p, hp, h⟩ := Option.bind_eq_some_iff.mp h
    obtain ⟨q, hspec⟩ := proxyStep_spec h
    exact hspec.runtimeInv hi hp
  | close c =>
    simp only [runtimeStep] at h
    split at h <;> cases h
    rename_i hc
    exact hi.close hc.1 hc.2
  | closeStep c =>
    obtain ⟨pc, hpc, h⟩ := Option.bind_eq_some_iff.mp h
    obtain ⟨pc', hspec⟩ := closeStep_spec hi hpc h
    exact hspec.runtimeInv hi hpc
  | listReap =>
    simp only [runtimeStep] at h
    split at h <;> cases h
    exact hi.reap
  | listInfo =>
    simp only [runtimeStep] at h
    split at h <;> cases h
    exact { hi with
      count := hi.sameCount rfl rfl fun _ => rfl
      closes := fun c pc hc => (hi.closes c pc hc).keep rfl (fun _ q hq hrun => ⟨q, hq, hrun⟩)
        fun hq hs => ⟨hs.1, by rw [hi.count, hq.liveGuards]; rfl⟩ }
  | channelClosed id =>
    cases h
    exact { hi with
      count := hi.sameCount rfl rfl fun _ => rfl
      filtered := by
        intro j hj
        have hj' : Function.update r.filtered id false j = true := hj
        by_cases e : j = id
        · rw [e, Function.update_self] at hj'
          cases hj'
        · rw [Function.update_of_ne e] at hj'
          exact hi.filtered j hj'
      closes := fun c pc hc => (hi.closes c pc hc).keep rfl (fun _ q hq hrun => ⟨q, hq, hrun⟩)
        fun _ hs => hs }

theorem runtimeInv_reach {r : TunnelRuntime} (h : runtimeMachine.Reach Machine.free FreshTunnel r) :
    RuntimeInv r := by
  refine h.invariant ?_ fun u a _ hi _ hs => runtimeInv_step (r := u) (a := a) hi hs
  rintro _ ⟨hostId, transport, localPort, remoteHost, remotePort, rfl⟩
  exact runtimeInv_new _ _ _ _ _

/-! ## After a close -/

/-- The tunnel is closed for good. -/
structure TunnelRuntime.Closed (r : TunnelRuntime) : Prop where
  state : r.info.state = .closed
  noProxy : ∀ id pc, r.proxies id = some pc → pc.running = false
  active : r.activeConnections = 0
  listed : r.info.activeConnections = 0
  released : ∀ id, r.forwarded id = true → r.filtered id = false ∧ r.released id = 1

theorem RuntimeInv.closed {r : TunnelRuntime} (hi : RuntimeInv r) {c : Nat}
    (hc : r.closes c = some .returned) : r.Closed := by
  obtain ⟨hq, hs, hl⟩ := hi.closes c .returned hc
  refine ⟨hs, hq.proxies, by rw [hi.count, hq.liveGuards]; rfl, hl, fun id hf => ?_⟩
  have hone : r.released id = 1 := by
    have hp : (r.proxies id).isSome = true := by
      refine (hi.entered id hf).resolve_left ?_
      rw [hq.accept]
      rintro ⟨⟩
    obtain ⟨p, hp⟩ := Option.isSome_iff_exists.mp hp
    have hrun := hq.proxies id p hp
    rw [hi.released, hp]
    cases p <;> first | rfl | cases hrun
  refine ⟨eq_false_of_ne_true fun h => ?_, hone⟩
  have hzero := (hi.filtered id h).2
  omega

/-- A close call that has returned stays so. -/
theorem returned_step {r t : TunnelRuntime} {a : RuntimeAction} (h : runtimeStep r a = some t) {c : Nat}
    (hc : r.closes c = some .returned) (hi : RuntimeInv r) : t.closes c = some .returned := by
  cases a with
  | opener =>
    cases ho : r.opener <;> simp only [runtimeStep, openStep, ho, Option.some.injEq, reduceCtorEq] at h <;>
      cases h <;> exact hc
  | accept choice =>
    have hended : r.accept = .ended := (hi.closes c .returned hc).1.accept
    simp only [runtimeStep, hended] at h
    cases choice <;> cases h
  | proxy id choice =>
    obtain ⟨p, -, h⟩ := Option.bind_eq_some_iff.mp h
    obtain ⟨q, hspec⟩ := proxyStep_spec h
    rw [hspec.eq]
    exact hc
  | close c' =>
    simp only [runtimeStep] at h
    split at h <;> cases h
    rename_i hn
    refine (Function.update_of_ne ?_ _ _).trans hc
    rintro rfl
    rw [hc] at hn
    cases hn.2
  | closeStep c' =>
    obtain ⟨pc, hpc, h⟩ := Option.bind_eq_some_iff.mp h
    obtain ⟨pc', hspec⟩ := closeStep_spec hi hpc h
    rw [hspec.eq]
    refine (Function.update_of_ne ?_ _ _).trans hc
    rintro rfl
    rw [hc] at hpc
    cases hpc
    cases h
  | listReap | listInfo =>
    simp only [runtimeStep] at h
    split at h <;> cases h
    exact hc
  | channelClosed id =>
    cases h
    exact hc

/-- In every state the count is the number of live guards, and a forwarded channel
is released at most once. Once a close call has returned, the tunnel is closed
now and in every later state: nothing of it runs, the count is 0, and every
channel has been taken out of the filter exactly once. -/
theorem closed_tunnel_quiet {r : TunnelRuntime} (hr : runtimeMachine.Reach Machine.free FreshTunnel r) :
    r.activeConnections = r.liveGuards ∧ (∀ id, r.released id ≤ 1) ∧
      ∀ c, r.closes c = some .returned → ∀ t, runtimeMachine.Path Machine.free r t → t.Closed := by
  refine ⟨(runtimeInv_reach hr).count, fun id => ?_, fun c hc t hp => ?_⟩
  · rw [(runtimeInv_reach hr).released]
    split <;> decide
  · have hboth : RuntimeInv t ∧ t.closes c = some .returned := by
      refine hp.invariant (I := fun u => RuntimeInv u ∧ u.closes c = some .returned) ?_
        ⟨runtimeInv_reach hr, hc⟩
      intro u a v hi _ hs
      have hs' : runtimeStep u a = some v := hs
      exact ⟨runtimeInv_step hi.1 hs', returned_step hs' hi.2 hi.1⟩
    exact hboth.1.closed hboth.2

/-- A connection is forwarded; two calls close the tunnel, and one of them gets to
its end. -/
def closeTrace : List RuntimeAction :=
  List.flatten [List.replicate 3 .opener, [.accept .accepted, .accept .forwarded],
    List.replicate 5 (.accept .go), [.close 0, .close 1], List.replicate 3 (.closeStep 0),
    [.accept .cancelled], List.replicate 2 (.closeStep 0), List.replicate 5 (.proxy 0 .go),
    List.replicate 5 (.closeStep 0)]

theorem forwarding_tunnel_closed :
    ∃ r, runtimeMachine.Reach Machine.free FreshTunnel r ∧ r.closes 0 = some .returned ∧
      r.closes 1 = some .lock ∧ r.forwarded 0 = true ∧ r.Closed := by
  obtain ⟨r, hr, hp⟩ := Machine.Reach.of_run runtimeMachine Machine.free
    (freshTunnel_new ⟨0⟩ 1 40000 ['h'] 80) closeTrace
    (fun r => decide (r.closes 0 = some .returned ∧ r.closes 1 = some .lock ∧ r.forwarded 0 = true))
    (by decide)
  obtain ⟨hc, hc', hf⟩ := of_decide_eq_true hp
  exact ⟨r, hr, hc, hc', hf, (closed_tunnel_quiet hr).2.2 0 hc r (.refl r)⟩

end KW.Tunnel
