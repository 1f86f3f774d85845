import KodeWork.Proof.Tunnel.Close
import KodeWork.Impl.Tunnel.Manager

/-!
# Which tunnels the map reaches

`close_all_for_host` copies the ids of a host, closes them one after the other,
which takes a while, and then takes every tunnel of the host out of the map, by
host and not by id. A tunnel that `open` enters in between leaves the map as it
is: its listener goes on, and no call can list or close it
(`open_tunnel_unreachable`).

`Listed` says that the map has every tunnel whose accept loop is running and not
cancelled. In a run in which no tunnel is entered while a call has copied the ids of
its host and has not ended (`NoneEnters`), the call covers every tunnel of the host
that the map has (`Swept`): it is through with it, has it at hand or will get to it.
When the call takes the tunnels out it has closed them all, so `Listed` holds in every
state, and no tunnel leaves the map that the call has not closed
(`live_tunnels_listed`).
-/

namespace KW.Tunnel

open TunnelRuntime TunnelManager

/-! ## What a step of a tunnel keeps -/

/-- `t` is the tunnel `r` at a later time, not taken out of the map. -/
structure Later (r t : TunnelRuntime) : Prop where
  host : t.info.hostId = r.info.hostId
  transport : t.transport = r.transport
  opened : r.opener = .opened → t.opener = .opened
  kept : r.registered = true → t.registered = true
  registered : r.opener = .opened → t.registered = r.registered
  entered : t.opener = .opened → r.opener ≠ .opened → t.registered = true
  live : t.live = true → r.live = true
  cancelled : r.cancelled = true → t.cancelled = true
  closes : ∀ c, (r.closes c).isSome = true → (t.closes c).isSome = true
  returned : ∀ c, r.closes c = some .returned → t.closes c = some .returned

/-- A step that leaves the map, the token and the close calls as they are. -/
structure Frame (r t : TunnelRuntime) : Prop where
  host : t.info.hostId = r.info.hostId
  transport : t.transport = r.transport
  opener : t.opener = r.opener
  registered : t.registered = r.registered
  cancelled : t.cancelled = r.cancelled
  closes : t.closes = r.closes
  accept : r.accept = .ended → t.accept = .ended

theorem Frame.later {r t : TunnelRuntime} (h : Frame r t) : Later r t where
  host := h.host
  transport := h.transport
  opened := fun ho => h.opener.trans ho
  kept := fun hr => h.registered.trans hr
  registered := fun _ => h.registered
  entered := fun ho hn => absurd (h.opener.symm.trans ho) hn
  live := by
    intro hl
    rw [TunnelRuntime.live, h.cancelled, Bool.and_eq_true] at hl
    rw [TunnelRuntime.live, Bool.and_eq_true]
    refine ⟨?_, hl.2⟩
    have hn : t.accept ≠ .ended := by simpa using hl.1
    simpa using fun e => hn (h.accept e)
  cancelled := fun hc => h.cancelled.trans hc
  closes := fun c hs => by rwa [h.closes]
  returned := fun c hc => by rwa [h.closes]

theorem acceptStep_frame {r t : TunnelRuntime} {pc : AcceptPc} {c : AcceptChoice} (hpc : r.accept = pc)
    (h : r.acceptStep pc c = some t) : Frame r t := by
  have hn : pc ≠ .ended := by
    rintro rfl
    cases c <;> cases h
  have ha : r.accept = .ended → t.accept = .ended := fun e => absurd (hpc.symm.trans e) hn
  cases pc with
  | select =>
    cases c with
    | cancelled =>
      simp only [acceptStep] at h
      split at h <;> cases h
      exact ⟨rfl, rfl, rfl, rfl, rfl, rfl, ha⟩
    | accepted | acceptError e =>
      cases h
      exact ⟨rfl, rfl, rfl, rfl, rfl, rfl, ha⟩
    | go | forwarded | forwardError e => cases h
  | forward id | filter id | count id | spawn id | insert id | reap | fail e =>
    cases c <;> cases h <;> exact ⟨rfl, rfl, rfl, rfl, rfl, rfl, ha⟩
  | ended => exact absurd rfl hn

theorem openStep_later {r t : TunnelRuntime} (h : r.openStep r.opener = some t) : Later r t := by
  cases ho : r.opener with
  | opened =>
    rw [ho] at h
    cases h
  | resetInfo | storeTask =>
    rw [ho] at h
    cases h
    exact ⟨rfl, rfl, by rw [ho]; rintro ⟨⟩, fun h => h, fun _ => rfl, by rintro ⟨⟩, fun h => h, fun h => h,
      fun _ h => h, fun _ h => h⟩
  | insert =>
    rw [ho] at h
    cases h
    exact ⟨rfl, rfl, fun _ => rfl, fun _ => rfl, by rw [ho]; rintro ⟨⟩, fun _ _ => rfl, fun h => h,
      fun h => h, fun _ h => h, fun _ h => h⟩

theorem runtimeStep_later {r t : TunnelRuntime} {a : RuntimeAction} (hi : RuntimeInv r)
    (h : runtimeStep r a = some t) : Later r t := by
  cases a with
  | opener => exact openStep_later h
  | accept choice => exact (acceptStep_frame rfl h).later
  | proxy id choice =>
    obtain ⟨p, -, h⟩ := Option.bind_eq_some_iff.mp h
    obtain ⟨q, hspec⟩ := proxyStep_spec h
    rw [hspec.eq]
    exact Frame.later ⟨rfl, rfl, rfl, rfl, rfl, rfl, fun h => h⟩
  | close c =>
    simp only [runtimeStep] at h
    split at h <;> cases h
    rename_i hnew
    refine ⟨rfl, rfl, fun h => h, fun h => h, fun _ => rfl, fun h hn => absurd h hn, fun h => h,
      fun h => h, fun c' hs => ?_, fun c' hret => ?_⟩
    · show (Function.update r.closes c _ c').isSome = true
      by_cases hne : c' = c
      · rw [hne, Function.update_self]
        rfl
      · rwa [Function.update_of_ne hne]
    · have hne : c' ≠ c := by
        rintro rfl
        simp [hret] at hnew
      exact (Function.update_of_ne hne _ _).trans hret
  | closeStep c =>
    obtain ⟨pc, hpc, h⟩ := Option.bind_eq_some_iff.mp h
    obtain ⟨pc', hspec⟩ := closeStep_spec hi hpc h
    have hinfo := hspec.host
    have hcan : r.cancelled = true → t.cancelled = true := fun hc => hspec.cancelled (.inl hc)
    rw [hspec.eq] at hinfo hcan ⊢
    refine ⟨hinfo, rfl, fun h => h, fun h => h, fun _ => rfl, fun h hn => absurd h hn, fun hl => ?_, hcan,
      fun c' hs => ?_, fun c' hret => ?_⟩
    · rw [TunnelRuntime.live, Bool.and_eq_true] at hl ⊢
      refine ⟨hl.1, ?_⟩
      cases hc : r.cancelled with
      | false => rfl
      | true =>
        have hl2 := hl.2
        rw [hcan hc] at hl2
        cases hl2
    · show (Function.update r.closes c _ c').isSome = true
      by_cases hne : c' = c
      · rw [hne, Function.update_self]
        rfl
      · rwa [Function.update_of_ne hne]
    · -- a call that has returned takes no step
      have hne : c' ≠ c := by
        rintro rfl
        cases hret.symm.trans hpc
        cases h
      exact (Function.update_of_ne hne _ _).trans hret
  | listReap | listInfo =>
    simp only [runtimeStep] at h
    split at h <;> cases h
    exact Frame.later ⟨rfl, rfl, rfl, rfl, rfl, rfl, fun h => h⟩
  | channelClosed id =>
    cases h
    exact Frame.later ⟨rfl, rfl, rfl, rfl, rfl, rfl, fun h => h⟩

/-- `t` is the tunnel `r` at a later time, in the map or not. -/
structure Kept (r t : TunnelRuntime) : Prop where
  inv : RuntimeInv r → RuntimeInv t
  host : t.info.hostId = r.info.hostId
  transport : t.transport = r.transport
  opened : r.opener = .opened → t.opener = .opened
  registered : r.opener = .opened → t.registered = true → r.registered = true
  cancelled : r.cancelled = true → t.cancelled = true
  closes : ∀ c, (r.closes c).isSome = true → (t.closes c).isSome = true
  returned : ∀ c, r.closes c = some .returned → t.closes c = some .returned

theorem Kept.refl (r : TunnelRuntime) : Kept r r :=
  ⟨fun h => h, rfl, rfl, fun h => h, fun _ h => h, fun h => h, fun _ h => h, fun _ h => h⟩

theorem kept_runtimeStep {r t : TunnelRuntime} {a : RuntimeAction} (hi : RuntimeInv r)
    (h : runtimeStep r a = some t) : Kept r t := by
  have hl := runtimeStep_later hi h
  exact ⟨fun hi => runtimeInv_step hi h, hl.host, hl.transport, hl.opened, fun ho => by rw [hl.registered ho]; exact id,
    hl.cancelled, hl.closes, hl.returned⟩

/-- Only the end of `open` enters a tunnel into the map. -/
theorem opener_step {r t : TunnelRuntime} {b : RuntimeAction} (hi : RuntimeInv r)
    (h : runtimeStep r b = some t) (ho : t.opener = .opened) (hn : r.opener ≠ .opened) :
    b = .opener ∧ r.opener = .insert := by
  have same : t.opener ≠ r.opener := fun e => hn (e.symm.trans ho)
  cases b with
  | opener =>
    refine ⟨rfl, ?_⟩
    cases hpc : r.opener <;> simp only [runtimeStep, hpc, openStep, Option.some.injEq, reduceCtorEq] at h
    · rw [← h] at ho
      cases ho
    · rw [← h] at ho
      cases ho
    · rfl
  | accept choice => exact absurd (acceptStep_frame rfl h).opener same
  | proxy id choice =>
    obtain ⟨p, -, h⟩ := Option.bind_eq_some_iff.mp h
    obtain ⟨q, hspec⟩ := proxyStep_spec h
    exact absurd (by rw [hspec.eq]) same
  | close c =>
    simp only [runtimeStep] at h
    split at h <;> cases h
    exact absurd rfl same
  | closeStep c =>
    obtain ⟨pc, hpc, h⟩ := Option.bind_eq_some_iff.mp h
    obtain ⟨pc', hspec⟩ := closeStep_spec hi hpc h
    exact absurd (by rw [hspec.eq]) same
  | listReap | listInfo =>
    simp only [runtimeStep] at h
    split at h <;> cases h
    exact absurd rfl same
  | channelClosed id =>
    cases h
    exact absurd rfl same

/-- The tunnel leaves the map, or stays in it. -/
theorem kept_remove (r : TunnelRuntime) {b : Bool} (hb : b = true → r.registered = true) :
    Kept r { r with registered := b } :=
  ⟨fun hi => { hi with
      count := hi.sameCount rfl rfl fun _ => rfl
      opened := fun h => hi.opened (hb h)
      closes := fun c pc h => (hi.closes c pc h).keep rfl (fun _ q hq hrun => ⟨q, hq, hrun⟩) fun _ hs => hs },
    rfl, rfl, fun h => h, fun _ => hb, fun h => h, fun _ h => h, fun _ h => h⟩

/-! ## What a step of the manager does -/

/-- What the step `a` does to the tunnels. -/
inductive TunnelMoves (s : TunnelManager) (a : ManagerAction) (t : TunnelManager) : Prop
  | same (ht : t.tunnels = s.tunnels) (hn : t.nextTunnel = s.nextTunnel)
  | made (host : HostId) (transport localPort : Nat) (remoteHost : Text) (remotePort : Nat)
    (ht : t.tunnels = Function.update s.tunnels s.nextTunnel
      (some (.new host transport localPort remoteHost remotePort))) (hn : t.nextTunnel = s.nextTunnel + 1)
  | moved (id : Nat) (r r' : TunnelRuntime) (b : RuntimeAction) (hr : s.tunnels id = some r)
    (hs : runtimeStep r b = some r') (hb : a = .tunnel id b ∨ r.registered = true)
    (ht : t.tunnels = Function.update s.tunnels id (some r')) (hn : t.nextTunnel = s.nextTunnel)
  | removed (c : Nat) (w : Sweep) (ha : a = .call c .go) (hc : s.calls[c]? = some (.retain w))
    (ht : t.tunnels = (s.removeHost w.host).tunnels) (hn : t.nextTunnel = s.nextTunnel)

/-- The sweep a call is in. -/
def CallPc.sweep : CallPc → Option Sweep
  | .next sweep | .retain sweep | .lookup _ (some sweep) | .closing _ (some sweep) => some sweep
  | _ => none

/-- The tunnel a sweep has at hand. -/
def CallPc.hand : CallPc → Option (Nat × Sweep)
  | .lookup id (some sweep) | .closing id (some sweep) => some (id, sweep)
  | _ => none

/-- The host and the transport of the `attach` that spawned the call, or is the
call itself. -/
def CallPc.cleanup : CallPc → Option (HostId × Nat)
  | .install host transport => some (host, transport)
  | .snapshot host attached => attached.map fun g => (host, g)
  | pc => pc.sweep.bind fun w => w.attached.map fun g => (w.host, g)

/-- The sweep `w` of the call at `pc` is through with the tunnel, has it at hand, or
will get to it. -/
def CallPc.Covers (pc : CallPc) (w : Sweep) (id : Nat) : Prop :=
  id ∈ w.closed ∨ id ∈ w.rest ∨ pc.hand = some (id, w)

/-- What one step of the call numbered `c` does to it: it gets from `pc` to `pc'`. -/
structure CallSpec (s t : TunnelManager) (c : Nat) (pc pc' : CallPc) : Prop where
  calls : t.calls = s.calls.set c pc'
  rest : ∀ w', pc'.sweep = some w' → ∀ id ∈ w'.rest,
    (∃ w, pc.sweep = some w ∧ w.host = w'.host ∧ id ∈ w.rest) ∨ id ∈ s.hostIds w'.host
  closed : ∀ w', pc'.sweep = some w' → ∀ id ∈ w'.closed,
    (∃ w, pc.sweep = some w ∧ id ∈ w.closed) ∨
      pc.hand.any (fun x => x.1 == id) = true ∧
        ((∀ r, s.tunnels id = some r → r.registered = false) ∨
          ∃ r, s.tunnels id = some r ∧ r.closes c = some .returned)
  hand : ∀ id w', pc'.hand = some (id, w') → pc.hand = some (id, w') ∨
    ∃ w, pc.sweep = some w ∧ w.host = w'.host ∧ id ∈ w.rest
  swept : ∀ w', pc'.sweep = some w' →
    (∃ w, pc.sweep = some w ∧ w.host = w'.host ∧ ∀ id, pc.Covers w id → pc'.Covers w' id) ∨
      ∀ id ∈ s.hostIds w'.host, pc'.Covers w' id
  done : ∀ w', pc' = .retain w' → w'.rest = []
  closing : ∀ id w, pc' = .closing id w → ∃ r, t.tunnels id = some r ∧ (r.closes c).isSome = true
  cleanup : ∀ x, pc'.cleanup = some x → pc.cleanup = some x

theorem CallSpec.plain {s t : TunnelManager} {c : Nat} {pc pc' : CallPc} (hc : t.calls = s.calls.set c pc')
    (hs : pc'.sweep = none) (hh : pc'.hand = none) (hn : ∀ id w, pc' ≠ .closing id w)
    (hx : ∀ x, pc'.cleanup = some x → pc.cleanup = some x) : CallSpec s t c pc pc' where
  calls := hc
  rest := by
    rw [hs]
    rintro _ ⟨⟩
  closed := by
    rw [hs]
    rintro _ ⟨⟩
  hand := by
    rw [hh]
    rintro _ _ ⟨⟩
  swept := by
    rw [hs]
    rintro _ ⟨⟩
  done := by
    rintro _ rfl
    cases hs
  closing := fun id w h => absurd h (hn id w)
  cleanup := hx

/-- A `close` has ended: the tunnel was not in the map, or the call has closed it. -/
theorem CallSpec.after {s : TunnelManager} {c id : Nat} {sweep : Option Sweep} {pc : CallPc}
    (hs : pc.sweep = sweep) (hh : pc.hand = sweep.map fun w => (id, w))
    (hx : pc.cleanup = pc.sweep.bind fun w => w.attached.map fun g => (w.host, g))
    (he : (∀ r, s.tunnels id = some r → r.registered = false) ∨
      ∃ r, s.tunnels id = some r ∧ r.closes c = some .returned) :
    CallSpec s (s.go c (afterClose id sweep)) c pc (afterClose id sweep) := by
  cases sweep with
  | none => exact .plain rfl rfl rfl (by rintro _ _ ⟨⟩) (by rintro _ ⟨⟩)
  | some w =>
    refine ⟨rfl, ?_, ?_, by rintro _ _ ⟨⟩, ?_, by rintro _ ⟨⟩, by rintro _ _ ⟨⟩, fun x h => by rwa [hx, hs]⟩
    · rintro _ ⟨⟩ j hj
      exact .inl ⟨w, hs, rfl, hj⟩
    · rintro _ ⟨⟩ j hj
      rcases List.mem_append.mp hj with hj | hj
      · exact .inl ⟨w, hs, hj⟩
      · rw [List.mem_singleton.mp hj, hh]
        exact .inr ⟨by simp, he⟩
    · rintro _ ⟨⟩
      refine .inl ⟨w, hs, rfl, fun j hj => ?_⟩
      rcases hj with hj | hj | hj
      · exact .inl (List.mem_append_left _ hj)
      · exact .inr (.inl hj)
      · rw [hh] at hj
        cases hj
        exact .inl (List.mem_append_right _ (List.mem_singleton_self _))

theorem callStep_spec {s t : TunnelManager} {c : Nat} {pc : CallPc} {choice : CallChoice}
    (hpc : s.calls[c]? = some pc) (h : s.callStep c pc choice = some t) :
    TunnelMoves s (.call c choice) t ∧ ∃ pc', CallSpec s t c pc pc' := by
  cases pc with
  | readConnection host args =>
    cases choice <;> simp only [callStep, reduceCtorEq] at h
    split at h <;> cases h
    · exact ⟨.same rfl rfl, _, .plain rfl rfl rfl (by rintro _ _ ⟨⟩) (by rintro _ ⟨⟩)⟩
    · exact ⟨.same rfl rfl, _, .plain rfl rfl rfl (by rintro _ _ ⟨⟩) (by rintro _ ⟨⟩)⟩
  | validate host transport args =>
    cases choice <;> simp only [callStep, reduceCtorEq] at h
    split at h <;> cases h
    · exact ⟨.same rfl rfl, _, .plain rfl rfl rfl (by rintro _ _ ⟨⟩) (by rintro _ ⟨⟩)⟩
    · exact ⟨.same rfl rfl, _, .plain rfl rfl rfl (by rintro _ _ ⟨⟩) (by rintro _ ⟨⟩)⟩
  | bind host transport args =>
    cases choice <;> cases h <;> exact ⟨.same rfl rfl, _, .plain rfl rfl rfl (by rintro _ _ ⟨⟩) (by rintro _ ⟨⟩)⟩
  | spawn host transport args localPort =>
    cases choice <;> cases h
    exact ⟨.made _ _ _ _ _ rfl rfl, _, .plain rfl rfl rfl (by rintro _ _ ⟨⟩) (by rintro _ ⟨⟩)⟩
  | opening id =>
    cases choice <;> simp only [callStep, reduceCtorEq] at h
    split at h <;> cases h
    exact ⟨.same rfl rfl, _, .plain rfl rfl rfl (by rintro _ _ ⟨⟩) (by rintro _ ⟨⟩)⟩
  | install host transport =>
    cases choice <;> cases h
    exact ⟨.same rfl rfl, _, .plain rfl rfl rfl (by rintro _ _ ⟨⟩) fun _ h => h⟩
  | takeConnection host =>
    cases choice <;> cases h
    exact ⟨.same rfl rfl, _, .plain rfl rfl rfl (by rintro _ _ ⟨⟩) (by rintro _ ⟨⟩)⟩
  | snapshot host attached =>
    cases choice <;> simp only [callStep, reduceCtorEq] at h
    split at h <;> cases h
    rename_i hperm
    refine ⟨.same rfl rfl, _, rfl, ?_, ?_, by rintro _ _ ⟨⟩, ?_, by rintro _ ⟨⟩, by rintro _ _ ⟨⟩,
      fun _ h => h⟩
    · rintro _ ⟨⟩ id hid
      exact .inr (hperm.mem_iff.mp hid)
    · rintro _ ⟨⟩ id hid
      cases hid
    · rintro _ ⟨⟩
      exact .inr fun id hid => .inr (.inl (hperm.mem_iff.mpr hid))
  | next sweep =>
    cases choice <;> simp only [callStep, reduceCtorEq] at h
    split at h <;> cases h
    · rename_i hrest
      refine ⟨.same rfl rfl, _, rfl, ?_, ?_, by rintro _ _ ⟨⟩, ?_, ?_, by rintro _ _ ⟨⟩, fun _ h => h⟩
      · rintro _ ⟨⟩ id hid
        exact .inl ⟨sweep, rfl, rfl, hid⟩
      · rintro _ ⟨⟩ id hid
        exact .inl ⟨sweep, rfl, hid⟩
      · rintro _ ⟨⟩
        exact .inl ⟨sweep, rfl, rfl, fun _ h => h⟩
      · rintro _ ⟨⟩
        exact hrest
    · rename_i id rest hrest
      refine ⟨.same rfl rfl, _, rfl, ?_, ?_, ?_, ?_, by rintro _ ⟨⟩, by rintro _ _ ⟨⟩, fun _ h => h⟩
      · rintro _ ⟨⟩ j hj
        exact .inl ⟨sweep, rfl, rfl, hrest ▸ List.mem_cons_of_mem _ hj⟩
      · rintro _ ⟨⟩ j hj
        exact .inl ⟨sweep, rfl, hj⟩
      · rintro _ _ ⟨⟩
        exact .inr ⟨sweep, rfl, rfl, hrest ▸ List.mem_cons_self⟩
      · rintro _ ⟨⟩
        refine .inl ⟨sweep, rfl, rfl, fun j hj => ?_⟩
        rcases hj with hj | hj | hj
        · exact .inl hj
        · rw [hrest] at hj
          rcases List.mem_cons.mp hj with rfl | hj
          · exact .inr (.inr rfl)
          · exact .inr (.inl hj)
        · cases hj
  | lookup id sweep =>
    have hs : CallPc.sweep (.lookup id sweep) = sweep := by cases sweep <;> rfl
    have hh : CallPc.hand (.lookup id sweep) = sweep.map fun w => (id, w) := by cases sweep <;> rfl
    cases choice <;> simp only [callStep, reduceCtorEq] at h
    split at h
    · rename_i r hr
      split at h
      · obtain ⟨r', hr', rfl⟩ := Option.map_eq_some_iff.mp h
        refine ⟨.moved id r r' (.close c) hr hr' (.inr ‹_›) rfl rfl, .closing id sweep, rfl, ?_, ?_, ?_, ?_,
          by rintro _ ⟨⟩, ?_, fun x hx => hx ▸ by cases sweep <;> rfl⟩
        · intro w hw j hj
          exact .inl ⟨w, hs.trans (by cases sweep <;> exact hw), rfl, hj⟩
        · intro w hw j hj
          exact .inl ⟨w, hs.trans (by cases sweep <;> exact hw), hj⟩
        · intro j w hw
          exact .inl (hh.trans (by cases sweep <;> exact hw))
        · intro w hw
          refine .inl ⟨w, hs.trans (by cases sweep <;> exact hw), rfl, fun j hj => ?_⟩
          exact hj.imp_right fun hj => hj.imp_right fun hj => by cases sweep <;> exact hj
        · rintro _ _ ⟨⟩
          refine ⟨r', Function.update_self _ _ _, ?_⟩
          simp only [runtimeStep] at hr'
          split at hr' <;> cases hr'
          show (Function.update r.closes c _ c).isSome = true
          rw [Function.update_self]
          rfl
      · rename_i hn
        cases h
        refine ⟨.same rfl rfl, _, .after hs hh rfl (.inl fun r₁ h₁ => ?_)⟩
        rw [hr] at h₁
        cases h₁
        exact eq_false_of_ne_true hn
    · rename_i hr
      cases h
      refine ⟨.same rfl rfl, _, .after hs hh rfl (.inl fun r₁ h₁ => ?_)⟩
      rw [hr] at h₁
      cases h₁
  | closing id sweep =>
    have hs : CallPc.sweep (.closing id sweep) = sweep := by cases sweep <;> rfl
    have hh : CallPc.hand (.closing id sweep) = sweep.map fun w => (id, w) := by cases sweep <;> rfl
    cases choice <;> simp only [callStep, reduceCtorEq] at h
    split at h <;> cases h
    rename_i hret
    obtain ⟨r, hr, hc⟩ := (Option.any_eq_true _ _).mp hret
    exact ⟨.same rfl rfl, _, .after hs hh rfl (.inr ⟨r, hr, by simpa using hc⟩)⟩
  | retain sweep =>
    cases choice <;> cases h
    exact ⟨.removed c sweep rfl hpc rfl rfl, _, .plain rfl rfl rfl (by rintro _ _ ⟨⟩) (by rintro _ ⟨⟩)⟩
  | returned result => cases choice <;> cases h

/-- Every tunnel is there after the step, at the same time or later. -/
theorem TunnelMoves.kept {s t : TunnelManager} {a : ManagerAction} (h : TunnelMoves s a t)
    (hd : ∀ id r, s.tunnels id = some r → id < s.nextTunnel)
    (hi : ∀ id r, s.tunnels id = some r → RuntimeInv r) {id : Nat} {r : TunnelRuntime}
    (hr : s.tunnels id = some r) : ∃ r', t.tunnels id = some r' ∧ Kept r r' := by
  cases h with
  | same ht _ => exact ⟨r, by rw [ht, hr], .refl r⟩
  | made _ _ _ _ _ ht _ =>
    have hne : id ≠ s.nextTunnel := Nat.ne_of_lt (hd id r hr)
    exact ⟨r, by rw [ht, Function.update_of_ne hne, hr], .refl r⟩
  | moved j r₁ r' b hr₁ hs _ ht _ =>
    by_cases hj : id = j
    · rw [hj, hr₁] at hr
      cases hr
      exact ⟨r', by rw [ht, hj, Function.update_self], kept_runtimeStep (hi j _ hr₁) hs⟩
    · exact ⟨r, by rw [ht, Function.update_of_ne hj, hr], .refl r⟩
  | removed c w _ _ ht _ =>
    refine ⟨{ r with registered := r.registered && r.info.hostId != w.host }, ?_, kept_remove r fun h => ?_⟩
    · rw [ht]
      show (s.tunnels id).map _ = _
      rw [hr]
      rfl
    · rw [Bool.and_eq_true] at h
      exact h.1

/-- A tunnel after the step was there, or `open` has just made it. -/
theorem TunnelMoves.origin {s t : TunnelManager} {a : ManagerAction} (h : TunnelMoves s a t) {id : Nat}
    {r' : TunnelRuntime} (hr : t.tunnels id = some r') : (∃ r, s.tunnels id = some r) ∨
      id = s.nextTunnel ∧ t.nextTunnel = s.nextTunnel + 1 ∧ ∃ host transport localPort remoteHost remotePort,
        r' = .new host transport localPort remoteHost remotePort := by
  cases h with
  | same ht _ => exact .inl ⟨r', by rw [← ht, hr]⟩
  | made host transport localPort remoteHost remotePort ht hn =>
    rw [ht] at hr
    rcases entry_of_update hr with ⟨hid, ⟨⟩⟩ | ⟨-, hr⟩
    · exact .inr ⟨hid, hn, _, _, _, _, _, rfl⟩
    · exact .inl ⟨r', hr⟩
  | moved j r₁ r₂ b hr₁ _ _ ht _ =>
    rw [ht] at hr
    rcases entry_of_update hr with ⟨rfl, -⟩ | ⟨-, hr⟩
    · exact .inl ⟨r₁, hr₁⟩
    · exact .inl ⟨r', hr⟩
  | removed _ w _ _ ht _ =>
    rw [ht, removeHost] at hr
    obtain ⟨r, hr, -⟩ := Option.map_eq_some_iff.mp hr
    exact .inl ⟨r, hr⟩

/-! ## The invariant -/

/-- The tunnel is one that `open` has entered into the map for this host. -/
def Known (s : TunnelManager) (host : HostId) (id : Nat) : Prop :=
  ∃ r, s.tunnels id = some r ∧ r.opener = .opened ∧ r.info.hostId = host

/-- The tunnel is no longer in the map, or the call numbered `c` has closed it. -/
def Settled (s : TunnelManager) (c id : Nat) : Prop :=
  ∃ r, s.tunnels id = some r ∧ r.opener = .opened ∧ (r.registered = true → r.closes c = some .returned)

structure ManagerInv (s : TunnelManager) : Prop where
  runtime : ∀ id r, s.tunnels id = some r → RuntimeInv r
  drawn : ∀ id r, s.tunnels id = some r → id < s.nextTunnel
  rest : ∀ pc ∈ s.calls, ∀ w, pc.sweep = some w → ∀ id ∈ w.rest, Known s w.host id
  closed : ∀ (c : Nat) (pc : CallPc), s.calls[c]? = some pc → ∀ w, pc.sweep = some w →
    ∀ id ∈ w.closed, Settled s c id
  done : ∀ pc ∈ s.calls, ∀ w, pc = .retain w → w.rest = []
  hand : ∀ pc ∈ s.calls, ∀ id w, pc.hand = some (id, w) → Known s w.host id
  closing : ∀ (c : Nat) (id : Nat) (w : Option Sweep), s.calls[c]? = some (.closing id w) →
    ∃ r, s.tunnels id = some r ∧ (r.closes c).isSome = true

theorem managerInv_new : ManagerInv .new where
  runtime := by rintro _ _ ⟨⟩
  drawn := by rintro _ _ ⟨⟩
  rest := by rintro _ ⟨⟩
  closed := by rintro _ _ ⟨⟩
  done := by rintro _ ⟨⟩
  hand := by rintro _ ⟨⟩
  closing := by rintro _ _ _ ⟨⟩

section

variable {s t : TunnelManager} {a : ManagerAction}

theorem ManagerInv.known_keep (hi : ManagerInv s) (hm : TunnelMoves s a t) {host : HostId} {id : Nat}
    (h : Known s host id) : Known t host id := by
  obtain ⟨r, hr, ho, hh⟩ := h
  obtain ⟨r', hr', hk⟩ := hm.kept hi.drawn hi.runtime hr
  exact ⟨r', hr', hk.opened ho, hk.host.trans hh⟩

theorem ManagerInv.settled_keep (hi : ManagerInv s) (hm : TunnelMoves s a t) {c id : Nat}
    (h : Settled s c id) : Settled t c id := by
  obtain ⟨r, hr, ho, hc⟩ := h
  obtain ⟨r', hr', hk⟩ := hm.kept hi.drawn hi.runtime hr
  exact ⟨r', hr', hk.opened ho, fun h => hk.returned c (hc (hk.registered ho h))⟩

theorem ManagerInv.runtime_keep (hi : ManagerInv s) (hm : TunnelMoves s a t) {id : Nat} {r' : TunnelRuntime}
    (hr : t.tunnels id = some r') : RuntimeInv r' := by
  rcases hm.origin hr with ⟨r, hr₀⟩ | ⟨-, -, _, _, _, _, _, rfl⟩
  · obtain ⟨r₁, hr₁, hk⟩ := hm.kept hi.drawn hi.runtime hr₀
    rw [hr] at hr₁
    cases hr₁
    exact hk.inv (hi.runtime id r hr₀)
  · exact runtimeInv_new _ _ _ _ _

theorem ManagerInv.drawn_keep (hi : ManagerInv s) (hm : TunnelMoves s a t) {id : Nat} {r' : TunnelRuntime}
    (hr : t.tunnels id = some r') : id < t.nextTunnel := by
  rcases hm.origin hr with ⟨r, hr₀⟩ | ⟨hid, hn, -⟩
  · have hlt := hi.drawn id r hr₀
    cases hm with
    | same _ hn | moved _ _ _ _ _ _ _ _ hn | removed _ _ _ _ _ hn => rwa [hn]
    | made _ _ _ _ _ _ hn => omega
  · omega

/-- A tunnel whose id a sweep copies is in the map. -/
theorem ManagerInv.known_hostIds (hi : ManagerInv s) {host : HostId} {id : Nat} (h : id ∈ s.hostIds host) :
    Known s host id := by
  obtain ⟨-, hr⟩ := List.mem_filter.mp h
  obtain ⟨r, hr, hp⟩ := (Option.any_eq_true _ _).mp hr
  rw [Bool.and_eq_true, beq_iff_eq] at hp
  exact ⟨r, hr, (hi.runtime id r hr).opened hp.1, hp.2⟩

/-- A step that makes no call go on. -/
theorem ManagerInv.quiet (hi : ManagerInv s) (hm : TunnelMoves s a t) {new : List CallPc}
    (hc : t.calls = s.calls ++ new) (hn : ∀ pc ∈ new, pc.sweep = none ∧ pc.hand = none ∧
      ∀ id w, pc ≠ .closing id w) : ManagerInv t where
  runtime := fun _ _ hr => hi.runtime_keep hm hr
  drawn := fun _ _ hr => hi.drawn_keep hm hr
  rest := by
    intro pc hpc w hw id hid
    rw [hc] at hpc
    rcases List.mem_append.mp hpc with hpc | hpc
    · exact hi.known_keep hm (hi.rest pc hpc w hw id hid)
    · rw [(hn pc hpc).1] at hw
      cases hw
  closed := by
    intro c pc hpc w hw id hid
    rw [hc] at hpc
    rcases entry_of_append hpc with hpc | ⟨-, hpc⟩
    · exact hi.settled_keep hm (hi.closed c pc hpc w hw id hid)
    · rw [(hn pc hpc).1] at hw
      cases hw
  done := by
    rintro pc hpc w rfl
    rw [hc] at hpc
    rcases List.mem_append.mp hpc with hpc | hpc
    · exact hi.done _ hpc w rfl
    · cases (hn _ hpc).1
  hand := by
    intro pc hpc id w hw
    rw [hc] at hpc
    rcases List.mem_append.mp hpc with hpc | hpc
    · exact hi.known_keep hm (hi.hand pc hpc id w hw)
    · rw [(hn pc hpc).2.1] at hw
      cases hw
  closing := by
    intro c id w hpc
    rw [hc] at hpc
    rcases entry_of_append hpc with hpc | ⟨-, hmem⟩
    · obtain ⟨r, hr, hs⟩ := hi.closing c id w hpc
      obtain ⟨r', hr', hk⟩ := hm.kept hi.drawn hi.runtime hr
      exact ⟨r', hr', hk.closes c hs⟩
    · exact absurd rfl ((hn _ hmem).2.2 id w)

/-- A tunnel the call has just closed, or not found in the map, is settled. -/
theorem ManagerInv.settled_hand (hi : ManagerInv s) {c id : Nat} {pc : CallPc} (hpc : pc ∈ s.calls)
    (hh : pc.hand.any (fun x => x.1 == id) = true)
    (he : (∀ r, s.tunnels id = some r → r.registered = false) ∨
      ∃ r, s.tunnels id = some r ∧ r.closes c = some .returned) : Settled s c id := by
  obtain ⟨⟨id', w⟩, hw, hid⟩ := (Option.any_eq_true _ _).mp hh
  have e : id' = id := by simpa using hid
  subst e
  obtain ⟨r, hr, ho, -⟩ := hi.hand pc hpc _ w hw
  refine ⟨r, hr, ho, fun hreg => ?_⟩
  rcases he with hn | ⟨r', hr', hret⟩
  · rw [hn r hr] at hreg
    cases hreg
  · rw [hr] at hr'
    cases hr'
    exact hret

theorem CallSpec.managerInv {c : Nat} {pc pc' : CallPc} (h : CallSpec s t c pc pc') (hm : TunnelMoves s a t)
    (hi : ManagerInv s) (hpc : s.calls[c]? = some pc) : ManagerInv t := by
  have hmem : pc ∈ s.calls := List.mem_of_getElem? hpc
  -- a call after the step is the one that moved, or was there
  have moved : ∀ x ∈ t.calls, x = pc' ∨ x ∈ s.calls := by
    intro x hx
    rw [h.calls] at hx
    exact (List.mem_or_eq_of_mem_set hx).symm
  refine ⟨fun _ _ hr => hi.runtime_keep hm hr, fun _ _ hr => hi.drawn_keep hm hr, ?_, ?_, ?_, ?_, ?_⟩
  · intro x hx w' hw' id hid
    rcases moved x hx with rfl | hx
    · refine hi.known_keep hm ?_
      rcases h.rest w' hw' id hid with ⟨w, hw, hhost, hid'⟩ | hid'
      · exact hhost ▸ hi.rest pc hmem w hw id hid'
      · exact hi.known_hostIds hid'
    · exact hi.known_keep hm (hi.rest x hx w' hw' id hid)
  · intro c' x hx w' hw' id hid
    rw [h.calls] at hx
    rcases entry_of_set hx with ⟨rfl, rfl⟩ | ⟨-, hx⟩
    · refine hi.settled_keep hm ?_
      rcases h.closed w' hw' id hid with ⟨w, hw, hid'⟩ | ⟨hh, he⟩
      · exact hi.closed c' pc hpc w hw id hid'
      · exact hi.settled_hand hmem hh he
    · exact hi.settled_keep hm (hi.closed c' x hx w' hw' id hid)
  · intro x hx w' hw'
    rcases moved x hx with rfl | hx
    · exact h.done w' hw'
    · exact hi.done x hx w' hw'
  · intro x hx id w' hw'
    rcases moved x hx with rfl | hx
    · refine hi.known_keep hm ?_
      rcases h.hand id w' hw' with hh | ⟨w, hw, hhost, hid⟩
      · exact hi.hand pc hmem id w' hh
      · exact hhost ▸ hi.rest pc hmem w hw id hid
    · exact hi.known_keep hm (hi.hand x hx id w' hw')
  · intro c' id w hx
    rw [h.calls] at hx
    rcases entry_of_set hx with ⟨rfl, e⟩ | ⟨-, hx⟩
    · exact h.closing id w e.symm
    · obtain ⟨r, hr, hs⟩ := hi.closing c' id w hx
      obtain ⟨r', hr', hk⟩ := hm.kept hi.drawn hi.runtime hr
      exact ⟨r', hr', hk.closes c' hs⟩

end

/-- What a step of the manager does: it moves the tunnels, and one call, or none
that is there. -/
theorem managerStep_spec {s t : TunnelManager} {a : ManagerAction} (h : managerStep s a = some t) :
    TunnelMoves s a t ∧
      ((∃ c choice pc pc', a = .call c choice ∧ s.calls[c]? = some pc ∧ CallSpec s t c pc pc') ∨
        (∀ c choice, a ≠ .call c choice) ∧ ∃ new, t.calls = s.calls ++ new ∧ ∀ pc ∈ new,
          pc.sweep = none ∧ pc.hand = none ∧ ∀ id w, pc ≠ .closing id w) := by
  have started : ∀ pc : CallPc, pc.sweep = none → pc.hand = none → (∀ id w, pc ≠ .closing id w) →
      ∃ new, s.calls ++ [pc] = s.calls ++ new ∧ ∀ x ∈ new,
        x.sweep = none ∧ x.hand = none ∧ ∀ id w, x ≠ .closing id w := by
    refine fun pc hs hh hn => ⟨[pc], rfl, fun x hx => ?_⟩
    rw [List.mem_singleton.mp hx]
    exact ⟨hs, hh, hn⟩
  cases a with
  | call c choice =>
    simp only [managerStep] at h
    split at h
    · rename_i pc hpc
      obtain ⟨hm, pc', hspec⟩ := callStep_spec hpc h
      exact ⟨hm, .inl ⟨c, choice, pc, pc', rfl, hpc, hspec⟩⟩
    · cases h
  | tunnel id action =>
    simp only [managerStep] at h
    split at h
    · cases h
    · obtain ⟨r, hr, h⟩ := Option.bind_eq_some_iff.mp h
      obtain ⟨r', hr', rfl⟩ := Option.map_eq_some_iff.mp h
      exact ⟨.moved id r r' action hr hr' (.inl rfl) rfl rfl, .inr ⟨nofun, [], (List.append_nil _).symm, nofun⟩⟩
  | «open» host transport args =>
    simp only [managerStep] at h
    split at h <;> cases h
    exact ⟨.same rfl rfl, .inr ⟨nofun, started _ rfl rfl nofun⟩⟩
  | openTunnel host args | close id | closeAllForHost host | attach host | disconnect host =>
    cases h
    exact ⟨.same rfl rfl, .inr ⟨nofun, started _ rfl rfl nofun⟩⟩

theorem managerInv_step {s t : TunnelManager} {a : ManagerAction} (hi : ManagerInv s)
    (h : managerMachine.step s a = some t) : ManagerInv t := by
  obtain ⟨hm, ⟨c, choice, pc, pc', -, hpc, hspec⟩ | ⟨-, new, hc, hn⟩⟩ := managerStep_spec h
  · exact hspec.managerInv hm hi hpc
  · exact hi.quiet hm hc hn

/-! ## The map -/

/-- The map has every tunnel that `open` has entered and whose accept loop is
running and not cancelled. -/
def Listed (s : TunnelManager) : Prop :=
  ∀ id r, s.tunnels id = some r → r.opener = .opened → r.live = true → r.registered = true

/-- No tunnel of a host is entered into the map from a `close_all_for_host` call's copy
of the ids of the host to its last step. -/
def NoneEnters (s : TunnelManager) : ManagerAction → Prop
  | .tunnel id .opener => ∀ r ∈ s.tunnels id, r.opener = .insert →
      ∀ pc ∈ s.calls, ∀ w ∈ pc.sweep, w.host ≠ r.info.hostId
  | _ => True

instance (s : TunnelManager) : ∀ a, Decidable (NoneEnters s a)
  | .tunnel id .opener => inferInstanceAs (Decidable (∀ r ∈ s.tunnels id, r.opener = .insert →
      ∀ pc ∈ s.calls, ∀ w ∈ pc.sweep, w.host ≠ r.info.hostId))
  | .openTunnel .. | .open .. | .close _ | .closeAllForHost _ | .attach _ | .disconnect _ | .call ..
  | .tunnel _ (.accept _) | .tunnel _ (.proxy ..) | .tunnel _ (.close _) | .tunnel _ (.closeStep _)
  | .tunnel _ .listReap | .tunnel _ .listInfo | .tunnel _ (.channelClosed _) => .isTrue trivial

/-- A call in its loop over the ids of a host covers every tunnel of the host that the
map has. -/
def Swept (s : TunnelManager) : Prop :=
  ∀ pc ∈ s.calls, ∀ w, pc.sweep = some w → ∀ id r, s.tunnels id = some r → r.registered = true →
    r.info.hostId = w.host → pc.Covers w id

section

variable {s t : TunnelManager}

/-- A step of a tunnel enters it into the map, or leaves it live only if it was. -/
theorem listed_moved (hi : ManagerInv s) (hl : Listed s) {id : Nat} {r r' : TunnelRuntime}
    {a : RuntimeAction} (hr : s.tunnels id = some r) (hs : runtimeStep r a = some r')
    (ht : t.tunnels = Function.update s.tunnels id (some r')) : Listed t := by
  intro j x hx ho hlive
  rw [ht] at hx
  rcases entry_of_update hx with ⟨-, ⟨⟩⟩ | ⟨-, hx⟩
  · have hlater := runtimeStep_later (hi.runtime id r hr) hs
    by_cases hopen : r.opener = .opened
    · rw [hlater.registered hopen]
      exact hl id r hr hopen (hlater.live hlive)
    · exact hlater.entered ho hopen
  · exact hl j x hx ho hlive

/-- A tunnel in the map was there before the step, or has just been entered. -/
theorem registered_origin (hi : ManagerInv s) {a : ManagerAction} (hm : TunnelMoves s a t) {id : Nat}
    {r' : TunnelRuntime} (hr' : t.tunnels id = some r') (hreg : r'.registered = true) :
    ∃ r, s.tunnels id = some r ∧ r.info.hostId = r'.info.hostId ∧
      (r.registered = true ∨ a = .tunnel id .opener ∧ r.opener = .insert) := by
  cases hm with
  | same ht _ => exact ⟨r', ht ▸ hr', rfl, .inl hreg⟩
  | made _ _ _ _ _ ht _ =>
    rw [ht] at hr'
    rcases entry_of_update hr' with ⟨-, ⟨⟩⟩ | ⟨-, hr'⟩
    · cases hreg
    · exact ⟨r', hr', rfl, .inl hreg⟩
  | moved j r r₁ b hr hs ha ht _ =>
    rw [ht] at hr'
    rcases entry_of_update hr' with ⟨rfl, ⟨⟩⟩ | ⟨-, hr'⟩
    · have hlater := runtimeStep_later (hi.runtime id r hr) hs
      refine ⟨r, hr, hlater.host.symm, ?_⟩
      by_cases hin : r.registered = true
      · exact .inl hin
      · have hopen : r.opener ≠ .opened := fun e => hin ((hlater.registered e).symm.trans hreg)
        have hopened : r'.opener = .opened := (runtimeInv_step (hi.runtime id r hr) hs).opened hreg
        obtain ⟨rfl, hins⟩ := opener_step (hi.runtime id r hr) hs hopened hopen
        exact .inr ⟨ha.resolve_right hin, hins⟩
    · exact ⟨r', hr', rfl, .inl hreg⟩
  | removed c w _ _ ht _ =>
    rw [ht] at hr'
    obtain ⟨r, hr, rfl⟩ := Option.map_eq_some_iff.mp hr'
    exact ⟨r, hr, rfl, .inl (Bool.and_eq_true _ _ ▸ hreg).1⟩

theorem swept_step (hi : ManagerInv s) (hs : Swept s) {a : ManagerAction} (hok : NoneEnters s a)
    (h : managerStep s a = some t) : Swept t := by
  intro pc' hpc' w' hw' id r' hr' hreg hhost
  obtain ⟨hm, hcalls⟩ := managerStep_spec h
  obtain ⟨r, hr, hsame, horigin⟩ := registered_origin hi hm hr' hreg
  have hhost' : r.info.hostId = w'.host := hsame.trans hhost
  rcases hcalls with ⟨c, choice, pc, pc₁, rfl, hpc, hspec⟩ | ⟨-, new, hc, hn⟩
  · have hin : r.registered = true := horigin.resolve_right (by rintro ⟨⟨⟩, -⟩)
    rw [hspec.calls] at hpc'
    rcases List.mem_or_eq_of_mem_set hpc' with hold | rfl
    · exact hs pc' hold w' hw' id r hr hin hhost'
    · rcases hspec.swept w' hw' with ⟨w, hw, hwh, hcov⟩ | hall
      · exact hcov id (hs pc (List.mem_of_getElem? hpc) w hw id r hr hin (hhost'.trans hwh.symm))
      · refine hall id (List.mem_filter.mpr ⟨List.mem_range.mpr (hi.drawn id r hr), ?_⟩)
        rw [hr, Option.any_some, hin, hhost', Bool.true_and, beq_self_eq_true]
  · have hold : pc' ∈ s.calls := by
      rw [hc] at hpc'
      rcases List.mem_append.mp hpc' with hold | hnew
      · exact hold
      · rw [(hn pc' hnew).1] at hw'
        cases hw'
    rcases horigin with hin | ⟨rfl, hins⟩
    · exact hs pc' hold w' hw' id r hr hin hhost'
    · exact absurd hhost'.symm (hok r hr hins pc' hold w' hw')

/-- A tunnel a `close_all_for_host` call is about to take out of the map is one that it
has closed. -/
theorem retained_closed (hi : ManagerInv s) (hs : Swept s) {c : Nat} {w : Sweep}
    (hc : s.calls[c]? = some (.retain w)) {id : Nat} {r : TunnelRuntime} (hr : s.tunnels id = some r)
    (hreg : r.registered = true) (hhost : r.info.hostId = w.host) :
    r.closes c = some .returned ∧ r.cancelled = true := by
  have hmem : CallPc.retain w ∈ s.calls := List.mem_of_getElem? hc
  have hin : id ∈ w.closed := by
    rcases hs _ hmem w rfl id r hr hreg hhost with hin | hin | hin
    · exact hin
    · rw [hi.done _ hmem w rfl] at hin
      cases hin
    · cases hin
  obtain ⟨r₁, hr₁, -, hret⟩ := hi.closed c _ hc w rfl id hin
  rw [hr] at hr₁
  cases hr₁
  exact ⟨hret hreg, (hi.runtime id r hr).cancelled c _ (hret hreg) rfl⟩

theorem listed_step (hi : ManagerInv s) (hs : Swept s) (hl : Listed s) {a : ManagerAction}
    (h : managerStep s a = some t) : Listed t := by
  rcases (managerStep_spec h).1 with ⟨ht, -⟩ | ⟨_, _, _, _, _, ht, -⟩ | ⟨id, r, r', b, hr, hb, -, ht, -⟩ |
    ⟨c, w, -, hc, ht, -⟩
  · intro id r hr
    rw [ht] at hr
    exact hl id r hr
  · intro id r hr ho
    rw [ht] at hr
    rcases entry_of_update hr with ⟨-, ⟨⟩⟩ | ⟨-, hr⟩
    · cases ho
    · exact hl id r hr ho
  · exact listed_moved hi hl hr hb ht
  · intro id x hx ho hlive
    rw [ht] at hx
    obtain ⟨r, hr, rfl⟩ := Option.map_eq_some_iff.mp hx
    have hlive' : r.live = true := hlive
    have hreg := hl id r hr ho hlive
    show (r.registered && r.info.hostId != w.host) = true
    rw [hreg, Bool.true_and, bne_iff_ne]
    intro hhost
    rw [TunnelRuntime.live, (retained_closed hi hs hc hr hreg hhost).2, Bool.not_true, Bool.and_false] at hlive'
    cases hlive'

end

/-- In every run in which no tunnel is entered while its host is being swept, the map has
every live tunnel, and a tunnel leaves the map only in the last step of a
`close_all_for_host` call that has itself closed it. -/
theorem live_tunnels_listed {s : TunnelManager} (hr : managerMachine.Reach NoneEnters FreshManager s) :
    Listed s ∧ ∀ a t id r r', managerMachine.step s a = some t → s.tunnels id = some r →
      r.registered = true → t.tunnels id = some r' → r'.registered = false →
      ∃ c w, a = .call c .go ∧ s.calls[c]? = some (.retain w) ∧ r.closes c = some .returned ∧
        r.cancelled = true := by
  obtain ⟨hi, hs, hl⟩ : ManagerInv s ∧ Swept s ∧ Listed s := by
    refine hr.invariant (I := fun s => ManagerInv s ∧ Swept s ∧ Listed s) ?_ fun _ _ _ hi hok hstep =>
      ⟨managerInv_step hi.1 hstep, swept_step hi.1 hi.2.1 hok hstep, listed_step hi.1 hi.2.1 hi.2.2 hstep⟩
    rintro _ rfl
    exact ⟨managerInv_new, by rintro _ ⟨⟩, by rintro _ _ ⟨⟩⟩
  refine ⟨hl, fun a t id r r' h hid hreg hid' hout => ?_⟩
  have leaves : ∀ {x : TunnelRuntime}, t.tunnels id = some x → x.registered = true → False := by
    intro x hx hin
    rw [hid'] at hx
    cases hx
    rw [hout] at hin
    cases hin
  cases (managerStep_spec h).1 with
  | same ht _ => exact (leaves (ht ▸ hid) hreg).elim
  | made _ _ _ _ _ ht _ =>
    refine (leaves (x := r) ?_ hreg).elim
    rw [ht, Function.update_of_ne (Nat.ne_of_lt (hi.drawn id r hid)), hid]
  | moved j r₁ r₂ b hr₁ hb _ ht _ =>
    by_cases hj : id = j
    · subst hj
      rw [hid] at hr₁
      cases hr₁
      have hkept := (runtimeStep_later (hi.runtime id r hid) hb).kept hreg
      exact (leaves (by rw [ht, Function.update_self]) hkept).elim
    · exact (leaves (by rw [ht, Function.update_of_ne hj, hid]) hreg).elim
  | removed c w ha hc ht _ =>
    have hhost : r.info.hostId = w.host := by
      by_contra hne
      refine leaves (x := { r with registered := r.registered && r.info.hostId != w.host }) ?_ ?_
      · rw [ht]
        show (s.tunnels id).map _ = _
        rw [hid]
        rfl
      · show (r.registered && r.info.hostId != w.host) = true
        rw [hreg, Bool.true_and, bne_iff_ne]
        exact hne
    exact ⟨c, w, ha, hc, retained_closed hi hs hc hid hreg hhost⟩

/-! ## Traces -/

/-- The steps of the call numbered `c` from its checks to its return, with the end
of the `open` it makes for tunnel `id`. -/
def openTrace (c id : Nat) : List ManagerAction :=
  List.flatten [[.call c .go, .call c (.bound 40000), .call c .go], List.replicate 3 (.tunnel id .opener),
    [.call c .go]]

def sampleArgs : OpenArgs := ⟨0, ['h'], 80⟩

def sampleHost : HostId := ⟨0⟩

/-- The steps of the call numbered `c`, a `close_all_for_host` on its own, up to its last
one: it closes the tunnel `id`. -/
def sweepTrace (c id : Nat) : List ManagerAction :=
  List.flatten [[.call c (.ids [id]), .call c .go, .call c .go],
    List.replicate 3 (.tunnel id (.closeStep c)), [.tunnel id (.accept .cancelled)],
    List.replicate 6 (.tunnel id (.closeStep c)), [.call c .go, .call c .go]]

/-- A tunnel is opened, and a `close_all_for_host` call that starts then closes it and
takes it out. -/
theorem open_tunnel_swept :
    ∃ s t r r', managerMachine.Reach NoneEnters FreshManager s ∧ Listed s ∧
      managerMachine.step s (.call 2 .go) = some t ∧ s.tunnels 0 = some r ∧ r.registered = true ∧
      t.tunnels 0 = some r' ∧ r'.registered = false ∧ r.closes 2 = some .returned ∧ r.cancelled = true := by
  obtain ⟨s, hs, hp⟩ := Machine.Reach.of_run managerMachine NoneEnters freshManager_new
    (List.flatten [[.attach sampleHost, .call 0 .go, .call 0 (.ids []), .call 0 .go, .call 0 .go],
      [.openTunnel sampleHost sampleArgs, .call 1 .go], openTrace 1 0, [.closeAllForHost sampleHost],
      sweepTrace 2 0])
    (fun s => (s.tunnels 0).any (fun r : TunnelRuntime => r.registered) &&
      (managerMachine.step s (.call 2 .go)).any fun t =>
        (t.tunnels 0).any fun r : TunnelRuntime => !r.registered) (by decide)
  simp only [Bool.and_eq_true, Option.any_eq_true, Bool.not_eq_true'] at hp
  obtain ⟨⟨r, hr, hreg⟩, t, ht, r', hr', hout⟩ := hp
  obtain ⟨hl, hleave⟩ := live_tunnels_listed hs
  obtain ⟨c, w, hc, -, hret, hcan⟩ := hleave _ t 0 r r' ht hr hreg hr' hout
  cases hc
  exact ⟨s, t, r, r', hs, hl, ht, hr, hreg, hr', hout, hret, hcan⟩

/-- The tunnel `id` is entered, live, and not in the map. -/
def TunnelManager.unreachable (s : TunnelManager) (id : Nat) : Bool :=
  (s.tunnels id).any fun r => r.opener == .opened && (r.live && !r.registered)

/-- A tunnel is opened while a `close_all_for_host` call of its host is between its
copy of the ids, which is empty, and its last step. All calls have returned. -/
theorem open_tunnel_unreachable :
    ∃ s, managerMachine.Reach Machine.free FreshManager s ∧ (∀ pc ∈ s.calls, ∃ r, pc = .returned r) ∧
      ∃ r, s.tunnels 0 = some r ∧ r.opener = .opened ∧ r.live = true ∧ r.registered = false := by
  obtain ⟨s, hs, hp⟩ := Machine.Reach.of_run managerMachine Machine.free freshManager_new
    (List.flatten [[.attach sampleHost, .call 0 .go, .call 0 (.ids []), .call 0 .go, .call 0 .go],
      [.closeAllForHost sampleHost, .call 1 (.ids []), .call 1 .go],
      [.openTunnel sampleHost sampleArgs, .call 2 .go], openTrace 2 0, [.call 1 .go]])
    (fun s => s.unreachable 0 &&
      decide (s.calls = [.returned .unit, .returned .unit, .returned (.opened 0)])) (by decide)
  simp only [unreachable, Bool.and_eq_true, Option.any_eq_true, beq_iff_eq, Bool.not_eq_true',
    decide_eq_true_eq] at hp
  obtain ⟨⟨r, hr, ho, hl, hn⟩, hc⟩ := hp
  refine ⟨s, hs, fun pc hpc => ?_, r, hr, ho, hl, hn⟩
  rw [hc] at hpc
  simp only [List.mem_cons, List.not_mem_nil, or_false] at hpc
  rcases hpc with rfl | rfl | rfl <;> exact ⟨_, rfl⟩

end KW.Tunnel
