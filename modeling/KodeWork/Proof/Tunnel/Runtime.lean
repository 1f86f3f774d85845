import KodeWork.Impl.Tunnel.Runtime

/-!
# What holds in every state of a tunnel

`RuntimeInv` is the invariant of one tunnel, kept here by the steps of the accept
loop (`RuntimeInv.accept`) and of the proxies (`ProxySpec.runtimeInv`). Its parts:

* the count of connections is the number of live guards (`count`);
* a proxy that has code left to run and whose handle has been entered is in the
  map, or in the hands of a close call that waits for it (`tracked`): a proxy may
  end before its handle is entered, and may take its handle out itself;
* what each close call has got done by the place where it stands (`closes`).
-/

namespace KW.Tunnel

open TunnelRuntime

/-! ## Counting guards -/

/-- Two predicates that differ at one number below `n`. -/
theorem countP_range_succ {p q : Nat → Bool} {n k : Nat} (hk : k < n) (hp : p k = false) (hq : q k = true)
    (h : ∀ j, j ≠ k → q j = p j) : (List.range n).countP q = (List.range n).countP p + 1 := by
  have same : ∀ m, m ≤ k → (List.range m).countP q = (List.range m).countP p := by
    intro m hm
    refine List.countP_congr fun j hj => ?_
    have hlt := List.mem_range.mp hj
    rw [h j (by omega)]
  induction n with
  | zero => omega
  | succ n ih =>
    rw [List.range_succ, List.countP_append, List.countP_append, List.countP_singleton,
      List.countP_singleton]
    by_cases e : n = k
    · rw [e, same k (Nat.le_refl k), hp, hq]
      simp
    · rw [ih (by omega), h n e]
      omega

/-! ## The invariant -/

/-- The accept loop has ended, and no proxy has code left to run. -/
structure TunnelRuntime.Quiet (r : TunnelRuntime) : Prop where
  accept : r.accept = .ended
  proxies : ∀ id pc, r.proxies id = some pc → pc.running = false

/-- The connection the accept loop has at hand, before it is spawned as a proxy. -/
def AcceptPc.pending : AcceptPc → Option Nat
  | .forward id | .filter id | .count id | .spawn id => some id
  | _ => none

/-- The channel at hand is in the filter, and its proxy is still to be spawned. -/
def AcceptPc.entered : AcceptPc → Option Nat
  | .count id | .spawn id => some id
  | _ => none

/-- The guard of the channel has released it. -/
def ProxyPc.released : ProxyPc → Bool
  | .remove | .done | .finished => true
  | _ => false

/-- The close call has the lock. -/
def ClosePc.holding : ClosePc → Bool
  | .lock | .returned => false
  | _ => true

/-- The close call has cancelled the token. -/
def ClosePc.hasCancelled : ClosePc → Bool
  | .lock | .cancel => false
  | _ => true

/-- What holds at each place of a close call. -/
def ClosePc.Holds (r : TunnelRuntime) : ClosePc → Prop
  | .drain => r.accept = .ended
  | .join tasks => r.accept = .ended ∧
      ∀ id pc, r.proxies id = some pc → pc.running = true → id ∈ tasks
  | .storeZero | .setClosed => r.Quiet
  | .unlock | .returned => r.Quiet ∧ r.info.state = .closed ∧ r.info.activeConnections = 0
  | _ => True

/-- What holds in every state of a tunnel. -/
structure RuntimeInv (r : TunnelRuntime) : Prop where
  count : r.activeConnections = r.liveGuards
  /-- A connection at hand is new. -/
  pending : ∀ id, r.accept.pending = some id → id < r.nextConn ∧ r.proxies id = none
  drawn : ∀ id pc, r.proxies id = some pc → id < r.nextConn
  entered : ∀ id, r.forwarded id = true →
    r.accept.entered = some id ∨ (r.proxies id).isSome = true
  forwarded : ∀ id, r.accept.entered = some id ∨ (r.proxies id).isSome = true → r.forwarded id = true
  released : ∀ id, r.released id = if (r.proxies id).any ProxyPc.released then 1 else 0
  filtered : ∀ id, r.filtered id = true → r.forwarded id = true ∧ r.released id = 0
  tracked : ∀ id pc, r.proxies id = some pc → pc.running = true →
    r.accept = .insert id ∨ r.connections id = true ∨
      ∃ c tasks, r.closes c = some (.join tasks) ∧ id ∈ tasks
  opened : r.registered = true → r.opener = .opened
  closing : ∀ c pc, r.closes c = some pc → r.opener = .opened
  stored : r.opener = .insert ∨ r.opener = .opened → r.acceptTask = true ∨ r.accept = .ended ∨
    ∃ c, r.closes c = some .joinAccept
  lock : ∀ c pc, r.closes c = some pc → pc.holding = true → r.closeLock = some c
  cancelled : ∀ c pc, r.closes c = some pc → pc.hasCancelled = true → r.cancelled = true
  closes : ∀ c pc, r.closes c = some pc → pc.Holds r

theorem runtimeInv_new (hostId : HostId) (transport localPort : Nat) (remoteHost : Text)
    (remotePort : Nat) : RuntimeInv (.new hostId transport localPort remoteHost remotePort) where
  count := rfl
  pending := by rintro _ ⟨⟩
  drawn := by rintro _ _ ⟨⟩
  entered := by rintro _ ⟨⟩
  forwarded := by rintro _ (⟨⟨⟩⟩ | ⟨⟨⟩⟩)
  released := fun _ => rfl
  filtered := by rintro _ ⟨⟩
  tracked := by rintro _ _ ⟨⟩
  opened := by rintro ⟨⟩
  closing := by rintro _ _ ⟨⟩
  stored := by rintro (⟨⟨⟩⟩ | ⟨⟨⟩⟩)
  lock := by rintro _ _ ⟨⟩
  cancelled := by rintro _ _ ⟨⟩
  closes := by rintro _ _ ⟨⟩

theorem RuntimeInv.sameCount {r t : TunnelRuntime} (hi : RuntimeInv r)
    (ha : t.activeConnections = r.activeConnections) (hn : t.nextConn = r.nextConn)
    (h : ∀ id, t.guarded id = r.guarded id) : t.activeConnections = t.liveGuards := by
  rw [ha, hi.count, liveGuards, liveGuards, hn]
  exact congrArg _ (List.countP_congr fun id _ => by rw [h id])

/-- A connection is accepted, and has no guard yet. -/
theorem liveGuards_accepted {r t : TunnelRuntime} (hn : t.nextConn = r.nextConn + 1)
    (hg : t.guarded = r.guarded) (hlast : r.guarded r.nextConn = false) : t.liveGuards = r.liveGuards := by
  rw [liveGuards, liveGuards, hn, hg, List.range_succ, List.countP_append, List.countP_singleton, hlast]
  rfl

/-- A quiet tunnel has no live guard. -/
theorem TunnelRuntime.Quiet.liveGuards {r : TunnelRuntime} (h : r.Quiet) : r.liveGuards = 0 := by
  rw [TunnelRuntime.liveGuards, List.countP_eq_zero]
  intro id _
  have hg : (r.proxies id).any ProxyPc.guarded = false := by
    cases hp : r.proxies id with
    | none => rfl
    | some pc =>
      have hrun := h.proxies id pc hp
      cases pc <;> first | rfl | cases hrun
  have ha : (r.accept == .spawn id) = false := by
    rw [h.accept]
    rfl
  rw [guarded, ha, hg]
  decide

/-- What a close call relies on, over a step that starts no proxy. -/
theorem ClosePc.Holds.keep {r t : TunnelRuntime} {pc : ClosePc} (h : pc.Holds r)
    (ha : t.accept = r.accept)
    (hp : ∀ id p, t.proxies id = some p → p.running = true →
      ∃ q, r.proxies id = some q ∧ q.running = true)
    (hs : r.Quiet → r.info.state = .closed ∧ r.info.activeConnections = 0 →
      t.info.state = .closed ∧ t.info.activeConnections = 0) : pc.Holds t := by
  have quiet : r.Quiet → t.Quiet := by
    intro hq
    refine ⟨ha ▸ hq.accept, fun id p h => ?_⟩
    by_contra hrun
    obtain ⟨q, hq', hrun'⟩ := hp id p h (eq_true_of_ne_false hrun)
    rw [hq.proxies id q hq'] at hrun'
    cases hrun'
  cases pc with
  | lock | cancel | takeTask | joinAccept => trivial
  | drain => exact ha.trans h
  | join tasks =>
    refine ⟨ha.trans h.1, fun id p h' hrun => ?_⟩
    obtain ⟨q, hq, hrun'⟩ := hp id p h' hrun
    exact h.2 id q hq hrun'
  | storeZero | setClosed => exact quiet h
  | unlock | returned => exact ⟨quiet h.1, hs h.1 h.2⟩

/-! ## Steps of the accept loop -/

/-- The accept loop has not ended, so no close call is past waiting for it. -/
theorem ClosePc.Holds.early {r : TunnelRuntime} {pc : ClosePc} (h : pc.Holds r) (hn : r.accept ≠ .ended)
    (t : TunnelRuntime) : pc.Holds t := by
  cases pc with
  | lock | cancel | takeTask | joinAccept => trivial
  | drain => exact absurd h hn
  | join tasks => exact absurd h.1 hn
  | storeZero | setClosed => exact absurd h.accept hn
  | unlock | returned => exact absurd h.1.accept hn

/-- The accept loop moves, between places without a connection that is not yet
spawned or not yet entered. -/
theorem RuntimeInv.acceptQuiet {r t : TunnelRuntime} (hi : RuntimeInv r) {pc : AcceptPc}
    (ht : t = { r with accept := pc, info := t.info }) (hn : r.accept ≠ .ended)
    (hr : ∀ id, r.accept ≠ .insert id) (hs : ∀ id, r.accept ≠ .spawn id) (hs' : ∀ id, pc ≠ .spawn id)
    (he : r.accept.entered = none) (he' : pc.entered = none)
    (hp : ∀ id, pc.pending = some id → r.accept.pending = some id) : RuntimeInv t := by
  rw [ht]
  exact { hi with
    count := by
      refine hi.sameCount rfl rfl fun id => ?_
      have h : (r.accept == .spawn id) = false := beq_eq_false_iff_ne.mpr (hs id)
      have h' : (pc == .spawn id) = false := beq_eq_false_iff_ne.mpr (hs' id)
      simp only [guarded, h, h']
    pending := fun id h => hi.pending id (hp id h)
    entered := fun id h => .inr ((hi.entered id h).resolve_left (by rw [he]; rintro ⟨⟩))
    forwarded := by
      rintro id (h | h)
      · rw [he'] at h
        cases h
      · exact hi.forwarded id (.inr h)
    tracked := fun id p h hrun => .inr ((hi.tracked id p h hrun).resolve_left (hr id))
    stored := fun h => (hi.stored h).imp_right fun h => .inr (h.resolve_left hn)
    closes := fun c p h => (hi.closes c p h).early hn _ }

/-- `reap_finished_connections` takes out no task that has code left to run. -/
theorem RuntimeInv.reap {r : TunnelRuntime} (hi : RuntimeInv r) : RuntimeInv r.reapFinished :=
  { hi with
    tracked := by
      intro id p h hrun
      refine (hi.tracked id p h hrun).imp_right fun ht => ht.imp_left fun hc => ?_
      have hp : r.proxies id = some p := h
      have hf : (r.proxies id != some .finished) = true := by
        rw [hp]
        cases p <;> first | rfl | cases hrun
      show (r.connections id && r.proxies id != some .finished) = true
      rw [hc, hf]
      rfl
    closes := fun c p h => (hi.closes c p h).keep rfl (fun _ q h hrun => ⟨q, h, hrun⟩) fun _ hs => hs }

section

variable {r : TunnelRuntime}

/-- The accept loop goes on from a place where it is still running. -/
theorem RuntimeInv.stillStored (hi : RuntimeInv r) (hn : r.accept ≠ .ended) {t : TunnelRuntime}
    (ht : t.acceptTask = r.acceptTask) (hc : t.closes = r.closes) (ho : t.opener = r.opener) :
    t.opener = .insert ∨ t.opener = .opened →
      t.acceptTask = true ∨ t.accept = .ended ∨ ∃ c, t.closes c = some .joinAccept := by
  rw [ht, hc, ho]
  exact fun h => (hi.stored h).imp_right fun h => .inr (h.resolve_left hn)

theorem RuntimeInv.accepted (hi : RuntimeInv r) (hpc : r.accept = .select) :
    RuntimeInv { r with accept := .forward r.nextConn, nextConn := r.nextConn + 1 } := by
  have hn : r.accept ≠ .ended := by
    rw [hpc]
    nofun
  have hnew : r.proxies r.nextConn = none := by
    cases hp : r.proxies r.nextConn with
    | none => rfl
    | some p => exact absurd (hi.drawn _ p hp) (Nat.lt_irrefl _)
  exact { hi with
    count := by
      have hlast : r.guarded r.nextConn = false := by
        rw [guarded, hpc, hnew]
        rfl
      rw [liveGuards_accepted (r := r) rfl ?_ hlast]
      · exact hi.count
      · funext id
        rw [guarded, guarded, hpc]
        rfl
    pending := by
      rintro _ ⟨⟩
      exact ⟨Nat.lt_succ_self _, hnew⟩
    drawn := fun id p h => Nat.lt_succ_of_lt (hi.drawn id p h)
    entered := fun id h => .inr ((hi.entered id h).resolve_left (by rw [hpc]; rintro ⟨⟩))
    forwarded := by
      rintro id (⟨⟨⟩⟩ | h)
      exact hi.forwarded id (.inr h)
    tracked := fun id p h hrun => .inr ((hi.tracked id p h hrun).resolve_left (by rw [hpc]; nofun))
    stored := hi.stillStored hn rfl rfl rfl
    closes := fun c p h => (hi.closes c p h).early hn _ }

theorem RuntimeInv.filterEntered (hi : RuntimeInv r) {id : Nat} (hpc : r.accept = .filter id) :
    RuntimeInv { r with
      accept := .count id, filtered := Function.update r.filtered id true
      forwarded := Function.update r.forwarded id true } := by
  have hn : r.accept ≠ .ended := by
    rw [hpc]
    nofun
  obtain ⟨hlt, hnew⟩ := hi.pending id (by rw [hpc]; rfl)
  exact { hi with
    count := hi.sameCount rfl rfl fun j => by
      rw [guarded, guarded, hpc]
      rfl
    pending := by
      rintro _ ⟨⟩
      exact ⟨hlt, hnew⟩
    entered := by
      intro j h
      by_cases hj : j = id
      · exact .inl (by rw [hj]; rfl)
      · have h' : Function.update r.forwarded id true j = true := h
        rw [Function.update_of_ne hj] at h'
        exact .inr ((hi.entered j h').resolve_left (by rw [hpc]; rintro ⟨⟩))
    forwarded := by
      intro j h
      show Function.update r.forwarded id true j = true
      by_cases hj : j = id
      · rw [hj, Function.update_self]
      · rw [Function.update_of_ne hj]
        refine hi.forwarded j (.inr (h.resolve_left ?_))
        rintro ⟨⟩
        exact hj rfl
    filtered := by
      intro j h
      show Function.update r.forwarded id true j = true ∧ r.released j = 0
      by_cases hj : j = id
      · rw [hj, Function.update_self, hi.released id, hnew]
        exact ⟨rfl, rfl⟩
      · have h' : Function.update r.filtered id true j = true := h
        rw [Function.update_of_ne hj] at h' ⊢
        exact hi.filtered j h'
    tracked := fun j p h hrun => .inr ((hi.tracked j p h hrun).resolve_left (by rw [hpc]; nofun))
    stored := hi.stillStored hn rfl rfl rfl
    closes := fun c p h => (hi.closes c p h).early hn _ }

theorem RuntimeInv.counted (hi : RuntimeInv r) {id : Nat} (hpc : r.accept = .count id) :
    RuntimeInv { r with accept := .spawn id, activeConnections := r.activeConnections + 1 } := by
  have hn : r.accept ≠ .ended := by
    rw [hpc]
    nofun
  obtain ⟨hlt, hnew⟩ := hi.pending id (by rw [hpc]; rfl)
  exact { hi with
    count := by
      have hold : r.guarded id = false := by
        rw [guarded, hpc, hnew]
        rfl
      show r.activeConnections + 1 = _
      rw [hi.count, liveGuards, liveGuards]
      refine (congrArg Int.ofNat (countP_range_succ hlt hold ?_ fun j hj => ?_)).symm
      · rw [guarded]
        simp
      · rw [guarded, guarded, hpc]
        have hne : (AcceptPc.spawn id == .spawn j) = false := by
          simpa using fun h => hj (h.symm)
        rw [hne]
        rfl
    pending := by
      rintro _ ⟨⟩
      exact ⟨hlt, hnew⟩
    entered := fun j h => (hi.entered j h).imp_left fun h => by rwa [hpc] at h
    forwarded := fun j h => hi.forwarded j (h.imp_left fun h => by rwa [hpc])
    tracked := fun j p h hrun => .inr ((hi.tracked j p h hrun).resolve_left (by rw [hpc]; nofun))
    stored := hi.stillStored hn rfl rfl rfl
    closes := fun c p h => (hi.closes c p h).early hn _ }

theorem RuntimeInv.spawned (hi : RuntimeInv r) {id : Nat} (hpc : r.accept = .spawn id) :
    RuntimeInv { r with
      accept := .insert id, proxies := Function.update r.proxies id (some .proxying) } := by
  have hn : r.accept ≠ .ended := by
    rw [hpc]
    nofun
  obtain ⟨hlt, hnew⟩ := hi.pending id (by rw [hpc]; rfl)
  exact { hi with
    count := hi.sameCount rfl rfl fun j => by
      rw [guarded, guarded, hpc]
      show (_ || (Function.update r.proxies id (some .proxying) j).any ProxyPc.guarded) = _
      by_cases hj : j = id
      · rw [hj, Function.update_self]
        simp [ProxyPc.guarded]
      · rw [Function.update_of_ne hj]
        have hne : (AcceptPc.spawn id == .spawn j) = false := by
          simpa using fun h => hj (h.symm)
        rw [hne]
        rfl
    pending := by rintro _ ⟨⟩
    drawn := by
      intro j p h
      rcases entry_of_update h with ⟨hj, -⟩ | ⟨-, h⟩
      · exact hj ▸ hlt
      · exact hi.drawn j p h
    entered := by
      intro j h
      right
      show (Function.update r.proxies id _ j).isSome = true
      by_cases hj : j = id
      · rw [hj, Function.update_self]
        rfl
      · rw [Function.update_of_ne hj]
        refine (hi.entered j h).resolve_left fun he => hj ?_
        rw [hpc] at he
        exact (Option.some.inj he).symm
    forwarded := by
      rintro j (⟨⟨⟩⟩ | h)
      by_cases hj : j = id
      · exact hi.forwarded j (.inl (by rw [hpc, hj]; rfl))
      · have h' : (Function.update r.proxies id (some ProxyPc.proxying) j).isSome = true := h
        rw [Function.update_of_ne hj] at h'
        exact hi.forwarded j (.inr h')
    released := by
      intro j
      show r.released j = if (Function.update r.proxies id _ j).any _ then 1 else 0
      by_cases hj : j = id
      · rw [hj, Function.update_self, hi.released, hnew]
        rfl
      · rw [Function.update_of_ne hj, hi.released]
    tracked := by
      intro j p h hrun
      rcases entry_of_update h with ⟨hj, -⟩ | ⟨-, h⟩
      · exact .inl (by rw [hj])
      · exact .inr ((hi.tracked j p h hrun).resolve_left (by rw [hpc]; nofun))
    stored := hi.stillStored hn rfl rfl rfl
    closes := fun c p h => (hi.closes c p h).early hn _ }

theorem RuntimeInv.inserted (hi : RuntimeInv r) {id : Nat} (hpc : r.accept = .insert id) :
    RuntimeInv { r with accept := .reap, connections := Function.update r.connections id true } := by
  have hn : r.accept ≠ .ended := by
    rw [hpc]
    nofun
  exact { hi with
    count := hi.sameCount rfl rfl fun j => by
      rw [guarded, guarded, hpc]
      rfl
    pending := by rintro _ ⟨⟩
    entered := fun j h => (hi.entered j h).imp_left fun h => by rwa [hpc] at h
    forwarded := by
      rintro j (⟨⟨⟩⟩ | h)
      exact hi.forwarded j (.inr h)
    tracked := by
      intro j p h hrun
      right
      show Function.update r.connections id true j = true ∨ _
      by_cases hj : j = id
      · exact .inl (by rw [hj, Function.update_self])
      · rw [Function.update_of_ne hj]
        refine (hi.tracked j p h hrun).resolve_left fun he => hj ?_
        rw [hpc] at he
        cases he
        rfl
    stored := hi.stillStored hn rfl rfl rfl
    closes := fun c p h => (hi.closes c p h).early hn _ }

end

theorem RuntimeInv.accept {r t : TunnelRuntime} {c : AcceptChoice} (hi : RuntimeInv r)
    (h : r.acceptStep r.accept c = some t) : RuntimeInv t := by
  cases hpc : r.accept with
  | select =>
    rw [hpc] at h
    cases c with
    | cancelled =>
      simp only [acceptStep] at h
      split at h <;> cases h
      exact hi.acceptQuiet rfl (by rw [hpc]; nofun) (by rw [hpc]; nofun) (by rw [hpc]; nofun) nofun
        (by rw [hpc]; rfl) rfl nofun
    | acceptError e =>
      cases h
      exact hi.acceptQuiet rfl (by rw [hpc]; nofun) (by rw [hpc]; nofun) (by rw [hpc]; nofun) nofun
        (by rw [hpc]; rfl) rfl nofun
    | accepted =>
      cases h
      exact hi.accepted hpc
    | go | forwarded | forwardError e => cases h
  | forward id =>
    rw [hpc] at h
    cases c with
    | forwarded =>
      cases h
      exact hi.acceptQuiet rfl (by rw [hpc]; nofun) (by rw [hpc]; nofun) (by rw [hpc]; nofun) nofun
        (by rw [hpc]; rfl) rfl fun j h => by rwa [hpc]
    | forwardError e =>
      cases h
      exact hi.acceptQuiet rfl (by rw [hpc]; nofun) (by rw [hpc]; nofun) (by rw [hpc]; nofun) nofun
        (by rw [hpc]; rfl) rfl nofun
    | go | cancelled | accepted | acceptError e => cases h
  | filter id =>
    rw [hpc] at h
    cases c <;> cases h
    exact hi.filterEntered hpc
  | count id =>
    rw [hpc] at h
    cases c <;> cases h
    exact hi.counted hpc
  | spawn id =>
    rw [hpc] at h
    cases c <;> cases h
    exact hi.spawned hpc
  | insert id =>
    rw [hpc] at h
    cases c <;> cases h
    exact hi.inserted hpc
  | reap =>
    rw [hpc] at h
    cases c <;> cases h
    have hpc' : r.reapFinished.accept = .reap := hpc
    exact hi.reap.acceptQuiet rfl (by rw [hpc']; nofun) (by rw [hpc']; nofun) (by rw [hpc']; nofun) nofun
      (by rw [hpc']; rfl) rfl nofun
  | fail e =>
    rw [hpc] at h
    cases c <;> cases h
    exact hi.acceptQuiet rfl (by rw [hpc]; nofun) (by rw [hpc]; nofun) (by rw [hpc]; nofun) nofun
      (by rw [hpc]; rfl) rfl nofun
  | ended =>
    rw [hpc] at h
    cases c <;> cases h

/-! ## Steps of the proxies -/

/-- The proxy of connection `id` goes from `p` to `q`. -/
structure ProxySpec (r : TunnelRuntime) (id : Nat) (p q : ProxyPc) (t : TunnelRuntime) : Prop where
  eq : t = { r with
    proxies := Function.update r.proxies id (some q), activeConnections := t.activeConnections
    filtered := t.filtered, released := t.released, connections := t.connections }
  count : t.activeConnections + (if p.guarded then 1 else 0) =
    r.activeConnections + (if q.guarded then 1 else 0)
  guarded : q.guarded = true → p.guarded = true
  running : q.running = true → p.running = true
  connections : ∀ j, j ≠ id ∨ q.running = true → t.connections j = r.connections j
  released : t.released id + (if p.released then 1 else 0) = r.released id + (if q.released then 1 else 0)
  others : ∀ j, j ≠ id → t.released j = r.released j
  filtered : ∀ j, t.filtered j = true → r.filtered j = true ∧ (j = id → q.released = p.released)

theorem proxyStep_spec {r t : TunnelRuntime} {id : Nat} {p : ProxyPc} {c : ProxyChoice}
    (h : r.proxyStep id p c = some t) : ∃ q, ProxySpec r id p q t := by
  cases p with
  | proxying =>
    cases c <;> cases h
    · exact ⟨_, rfl, rfl, fun _ => rfl, fun _ => rfl, fun _ _ => rfl, rfl, fun _ _ => rfl,
        fun _ h => ⟨h, fun _ => rfl⟩⟩
    · exact ⟨_, rfl, rfl, fun _ => rfl, fun _ => rfl, fun _ _ => rfl, rfl, fun _ _ => rfl,
        fun _ h => ⟨h, fun _ => rfl⟩⟩
  | dropGuard unwinding =>
    cases c <;> cases h
    exact ⟨_, rfl, by simp [goProxy, ProxyPc.guarded], fun _ => rfl, fun _ => rfl, fun _ _ => rfl, rfl,
      fun _ _ => rfl, fun _ h => ⟨h, fun _ => rfl⟩⟩
  | release unwinding =>
    cases c <;> cases h
    refine ⟨if unwinding then .done else .remove, rfl, ?_, ?_, fun _ => rfl, fun _ _ => rfl, ?_, ?_, ?_⟩
    · cases unwinding <;> rfl
    · cases unwinding <;> exact fun h => by cases h
    · show Function.update r.released id _ id + _ = _
      rw [Function.update_self]
      cases unwinding <;> rfl
    · exact fun j hj => Function.update_of_ne hj _ _
    · intro j h
      have h' : Function.update r.filtered id false j = true := h
      by_cases hj : j = id
      · rw [hj, Function.update_self] at h'
        cases h'
      · rw [Function.update_of_ne hj] at h'
        exact ⟨h', fun e => absurd e hj⟩
  | remove =>
    cases c <;> cases h
    refine ⟨.done, rfl, rfl, nofun, fun _ => rfl, fun j hj => ?_, rfl, fun _ _ => rfl,
      fun _ h => ⟨h, fun _ => rfl⟩⟩
    exact Function.update_of_ne (hj.resolve_right (by decide)) _ _
  | done =>
    cases c <;> cases h
    exact ⟨.finished, rfl, rfl, nofun, nofun, fun _ _ => rfl, rfl,
      fun _ _ => rfl, fun _ h => ⟨h, fun _ => rfl⟩⟩
  | finished => cases c <;> cases h

/-- The guard of one connection is as alive as it was, or gone. -/
theorem ProxySpec.liveGuards {r t : TunnelRuntime} {id : Nat} {p q : ProxyPc} (h : ProxySpec r id p q t)
    (hi : RuntimeInv r) (hp : r.proxies id = some p) : t.activeConnections = t.liveGuards := by
  have hnot : (r.accept == .spawn id) = false := by
    refine beq_eq_false_iff_ne.mpr fun ha => ?_
    obtain ⟨-, hn⟩ := hi.pending id (by rw [ha]; rfl)
    rw [hp] at hn
    cases hn
  have haccept : t.accept = r.accept := by rw [h.eq]
  have hproxies : t.proxies = Function.update r.proxies id (some q) := by rw [h.eq]
  have hnext : t.nextConn = r.nextConn := by rw [h.eq]
  have hold : r.guarded id = p.guarded := by
    rw [TunnelRuntime.guarded, hnot, hp]
    rfl
  have hnew : t.guarded id = q.guarded := by
    rw [TunnelRuntime.guarded, haccept, hproxies, hnot, Function.update_self]
    rfl
  have hsame : ∀ j, j ≠ id → t.guarded j = r.guarded j := by
    intro j hj
    rw [TunnelRuntime.guarded, haccept, hproxies, Function.update_of_ne hj, TunnelRuntime.guarded]
  have hcount := h.count
  have hinv := hi.count
  rw [TunnelRuntime.liveGuards, hnext]
  rw [TunnelRuntime.liveGuards] at hinv
  by_cases hg : p.guarded = q.guarded
  · have hc : (List.range r.nextConn).countP t.guarded = (List.range r.nextConn).countP r.guarded := by
      refine List.countP_congr fun j _ => ?_
      by_cases hj : j = id
      · rw [hj, hnew, hold, hg]
      · rw [hsame j hj]
    rw [hg] at hcount
    omega
  · have hpg : p.guarded = true := by
      by_contra hn
      refine hg ?_
      rw [eq_false_of_ne_true hn]
      exact (eq_false_of_ne_true fun hq => hn (h.guarded hq)).symm
    have hqg : q.guarded = false := eq_false_of_ne_true fun hq => hg (hpg.trans hq.symm)
    have hc := countP_range_succ (hi.drawn id p hp) (hnew.trans hqg) (hold.trans hpg)
      fun j hj => (hsame j hj).symm
    simp only [hpg, hqg, if_true, Bool.false_eq_true, if_false] at hcount
    omega

theorem ProxySpec.runtimeInv {r t : TunnelRuntime} {id : Nat} {p q : ProxyPc} (h : ProxySpec r id p q t)
    (hi : RuntimeInv r) (hp : r.proxies id = some p) : RuntimeInv t := by
  have hcount := h.liveGuards hi hp
  have hsome : ∀ j, (Function.update r.proxies id (some q) j).isSome = (r.proxies j).isSome := by
    intro j
    by_cases hj : j = id
    · rw [hj, Function.update_self, hp]
      rfl
    · rw [Function.update_of_ne hj]
  have hreleased : r.released id = if p.released then 1 else 0 := by
    rw [hi.released, hp]
    rfl
  rw [h.eq] at hcount ⊢
  exact { hi with
    count := hcount
    pending := by
      intro j hj
      obtain ⟨hlt, hn⟩ := hi.pending j hj
      refine ⟨hlt, ?_⟩
      rw [← Option.not_isSome_iff_eq_none, hsome, hn]
      decide
    drawn := by
      intro j p' hj
      rcases entry_of_update hj with ⟨rfl, -⟩ | ⟨-, hj⟩
      · exact hi.drawn j p hp
      · exact hi.drawn j p' hj
    entered := fun j hj => (hi.entered j hj).imp_right fun hs => (hsome j).trans hs
    forwarded := fun j hj => hi.forwarded j (hj.imp_right fun hs => (hsome j).symm.trans hs)
    released := by
      intro j
      show t.released j = if (Function.update r.proxies id (some q) j).any _ then 1 else 0
      by_cases hj : j = id
      · have hr := h.released
        rw [hj, Function.update_self]
        show t.released id = if q.released then 1 else 0
        omega
      · rw [h.others j hj, Function.update_of_ne hj, hi.released]
    filtered := by
      intro j hj
      obtain ⟨hf, he⟩ := h.filtered j hj
      obtain ⟨hfw, hr0⟩ := hi.filtered j hf
      refine ⟨hfw, ?_⟩
      show t.released j = 0
      by_cases hj : j = id
      · have hr := h.released
        rw [he hj] at hr
        rw [hj] at hr0 ⊢
        omega
      · rw [h.others j hj, hr0]
    tracked := by
      intro j p' hj hrun
      rcases entry_of_update hj with ⟨rfl, ⟨⟩⟩ | ⟨hne, hj⟩
      · refine (hi.tracked j p hp (h.running hrun)).imp_right fun ht => ht.imp_left fun hc => ?_
        exact (h.connections j (.inr hrun)).trans hc
      · refine (hi.tracked j p' hj hrun).imp_right fun ht => ht.imp_left fun hc => ?_
        exact (h.connections j (.inl hne)).trans hc
    closes := by
      refine fun c pc hc => (hi.closes c pc hc).keep rfl (fun j p' hj hrun => ?_) fun _ hs => hs
      rcases entry_of_update hj with ⟨rfl, ⟨⟩⟩ | ⟨-, hj⟩
      · exact ⟨p, hp, h.running hrun⟩
      · exact ⟨p', hj, hrun⟩ }

end KW.Tunnel
