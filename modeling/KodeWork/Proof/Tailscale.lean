import KodeWork.Impl.Tailscale

/-!
# The child a cached status is of

`status_for_config` stores what a daemon answered after it has left the section that
found its socket, and without `lifecycle`; meanwhile the daemon may have been replaced.
`superseded` tells such a store: another child is held, which runs, or which a call of
`ensure` is about to look into the cache for. Without it, what is cached was given by the
child wherever it can be taken from the cache (`step_cached`); after it, a call takes it
from there at once (`taken_of_lookup`, `taken_of_alive`).

The calls that hold `lifecycle` need no such condition: while one of them is past
`ensure_child`, the child is the only daemon that runs (`Inv.child_of_alive`), so what
`ensure` stores was given by it.
-/

namespace KW.Tailscale

open TailscaleRuntime Machine

variable {setup : Setup} {s t : TailscaleRuntime} {i : Nat} {pc : Pc}

/-! ## What is promised -/

/-- Every status a call took from the cache was given by the child that was held. -/
def Current (s : TailscaleRuntime) : Prop :=
  ∀ (i : Nat) answer held, s.calls[i]? = some (Pc.returned (.cached answer held)) → held = some answer.child

/-- The call is about to look into the cache, and takes what is cached for the path. -/
def Pc.looksFor (setup : Setup) (statePath : Text) : Pc → Bool
  | .ensureLookup path _ _ => Path.same setup.windows statePath path
  | _ => false

/-- Another child than the one that answered is held, and the cache may be used for it. -/
def superseded (setup : Setup) (s : TailscaleRuntime) (statePath : Text) (answer : Answer) : Bool :=
  s.child.any fun child =>
    child != answer.child && (s.isAlive child || s.calls.any (Pc.looksFor setup statePath))

/-- No answer is stored by `status_for_config` after its daemon was superseded. -/
def InTime (setup : Setup) (s : TailscaleRuntime) : Event → Prop
  | .call i .go =>
    match s.calls[i]? with
    | some (.statusStore _ expectedState answer) => superseded setup s expectedState answer = false
    | _ => True
  | _ => True

instance (setup : Setup) (s : TailscaleRuntime) (e : Event) : Decidable (InTime setup s e) := by
  unfold InTime
  split
  · split <;> infer_instance
  · infer_instance

/-! ## Daemons -/

@[simp] theorem isAlive_setCall (i : Nat) (pc : Pc) (child : Nat) :
    (s.setCall i pc).isAlive child = s.isAlive child := rfl

theorem isAlive_of_listens {child : Nat} {socket : Text} (h : s.listens child socket = true) :
    s.isAlive child = true := by
  simp only [listens, beq_iff_eq] at h
  simp only [isAlive, h, Option.any_some]

theorem isAlive_stop {child c : Nat} (h : (s.stop child).isAlive c = true) : c ≠ child ∧ s.isAlive c = true := by
  simp only [isAlive, stop, List.getElem?_modify] at h
  by_cases hc : child = c
  · subst hc
    cases hd : s.daemons[child]? <;> simp [hd] at h
  · simp only [hc, if_false, Option.map_eq_map, Option.map_id_fun', id_eq] at h
    exact ⟨fun heq => hc heq.symm, h⟩

theorem isAlive_forgetChild {child c : Nat} (hchild : s.child = some child)
    (h : (s.forgetChild child).isAlive c = true) : s.isAlive c = true ∧ s.child ≠ some c := by
  obtain ⟨hne, halive⟩ := isAlive_stop h
  exact ⟨halive, fun hheld => hne (Option.some.inj (hheld.symm.trans hchild))⟩

theorem isAlive_spawnChild {statePath socket : Text} {c : Nat}
    (h : (s.spawnChild statePath socket).isAlive c = true) : c = s.daemons.length ∨ s.isAlive c = true := by
  simp only [isAlive, spawnChild] at h
  obtain ⟨daemon, hd, hrunning⟩ := Option.any_eq_true _ _ |>.mp h
  rcases entry_of_concat hd with hold | ⟨rfl, -⟩
  · exact .inr (by rw [isAlive, hold]; exact hrunning)
  · exact .inl rfl

theorem childAlive_child {failed : Bool} (h : s.childAlive failed = true) :
    ∃ child, s.child = some child ∧ s.isAlive child = true := by
  obtain ⟨child, hchild, halive⟩ := Option.any_eq_true _ _ |>.mp h
  exact ⟨child, hchild, (Bool.and_eq_true_iff.mp halive).2⟩

theorem cachedFor_some {statePath : Text} {cached : CachedStatus} (h : s.cachedFor setup statePath = some cached) :
    s.cachedStatus = some cached ∧ Path.same setup.windows cached.statePath statePath = true := by
  obtain ⟨hcached, hp⟩ := Option.filter_eq_some_iff.mp h
  exact ⟨hcached, (Bool.and_eq_true_iff.mp hp).1⟩

/-! ## Steps of a call -/

/-- The path is that of an embedded configuration. -/
def Asked (setup : Setup) (config : TailscaleConfig) (statePath : Text) : Prop :=
  (config.enabled && config.mode == .embeddedUserspace) = true ∧ setup.statePath config = .ok statePath

/-- Where the state of the runtime says nothing of the call, but for the lock. -/
def Pc.plain : Pc → Bool
  | .statusQuery .. | .statusStore .. | .ensureLookup .. | .ensureStore .. | .shutdownKill _
  | .returned (.cached ..) => false
  | _ => true

/-- What one step of a call does. -/
inductive Moves (setup : Setup) (s : TailscaleRuntime) (i : Nat) (pc : Pc) : TailscaleRuntime → Prop
  | stays : Moves setup s i pc s
  | goes (next : Pc) (hnext : next.plain = true) (hlocked : next.locked = pc.locked)
    (hkill : ∀ child, pc ≠ .shutdownKill child) : Moves setup s i pc (s.setCall i next)
  | asks (config : TailscaleConfig) (statePath socket : Text) (hasked : Asked setup config statePath)
    (hfree : pc.locked = false) : Moves setup s i pc (s.setCall i (.statusQuery config statePath socket))
  | learns (config : TailscaleConfig) (statePath socket : Text) (answer : Answer)
    (hpc : pc = .statusQuery config statePath socket) :
    Moves setup s i pc (s.setCall i (.statusStore config statePath answer))
  | stores (config : TailscaleConfig) (statePath : Text) (answer : Answer)
    (hpc : pc = .statusStore config statePath answer) :
    Moves setup s i pc ((s.cacheStatus statePath answer).returns i (.status answer.status))
  | found (cached : CachedStatus) (hfree : pc.locked = false)
    (halive : ∃ child, s.child = some child ∧ s.isAlive child = true) (hcached : s.cachedStatus = some cached) :
    Moves setup s i pc (s.returns i (.cached cached.answer s.child))
  | locks (next : Pc) (hnext : next.plain = true) (hfree : pc.locked = false) (hlock : s.lifecycle = none) :
    Moves setup s i pc (s.lock i next)
  | unlocks (result : Returned) (hresult : (Pc.returned result).plain = true) (hlocked : pc.locked = true)
    (hkill : ∀ child, pc ≠ .shutdownKill child) : Moves setup s i pc (s.unlock i result)
  | reuses (statePath socket : Text) (authKey : Option (List UInt8)) (hpc : pc = .ensureChild statePath authKey)
    (halive : ∃ child, s.child = some child ∧ s.isAlive child = true) :
    Moves setup s i pc ({ s with socket := some socket }.setCall i (.ensureLookup statePath socket authKey))
  | fails (statePath : Text) (authKey : Option (List UInt8)) (child : Nat) (error : TailscaleError)
    (hpc : pc = .ensureChild statePath authKey) (hchild : s.child = some child) :
    Moves setup s i pc ((s.forgetChild child).unlock i (.error error))
  | starts (statePath socket : Text) (authKey : Option (List UInt8)) (s' : TailscaleRuntime)
    (hpc : pc = .ensureChild statePath authKey)
    (hs' : (s' = s ∧ s.child = none) ∨ ∃ child, s' = s.forgetChild child ∧ s.child = some child) :
    Moves setup s i pc ((s'.spawnChild statePath socket).setCall i (.ensureLookup statePath socket authKey))
  | foundLocked (statePath socket : Text) (authKey : Option (List UInt8)) (cached : CachedStatus)
    (hpc : pc = .ensureLookup statePath socket authKey) (hcached : s.cachedFor setup statePath = some cached) :
    Moves setup s i pc (s.unlock i (.cached cached.answer s.child))
  | answered (statePath : Text) (answer : Answer) (hlocked : pc.locked = true)
    (hkill : ∀ child, pc ≠ .shutdownKill child) (halive : s.isAlive answer.child = true) :
    Moves setup s i pc (s.setCall i (.ensureStore statePath answer))
  | storesLocked (statePath : Text) (answer : Answer) (hpc : pc = .ensureStore statePath answer) :
    Moves setup s i pc ((s.cacheStatus statePath answer).unlock i (.status answer.status))
  | takes (child : Nat) (hpc : pc = .shutdownTake) (hchild : s.child = some child) :
    Moves setup s i pc ({ s with child := none, socket := none, statePath := none, cachedStatus := none }.setCall i
      (.shutdownKill child))
  | takesNone (hpc : pc = .shutdownTake) (hchild : s.child = none) :
    Moves setup s i pc ({ s with child := none, socket := none, statePath := none, cachedStatus := none }.unlock i
      .unit)
  | kills (child : Nat) (hpc : pc = .shutdownKill child) :
    Moves setup s i pc ((s.stop child).unlock i .unit)

theorem retry_moves {deadline : Nat} {message : String} (hlocked : pc.locked = true)
    (hkill : ∀ child, pc ≠ .shutdownKill child) : Moves setup s i pc (s.retry i deadline message) := by
  unfold retry
  split
  · exact .unlocks _ rfl hlocked hkill
  · exact .stays

theorem statusSection_moves {config : TailscaleConfig} {statePath : Text} {failed : Bool}
    (hasked : Asked setup config statePath) (hfree : pc.locked = false) (hkill : ∀ child, pc ≠ .shutdownKill child) :
    Moves setup s i pc (s.statusSection setup i config statePath failed) := by
  unfold statusSection
  split
  · rename_i cached hcached
    obtain ⟨halive, hcached⟩ := Option.ite_none_right_eq_some.mp hcached
    exact .found cached hfree (childAlive_child halive) (cachedFor_some hcached).1
  · split
    · exact .goes _ rfl hfree.symm hkill
    · split
      · exact .asks config statePath _ hasked hfree
      · exact .goes _ rfl hfree.symm hkill

/-- The section of `ensure_child`, with the step of `ensure` it is in. -/
theorem ensureChild_moves {statePath : Text} {authKey : Option (List UInt8)} {failed : Bool}
    {failure : Option TailscaleError} {s' : TailscaleRuntime} {result : Except TailscaleError Text}
    (h : s.ensureChild setup statePath failed failure = (s', result)) :
    Moves setup s i (.ensureChild statePath authKey)
      (match result with
        | .error error => s'.unlock i (.error error)
        | .ok socket => s'.setCall i (.ensureLookup statePath socket authKey)) := by
  unfold ensureChild at h
  split at h
  · rename_i hchild
    cases failure with
    | some error =>
      cases h
      exact .unlocks _ rfl rfl nofun
    | none =>
      cases h
      exact .starts statePath _ authKey s rfl (.inl ⟨rfl, hchild⟩)
  · rename_i child hchild
    split at h
    · rename_i halive
      split at h
      · cases h
        exact .unlocks _ rfl rfl nofun
      · cases h
        exact .reuses statePath _ authKey rfl (childAlive_child halive)
    · cases failure with
      | some error =>
        cases h
        exact .fails statePath authKey child error rfl hchild
      | none =>
        cases h
        exact .starts statePath _ authKey _ rfl (.inr ⟨child, rfl, hchild⟩)

theorem callStep_moves {outcome : Outcome} (h : s.callStep setup i pc outcome = some t) : Moves setup s i pc t := by
  unfold callStep at h
  split at h
  · rename_i config failed
    split at h
    · cases h
      exact .goes _ rfl rfl nofun
    · rename_i config hconfig
      split at h
      · cases h
        exact .goes _ rfl rfl nofun
      · rename_i statePath hpath
        cases h
        exact statusSection_moves ⟨(Option.filter_eq_some_iff.mp hconfig).2, hpath⟩ rfl nofun
  · rename_i config statePath socket child status
    obtain ⟨-, h⟩ := Option.ite_none_right_eq_some.mp h
    cases h
    exact .learns config statePath socket _ rfl
  · cases h
    exact .goes _ rfl rfl nofun
  · rename_i config statePath answer
    cases h
    exact .stores config statePath answer rfl
  · cases h
    exact .goes _ rfl rfl nofun
  · cases h
    exact .goes _ rfl rfl nofun
  · rename_i config authKey
    split at h
    · cases h
      exact .goes _ rfl rfl nofun
    · split at h
      · cases h
        exact .goes _ rfl rfl nofun
      · obtain ⟨hlock, h⟩ := Option.ite_none_right_eq_some.mp h
        split at h
        · cases h
          exact .goes _ rfl rfl nofun
        · cases h
          exact .locks _ rfl rfl hlock
  · cases h
    exact .unlocks _ rfl rfl nofun
  · rename_i statePath authKey failed failure
    split at h
    · rename_i s' error hsection
      cases h
      exact ensureChild_moves hsection
    · rename_i s' socket hsection
      cases h
      exact ensureChild_moves hsection
  · rename_i statePath socket authKey
    split at h
    · rename_i cached hcached
      cases h
      exact .foundLocked statePath socket authKey cached rfl hcached
    · cases h
      exact .goes _ rfl rfl nofun
  · rename_i statePath socket authKey deadline child status
    obtain ⟨hlistens, h⟩ := Option.ite_none_right_eq_some.mp h
    split at h
    · cases h
      exact .answered statePath _ rfl nofun (isAlive_of_listens hlistens)
    · split at h
      · cases h
        exact .unlocks _ rfl rfl nofun
      · split at h
        · cases h
          exact .unlocks _ rfl rfl nofun
        · cases h
          exact .goes _ rfl rfl nofun
  · split at h
    · cases h
      exact retry_moves rfl nofun
    · cases h
      exact .unlocks _ rfl rfl nofun
  · cases h
    exact .unlocks _ rfl rfl nofun
  · cases h
    exact .goes _ rfl rfl nofun
  · rename_i statePath socket deadline child status
    obtain ⟨hlistens, h⟩ := Option.ite_none_right_eq_some.mp h
    split at h
    · cases h
      exact .answered statePath _ rfl nofun (isAlive_of_listens hlistens)
    · cases h
      exact retry_moves rfl nofun
  · cases h
    exact retry_moves rfl nofun
  · rename_i statePath answer
    cases h
    exact .storesLocked statePath answer rfl
  · obtain ⟨hlock, h⟩ := Option.ite_none_right_eq_some.mp h
    cases h
    exact .locks _ rfl rfl hlock
  · split at h
    · rename_i child hchild
      cases h
      exact .takes child rfl hchild
    · rename_i hchild
      cases h
      exact .takesNone rfl hchild
  · rename_i child
    cases h
    exact .kills child rfl
  · cases h

/-! ## The invariant -/

/-- What the state of the runtime says of the call numbered `i`. -/
def Fits (setup : Setup) (s : TailscaleRuntime) (i : Nat) : Pc → Prop
  | .statusQuery config statePath _ | .statusStore config statePath _ => Asked setup config statePath
  | .ensureLookup .. => s.lifecycle = some i ∧ s.child.isSome
  | .ensureStore _ answer => s.lifecycle = some i ∧ s.child = some answer.child
  | pc => pc.locked = true → s.lifecycle = some i

/-- Every daemon that runs is held, or about to be killed. -/
structure Inv (setup : Setup) (s : TailscaleRuntime) : Prop where
  fits : ∀ (j : Nat) pc, s.calls[j]? = some pc → Fits setup s j pc
  alive : ∀ child, s.isAlive child = true → s.child = some child ∨ .shutdownKill child ∈ s.calls

theorem fits_of_plain {s : TailscaleRuntime} {pc : Pc} (hplain : pc.plain = true)
    (h : pc.locked = true → s.lifecycle = some i) : Fits setup s i pc := by
  cases pc <;> first | exact h | cases hplain

theorem Fits.lock (h : Fits setup s i pc) (hlocked : pc.locked = true) : s.lifecycle = some i := by
  cases pc with
  | ensureLookup | ensureStore => exact h.1
  | statusQuery | statusStore => cases hlocked
  | _ => exact h hlocked

/-- Another call keeps what is said of it: it does not hold the lock, or nothing changes. -/
theorem Fits.frame {j : Nat} (h : Fits setup s j pc)
    (hframe : (t.lifecycle = s.lifecycle ∧ t.child = s.child) ∨ s.lifecycle ≠ some j) : Fits setup t j pc := by
  rcases hframe with ⟨hlifecycle, hchild⟩ | hother
  · cases pc <;> simp only [Fits, hlifecycle, hchild] at h ⊢ <;> exact h
  · have hfree : pc.locked ≠ true := fun hlocked => hother (h.lock hlocked)
    cases pc <;> first | exact h | exact absurd rfl hfree | exact fun hlocked => absurd hlocked hfree

theorem Inv.locked (hs : Inv setup s) (hi : s.calls[i]? = some pc) (h : pc.locked = true) :
    s.lifecycle = some i := (hs.fits i pc hi).lock h

/-- While another call than the one that kills it holds the lock, a daemon that runs is the child. -/
theorem Inv.child_of_alive (hs : Inv setup s) (hi : s.calls[i]? = some pc) (hlocked : pc.locked = true)
    (hkill : ∀ child, pc ≠ .shutdownKill child) {child : Nat} (halive : s.isAlive child = true) :
    s.child = some child := by
  rcases hs.alive child halive with hchild | hmem
  · exact hchild
  · obtain ⟨j, hj⟩ := List.mem_iff_getElem?.mp hmem
    have hj' : s.lifecycle = some j := hs.locked hj rfl
    rw [hs.locked hi hlocked, Option.some.injEq] at hj'
    subst hj'
    rw [hi, Option.some.injEq] at hj
    exact absurd hj (hkill child)

/-- A step of one call keeps what is said of all. -/
theorem Inv.fits_set (hs : Inv setup s) {next : Pc} (hcalls : t.calls = s.calls.set i next)
    (hnext : Fits setup t i next)
    (hframe : (t.lifecycle = s.lifecycle ∧ t.child = s.child) ∨ ∀ j, j ≠ i → s.lifecycle ≠ some j) :
    ∀ (j : Nat) pc, t.calls[j]? = some pc → Fits setup t j pc := by
  intro j pc hj
  rw [hcalls] at hj
  rcases entry_of_set hj with ⟨rfl, rfl⟩ | ⟨hne, hold⟩
  · exact hnext
  · exact (hs.fits j pc hold).frame (hframe.imp_right fun h => h j hne)

/-- A call that is about to kill its daemon is still about to, after a step of another. -/
theorem kill_mem_set {calls : List Pc} {next : Pc} {child : Nat} (hi : calls[i]? = some pc)
    (hkill : pc ≠ .shutdownKill child) (h : .shutdownKill child ∈ calls) :
    .shutdownKill child ∈ calls.set i next := by
  obtain ⟨j, hj⟩ := List.mem_iff_getElem?.mp h
  have hne : i ≠ j := by
    intro hij
    rw [hij, hj, Option.some.injEq] at hi
    exact hkill hi.symm
  exact List.mem_of_getElem? ((List.getElem?_set_ne hne).trans hj)

/-- The same of the daemons that run. -/
theorem Inv.alive_set (hs : Inv setup s) (hi : s.calls[i]? = some pc) {next : Pc}
    (hcalls : t.calls = s.calls.set i next)
    (halive : ∀ child, t.isAlive child = true → t.child = some child ∨
      s.isAlive child = true ∧ pc ≠ .shutdownKill child ∧
        (s.child = some child → t.child = some child ∨ next = .shutdownKill child)) :
    ∀ child, t.isAlive child = true → t.child = some child ∨ .shutdownKill child ∈ t.calls := by
  intro child hchild
  rcases halive child hchild with hheld | ⟨hold, hkill, hmoved⟩
  · exact .inl hheld
  rw [hcalls]
  rcases hs.alive child hold with hheld | hmem
  · refine (hmoved hheld).imp_right ?_
    rintro rfl
    exact List.mem_set (List.getElem?_eq_some_iff.mp hi).1 _
  · exact .inr (kill_mem_set hi hkill hmem)

theorem moves_inv (hs : Inv setup s) (hi : s.calls[i]? = some pc) (h : Moves setup s i pc t) : Inv setup t := by
  have hother : pc.locked = true → ∀ j, j ≠ i → s.lifecycle ≠ some j := by
    intro hlocked j hne heq
    rw [hs.locked hi hlocked, Option.some.injEq] at heq
    exact hne heq.symm
  have hkeep : ∀ (next : Pc), (∀ child, pc ≠ .shutdownKill child) → ∀ child, s.isAlive child = true →
      s.child = some child ∨ s.isAlive child = true ∧ pc ≠ .shutdownKill child ∧
        (s.child = some child → s.child = some child ∨ next = .shutdownKill child) :=
    fun next hkill child halive => .inr ⟨halive, hkill child, .inl⟩
  cases h with
  | stays => exact hs
  | goes next hnext hlocked hkill =>
    have hfits : Fits setup s i next := fits_of_plain hnext fun h => hs.locked hi (hlocked ▸ h)
    exact ⟨hs.fits_set rfl hfits (.inl ⟨rfl, rfl⟩), hs.alive_set hi rfl (hkeep next hkill)⟩
  | asks config statePath socket hasked hfree =>
    refine ⟨hs.fits_set rfl hasked (.inl ⟨rfl, rfl⟩), hs.alive_set hi rfl (hkeep _ ?_)⟩
    rintro child rfl
    cases hfree
  | learns config statePath socket answer hpc =>
    subst hpc
    have hasked : Asked setup config statePath := hs.fits i _ hi
    exact ⟨hs.fits_set rfl hasked (.inl ⟨rfl, rfl⟩), hs.alive_set hi rfl (hkeep _ nofun)⟩
  | stores config statePath answer hpc =>
    subst hpc
    exact ⟨hs.fits_set rfl nofun (.inl ⟨rfl, rfl⟩), hs.alive_set hi rfl (hkeep _ nofun)⟩
  | found cached hfree halive hcached =>
    refine ⟨hs.fits_set rfl nofun (.inl ⟨rfl, rfl⟩), hs.alive_set hi rfl (hkeep _ ?_)⟩
    rintro child rfl
    cases hfree
  | locks next hnext hfree hlock =>
    have hnone : ∀ j, j ≠ i → s.lifecycle ≠ some j := fun j _ heq => nomatch hlock.symm.trans heq
    refine ⟨hs.fits_set rfl (fits_of_plain hnext fun _ => rfl) (.inr hnone), hs.alive_set hi rfl (hkeep _ ?_)⟩
    rintro child rfl
    cases hfree
  | unlocks result hresult hlocked hkill =>
    have hfits : Fits setup (s.unlock i result) i (.returned result) := fits_of_plain hresult nofun
    exact ⟨hs.fits_set rfl hfits (.inr (hother hlocked)), hs.alive_set hi rfl (hkeep _ hkill)⟩
  | reuses statePath socket authKey hpc halive =>
    subst hpc
    obtain ⟨child, hchild, -⟩ := halive
    have hfits : s.lifecycle = some i ∧ s.child.isSome := ⟨hs.locked hi rfl, hchild ▸ rfl⟩
    exact ⟨hs.fits_set rfl hfits (.inl ⟨rfl, rfl⟩), hs.alive_set hi rfl (hkeep _ nofun)⟩
  | fails statePath authKey child error hpc hchild =>
    subst hpc
    refine ⟨hs.fits_set rfl nofun (.inr (hother rfl)), hs.alive_set hi rfl fun c hc => .inr ?_⟩
    obtain ⟨halive, hother⟩ := isAlive_forgetChild hchild hc
    exact ⟨halive, nofun, fun hheld => absurd hheld hother⟩
  | starts statePath socket authKey s' hpc hs' =>
    subst hpc
    have hlifecycle : s'.lifecycle = some i := by
      rcases hs' with ⟨rfl, -⟩ | ⟨child, rfl, -⟩ <;> exact hs.locked hi rfl
    have hcalls : s'.calls = s.calls := by
      rcases hs' with ⟨rfl, -⟩ | ⟨child, rfl, -⟩ <;> rfl
    refine ⟨hs.fits_set (congrArg (List.set · i _) hcalls) ⟨hlifecycle, rfl⟩ (.inr (hother rfl)),
      hs.alive_set hi (congrArg (List.set · i _) hcalls) fun c hc => ?_⟩
    have hspawned : (s'.spawnChild statePath socket).isAlive c = true := hc
    rcases isAlive_spawnChild hspawned with rfl | halive
    · exact .inl rfl
    rcases hs' with ⟨rfl, hnone⟩ | ⟨child, rfl, hchild⟩
    · exact .inr ⟨halive, nofun, fun hheld => nomatch hnone.symm.trans hheld⟩
    · obtain ⟨halive, hother⟩ := isAlive_forgetChild hchild halive
      exact .inr ⟨halive, nofun, fun hheld => absurd hheld hother⟩
  | foundLocked statePath socket authKey cached hpc hcached =>
    subst hpc
    exact ⟨hs.fits_set rfl nofun (.inr (hother rfl)), hs.alive_set hi rfl (hkeep _ nofun)⟩
  | answered statePath answer hlocked hkill halive =>
    have hchild : s.child = some answer.child := hs.child_of_alive hi hlocked hkill halive
    have hfits : s.lifecycle = some i ∧ s.child = some answer.child := ⟨hs.locked hi hlocked, hchild⟩
    exact ⟨hs.fits_set rfl hfits (.inl ⟨rfl, rfl⟩), hs.alive_set hi rfl (hkeep _ hkill)⟩
  | storesLocked statePath answer hpc =>
    subst hpc
    exact ⟨hs.fits_set rfl nofun (.inr (hother rfl)), hs.alive_set hi rfl (hkeep _ nofun)⟩
  | takes child hpc hchild =>
    subst hpc
    have hfits : (Pc.shutdownKill child).locked = true → s.lifecycle = some i := fun _ => hs.locked hi rfl
    refine ⟨hs.fits_set rfl hfits (.inr (hother rfl)), hs.alive_set hi rfl fun c hc => .inr ⟨hc, nofun, ?_⟩⟩
    intro hheld
    rw [hchild, Option.some.injEq] at hheld
    exact .inr (hheld ▸ rfl)
  | takesNone hpc hchild =>
    subst hpc
    refine ⟨hs.fits_set rfl nofun (.inr (hother rfl)), hs.alive_set hi rfl fun c hc => .inr ⟨hc, nofun, ?_⟩⟩
    exact fun hheld => nomatch hchild.symm.trans hheld
  | kills child hpc =>
    subst hpc
    refine ⟨hs.fits_set rfl nofun (.inr (hother rfl)), hs.alive_set hi rfl fun c hc => .inr ?_⟩
    obtain ⟨hne, halive⟩ := isAlive_stop hc
    exact ⟨halive, fun heq => hne (Pc.shutdownKill.inj heq).symm, .inl⟩

/-! ## The cache -/

/-- What is cached was given by the child, if a call may take it from the cache. -/
structure Kept (setup : Setup) (s : TailscaleRuntime) : Prop where
  inv : Inv setup s
  cached : ∀ cached, s.cachedStatus = some cached → superseded setup s cached.statePath cached.answer = false
  current : Current s

theorem superseded_eq_false {statePath : Text} {answer : Answer} :
    superseded setup s statePath answer = false ↔ ∀ child, s.child = some child → child ≠ answer.child →
      s.isAlive child = false ∧ ∀ pc ∈ s.calls, pc.looksFor setup statePath = false := by
  simp only [superseded, Option.any_eq_false, Bool.and_eq_false_iff, bne_eq_false_iff_eq,
    Bool.or_eq_false_iff, List.any_eq_false, Bool.not_eq_true]
  exact forall₂_congr fun child _ => Decidable.or_iff_not_imp_left

/-- A step after which no more daemons run and no more calls look for the path. -/
theorem superseded_mono {statePath : Text} {answer : Answer} (h : superseded setup s statePath answer = false)
    (hchild : ∀ child, t.child = some child → s.child = some child)
    (halive : ∀ child, t.isAlive child = true → s.isAlive child = true)
    (hcalls : ∀ pc ∈ t.calls, pc.looksFor setup statePath = true → pc ∈ s.calls) :
    superseded setup t statePath answer = false := by
  rw [superseded_eq_false] at h ⊢
  intro child hheld hne
  obtain ⟨hdead, hlooks⟩ := h child (hchild child hheld) hne
  constructor
  · rw [← Bool.not_eq_true] at hdead ⊢
    exact fun hlives => hdead (halive child hlives)
  · intro pc hpc
    rw [← Bool.not_eq_true]
    intro hlooked
    exact Bool.false_ne_true ((hlooks pc (hcalls pc hpc hlooked)).symm.trans hlooked)

theorem superseded_of_child {statePath : Text} {answer : Answer} (h : s.child = some answer.child) :
    superseded setup s statePath answer = false := by
  simp [superseded, h]

/-- A call moves to where it does not look into the cache. -/
theorem mem_of_looksFor_set {calls : List Pc} {next : Pc} {statePath : Text}
    (hnext : next.looksFor setup statePath = false) :
    ∀ pc ∈ calls.set i next, pc.looksFor setup statePath = true → pc ∈ calls := by
  intro pc hpc hlooks
  rcases List.mem_or_eq_of_mem_set hpc with hold | rfl
  · exact hold
  · exact absurd (hnext.symm.trans hlooks) Bool.false_ne_true

theorem looksFor_of_plain {statePath : Text} (h : pc.plain = true) : pc.looksFor setup statePath = false := by
  cases pc <;> first | rfl | cases h

/-- What a call took from the cache while its daemon was the child. -/
theorem Current.set (hs : Current s) {next : Pc} (hcalls : t.calls = s.calls.set i next)
    (hnext : ∀ answer held, next = .returned (.cached answer held) → held = some answer.child) : Current t := by
  intro j answer held hj
  rw [hcalls] at hj
  rcases entry_of_set hj with ⟨-, heq⟩ | ⟨-, hold⟩
  · exact hnext answer held heq.symm
  · exact hs j answer held hold

/-- The daemon of a cached status, where a call takes it from the cache. -/
theorem Kept.child_of_cached (hs : Kept setup s) {cached : CachedStatus} (hcached : s.cachedStatus = some cached)
    {child : Nat} (hchild : s.child = some child)
    (htaken : s.isAlive child = true ∨ ∃ pc ∈ s.calls, pc.looksFor setup cached.statePath = true) :
    s.child = some cached.answer.child := by
  by_contra hne
  have hother : child ≠ cached.answer.child := fun heq => hne (heq ▸ hchild)
  obtain ⟨hdead, hlooks⟩ := superseded_eq_false.mp (hs.cached cached hcached) child hchild hother
  rcases htaken with halive | ⟨pc, hpc, hlooked⟩
  · exact Bool.false_ne_true (hdead.symm.trans halive)
  · exact Bool.false_ne_true ((hlooks pc hpc).symm.trans hlooked)

theorem moves_kept (hs : Kept setup s) (hi : s.calls[i]? = some pc) (h : Moves setup s i pc t)
    (hok : ∀ config statePath answer, pc = .statusStore config statePath answer →
      superseded setup s statePath answer = false) : Kept setup t := by
  have hinv : Inv setup t := moves_inv hs.inv hi h
  -- the child, the daemons and the cache stay as they are
  have hsame : ∀ (t : TailscaleRuntime) (next : Pc), t.calls = s.calls.set i next → t.child = s.child →
      t.daemons = s.daemons → t.cachedStatus = s.cachedStatus →
      (∀ statePath, next.looksFor setup statePath = false) →
      ∀ cached, t.cachedStatus = some cached → superseded setup t cached.statePath cached.answer = false := by
    intro t next hcalls hchild hdaemons hcached hnext cached h
    refine superseded_mono (hs.cached cached (hcached ▸ h)) (fun c hc => hchild ▸ hc) (fun c hc => ?_) ?_
    · rwa [isAlive, hdaemons] at hc
    · rw [hcalls]
      exact mem_of_looksFor_set (hnext _)
  cases h with
  | stays => exact hs
  | goes next hnext hlocked hkill =>
    refine ⟨hinv, hsame _ next rfl rfl rfl rfl fun _ => looksFor_of_plain hnext, hs.current.set rfl ?_⟩
    rintro answer held rfl
    cases hnext
  | asks config statePath socket hasked hfree =>
    exact ⟨hinv, hsame _ _ rfl rfl rfl rfl fun _ => rfl, hs.current.set rfl nofun⟩
  | learns config statePath socket answer hpc =>
    exact ⟨hinv, hsame _ _ rfl rfl rfl rfl fun _ => rfl, hs.current.set rfl nofun⟩
  | stores config statePath answer hpc =>
    refine ⟨hinv, ?_, hs.current.set rfl nofun⟩
    rintro cached ⟨⟩
    exact superseded_mono (hok config statePath answer hpc) (fun _ => id) (fun _ => id) (mem_of_looksFor_set rfl)
  | found cached hfree halive hcached =>
    refine ⟨hinv, hsame _ _ rfl rfl rfl rfl fun _ => rfl, hs.current.set rfl ?_⟩
    rintro answer held ⟨⟩
    obtain ⟨child, hchild, halive⟩ := halive
    exact hs.child_of_cached hcached hchild (.inl halive)
  | locks next hnext hfree hlock =>
    refine ⟨hinv, hsame _ next rfl rfl rfl rfl fun _ => looksFor_of_plain hnext, hs.current.set rfl ?_⟩
    rintro answer held rfl
    cases hnext
  | unlocks result hresult hlocked hkill =>
    refine ⟨hinv, hsame _ _ rfl rfl rfl rfl fun _ => rfl, hs.current.set rfl ?_⟩
    rintro answer held ⟨⟩
    cases hresult
  | reuses statePath socket authKey hpc halive =>
    refine ⟨hinv, ?_, hs.current.set rfl nofun⟩
    intro cached hcached
    obtain ⟨child, hchild, halive⟩ := halive
    exact superseded_of_child (hs.child_of_cached hcached hchild (.inl halive))
  | fails statePath authKey child error hpc hchild => exact ⟨hinv, nofun, hs.current.set rfl nofun⟩
  | starts statePath socket authKey s' hpc hs' =>
    have hcalls : ((s'.spawnChild statePath socket).setCall i (.ensureLookup statePath socket authKey)).calls =
        s.calls.set i (.ensureLookup statePath socket authKey) := by
      rcases hs' with ⟨rfl, -⟩ | ⟨child, rfl, -⟩ <;> rfl
    exact ⟨hinv, nofun, hs.current.set hcalls nofun⟩
  | foundLocked statePath socket authKey cached hpc hcached =>
    refine ⟨hinv, hsame _ _ rfl rfl rfl rfl fun _ => rfl, hs.current.set rfl ?_⟩
    rintro answer held ⟨⟩
    subst hpc
    obtain ⟨hcached, hpath⟩ := cachedFor_some hcached
    obtain ⟨child, hchild⟩ := Option.isSome_iff_exists.mp (hs.inv.fits i _ hi).2
    exact hs.child_of_cached hcached hchild (.inr ⟨_, List.mem_of_getElem? hi, hpath⟩)
  | answered statePath answer hlocked hkill halive =>
    exact ⟨hinv, hsame _ _ rfl rfl rfl rfl fun _ => rfl, hs.current.set rfl nofun⟩
  | storesLocked statePath answer hpc =>
    subst hpc
    refine ⟨hinv, ?_, hs.current.set rfl nofun⟩
    rintro cached ⟨⟩
    exact superseded_of_child (hs.inv.fits i _ hi).2
  | takes child hpc hchild => exact ⟨hinv, nofun, hs.current.set rfl nofun⟩
  | takesNone hpc hchild => exact ⟨hinv, nofun, hs.current.set rfl nofun⟩
  | kills child hpc =>
    refine ⟨hinv, fun cached hcached => ?_, hs.current.set rfl nofun⟩
    exact superseded_mono (hs.cached cached hcached) (fun _ => id) (fun _ hc => (isAlive_stop hc).2)
      (mem_of_looksFor_set rfl)

/-! ## Events -/

/-- A call is made. -/
theorem Inv.call (hs : Inv setup s) (hcalls : t.calls = s.calls ++ [pc]) (hnew : pc.plain = true ∧ pc.locked = false)
    (hlifecycle : t.lifecycle = s.lifecycle) (hchild : t.child = s.child) (hdaemons : t.daemons = s.daemons) :
    Inv setup t := by
  refine ⟨fun j pc' hj => ?_, fun child hc => ?_⟩
  · rw [hcalls] at hj
    rcases entry_of_concat hj with hold | ⟨rfl, rfl⟩
    · exact (hs.fits j pc' hold).frame (.inl ⟨hlifecycle, hchild⟩)
    · exact fits_of_plain hnew.1 fun h => absurd (hnew.2.symm.trans h) Bool.false_ne_true
  · rw [isAlive, hdaemons] at hc
    rw [hchild, hcalls]
    exact (hs.alive child hc).imp_right (List.mem_append_left _)

/-- The same with the cache. -/
theorem Kept.call (hs : Kept setup s) (hcalls : t.calls = s.calls ++ [pc])
    (hnew : pc.plain = true ∧ pc.locked = false) (hlifecycle : t.lifecycle = s.lifecycle)
    (hchild : t.child = s.child) (hdaemons : t.daemons = s.daemons) (hcached : t.cachedStatus = s.cachedStatus) :
    Kept setup t := by
  refine ⟨hs.inv.call hcalls hnew hlifecycle hchild hdaemons, fun cached h => ?_, fun j answer held hj => ?_⟩
  · refine superseded_mono (hs.cached cached (hcached ▸ h)) (fun c hc => hchild ▸ hc) (fun c hc => ?_) ?_
    · rwa [isAlive, hdaemons] at hc
    · intro pc' hpc hlooks
      rw [hcalls] at hpc
      rcases List.mem_append.mp hpc with hold | hpc
      · exact hold
      · rw [List.mem_singleton.mp hpc, looksFor_of_plain hnew.1] at hlooks
        cases hlooks
  · rw [hcalls] at hj
    rcases entry_of_concat hj with hold | ⟨-, rfl⟩
    · exact hs.current j answer held hold
    · cases hnew.1

/-- What a dropped call leaves. -/
theorem dropCall_cases (i : Nat) (pc : Pc) : (s.dropCall i pc).calls = s.calls.set i .dropped ∧
    (s.dropCall i pc).child = s.child ∧ (s.dropCall i pc).cachedStatus = s.cachedStatus ∧
    (pc.locked = false → (s.dropCall i pc).lifecycle = s.lifecycle) ∧
    ∀ child, (s.dropCall i pc).isAlive child = true → s.isAlive child = true ∧ pc ≠ .shutdownKill child := by
  cases pc with
  | shutdownKill c =>
    refine ⟨rfl, rfl, rfl, nofun, fun child h => ?_⟩
    obtain ⟨hne, halive⟩ := isAlive_stop h
    exact ⟨halive, fun heq => hne (Pc.shutdownKill.inj heq).symm⟩
  | ensureChild | ensureLookup | reachable | up | running | ensureStore | shutdownTake =>
    exact ⟨rfl, rfl, rfl, nofun, fun child h => ⟨h, nofun⟩⟩
  | _ => exact ⟨rfl, rfl, rfl, fun _ => rfl, fun child h => ⟨h, nofun⟩⟩

theorem dropCall_inv (hs : Inv setup s) (hi : s.calls[i]? = some pc) : Inv setup (s.dropCall i pc) := by
  obtain ⟨hcalls, hchild, -, hlifecycle, halive⟩ := @dropCall_cases s i pc
  refine ⟨hs.fits_set hcalls nofun ?_, hs.alive_set hi hcalls fun c hc => ?_⟩
  · cases hlocked : pc.locked with
    | false => exact .inl ⟨hlifecycle hlocked, hchild⟩
    | true =>
      refine .inr fun j hne heq => hne ?_
      exact Option.some.inj (heq.symm.trans (hs.locked hi hlocked))
  · obtain ⟨hold, hkill⟩ := halive c hc
    exact .inr ⟨hold, hkill, fun hheld => .inl (hchild ▸ hheld)⟩

theorem step_inv {e : Event} (hs : Inv setup s) (h : step setup s e = some t) : Inv setup t := by
  cases e with
  | statusForConfig config =>
    cases h
    exact hs.call rfl ⟨rfl, rfl⟩ rfl rfl rfl
  | ensure config authKey =>
    cases h
    exact hs.call rfl ⟨rfl, rfl⟩ rfl rfl rfl
  | shutdown =>
    cases h
    exact hs.call rfl ⟨rfl, rfl⟩ rfl rfl rfl
  | call i outcome =>
    simp only [step] at h
    split at h
    · rename_i pc hi
      exact moves_inv hs hi (callStep_moves h)
    · cases h
  | drop i =>
    simp only [step] at h
    split at h
    · cases h
    · cases h
    · cases h
    · rename_i pc _ _ hi
      cases h
      exact dropCall_inv hs hi
  | exit child =>
    cases h
    exact ⟨fun j pc hj => (hs.fits j pc hj).frame (.inl ⟨rfl, rfl⟩),
      fun c hc => hs.alive c (isAlive_stop hc).2⟩
  | tick milliseconds =>
    cases h
    exact ⟨fun j pc hj => (hs.fits j pc hj).frame (.inl ⟨rfl, rfl⟩), hs.alive⟩

theorem step_kept {e : Event} (hs : Kept setup s) (hok : InTime setup s e) (h : step setup s e = some t) :
    Kept setup t := by
  have hinv : Inv setup t := step_inv hs.inv h
  cases e with
  | statusForConfig config =>
    cases h
    exact hs.call rfl ⟨rfl, rfl⟩ rfl rfl rfl rfl
  | ensure config authKey =>
    cases h
    exact hs.call rfl ⟨rfl, rfl⟩ rfl rfl rfl rfl
  | shutdown =>
    cases h
    exact hs.call rfl ⟨rfl, rfl⟩ rfl rfl rfl rfl
  | call i outcome =>
    simp only [step] at h
    split at h
    · rename_i pc hi
      refine moves_kept hs hi (callStep_moves h) ?_
      rintro config statePath answer rfl
      cases outcome with
      | go => simpa only [InTime, hi] using hok
      | _ => cases h
    · cases h
  | drop i =>
    simp only [step] at h
    split at h
    · cases h
    · cases h
    · cases h
    · rename_i pc _ _ hi
      cases h
      obtain ⟨hcalls, hchild, hcached, -, halive⟩ := @dropCall_cases s i pc
      refine ⟨hinv, fun cached hc => ?_, hs.current.set hcalls nofun⟩
      refine superseded_mono (hs.cached cached (hcached ▸ hc)) (fun c hc => hchild ▸ hc)
        (fun c hc => (halive c hc).1) ?_
      rw [hcalls]
      exact mem_of_looksFor_set rfl
  | exit child =>
    cases h
    refine ⟨hinv, fun cached hcached => ?_, hs.current⟩
    exact superseded_mono (hs.cached cached hcached) (fun _ => id) (fun _ hc => (isAlive_stop hc).2)
      fun _ hpc _ => hpc
  | tick milliseconds =>
    cases h
    exact ⟨hinv, hs.cached, hs.current⟩

/-! ## Runs -/

theorem new_kept (setup : Setup) : Kept setup .new := by
  refine ⟨⟨fun j pc hj => ?_, fun child halive => ?_⟩, fun cached hcached => ?_, fun j answer held hj => ?_⟩
  · cases List.mem_of_getElem? hj
  · cases halive
  · cases hcached
  · cases List.mem_of_getElem? hj

theorem run_inv {es : List Event} (h : (machine setup).run free .new es = some s) : Inv setup s :=
  Path.invariant (I := Inv setup) (fun _ _ _ hs _ he => step_inv hs he) (Path.of_run h) (new_kept setup).inv

theorem run_kept {es : List Event} (h : (machine setup).run (InTime setup) .new es = some s) : Kept setup s :=
  Path.invariant (I := Kept setup) (fun _ _ _ hs hok he => step_kept hs hok he) (Path.of_run h) (new_kept setup)

theorem same_refl (windows : Bool) (path : Text) : Path.same windows path path = true := by
  simp [Path.same]

theorem cachedFor_of_same {statePath path : Text} {answer : Answer}
    (hcached : s.cachedStatus = some ⟨path, s.now, answer⟩) (hpath : Path.same setup.windows path statePath = true) :
    s.cachedFor setup statePath = some ⟨path, s.now, answer⟩ := by
  simp [cachedFor, hcached, hpath]

/-- A cached answer of another daemon than the child is returned as current. -/
theorem not_current {answer : Answer} {child : Nat} (hchild : s.child = some child) (hne : child ≠ answer.child)
    (h : s.calls[i]? = some (.returned (.cached answer s.child))) : ¬ Current s := by
  intro hs
  have heq : s.child = some answer.child := hs i answer s.child h
  exact hne (Option.some.inj (hchild.symm.trans heq))

/-- A call of `ensure` that is about to look into the cache takes what is there. -/
theorem taken_of_lookup {answer : Answer} {path : Text} {child : Nat} (hpc : pc ∈ s.calls)
    (hlooks : pc.looksFor setup path = true) (hcached : s.cachedStatus = some ⟨path, s.now, answer⟩)
    (hchild : s.child = some child) (hne : child ≠ answer.child) :
    ∃ es u, (machine setup).run free s es = some u ∧ ¬ Current u := by
  obtain ⟨j, hj⟩ := List.mem_iff_getElem?.mp hpc
  cases pc with
  | ensureLookup statePath socket authKey =>
    have hstep : step setup s (.call j .go) = some (s.unlock j (.cached answer s.child)) := by
      simp only [step, hj, callStep, cachedFor_of_same hcached hlooks]
    refine ⟨[.call j .go], _, run_cons.mpr ⟨trivial, _, hstep, rfl⟩, @not_current _ j answer child hchild hne ?_⟩
    exact List.getElem?_set_self (List.getElem?_eq_some_iff.mp hj).1
  | _ => cases hlooks

/-- While the child runs, the next call of `status_for_config` takes what is there. -/
theorem taken_of_alive {config : TailscaleConfig} {answer : Answer} {path : Text} {child : Nat}
    (hasked : Asked setup config path) (hcached : s.cachedStatus = some ⟨path, s.now, answer⟩)
    (hchild : s.child = some child) (halive : s.isAlive child = true) (hne : child ≠ answer.child) :
    ∃ es u, (machine setup).run free s es = some u ∧ ¬ Current u := by
  let t : TailscaleRuntime := { s with calls := s.calls ++ [.status (some config)] }
  have hcall : t.calls[s.calls.length]? = some (.status (some config)) := List.getElem?_concat_length
  have halive' : t.childAlive false = true := by
    simp only [childAlive, t, hchild, Option.any_some, Bool.not_false, Bool.true_and]
    exact halive
  have hfound : t.cachedFor setup path = some ⟨path, t.now, answer⟩ :=
    cachedFor_of_same hcached (same_refl _ _)
  have hstep : step setup t (.call s.calls.length (.tryWait false)) =
      some (t.returns s.calls.length (.cached answer t.child)) := by
    simp only [step, hcall, callStep, Option.filter_some, hasked.1, if_true, hasked.2, statusSection, halive', hfound]
  refine ⟨[.statusForConfig (some config), .call s.calls.length (.tryWait false)], _,
    run_cons.mpr ⟨trivial, t, rfl, run_cons.mpr ⟨trivial, _, hstep, rfl⟩⟩,
    @not_current _ s.calls.length answer child hchild hne ?_⟩
  exact List.getElem?_set_self (List.getElem?_eq_some_iff.mp hcall).1

/-- In a run in which `status_for_config` never stores what a superseded daemon answered, a
status from the cache is of the child. Where it does, a call can take that from the cache. -/
theorem run_current (setup : Setup) :
    (∀ es s, (machine setup).run (InTime setup) .new es = some s → Current s) ∧
    ∀ es s e t, (machine setup).run free .new es = some s → step setup s e = some t → ¬ InTime setup s e →
      ∃ es' u, (machine setup).run free t es' = some u ∧ ¬ Current u := by
  refine ⟨fun es s h => (run_kept h).current, fun es s e t h he hlate => ?_⟩
  have hs : Inv setup s := run_inv h
  unfold InTime at hlate
  split at hlate
  · rename_i i
    split at hlate
    · rename_i config path answer hi
      have ht : t = (s.cacheStatus path answer).returns i (.status answer.status) := by
        simp only [step, hi, callStep, Option.some.injEq] at he
        exact he.symm
      subst ht
      rw [Bool.not_eq_false] at hlate
      obtain ⟨child, hchild, hlate⟩ := Option.any_eq_true _ _ |>.mp hlate
      rw [Bool.and_eq_true, bne_iff_ne, Bool.or_eq_true, List.any_eq_true] at hlate
      obtain ⟨hne, halive | ⟨pc, hpc, hlooks⟩⟩ := hlate
      · exact taken_of_alive (hs.fits i _ hi) rfl hchild halive hne
      · refine taken_of_lookup ?_ hlooks rfl hchild hne
        obtain ⟨j, hj⟩ := List.mem_iff_getElem?.mp hpc
        have hji : i ≠ j := by
          rintro rfl
          rw [hi, Option.some.injEq] at hj
          subst hj
          cases hlooks
        exact List.mem_of_getElem? ((List.getElem?_set_ne hji).trans hj)
    · exact absurd trivial hlate
  · exact absurd trivial hlate

/-! ## An answer that comes late -/

def unixSetup : Setup := ⟨false, 1, "/kodework".toList⟩

def embedded : TailscaleConfig := ⟨true, .embeddedUserspace, none, none, some "/state".toList⟩

def runningStatus : TailscaleStatus := ⟨some "Running".toList, none, []⟩

/-- `ensure` stores the answer of its daemon, and `status_for_config` takes it from the cache. -/
def cachedAnswer : List Event :=
  [.ensure embedded none, .call 0 .go, .call 0 (.start false none), .call 0 .go,
    .call 0 (.answered 0 runningStatus), .call 0 .go, .statusForConfig (some embedded), .call 1 (.tryWait false)]

theorem cached_answer_current : ∃ s, (machine unixSetup).run (InTime unixSetup) .new cachedAnswer = some s ∧
    s.calls[1]? = some (.returned (.cached ⟨0, runningStatus⟩ (some 0))) ∧ Current s := by
  have hrun : ((machine unixSetup).run (InTime unixSetup) .new cachedAnswer).map (fun s => s.calls[1]?) =
      some (some (.returned (.cached ⟨0, runningStatus⟩ (some 0)))) := by decide
  obtain ⟨s, hs, hcall⟩ := Option.map_eq_some_iff.mp hrun
  exact ⟨s, hs, hcall, (run_current unixSetup).1 cachedAnswer s hs⟩

/-- `status_for_config` asks the first daemon, which answers and exits; `ensure` starts the second
one, and the answer is stored. -/
def lateAnswer : List Event :=
  [.ensure embedded none, .call 0 .go, .call 0 (.start false none), .statusForConfig (some embedded),
    .call 1 (.tryWait false), .call 1 (.answered 0 runningStatus), .exit 0, .call 0 .go, .call 0 (.failed .timeout),
    .ensure embedded none, .call 2 .go, .call 2 (.start false none), .call 1 .go, .call 2 .go,
    .statusForConfig (some embedded), .call 3 (.tryWait false)]

/-- `ensure` and `status_for_config` both return what the first daemon said of the state path, while the
second one is held. -/
theorem late_answer_cached : ∃ s, (machine unixSetup).run free .new lateAnswer = some s ∧
    s.calls[2]? = some (.returned (.cached ⟨0, runningStatus⟩ (some 1))) ∧
    s.calls[3]? = some (.returned (.cached ⟨0, runningStatus⟩ (some 1))) ∧ ¬ Current s := by
  have hrun : ((machine unixSetup).run free .new lateAnswer).map (fun s => (s.calls[2]?, s.calls[3]?)) =
      some (some (.returned (.cached ⟨0, runningStatus⟩ (some 1))),
        some (.returned (.cached ⟨0, runningStatus⟩ (some 1)))) := by decide
  obtain ⟨s, hs, hcalls⟩ := Option.map_eq_some_iff.mp hrun
  obtain ⟨hensure, hstatus⟩ := Prod.mk.inj hcalls
  refine ⟨s, hs, hensure, hstatus, fun h => ?_⟩
  have hheld : some 1 = some 0 := h 2 _ _ hensure
  cases hheld

end KW.Tailscale
