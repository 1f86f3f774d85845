import KodeWork.Impl.Hosts

/-!
# The references of a saved host

`save_host` takes the references to secrets from the stored record and none from
what it is sent: `step_blur` says so of one step of any interleaving of the
commands. What it stores and what it deletes is computed from the record it found
(`Preserved`), field by field: a secret is deleted for a field that does not refer
to it any more, whatever the other fields refer to.
-/

namespace KW.Hosts

open State Machine

/-! ## What is not used -/

def withoutReferences (host : Host) : Host := preserveReferences none host

def Command.blur : Command → Command
  | .saveHost host => .saveHost (withoutReferences host)
  | command => command

def Pc.blur : Pc → Pc
  | .load command => .load command.blur
  | pc => pc

def Call.blur (c : Call) : Call := { c with pc := c.pc.blur }

/-- The state, but for the references that calls of `save_host` were sent. -/
def State.blur (s : State) : State := { s with calls := s.calls.map Call.blur }

def Event.blur : Event → Event
  | .call host command => .call host command.blur
  | e => e

theorem preserveReferences_blur (existing : Option Host) (host : Host) :
    preserveReferences existing (withoutReferences host) = preserveReferences existing host := by
  cases existing <;> cases host with
  | mk _ _ _ _ _ _ _ jump _ tailscale => cases jump <;> cases tailscale <;> rfl

theorem goTo_blur (s : State) (i : Nat) (c : Call) {pc : Pc} (h : pc.blur = pc) :
    s.blur.goTo i c.blur pc = (s.goTo i c pc).blur := by
  simp only [State.goTo, State.blur, List.map_set, Call.blur, h]

theorem forgetAll_blur (strict : Bool) (reply : Reply) (left : List CredentialRef) :
    (Pc.forgetAll strict reply left).blur = Pc.forgetAll strict reply left := by
  cases left <;> rfl

theorem write_blur (write : SecretWrite) :
    (if write.backup.isSome then Pc.backup write else .put write none).blur =
      if write.backup.isSome then .backup write else .put write none := by
  split <;> rfl

theorem loadStep_blur (s : State) (i : Nat) (c : Call) (command : Command) :
    s.blur.loadStep i c.blur command.blur = (s.loadStep i c command).blur := by
  cases command with
  | saveHost payload =>
    have hpreserve : preserveReferences (s.blur.hosts c.blur.host) (withoutReferences payload) =
        preserveReferences (s.hosts c.host) payload := preserveReferences_blur _ _
    simp only [Command.blur, loadStep, hpreserve]
    split <;> exact goTo_blur s i c rfl
  | saveHostPassword password =>
    have hplan : planPassword s.blur.provider c.blur.host password (s.blur.hosts c.blur.host) =
        planPassword s.provider c.host password (s.hosts c.host) := rfl
    simp only [Command.blur, loadStep, hplan]
    cases planPassword s.provider c.host password (s.hosts c.host) with
    | error text => exact goTo_blur s i c rfl
    | ok write => exact goTo_blur s i c (write_blur write)
  | saveTailscaleAuthKey authKey =>
    have hplan : planTailscale s.blur.provider c.blur.host authKey (s.blur.hosts c.blur.host) =
        planTailscale s.provider c.host authKey (s.hosts c.host) := rfl
    simp only [Command.blur, loadStep, hplan]
    split
    · exact goTo_blur s i c rfl
    · cases planTailscale s.provider c.host authKey (s.hosts c.host) with
      | error text => exact goTo_blur s i c rfl
      | ok write => exact goTo_blur s i c (write_blur write)
  | deleteHost =>
    change (if 0 < s.runs c.host then s.blur.fail i c.blur (runsRemain (s.runs c.host))
      else s.blur.goTo i c.blur (.disconnect (s.heldReferences c.host))) = _
    simp only [loadStep]
    split <;> exact goTo_blur s i c rfl

/-- What a call does is the same without them. -/
theorem callStep_blur (s : State) (i : Nat) (c : Call) (pc : Pc) (choice : Choice) :
    s.blur.callStep i c.blur pc.blur choice = (s.callStep i c pc choice).map State.blur := by
  cases pc with
  | load command =>
    cases choice with
    | go => exact congrArg some (loadStep_blur s i c command)
    | fault text => exact congrArg some (goTo_blur s i c rfl)
    | poisoned => exact congrArg some (goTo_blur s i c rfl)
  | store previous host =>
    cases choice with
    | go =>
      exact congrArg some (goTo_blur (s.setHost c.host (some host)) i
        { c with saved := some (previous, host) } (forgetAll_blur _ _ _))
    | fault text => exact congrArg some (goTo_blur s i c rfl)
    | poisoned => exact congrArg some (goTo_blur s i c rfl)
  | backup write => cases choice <;> exact congrArg some (goTo_blur s i c rfl)
  | put write previousSecret =>
    cases choice with
    | go =>
      exact congrArg some (goTo_blur { s.setSecret write.reference (some write.secret) with
        written := s.written ++ [write.reference] } i c rfl)
    | fault text => exact congrArg some (goTo_blur s i c rfl)
    | poisoned => exact congrArg some (goTo_blur s i c rfl)
  | update write previousSecret =>
    cases choice with
    | go =>
      exact congrArg some (goTo_blur (s.setHost c.host (some write.host)) i c (forgetAll_blur _ _ _))
    | fault text => exact congrArg some (goTo_blur s i c rfl)
    | poisoned => exact congrArg some (goTo_blur s i c rfl)
  | rollback write previousSecret error =>
    cases choice with
    | go => exact congrArg some (goTo_blur (s.setSecret write.reference previousSecret) i c rfl)
    | fault text => exact congrArg some (goTo_blur s i c rfl)
    | poisoned => exact congrArg some (goTo_blur s i c rfl)
  | disconnect references =>
    cases choice with
    | go => exact congrArg some (goTo_blur s i c rfl)
    | fault text => rfl
    | poisoned => rfl
  | deleteRow references =>
    cases choice with
    | go =>
      change (if (s.hosts c.host).isSome then
          some ((s.blur.setHost c.host none).goTo i c.blur
            (.forgetAll true (.deleted true) (references.filter (isManagedReference s.provider))))
        else some (s.blur.goTo i c.blur (.returned (.ok (.deleted false))))) = _
      simp only [callStep]
      split
      · exact congrArg some (goTo_blur (s.setHost c.host none) i c (forgetAll_blur _ _ _))
      · exact congrArg some (goTo_blur s i c rfl)
    | fault text => exact congrArg some (goTo_blur s i c rfl)
    | poisoned => exact congrArg some (goTo_blur s i c rfl)
  | forget left strict reply =>
    cases left with
    | nil => cases choice <;> rfl
    | cons r left =>
      cases choice with
      | go =>
        exact congrArg some (goTo_blur { s.setSecret r none with
          forgotten := s.forgotten ++ [(⟨i, r⟩ : Forgotten)] } i c (forgetAll_blur _ _ _))
      | fault text => exact congrArg some (goTo_blur s i c (forgetAll_blur _ _ _))
      | poisoned =>
        cases strict with
        | true => exact congrArg some (goTo_blur s i c rfl)
        | false => exact congrArg some (goTo_blur s i c (forgetAll_blur _ _ _))
  | returned result => cases choice <;> rfl

/-- No step of any of the commands reads a reference that `save_host` was sent. -/
theorem step_blur (s : State) (e : Event) :
    machine.step s.blur e.blur = (machine.step s e).map State.blur := by
  cases e with
  | call host command =>
    simp only [machine, step, Event.blur, State.blur, Option.map_some, List.map_append]
    rfl
  | step i choice =>
    simp only [machine, step, Event.blur, State.blur, List.getElem?_map]
    cases s.calls[i]? with
    | none => rfl
    | some c => exact callStep_blur s i c c.pc choice
  | setRuns runs => rfl

/-! ## What is stored -/

/-- The authentication mode that a field of a record belongs to. -/
def mode (host : Host) : CredentialField → Option AuthenticationMode
  | .ssh => some host.authMode
  | .tailscale => none
  | .jump => host.jump.map (·.authMode)

/-- A reference of the record `save_host` stores was in the same field before, under the
same mode. -/
theorem preserveReferences_reference {previous : Option Host} {payload : Host}
    {field : CredentialField} {r : CredentialRef}
    (h : reference (preserveReferences previous payload) field = some r) :
    ∃ old, previous = some old ∧ reference old field = some r ∧
      mode old field = mode (preserveReferences previous payload) field := by
  cases previous with
  | none =>
    cases field with
    | ssh => cases h
    | tailscale =>
      obtain ⟨config, hconfig, hr⟩ := Option.bind_eq_some_iff.mp h
      obtain ⟨_, -, rfl⟩ := Option.map_eq_some_iff.mp hconfig
      cases hr
    | jump =>
      obtain ⟨jump, hjump, hr⟩ := Option.bind_eq_some_iff.mp h
      obtain ⟨_, -, rfl⟩ := Option.map_eq_some_iff.mp hjump
      cases hr
  | some old =>
    refine ⟨old, rfl, ?_⟩
    cases field with
    | ssh =>
      change (if old.authMode = payload.authMode then old.authRef else none) = some r at h
      obtain ⟨hmode, hr⟩ := Option.ite_none_right_eq_some.mp h
      exact ⟨hr, congrArg some hmode⟩
    | tailscale =>
      obtain ⟨config, hconfig, hr⟩ := Option.bind_eq_some_iff.mp h
      obtain ⟨_, -, rfl⟩ := Option.map_eq_some_iff.mp hconfig
      exact ⟨hr, rfl⟩
    | jump =>
      obtain ⟨jump, hjump, hr⟩ := Option.bind_eq_some_iff.mp h
      obtain ⟨sent, hsent, rfl⟩ := Option.map_eq_some_iff.mp hjump
      obtain ⟨hmode, hr⟩ := Option.ite_none_right_eq_some.mp hr
      refine ⟨hr, ?_⟩
      cases hold : old.jump with
      | none => simp [hold] at hmode
      | some jump =>
        simp only [hold, Option.any_some, decide_eq_true_eq] at hmode
        simp [mode, hold, preserveReferences, hsent, hmode]

/-! ## What is deleted -/

theorem mem_droppedReferences {provider : CredentialProvider} {previous : Option Host} {host : Host}
    {r : CredentialRef} (h : r ∈ droppedReferences provider previous host) :
    isManagedReference provider r = true ∧ ∃ old field, previous = some old ∧
      reference old field = some r ∧ reference host field ≠ some r := by
  obtain ⟨field, -, hdropped⟩ := List.mem_filterMap.mp h
  obtain ⟨hne, hr⟩ := Option.ite_none_right_eq_some.mp hdropped
  obtain ⟨hr, hmanaged⟩ := Option.filter_eq_some_iff.mp hr
  obtain ⟨old, rfl, hold⟩ := Option.bind_eq_some_iff.mp hr
  refine ⟨hmanaged, old, field, rfl, hold, ?_⟩
  intro hhost
  exact hne (hr.trans hhost.symm)

/-- If one field referred to a secret that is deleted, the new record does not refer to it. -/
theorem not_referenced {previous : Option Host} {payload old : Host} {field : CredentialField}
    {r : CredentialRef} (hprevious : previous = some old)
    (hnew : reference (preserveReferences previous payload) field ≠ some r)
    (honly : ∀ other, reference old other = some r → other = field) (other : CredentialField) :
    reference (preserveReferences previous payload) other ≠ some r := by
  intro hother
  obtain ⟨old', hold', hr, -⟩ := preserveReferences_reference hother
  obtain rfl : old = old' := Option.some.inj (hprevious.symm.trans hold')
  rw [honly other hr] at hother
  exact hnew hother

/-! ## Calls of `save_host` -/

/-- The record comes from what `save_host` was sent and a row it found earlier. -/
def Computed (s₀ s : State) (id : HostId) (previous : Option Host) (host : Host) : Prop :=
  ∃ s₁, machine.Path free s₀ s₁ ∧ machine.Path free s₁ s ∧ s₁.hosts id = previous ∧
    ∃ payload, host = preserveReferences previous payload

/-- A computed record became the row. -/
def Saved (s₀ s : State) (id : HostId) (previous : Option Host) (host : Host) : Prop :=
  ∃ s₁, Computed s₀ s₁ id previous host ∧ machine.Path free s₁ s ∧ s₁.hosts id = some host

theorem Computed.path {s₀ s t : State} {id : HostId} {previous : Option Host} {host : Host}
    (h : Computed s₀ s id previous host) (hp : machine.Path free s t) :
    Computed s₀ t id previous host := by
  obtain ⟨s₁, h₁, h₂, hrow⟩ := h
  exact ⟨s₁, h₁, h₂.trans hp, hrow⟩

theorem Saved.path {s₀ s t : State} {id : HostId} {previous : Option Host} {host : Host}
    (h : Saved s₀ s id previous host) (hp : machine.Path free s t) : Saved s₀ t id previous host := by
  obtain ⟨s₁, h₁, h₂, hrow⟩ := h
  exact ⟨s₁, h₁, h₂.trans hp, hrow⟩

/-- A call of `save_host` that has not stored its record. -/
def Pc.Early : Pc → Prop
  | .load _ => True
  | .store .. => True
  | _ => False

theorem early_of_store {pc : Pc} {previous : Option Host} {host : Host} (h : pc = .store previous host) :
    pc.Early :=
  h ▸ trivial

/-- What is true of a call, `forgotten` being the secrets it deleted. -/
structure Call.Traced (s₀ s : State) (forgotten : CredentialRef → Prop) (c : Call) : Prop where
  early : c.pc.Early → ∀ r, ¬ forgotten r
  store : ∀ previous host, c.pc = .store previous host → Computed s₀ s c.host previous host
  saved : ∀ previous host, c.saved = some (previous, host) → Saved s₀ s c.host previous host ∧
    (∀ r, forgotten r → r ∈ droppedReferences s₀.provider previous host) ∧
    ((∃ left reply, c.pc = .forget left false reply ∧
        ∀ r ∈ left, r ∈ droppedReferences s₀.provider previous host) ∨
      ∃ result, c.pc = .returned result)

structure Traced (s₀ s : State) : Prop where
  path : machine.Path free s₀ s
  provider : s.provider = s₀.provider
  call : ∀ (i : Nat) (c : Call), s.calls[i]? = some c → c.Traced s₀ s (fun r => (⟨i, r⟩ : Forgotten) ∈ s.forgotten)
  forgotten : ∀ f ∈ s.forgotten, f.call < s.calls.length

theorem Call.Traced.path {s₀ s t : State} {forgotten : CredentialRef → Prop} {c : Call}
    (h : c.Traced s₀ s forgotten) (hp : machine.Path free s t) : c.Traced s₀ t forgotten where
  early := h.early
  store previous host hpc := (h.store previous host hpc).path hp
  saved previous host hs :=
    have ⟨hsaved, hrest⟩ := h.saved previous host hs
    ⟨hsaved.path hp, hrest⟩

/-- A call that has stored nothing, and does not in its next section. -/
theorem Call.Traced.unsaved {s₀ s : State} {forgotten : CredentialRef → Prop} {c : Call} {pc : Pc}
    (hsaved : c.saved = none) (hpc : ¬ pc.Early) : ({ c with pc := pc } : Call).Traced s₀ s forgotten where
  early h := (hpc h).elim
  store previous host h := (hpc (early_of_store h)).elim
  saved previous host h := by cases hsaved.symm.trans h

/-- A step of a call changes the other calls in nothing. -/
theorem Traced.goTo {s₀ s t : State} {i : Nat} {c d : Call} (ht : Traced s₀ s)
    (hp : machine.Path free s t) (hc : s.calls[i]? = some c) (hprovider : t.provider = s.provider)
    (hcalls : t.calls = s.calls.set i d)
    (hforgotten : ∀ f ∈ t.forgotten, f ∈ s.forgotten ∨ f.call = i)
    (hd : d.Traced s₀ t (fun r => (⟨i, r⟩ : Forgotten) ∈ t.forgotten)) : Traced s₀ t where
  path := ht.path.trans hp
  provider := hprovider.trans ht.provider
  call k e he := by
    rcases entry_of_set (hcalls ▸ he) with ⟨rfl, rfl⟩ | ⟨hk, he⟩
    · exact hd
    · have h : e.Traced s₀ t (fun r => (⟨k, r⟩ : Forgotten) ∈ s.forgotten) := (ht.call k e he).path hp
      refine ⟨fun hearly r hr => ?_, h.store, fun previous host hs => ?_⟩
      · exact h.early hearly r ((hforgotten _ hr).resolve_right hk)
      obtain ⟨hsaved, hgone, hpc⟩ := h.saved previous host hs
      refine ⟨hsaved, fun r hr => hgone r ?_, hpc⟩
      exact (hforgotten _ hr).resolve_right hk
  forgotten f hf := by
    rw [hcalls, List.length_set]
    rcases hforgotten f hf with h | h
    · exact ht.forgotten f h
    · rw [h]
      exact (List.getElem?_eq_some_iff.mp hc).1

/-- Only a call that is past its store has saved something. -/
theorem Call.Traced.saved_none {s₀ s : State} {forgotten : CredentialRef → Prop} {c : Call}
    (h : c.Traced s₀ s forgotten) (hforget : ∀ left reply, c.pc ≠ .forget left false reply)
    (hreturned : ∀ result, c.pc ≠ .returned result) : c.saved = none := by
  cases hs : c.saved with
  | none => rfl
  | some saved =>
    obtain ⟨-, -, ⟨left, reply, hpc, -⟩ | ⟨result, hpc⟩⟩ := h.saved saved.1 saved.2 hs
    · exact absurd hpc (hforget left reply)
    · exact absurd hpc (hreturned result)

/-- A step of a call that has stored nothing, to anything but a store. -/
theorem Traced.quiet {s₀ s t : State} {i : Nat} {c : Call} {pc : Pc} (ht : Traced s₀ s)
    (hp : machine.Path free s t) (hc : s.calls[i]? = some c) (hsaved : c.saved = none)
    (hpc : ¬ pc.Early) (hprovider : t.provider = s.provider)
    (hcalls : t.calls = s.calls.set i { c with pc := pc })
    (hforgotten : ∀ f ∈ t.forgotten, f ∈ s.forgotten ∨ f.call = i) : Traced s₀ t :=
  ht.goTo hp hc hprovider hcalls hforgotten (.unsaved hsaved hpc)

theorem forgetAll_not_early (strict : Bool) (reply : Reply) (left : List CredentialRef) :
    ¬ (Pc.forgetAll strict reply left).Early := by
  cases left <;> exact id

theorem forgetAll_cases (strict : Bool) (reply : Reply) (left : List CredentialRef) :
    Pc.forgetAll strict reply left = .forget left strict reply ∨
      ∃ result, Pc.forgetAll strict reply left = .returned result := by
  cases left with
  | nil => exact .inr ⟨.ok reply, rfl⟩
  | cons r left => exact .inl rfl

/-- Where the section that reads leads. -/
inductive Loaded (s : State) (c : Call) : Command → Pc → Prop
  | failed {command : Command} (text : Text) : Loaded s c command (.returned (.error text))
  | saveHost {payload : Host} :
    Loaded s c (.saveHost payload) (.store (s.hosts c.host) (preserveReferences (s.hosts c.host) payload))
  | password {password : Text} {write : SecretWrite}
    (h : planPassword s.provider c.host password (s.hosts c.host) = .ok write) :
    Loaded s c (.saveHostPassword password) (if write.backup.isSome then .backup write else .put write none)
  | tailscale {authKey : Text} {write : SecretWrite}
    (h : planTailscale s.provider c.host authKey (s.hosts c.host) = .ok write) :
    Loaded s c (.saveTailscaleAuthKey authKey)
      (if write.backup.isSome then .backup write else .put write none)
  | deleteHost : Loaded s c .deleteHost (.disconnect (s.heldReferences c.host))

theorem loadStep_cases (s : State) (i : Nat) (c : Call) (command : Command) :
    ∃ pc, s.loadStep i c command = s.goTo i c pc ∧ Loaded s c command pc := by
  cases command with
  | saveHost payload =>
    simp only [loadStep]
    split
    · exact ⟨_, rfl, .failed _⟩
    · exact ⟨_, rfl, .saveHost⟩
  | saveHostPassword password =>
    simp only [loadStep]
    split
    · exact ⟨_, rfl, .failed _⟩
    · rename_i write hplan
      exact ⟨_, rfl, .password hplan⟩
  | saveTailscaleAuthKey authKey =>
    simp only [loadStep]
    split
    · exact ⟨_, rfl, .failed _⟩
    · split
      · exact ⟨_, rfl, .failed _⟩
      · rename_i write hplan
        exact ⟨_, rfl, .tailscale hplan⟩
  | deleteHost =>
    simp only [loadStep]
    split
    · exact ⟨_, rfl, .failed _⟩
    · exact ⟨_, rfl, .deleteHost⟩

/-- Only `save_host` has computed a record when it has read the row. -/
theorem traced_load {s₀ s : State} {i : Nat} {c : Call} {command : Command} (ht : Traced s₀ s)
    (hp : machine.Path free s (s.loadStep i c command)) (hc : s.calls[i]? = some c)
    (hsaved : c.saved = none) (hearly : c.pc.Early) : Traced s₀ (s.loadStep i c command) := by
  obtain ⟨pc, h, hloaded⟩ := loadStep_cases s i c command
  rw [h] at hp ⊢
  refine ht.goTo hp hc rfl rfl (fun f hf => .inl hf) ⟨fun _ => (ht.call i c hc).early hearly, ?_, ?_⟩
  · rintro previous host (rfl : pc = _)
    generalize hpc : Pc.store previous host = pc at hloaded
    cases hloaded with
    | saveHost =>
      cases hpc
      exact ⟨s, ht.path, hp, rfl, _, rfl⟩
    | failed text => cases hpc
    | password hplan => split at hpc <;> cases hpc
    | tailscale hplan => split at hpc <;> cases hpc
    | deleteHost => cases hpc
  · intro previous host hs
    cases hsaved.symm.trans hs

/-- The deletions of a call of `save_host`, one after the other. -/
theorem traced_forget {s₀ s t : State} {i : Nat} {c : Call} {r : CredentialRef}
    {left : List CredentialRef} {strict : Bool} {reply : Reply} {pc : Pc} (ht : Traced s₀ s)
    (hp : machine.Path free s t) (hc : s.calls[i]? = some c) (hpc : c.pc = .forget (r :: left) strict reply)
    (hnext : pc = .forgetAll strict reply left ∨ ∃ text, pc = .returned (.error text))
    (hprovider : t.provider = s.provider) (hcalls : t.calls = s.calls.set i { c with pc := pc })
    (hforgotten : ∀ f ∈ t.forgotten, f ∈ s.forgotten ∨ f = ⟨i, r⟩) : Traced s₀ t := by
  have hnot : ¬ pc.Early := by
    rcases hnext with rfl | ⟨text, rfl⟩
    · exact forgetAll_not_early strict reply left
    · exact id
  refine ht.goTo hp hc hprovider hcalls
    (fun f hf => (hforgotten f hf).imp_right (congrArg Forgotten.call)) ⟨?_, ?_, ?_⟩
  · intro h
    exact (hnot h).elim
  · intro previous host h
    exact (hnot (early_of_store h)).elim
  · intro previous host hs
    obtain ⟨hsaved, hgone, hleft⟩ := (ht.call i c hc).saved previous host hs
    obtain ⟨left', reply', hpc', hleft⟩ | ⟨result, hpc'⟩ := hleft
    · cases hpc.symm.trans hpc'
      refine ⟨hsaved.path hp, fun q hq => ?_, ?_⟩
      · rcases hforgotten _ hq with h | h
        · exact hgone q h
        · cases h
          exact hleft r List.mem_cons_self
      · rcases hnext with rfl | ⟨text, rfl⟩
        · rcases forgetAll_cases false reply left with h | h
          · exact .inl ⟨left, reply, h, fun q hq => hleft q (List.mem_cons_of_mem r hq)⟩
          · exact .inr h
        · exact .inr ⟨_, rfl⟩
    · cases hpc.symm.trans hpc'

theorem traced_callStep {s₀ s t : State} {i : Nat} {c : Call} {choice : Choice} (ht : Traced s₀ s)
    (hp : machine.Path free s t) (hc : s.calls[i]? = some c)
    (h : s.callStep i c c.pc choice = some t) : Traced s₀ t := by
  have hcall := ht.call i c hc
  -- one argument for every section but the store of `save_host` and the deletions
  have quiet (next : Pc) (hforget : ∀ left reply, c.pc ≠ .forget left false reply)
      (hreturned : ∀ result, c.pc ≠ .returned result) (hnext : ¬ next.Early)
      (hprovider : t.provider = s.provider) (hcalls : t.calls = s.calls.set i { c with pc := next })
      (hforgotten : t.forgotten = s.forgotten) : Traced s₀ t :=
    ht.quiet hp hc (hcall.saved_none hforget hreturned) hnext hprovider hcalls
      fun f hf => .inl (hforgotten ▸ hf)
  cases hpc : c.pc with
  | load command =>
    rw [hpc] at h
    cases choice with
    | go =>
      cases h
      exact traced_load ht hp hc (hcall.saved_none (by simp [hpc]) (by simp [hpc])) (hpc ▸ trivial)
    | fault text =>
      cases h
      exact quiet _ (by simp [hpc]) (by simp [hpc]) id rfl rfl rfl
    | poisoned =>
      cases h
      exact quiet _ (by simp [hpc]) (by simp [hpc]) id rfl rfl rfl
  | store previous host =>
    rw [hpc] at h
    cases choice with
    | go =>
      cases h
      refine ht.goTo hp hc rfl rfl (fun f hf => .inl hf) ⟨?_, ?_, ?_⟩
      · intro h
        exact absurd h (forgetAll_not_early _ _ _)
      · intro previous' host' h
        exact absurd (early_of_store h) (forgetAll_not_early _ _ _)
      · rintro previous' host' ⟨⟩
        refine ⟨⟨_, (hcall.store previous host hpc).path hp, .refl _, Function.update_self ..⟩, ?_, ?_⟩
        · intro r hr
          exact absurd hr (hcall.early (hpc ▸ trivial) r)
        · rw [← ht.provider]
          rcases forgetAll_cases false .unit (droppedReferences s.provider previous host) with h | h
          · exact .inl ⟨_, _, h, fun q hq => hq⟩
          · exact .inr h
    | fault text =>
      cases h
      exact quiet _ (by simp [hpc]) (by simp [hpc]) id rfl rfl rfl
    | poisoned =>
      cases h
      exact quiet _ (by simp [hpc]) (by simp [hpc]) id rfl rfl rfl
  | backup write =>
    rw [hpc] at h
    cases choice with
    | go => cases h; exact quiet _ (by simp [hpc]) (by simp [hpc]) id rfl rfl rfl
    | fault text => cases h; exact quiet _ (by simp [hpc]) (by simp [hpc]) id rfl rfl rfl
    | poisoned => cases h; exact quiet _ (by simp [hpc]) (by simp [hpc]) id rfl rfl rfl
  | put write previousSecret =>
    rw [hpc] at h
    cases choice with
    | go => cases h; exact quiet _ (by simp [hpc]) (by simp [hpc]) id rfl rfl rfl
    | fault text => cases h; exact quiet _ (by simp [hpc]) (by simp [hpc]) id rfl rfl rfl
    | poisoned => cases h; exact quiet _ (by simp [hpc]) (by simp [hpc]) id rfl rfl rfl
  | update write previousSecret =>
    rw [hpc] at h
    cases choice with
    | go =>
      cases h
      exact quiet _ (by simp [hpc]) (by simp [hpc]) (forgetAll_not_early _ _ _) rfl rfl rfl
    | fault text => cases h; exact quiet _ (by simp [hpc]) (by simp [hpc]) id rfl rfl rfl
    | poisoned => cases h; exact quiet _ (by simp [hpc]) (by simp [hpc]) id rfl rfl rfl
  | rollback write previousSecret error =>
    rw [hpc] at h
    cases choice with
    | go => cases h; exact quiet _ (by simp [hpc]) (by simp [hpc]) id rfl rfl rfl
    | fault text => cases h; exact quiet _ (by simp [hpc]) (by simp [hpc]) id rfl rfl rfl
    | poisoned => cases h; exact quiet _ (by simp [hpc]) (by simp [hpc]) id rfl rfl rfl
  | disconnect references =>
    rw [hpc] at h
    cases choice with
    | go => cases h; exact quiet _ (by simp [hpc]) (by simp [hpc]) id rfl rfl rfl
    | fault text => cases h
    | poisoned => cases h
  | deleteRow references =>
    rw [hpc] at h
    cases choice with
    | go =>
      simp only [callStep] at h
      split at h
      · cases h
        exact quiet _ (by simp [hpc]) (by simp [hpc]) (forgetAll_not_early _ _ _) rfl rfl rfl
      · cases h
        exact quiet _ (by simp [hpc]) (by simp [hpc]) id rfl rfl rfl
    | fault text => cases h; exact quiet _ (by simp [hpc]) (by simp [hpc]) id rfl rfl rfl
    | poisoned => cases h; exact quiet _ (by simp [hpc]) (by simp [hpc]) id rfl rfl rfl
  | forget left strict reply =>
    rw [hpc] at h
    cases left with
    | nil => cases choice <;> cases h
    | cons r left =>
      cases choice with
      | go =>
        cases h
        refine traced_forget ht hp hc hpc (.inl rfl) rfl rfl fun f hf => ?_
        exact (List.mem_append.mp hf).imp_right List.mem_singleton.mp
      | fault text =>
        cases h
        exact traced_forget ht hp hc hpc (.inl rfl) rfl rfl fun f hf => .inl hf
      | poisoned =>
        simp only [callStep] at h
        split at h
        · cases h
          exact traced_forget ht hp hc hpc (.inr ⟨_, rfl⟩) rfl rfl fun f hf => .inl hf
        · cases h
          exact traced_forget ht hp hc hpc (.inl rfl) rfl rfl fun f hf => .inl hf
  | returned result =>
    rw [hpc] at h
    cases choice <;> cases h

theorem step_traced {s₀ s t : State} {e : Event} (ht : Traced s₀ s) (h : machine.step s e = some t) :
    Traced s₀ t := by
  have hp : machine.Path free s t := .single trivial h
  cases e with
  | call host command =>
    cases h
    refine ⟨ht.path.trans hp, ht.provider, fun i c hc => ?_, fun f hf => ?_⟩
    · rcases entry_of_append hc with hc | ⟨hi, hc⟩
      · exact (ht.call i c hc).path hp
      · obtain rfl := List.mem_singleton.mp hc
        refine ⟨fun _ r hr => ?_, ?_, ?_⟩
        · exact absurd (ht.forgotten _ hr) (Nat.not_lt.mpr hi)
        · rintro _ _ ⟨⟩
        · rintro _ _ ⟨⟩
    · exact (ht.forgotten f hf).trans_le (by simp)
  | step i choice =>
    simp only [machine, step] at h
    cases hc : s.calls[i]? with
    | none => simp [hc] at h
    | some c =>
      rw [hc] at h
      exact traced_callStep ht hp hc h
  | setRuns runs =>
    cases h
    exact ⟨ht.path.trans hp, ht.provider, fun i c hc => (ht.call i c hc).path hp, ht.forgotten⟩

theorem initial_traced {s : State} (h : Initial s) : Traced s s := by
  obtain ⟨hcalls, -, hforgotten⟩ := h
  refine ⟨.refl s, rfl, fun i c hc => ?_, fun f hf => ?_⟩
  · simp [hcalls] at hc
  · simp [hforgotten] at hf

theorem path_traced {s₀ s : State} (h₀ : Initial s₀) (hp : machine.Path free s₀ s) : Traced s₀ s :=
  hp.invariant (fun _ _ _ ht _ h => step_traced ht h) (initial_traced h₀)

/-! ## The statement -/

/-- Over every interleaving of the commands. Two runs whose calls of `save_host` are sent
the same records, but for their references, store and delete the same. What a call of
`save_host` stored came from a row it found: each reference was in the same field of that
row, under the same mode. What it deleted is a managed secret that a field of that row
referred to and the same field of the new record does not; and if one field referred to
it, the new record does not at all. -/
theorem save_host_references :
    (∀ (s s' : State) (es es' : List Event), s.blur = s'.blur → es.map Event.blur = es'.map Event.blur →
      (machine.run free s es).map State.blur = (machine.run free s' es').map State.blur) ∧
    ∀ s₀ s, Initial s₀ → machine.Path free s₀ s →
      ∀ (i : Nat) (c : Call) (previous : Option Host) (stored : Host), s.calls[i]? = some c →
        c.saved = some (previous, stored) →
        (∃ s₁ s₂, machine.Path free s₀ s₁ ∧ machine.Path free s₁ s₂ ∧ machine.Path free s₂ s ∧
          s₁.hosts c.host = previous ∧ s₂.hosts c.host = some stored) ∧
        (∀ field r, reference stored field = some r →
          ∃ old, previous = some old ∧ reference old field = some r ∧ mode old field = mode stored field) ∧
        ∀ r, (⟨i, r⟩ : Forgotten) ∈ s.forgotten → isManagedReference s.provider r = true ∧
          ∃ old field, previous = some old ∧ reference old field = some r ∧
            reference stored field ≠ some r ∧
            ((∀ other, reference old other = some r → other = field) →
              ∀ other, reference stored other ≠ some r) := by
  refine ⟨fun s s' es es' hs hes => run_map_congr step_blur hs hes, ?_⟩
  intro s₀ s h₀ hp i c previous stored hc hsaved
  have ht := path_traced h₀ hp
  obtain ⟨hsaved, hgone, -⟩ := (ht.call i c hc).saved previous stored hsaved
  obtain ⟨s₂, ⟨s₁, h₁, h₂, hrow₁, payload, rfl⟩, h₃, hrow₂⟩ := hsaved
  refine ⟨⟨s₁, s₂, h₁, h₂, h₃, hrow₁, hrow₂⟩, fun field r h => preserveReferences_reference h, ?_⟩
  intro r hr
  obtain ⟨hmanaged, old, field, hprevious, hold, hnew⟩ := mem_droppedReferences (hgone r hr)
  rw [ht.provider]
  exact ⟨hmanaged, old, field, hprevious, hold, hnew, not_referenced hprevious hnew⟩

def sharedReference : CredentialRef := ⟨.nativeKeyring, "shared".toList⟩

/-- A row whose password and Tailscale key are under one reference. -/
def sharingHost : Host where
  label := "build".toList
  username := "ada".toList
  port := 22
  authRef := some sharedReference
  authMode := .password
  privateKeyPath := none
  defaultRemotePath := "/".toList
  jump := none
  addresses := []
  tailscale := some ⟨true, .systemDaemon, none, some sharedReference, none⟩

def sharingState : State where
  provider := .nativeKeyring
  hosts := fun _ => some sharingHost
  runs := fun _ => 0
  secrets := fun _ => some "secret".toList
  calls := []
  written := []
  forgotten := []

/-- The mode of the host changes: the stored record keeps the reference of the Tailscale key,
and the secret that is deleted is the one that the password was under. -/
theorem shared_reference_kept :
    ∃ s c stored old, machine.Path free sharingState s ∧ s.calls[0]? = some c ∧
      c.saved = some (some old, stored) ∧ reference old .tailscale = some sharedReference ∧
      mode old .tailscale = mode stored .tailscale ∧ (⟨0, sharedReference⟩ : Forgotten) ∈ s.forgotten ∧
      ∃ field, reference old field = some sharedReference ∧ reference stored field ≠ some sharedReference := by
  have hrun : (machine.run free sharingState
      [.call ⟨1⟩ (.saveHost { sharingHost with authMode := .publicKey }), .step 0 .go, .step 0 .go, .step 0 .go]).any
      (fun s => decide (s.forgotten = [⟨0, sharedReference⟩]) &&
        (s.calls[0]?).any fun c : Call => c.saved.any fun saved : Option Host × Host =>
          reference saved.2 .tailscale == some sharedReference) = true := by decide
  obtain ⟨s, hs, hp⟩ := (Option.any_eq_true ..).mp hrun
  simp only [Bool.and_eq_true, decide_eq_true_eq, Option.any_eq_true, beq_iff_eq] at hp
  obtain ⟨hforgotten, c, hc, ⟨previous, stored⟩, hsaved, hreference⟩ := hp
  have hpath : machine.Path free sharingState s := .of_run hs
  have hmem : (⟨0, sharedReference⟩ : Forgotten) ∈ s.forgotten := hforgotten ▸ List.mem_singleton_self _
  obtain ⟨-, hkept, hdeleted⟩ :=
    save_host_references.2 sharingState s ⟨rfl, rfl, rfl⟩ hpath 0 c previous stored hc hsaved
  obtain ⟨old, rfl, hold, hmode⟩ := hkept .tailscale sharedReference hreference
  obtain ⟨-, _, field, ⟨⟩, hfield, hnew, -⟩ := hdeleted sharedReference hmem
  exact ⟨s, c, stored, old, hpath, hc, hsaved, hold, hmode, hmem, field, hfield, hnew⟩

/-- The mode of the host changes: the secret of its password is deleted, and the stored
record still refers to it as the Tailscale key. -/
theorem shared_secret_deleted :
    ∃ s c previous stored, machine.Reach free Initial s ∧ s.calls[0]? = some c ∧
      c.saved = some (previous, stored) ∧ (⟨0, sharedReference⟩ : Forgotten) ∈ s.forgotten ∧
      isManagedReference s.provider sharedReference = true ∧
      reference stored .tailscale = some sharedReference := by
  have hinit : Initial sharingState := ⟨rfl, rfl, rfl⟩
  obtain ⟨s, hs, hp⟩ := Reach.of_run machine free hinit
    [.call ⟨1⟩ (.saveHost { sharingHost with authMode := .publicKey }), .step 0 .go, .step 0 .go, .step 0 .go]
    (fun s => decide (s.forgotten = [⟨0, sharedReference⟩]) && decide (s.provider = .nativeKeyring) &&
      (s.calls[0]?).any fun c : Call => c.saved.any fun saved : Option Host × Host =>
        reference saved.2 .tailscale == some sharedReference)
    (by decide)
  simp only [Bool.and_eq_true, decide_eq_true_eq, Option.any_eq_true, beq_iff_eq] at hp
  obtain ⟨⟨hforgotten, hprovider⟩, c, hc, saved, hsaved, hreference⟩ := hp
  refine ⟨s, c, saved.1, saved.2, hs, hc, hsaved, ?_, ?_, hreference⟩
  · rw [hforgotten]
    exact List.mem_singleton_self _
  · rw [hprovider]
    rfl

end KW.Hosts
