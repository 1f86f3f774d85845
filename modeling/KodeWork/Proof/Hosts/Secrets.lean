import KodeWork.Proof.Hosts.References

/-!
# No orphan, no dangling reference

The rows of the database and the secrets of the platform are written in separate
sections. `Kept` is what holds between any two sections: a managed reference of a
row has its secret, and a secret that was written and is still stored is referred
to by a row, or a call will write that row or delete the secret. Sections keep it
as long as the calls do not disturb one another (`Undisturbed`): a row that is
replaced or deleted loses no reference its call does not know of, and gets none
back; a secret that is deleted is not in use.

`delete_host` reads the references of a row, awaits the end of the session and then
deletes the row. Nothing keeps `save_host_password` from storing a secret in
between: `orphan_left` is that run.
-/

namespace KW.Hosts

open State Machine

/-! ## Undisturbed steps -/

/-- A field of the record refers to the secret. -/
def Host.Refers (host : Host) (r : CredentialRef) : Prop := ∃ field, reference host field = some r

/-- A row refers to the secret. -/
def State.Referenced (s : State) (r : CredentialRef) : Prop :=
  ∃ id host, s.hosts id = some host ∧ Host.Refers host r

/-- The row can be replaced by `host`, when the secrets in `drop` are deleted afterwards and
that of `fresh` is stored: its managed references are kept or dropped, and those of `host`
are the row's or fresh. -/
structure State.Replaces (s : State) (id : HostId) (host : Host) (drop : List CredentialRef)
    (fresh : Option CredentialRef) : Prop where
  lost : ∀ old r, s.hosts id = some old → isManagedReference s.provider r = true → Host.Refers old r →
    Host.Refers host r ∨ r ∈ drop
  revived : ∀ r, isManagedReference s.provider r = true → Host.Refers host r →
    fresh = some r ∨ ∃ old, s.hosts id = some old ∧ Host.Refers old r

/-- What the calls do between the sections of a call leaves its next section valid. -/
def State.Undisturbed (s : State) (id : HostId) : Pc → Prop
  | .store previous host => s.Replaces id host (droppedReferences s.provider previous host) none
  | .update write _ => s.Replaces id write.host write.drop (some write.reference)
  | .deleteRow references => ∀ old r, s.hosts id = some old → isManagedReference s.provider r = true →
    Host.Refers old r → r ∈ references
  | .forget (r :: _) _ _ => ¬ s.Referenced r ∧
    ∀ d ∈ s.calls, ∀ write previousSecret, d.pc = .update write previousSecret → write.reference ≠ r
  | _ => True

/-- All operations of the stores succeed. -/
def succeeds (_ : State) : Event → Prop
  | .step _ choice => choice = .go
  | _ => True

instance (s : State) (e : Event) : Decidable (succeeds s e) := by
  cases e <;> unfold succeeds <;> infer_instance

/-- And the step belongs to a call that has not been disturbed. -/
def undisturbed (s : State) : Event → Prop
  | .step i choice => choice = .go ∧ ∀ c : Call, s.calls[i]? = some c → s.Undisturbed c.host c.pc
  | _ => True

/-! ## The invariant -/

/-- The call will write a row with the reference, or delete its secret. -/
def Pc.Covers : Pc → CredentialRef → Prop
  | .update write _, r => write.reference = r
  | .forget left _ _, r => r ∈ left
  | _, _ => False

/-- The record on its way into the row refers to the secret on its way into the store. -/
def SecretWrite.Planned (provider : CredentialProvider) (write : SecretWrite) : Prop :=
  Host.Refers write.host write.reference ∧ isManagedReference provider write.reference = true

/-- What a call carries is planned, and nothing is taken back. -/
def Pc.Planned (provider : CredentialProvider) : Pc → Prop
  | .backup write => write.Planned provider
  | .put write _ => write.Planned provider
  | .update write _ => write.Planned provider
  | .rollback .. => False
  | _ => True

/-- The rows and the secrets belong together. -/
structure Consistent (s : State) : Prop where
  /-- no dangling reference -/
  stored : ∀ r, s.Referenced r → isManagedReference s.provider r = true → (s.secrets r).isSome
  /-- no orphan -/
  covered : ∀ r ∈ s.written, (s.secrets r).isSome → s.Referenced r

structure Kept (s : State) : Prop where
  stored : ∀ r, s.Referenced r → isManagedReference s.provider r = true → (s.secrets r).isSome
  pending : ∀ c ∈ s.calls, ∀ write previousSecret, c.pc = .update write previousSecret →
    (s.secrets write.reference).isSome
  planned : ∀ c ∈ s.calls, c.pc.Planned s.provider
  managed : ∀ r ∈ s.written, isManagedReference s.provider r = true
  covered : ∀ r ∈ s.written, (s.secrets r).isSome → s.Referenced r ∨ ∃ c ∈ s.calls, c.pc.Covers r

/-! ## Sections -/

/-- Another call than the one numbered `i` covers the secret. -/
def State.CoveredElsewhere (s : State) (i : Nat) (r : CredentialRef) : Prop :=
  ∃ k d, k ≠ i ∧ s.calls[k]? = some d ∧ d.pc.Covers r

theorem Kept.holder {s : State} (hk : Kept s) {i : Nat} {c : Call} (hc : s.calls[i]? = some c)
    {r : CredentialRef} (hr : r ∈ s.written) (hsecret : (s.secrets r).isSome) :
    s.Referenced r ∨ c.pc.Covers r ∨ s.CoveredElsewhere i r :=
  (hk.covered r hr hsecret).imp_right (exists_mem_split hc fun d => d.pc.Covers r).mp

/-- What has to be shown of a section of the call numbered `i`. -/
theorem Kept.after {s t : State} (hk : Kept s) {i : Nat} {c : Call} (pc : Pc) {saved : Option (Option Host × Host)}
    (hc : s.calls[i]? = some c) (hprovider : t.provider = s.provider)
    (hcalls : t.calls = s.calls.set i ⟨c.host, pc, saved⟩)
    (hstored : ∀ r, t.Referenced r → isManagedReference s.provider r = true → (t.secrets r).isSome)
    (hpending : ∀ d ∈ s.calls, ∀ write previousSecret, d.pc = .update write previousSecret →
      (s.secrets write.reference).isSome → (t.secrets write.reference).isSome)
    (hupdate : ∀ write previousSecret, pc = .update write previousSecret →
      (t.secrets write.reference).isSome)
    (hplanned : pc.Planned s.provider)
    (hmanaged : ∀ r ∈ t.written, r ∈ s.written ∨ isManagedReference s.provider r = true)
    (hcovered : ∀ r ∈ t.written, (t.secrets r).isSome →
      t.Referenced r ∨ pc.Covers r ∨ s.CoveredElsewhere i r) : Kept t := by
  refine ⟨fun r hr hm => hstored r hr (hprovider ▸ hm), ?_, ?_, ?_, ?_⟩
  · intro d hd write previousSecret hpc
    rw [hcalls] at hd
    rcases List.mem_or_eq_of_mem_set hd with hd | rfl
    · exact hpending d hd write previousSecret hpc (hk.pending d hd write previousSecret hpc)
    · exact hupdate write previousSecret hpc
  · intro d hd
    rw [hprovider]
    rw [hcalls] at hd
    rcases List.mem_or_eq_of_mem_set hd with hd | rfl
    · exact hk.planned d hd
    · exact hplanned
  · intro r hr
    rw [hprovider]
    exact (hmanaged r hr).elim (hk.managed r) id
  · intro r hr hsecret
    rw [hcalls]
    exact (hcovered r hr hsecret).imp_right (exists_mem_set_split hc fun d => d.pc.Covers r).mpr

/-- A section that touches neither the rows nor the secrets. -/
theorem Kept.goTo {s : State} (hk : Kept s) {i : Nat} {c : Call} {pc : Pc} (hc : s.calls[i]? = some c)
    (hcovers : ∀ r, c.pc.Covers r → pc.Covers r)
    (hupdate : ∀ write previousSecret, pc ≠ .update write previousSecret)
    (hplanned : pc.Planned s.provider) : Kept (s.goTo i c pc) := by
  refine hk.after pc hc rfl rfl hk.stored (fun _ _ _ _ _ h => h)
    (fun write previousSecret h => (hupdate write previousSecret h).elim) hplanned
    (fun r hr => .inl hr) (fun r hr hsecret => ?_)
  exact (hk.holder hc hr hsecret).imp_right (Or.imp_left (hcovers r))

theorem planPassword_planned {provider : CredentialProvider} {id : HostId} {password : Text}
    {row : Option Host} {write : SecretWrite} (h : planPassword provider id password row = .ok write) :
    write.Planned provider := by
  cases row with
  | none => cases h
  | some host =>
    simp only [planPassword] at h
    split at h
    · cases h
    · split at h
      · cases h
      · split at h
        · cases h
          exact ⟨⟨.ssh, rfl⟩, beq_self_eq_true provider⟩
        · cases h
          exact ⟨⟨.ssh, rfl⟩, beq_self_eq_true provider⟩
        · cases h
        · cases h

theorem planTailscale_planned {provider : CredentialProvider} {id : HostId} {authKey : Text}
    {row : Option Host} {write : SecretWrite} (h : planTailscale provider id authKey row = .ok write) :
    write.Planned provider := by
  cases row with
  | none => cases h
  | some host =>
    cases h
    exact ⟨⟨.tailscale, rfl⟩, beq_self_eq_true provider⟩

/-- What a call has planned when it has read the row. -/
theorem loaded_planned {s : State} {c : Call} {command : Command} {pc : Pc} (h : Loaded s c command pc) :
    pc.Planned s.provider ∧ ∀ write previousSecret, pc ≠ .update write previousSecret := by
  have plan {plan : SecretWrite} (hplan : plan.Planned s.provider) :
      (if plan.backup.isSome then Pc.backup plan else .put plan none).Planned s.provider ∧
        ∀ write previousSecret,
          (if plan.backup.isSome then Pc.backup plan else .put plan none) ≠ .update write previousSecret := by
    split
    · exact ⟨hplan, by rintro _ _ ⟨⟩⟩
    · exact ⟨hplan, by rintro _ _ ⟨⟩⟩
  cases h with
  | failed text => exact ⟨trivial, by rintro _ _ ⟨⟩⟩
  | saveHost => exact ⟨trivial, by rintro _ _ ⟨⟩⟩
  | password h => exact plan (planPassword_planned h)
  | tailscale h => exact plan (planTailscale_planned h)
  | deleteHost => exact ⟨trivial, by rintro _ _ ⟨⟩⟩

theorem forgetAll_covers (strict : Bool) (reply : Reply) {left : List CredentialRef} {r : CredentialRef}
    (h : r ∈ left) : (Pc.forgetAll strict reply left).Covers r := by
  cases left with
  | nil => cases h
  | cons q left => exact h

theorem forgetAll_planned (provider : CredentialProvider) (strict : Bool) (reply : Reply)
    (left : List CredentialRef) : (Pc.forgetAll strict reply left).Planned provider := by
  cases left <;> trivial

theorem forgetAll_ne_update (strict : Bool) (reply : Reply) (left : List CredentialRef)
    (write : SecretWrite) (previousSecret : Option Text) :
    Pc.forgetAll strict reply left ≠ .update write previousSecret := by
  cases left <;> rintro ⟨⟩

/-- A row is replaced, and what the new record does not refer to will be deleted. -/
theorem Kept.replace {s : State} (hk : Kept s) {i : Nat} {c : Call} (hc : s.calls[i]? = some c)
    {host : Host} {drop : List CredentialRef} {fresh : Option CredentialRef}
    (saved : Option (Option Host × Host)) {strict : Bool} {reply : Reply}
    (hreplaces : s.Replaces c.host host drop fresh)
    (hfresh : ∀ r, fresh = some r → (s.secrets r).isSome)
    (hcovers : ∀ r, c.pc.Covers r → Host.Refers host r) :
    Kept ((s.setHost c.host (some host)).goTo i { c with saved := saved } (.forgetAll strict reply drop)) := by
  have hself : (s.setHost c.host (some host)).hosts c.host = some host := Function.update_self ..
  refine hk.after (.forgetAll strict reply drop) hc rfl rfl ?_ (fun _ _ _ _ _ h => h)
    (fun write previousSecret h => (forgetAll_ne_update _ _ _ _ _ h).elim) (forgetAll_planned _ _ _ _)
    (fun r hr => .inl hr) ?_
  · rintro r ⟨id, row, hrow, hr⟩ hm
    rcases entry_of_update hrow with ⟨-, hnew⟩ | ⟨-, hrow⟩
    · cases hnew
      rcases hreplaces.revived r hm hr with h | ⟨old, hold, h⟩
      · exact hfresh r h
      · exact hk.stored r ⟨c.host, old, hold, h⟩ hm
    · exact hk.stored r ⟨id, row, hrow, hr⟩ hm
  · intro r hr hsecret
    rcases hk.holder hc hr hsecret with ⟨id, row, hrow, h⟩ | h | h
    · by_cases hid : id = c.host
      · subst hid
        rcases hreplaces.lost row r hrow (hk.managed r hr) h with h | h
        · exact .inl ⟨c.host, host, hself, h⟩
        · exact .inr (.inl (forgetAll_covers strict reply h))
      · exact .inl ⟨id, row, (Function.update_of_ne hid ..).trans hrow, h⟩
    · exact .inl ⟨c.host, host, hself, hcovers r h⟩
    · exact .inr (.inr h)

/-- A secret is written, and its call is about to write the row. -/
theorem Kept.put {s : State} (hk : Kept s) {i : Nat} {c : Call} {write : SecretWrite}
    {previousSecret : Option Text} (hc : s.calls[i]? = some c) (hpc : c.pc = .put write previousSecret) :
    Kept ({ s.setSecret write.reference (some write.secret) with
      written := s.written ++ [write.reference] }.goTo i c (.update write previousSecret)) := by
  have hplanned : write.Planned s.provider := by
    have h := hk.planned c (List.mem_iff_getElem?.mpr ⟨i, hc⟩)
    rwa [hpc] at h
  have hkeeps (r : CredentialRef) (h : (s.secrets r).isSome) :
      (Function.update s.secrets write.reference (some write.secret) r).isSome := by
    by_cases hr : r = write.reference
    · rw [hr, Function.update_self]
      rfl
    · rwa [Function.update_of_ne hr]
  refine hk.after (.update write previousSecret) hc rfl rfl
    (fun r hr hm => hkeeps r (hk.stored r hr hm)) (fun _ _ _ _ _ h => hkeeps _ h) ?_ hplanned ?_ ?_
  · rintro _ _ ⟨⟩
    change (Function.update s.secrets write.reference (some write.secret) write.reference).isSome
    rw [Function.update_self]
    rfl
  · intro r hr
    rcases List.mem_append.mp hr with hr | hr
    · exact .inl hr
    · rw [List.mem_singleton.mp hr]
      exact .inr hplanned.2
  · intro r hr hsecret
    by_cases heq : r = write.reference
    · exact .inr (.inl heq.symm)
    · have hsecret : (Function.update s.secrets write.reference (some write.secret) r).isSome := hsecret
      rw [Function.update_of_ne heq] at hsecret
      rcases List.mem_append.mp hr with hr | hr
      · rcases hk.holder hc hr hsecret with h | h | h
        · exact .inl h
        · rw [hpc] at h
          exact h.elim
        · exact .inr (.inr h)
      · exact absurd (List.mem_singleton.mp hr) heq

/-- A row is deleted, and its secrets will be. -/
theorem Kept.deleteRow {s : State} (hk : Kept s) {i : Nat} {c : Call} {references : List CredentialRef}
    (hc : s.calls[i]? = some c) (hpc : c.pc = .deleteRow references)
    (hheld : s.Undisturbed c.host (.deleteRow references)) :
    Kept ((s.setHost c.host none).goTo i c
      (.forgetAll true (.deleted true) (references.filter (isManagedReference s.provider)))) := by
  refine hk.after (.forgetAll true (.deleted true) (references.filter (isManagedReference s.provider)))
    hc rfl rfl ?_ (fun _ _ _ _ _ h => h)
    (fun write previousSecret h => (forgetAll_ne_update _ _ _ _ _ h).elim) (forgetAll_planned _ _ _ _)
    (fun r hr => .inl hr) ?_
  · rintro r ⟨id, row, hrow, hr⟩ hm
    rcases entry_of_update hrow with ⟨-, hnone⟩ | ⟨-, hrow⟩
    · cases hnone
    · exact hk.stored r ⟨id, row, hrow, hr⟩ hm
  · intro r hr hsecret
    rcases hk.holder hc hr hsecret with ⟨id, row, hrow, h⟩ | h | h
    · by_cases hid : id = c.host
      · subst hid
        have hmanaged := hk.managed r hr
        refine .inr (.inl (forgetAll_covers _ _ (List.mem_filter.mpr ⟨?_, hmanaged⟩)))
        exact hheld row r hrow hmanaged h
      · exact .inl ⟨id, row, (Function.update_of_ne hid ..).trans hrow, h⟩
    · rw [hpc] at h
      exact h.elim
    · exact .inr (.inr h)

/-- A secret that is not in use is deleted. -/
theorem Kept.forget {s : State} (hk : Kept s) {i : Nat} {c : Call} {r : CredentialRef}
    {left : List CredentialRef} {strict : Bool} {reply : Reply} (hc : s.calls[i]? = some c)
    (hpc : c.pc = .forget (r :: left) strict reply)
    (hunused : s.Undisturbed c.host (.forget (r :: left) strict reply)) :
    Kept ({ s.setSecret r none with
      forgotten := s.forgotten ++ [(⟨i, r⟩ : Forgotten)] }.goTo i c (.forgetAll strict reply left)) := by
  refine hk.after (.forgetAll strict reply left) hc rfl rfl ?_ ?_
    (fun write previousSecret h => (forgetAll_ne_update _ _ _ _ _ h).elim) (forgetAll_planned _ _ _ _)
    (fun q hq => .inl hq) ?_
  · intro q hq hm
    have hne : q ≠ r := fun h => hunused.1 (h ▸ hq)
    change (Function.update s.secrets r none q).isSome
    rw [Function.update_of_ne hne]
    exact hk.stored q hq hm
  · intro d hd write previousSecret hupdate h
    change (Function.update s.secrets r none write.reference).isSome
    rwa [Function.update_of_ne (hunused.2 d hd write previousSecret hupdate)]
  · intro q hq hsecret
    have hsecret : (Function.update s.secrets r none q).isSome := hsecret
    by_cases hne : q = r
    · rw [hne, Function.update_self] at hsecret
      cases hsecret
    · rw [Function.update_of_ne hne] at hsecret
      rcases hk.holder hc hq hsecret with h | h | h
      · exact .inl h
      · rw [hpc] at h
        exact .inr (.inl (forgetAll_covers strict reply ((List.mem_cons.mp h).resolve_left hne)))
      · exact .inr (.inr h)

/-! ## Rows that did not change

A section is undisturbed when the row is still the one its call has read. -/

theorem unchanged_store (s : State) (id : HostId) (payload : Host) :
    s.Replaces id (preserveReferences (s.hosts id) payload)
      (droppedReferences s.provider (s.hosts id) (preserveReferences (s.hosts id) payload)) none where
  lost old r hold hmanaged hr := by
    obtain ⟨field, hfield⟩ := hr
    by_cases hnew : reference (preserveReferences (s.hosts id) payload) field = some r
    · exact .inl ⟨field, hnew⟩
    · refine .inr (List.mem_filterMap.mpr ⟨field, by cases field <;> simp, ?_⟩)
      have hprevious : ((s.hosts id).bind fun host => reference host field) = some r := by
        rw [hold]
        exact hfield
      simp only [droppedReference, hprevious]
      rw [if_pos (Ne.symm hnew)]
      exact Option.filter_eq_some_iff.mpr ⟨rfl, hmanaged⟩
  revived r _ hr := by
    obtain ⟨field, hfield⟩ := hr
    obtain ⟨old, hold, hr, -⟩ := preserveReferences_reference hfield
    exact .inr ⟨old, hold, field, hr⟩

theorem unchanged_password {s : State} {id : HostId} {password : Text} {write : SecretWrite}
    (h : planPassword s.provider id password (s.hosts id) = .ok write) :
    s.Replaces id write.host write.drop (some write.reference) := by
  cases hrow : s.hosts id with
  | none =>
    rw [hrow] at h
    cases h
  | some host =>
    rw [hrow] at h
    have key (kind : String) : s.Replaces id { host with authRef := some (credentialRef s.provider kind id) }
        (if host.authRef = some (credentialRef s.provider kind id) then []
          else (host.authRef.filter (isManagedReference s.provider)).toList)
        (some (credentialRef s.provider kind id)) := by
      refine ⟨fun old r hold hmanaged hr => ?_, fun r _ hr => ?_⟩
      · cases hrow.symm.trans hold
        obtain ⟨field, hfield⟩ := hr
        cases field with
        | ssh =>
          have hfield : host.authRef = some r := hfield
          by_cases heq : host.authRef = some (credentialRef s.provider kind id)
          · exact .inl ⟨.ssh, heq.symm.trans hfield⟩
          · rw [if_neg heq, Option.mem_toList]
            exact .inr (Option.filter_eq_some_iff.mpr ⟨hfield, hmanaged⟩)
        | tailscale => exact .inl ⟨.tailscale, hfield⟩
        | jump => exact .inl ⟨.jump, hfield⟩
      · obtain ⟨field, hfield⟩ := hr
        cases field with
        | ssh => exact .inl hfield
        | tailscale => exact .inr ⟨host, hrow, .tailscale, hfield⟩
        | jump => exact .inr ⟨host, hrow, .jump, hfield⟩
    simp only [planPassword] at h
    split at h
    · cases h
    · split at h
      · cases h
      · split at h
        · cases h
          exact key "ssh-password"
        · cases h
          exact key "ssh-key-passphrase"
        · cases h
        · cases h

theorem unchanged_tailscale {s : State} {id : HostId} {authKey : Text} {write : SecretWrite}
    (h : planTailscale s.provider id authKey (s.hosts id) = .ok write) :
    s.Replaces id write.host write.drop (some write.reference) := by
  cases hrow : s.hosts id with
  | none =>
    rw [hrow] at h
    cases h
  | some host =>
    rw [hrow] at h
    cases h
    refine ⟨fun old r hold hmanaged hr => ?_, fun r _ hr => ?_⟩
    · cases hrow.symm.trans hold
      obtain ⟨field, hfield⟩ := hr
      cases field with
      | ssh => exact .inl ⟨.ssh, hfield⟩
      | tailscale =>
        obtain ⟨config, hconfig, hr⟩ := Option.bind_eq_some_iff.mp hfield
        by_cases heq : r = credentialRef s.provider "tailscale-auth" id
        · exact .inl ⟨.tailscale, congrArg some heq.symm⟩
        · refine .inr (Option.mem_toList.mpr (Option.filter_eq_some_iff.mpr ⟨?_, by simpa using heq⟩))
          rw [hconfig]
          exact Option.filter_eq_some_iff.mpr ⟨hr, hmanaged⟩
      | jump => exact .inl ⟨.jump, hfield⟩
    · obtain ⟨field, hfield⟩ := hr
      cases field with
      | ssh => exact .inr ⟨host, hrow, .ssh, hfield⟩
      | tailscale => exact .inl hfield
      | jump => exact .inr ⟨host, hrow, .jump, hfield⟩

theorem unchanged_delete (s : State) (id : HostId) : s.Undisturbed id (.deleteRow (s.heldReferences id)) := by
  intro old r hold _ hr
  obtain ⟨field, hfield⟩ := hr
  refine List.mem_filterMap.mpr ⟨field, by cases field <;> simp, ?_⟩
  rw [hold]
  exact hfield

/-! ## Runs -/

theorem step_kept {s t : State} {e : Event} (hk : Kept s) (hu : undisturbed s e)
    (h : machine.step s e = some t) : Kept t := by
  cases e with
  | call host command =>
    cases h
    have hmem {c : Call} (hc : c ∈ s.calls ++ [⟨host, .load command, none⟩]) :
        c ∈ s.calls ∨ c = ⟨host, .load command, none⟩ :=
      (List.mem_append.mp hc).imp_right List.mem_singleton.mp
    refine ⟨hk.stored, ?_, ?_, hk.managed, fun r hr hsecret => ?_⟩
    · intro c hc write previousSecret hpc
      rcases hmem hc with hc | rfl
      · exact hk.pending c hc write previousSecret hpc
      · cases hpc
    · intro c hc
      rcases hmem hc with hc | rfl
      · exact hk.planned c hc
      · trivial
    · refine (hk.covered r hr hsecret).imp_right ?_
      rintro ⟨c, hc, hcovers⟩
      exact ⟨c, List.mem_append_left _ hc, hcovers⟩
  | setRuns runs =>
    cases h
    exact ⟨hk.stored, hk.pending, hk.planned, hk.managed, hk.covered⟩
  | step i choice =>
    obtain ⟨rfl, hu⟩ := hu
    simp only [machine, step] at h
    cases hc : s.calls[i]? with
    | none => simp [hc] at h
    | some c =>
      rw [hc] at h
      change s.callStep i c c.pc .go = some t at h
      have hu := hu c hc
      have hplanned := hk.planned c (List.mem_iff_getElem?.mpr ⟨i, hc⟩)
      cases hpc : c.pc with
      | load command =>
        rw [hpc] at h
        obtain ⟨pc, hload, hloaded⟩ := loadStep_cases s i c command
        obtain rfl : s.loadStep i c command = t := Option.some.inj h
        rw [hload]
        have hnext := loaded_planned hloaded
        exact hk.goTo hc (fun r hr => by rw [hpc] at hr; exact hr.elim) hnext.2 hnext.1
      | store previous host =>
        rw [hpc] at h hu
        cases h
        exact hk.replace hc _ hu (by rintro r ⟨⟩) fun r hr => by rw [hpc] at hr; exact hr.elim
      | backup write =>
        rw [hpc] at h hplanned
        cases h
        exact hk.goTo hc (fun r hr => by rw [hpc] at hr; exact hr.elim) (by rintro _ _ ⟨⟩) hplanned
      | put write previousSecret =>
        rw [hpc] at h
        cases h
        exact hk.put hc hpc
      | update write previousSecret =>
        rw [hpc] at h hu hplanned
        cases h
        refine hk.replace hc c.saved hu ?_ ?_
        · rintro r ⟨⟩
          exact hk.pending c (List.mem_iff_getElem?.mpr ⟨i, hc⟩) write previousSecret hpc
        · intro r hr
          rw [hpc] at hr
          exact (show write.reference = r from hr) ▸ hplanned.1
      | rollback write previousSecret error =>
        rw [hpc] at hplanned
        exact hplanned.elim
      | disconnect references =>
        rw [hpc] at h
        cases h
        exact hk.goTo hc (fun r hr => by rw [hpc] at hr; exact hr.elim) (by rintro _ _ ⟨⟩) trivial
      | deleteRow references =>
        rw [hpc] at h hu
        simp only [callStep] at h
        split at h
        · cases h
          exact hk.deleteRow hc hpc hu
        · cases h
          exact hk.goTo hc (fun r hr => by rw [hpc] at hr; exact hr.elim) (by rintro _ _ ⟨⟩) trivial
      | forget left strict reply =>
        rw [hpc] at h hu
        cases left with
        | nil => cases h
        | cons r left =>
          cases h
          exact hk.forget hc hpc hu
      | returned result =>
        rw [hpc] at h
        cases h

/-- A database and a secret store that belong together, before any call. -/
structure Fresh (s : State) : Prop where
  initial : Initial s
  stored : ∀ r, s.Referenced r → isManagedReference s.provider r = true → (s.secrets r).isSome

theorem fresh_kept {s : State} (h : Fresh s) : Kept s := by
  obtain ⟨hcalls, hwritten, -⟩ := h.initial
  refine ⟨h.stored, ?_, ?_, ?_, ?_⟩
  · intro c hc
    simp [hcalls] at hc
  · intro c hc
    simp [hcalls] at hc
  · intro r hr
    simp [hwritten] at hr
  · intro r hr
    simp [hwritten] at hr

/-- Every call has come to its end. -/
def State.AllReturned (s : State) : Prop := ∀ c ∈ s.calls, ∃ result, c.pc = .returned result

theorem kept_consistent {s : State} (hk : Kept s) (h : s.AllReturned) : Consistent s := by
  refine ⟨hk.stored, fun r hr hsecret => (hk.covered r hr hsecret).resolve_right ?_⟩
  rintro ⟨c, hc, hcovers⟩
  obtain ⟨result, hpc⟩ := h c hc
  rw [hpc] at hcovers
  exact hcovers

/-- In a run whose sections find in the row what their calls have read, and delete no
secret that is in use, every secret that was written is referred to by a row when all
calls have returned, or is deleted, and every managed reference of a row has its secret. -/
theorem undisturbed_run_consistent {s : State} (h : machine.Reach undisturbed Fresh s)
    (hreturned : s.AllReturned) : Consistent s := by
  have hk : Kept s := h.invariant (fun _ => fresh_kept) fun _ _ _ => step_kept
  exact kept_consistent hk hreturned

/-- A row with a password and no saved secret. -/
def plainHost : Host := { sharingHost with authRef := none, tailscale := none }

def plainState : State where
  provider := .nativeKeyring
  hosts := fun id => if id = ⟨1⟩ then some plainHost else none
  runs := fun _ => 0
  secrets := fun _ => none
  calls := []
  written := []
  forgotten := []

theorem plainState_fresh : Fresh plainState where
  initial := ⟨rfl, rfl, rfl⟩
  stored := by
    rintro r ⟨id, host, hrow, field, hfield⟩ -
    obtain ⟨-, rfl⟩ : id = ⟨1⟩ ∧ plainHost = host := Option.ite_none_right_eq_some.mp hrow |>.imp_right Option.some.inj
    cases field <;> cases hfield

def plainReference : CredentialRef := credentialRef .nativeKeyring "ssh-password" ⟨1⟩

def plainWrite : SecretWrite where
  host := { plainHost with authRef := some plainReference }
  previous := plainHost
  reference := plainReference
  secret := "secret".toList
  backup := none
  drop := []
  failure := "credential write failed: ".toList

/-- `plainState` with one call, and what it has done. -/
def savingState (pc : Pc) : State := { plainState with calls := [⟨⟨1⟩, pc, none⟩] }

def putState : State :=
  { plainState.setSecret plainReference (some "secret".toList) with
    calls := [⟨⟨1⟩, .update plainWrite none, none⟩]
    written := [plainReference] }

/-- The password is saved. -/
def savedState : State :=
  (putState.setHost ⟨1⟩ (some plainWrite.host)).goTo 0 ⟨⟨1⟩, .update plainWrite none, none⟩
    (.returned (.ok (.host plainWrite.host)))

theorem savedState_reached : machine.Path undisturbed plainState savedState := by
  have hplan : planPassword putState.provider ⟨1⟩ "secret".toList (putState.hosts ⟨1⟩) = .ok plainWrite := rfl
  have hcall : machine.Path undisturbed plainState (savingState (.load (.saveHostPassword "secret".toList))) :=
    .single (a := .call ⟨1⟩ (.saveHostPassword "secret".toList)) trivial rfl
  have hload : undisturbed (savingState (.load (.saveHostPassword "secret".toList))) (.step 0 .go) :=
    ⟨rfl, by rintro c ⟨⟩; trivial⟩
  have hput : undisturbed (savingState (.put plainWrite none)) (.step 0 .go) :=
    ⟨rfl, by rintro c ⟨⟩; trivial⟩
  have hupdate : undisturbed putState (.step 0 .go) :=
    ⟨rfl, by rintro c ⟨⟩; exact unchanged_password hplan⟩
  exact ((hcall.tail hload rfl).tail hput (u := putState) rfl).tail hupdate rfl

/-- A call of `delete_host` comes next, and is here. -/
def deletingState (pc : Pc) : State := { savedState with calls := savedState.calls ++ [⟨⟨1⟩, pc, none⟩] }

/-- It has deleted the row. -/
def rowlessState : State := (deletingState (.forget [plainReference] true (.deleted true))).setHost ⟨1⟩ none

theorem rowlessState_hosts (id : HostId) : rowlessState.hosts id = none := by
  by_cases hid : id = ⟨1⟩
  · rw [hid]
    rfl
  · have hsaved : rowlessState.hosts id = putState.hosts id :=
      (Function.update_of_ne hid ..).trans (Function.update_of_ne hid ..)
    exact hsaved.trans (if_neg hid)

/-- And its secret. -/
def deletedState : State :=
  ({ rowlessState.setSecret plainReference none with forgotten := [⟨1, plainReference⟩] } : State).goTo 1
    ⟨⟨1⟩, .forget [plainReference] true (.deleted true), none⟩ (.returned (.ok (.deleted true)))

/-- A password is saved, and then the host is deleted: the secret goes with the row. -/
theorem save_and_delete_consistent :
    ∃ s, machine.Reach undisturbed Fresh s ∧ s.written = [plainReference] ∧
      s.forgotten = [⟨1, plainReference⟩] ∧ s.hosts ⟨1⟩ = none ∧ s.AllReturned ∧ Consistent s := by
  have hcall : machine.Path undisturbed plainState (deletingState (.load .deleteHost)) :=
    savedState_reached.tail (a := .call ⟨1⟩ .deleteHost) trivial rfl
  have hload : undisturbed (deletingState (.load .deleteHost)) (.step 1 .go) := ⟨rfl, by rintro c ⟨⟩; trivial⟩
  have hdisconnect : undisturbed (deletingState (.disconnect [plainReference])) (.step 1 .go) :=
    ⟨rfl, by rintro c ⟨⟩; trivial⟩
  have hdelete : undisturbed (deletingState (.deleteRow [plainReference])) (.step 1 .go) := by
    refine ⟨rfl, ?_⟩
    rintro c ⟨⟩ old r hrow - ⟨field, hfield⟩
    obtain rfl : plainWrite.host = old := Option.some.inj hrow
    cases field <;> cases hfield
    exact List.mem_singleton_self _
  have hforget : undisturbed rowlessState (.step 1 .go) := by
    refine ⟨rfl, ?_⟩
    rintro c ⟨⟩
    refine ⟨?_, fun d hd write previousSecret hpc => ?_⟩
    · rintro ⟨id, host, hrow, -⟩
      cases (rowlessState_hosts id).symm.trans hrow
    · rcases List.mem_pair.mp hd with rfl | rfl <;> cases hpc
  have hp : machine.Path undisturbed plainState deletedState :=
    (((hcall.tail hload (u := deletingState (.disconnect [plainReference])) rfl).tail hdisconnect
      (u := deletingState (.deleteRow [plainReference])) rfl).tail hdelete (u := rowlessState) rfl).tail hforget rfl
  have hreturned : deletedState.AllReturned := by
    intro c hc
    rcases List.mem_pair.mp hc with rfl | rfl
    · exact ⟨_, rfl⟩
    · exact ⟨_, rfl⟩
  refine ⟨_, ⟨plainState, plainState_fresh, hp⟩, rfl, rfl, rowlessState_hosts ⟨1⟩, hreturned, ?_⟩
  exact undisturbed_run_consistent ⟨plainState, plainState_fresh, hp⟩ hreturned

/-- What is left when the row was deleted after the password was saved. -/
def orphanState : State :=
  { (putState.setHost ⟨1⟩ (some plainWrite.host)).setHost ⟨1⟩ none with
    calls := [⟨⟨1⟩, .returned (.ok (.deleted true)), none⟩,
      ⟨⟨1⟩, .returned (.ok (.host plainWrite.host)), none⟩] }

/-- `delete_host` reads the row, the password is saved, and the row is deleted: no row is
left, and the secret is. -/
theorem orphan_left :
    ∃ s, machine.Reach succeeds Fresh s ∧ s.AllReturned ∧ plainReference ∈ s.written ∧
      isManagedReference s.provider plainReference = true ∧ (s.secrets plainReference).isSome ∧
      ¬ s.Referenced plainReference := by
  have hrun : machine.run succeeds plainState
      [.call ⟨1⟩ .deleteHost, .call ⟨1⟩ (.saveHostPassword "secret".toList), .step 0 .go, .step 1 .go,
        .step 1 .go, .step 1 .go, .step 0 .go, .step 0 .go] = some orphanState := rfl
  refine ⟨orphanState, ⟨plainState, plainState_fresh, .of_run hrun⟩, ?_, List.mem_singleton_self _, rfl, rfl, ?_⟩
  · intro c hc
    rcases List.mem_pair.mp hc with rfl | rfl
    · exact ⟨_, rfl⟩
    · exact ⟨_, rfl⟩
  · rintro ⟨id, host, hrow, -⟩
    rcases entry_of_update hrow with ⟨-, hnone⟩ | ⟨hid, hrow⟩
    · cases hnone
    · have hrow : plainState.hosts id = some host := (Function.update_of_ne hid ..).symm.trans hrow
      exact hid (Option.ite_none_right_eq_some.mp hrow).1

end KW.Hosts
