import KodeWork.Impl.Hosts

/-!
# A secret that is taken back

When the row of a host cannot be updated with a new reference, the command puts back what
it kept of the store before its write. `update_failed` is what this leaves: under the new
reference stands what was stored under the reference the command looked up, which is not
always the new one. `restored_iff` says when this is what was there before.
-/

namespace KW.Hosts

open State Machine

/-- The steps of the call when the row cannot be updated, with no other call in between. -/
def failing (i : Nat) (write : SecretWrite) (error : Text) : List Event :=
  .step i .go :: ((if write.backup.isSome then [.step i .go] else []) ++
    [.step i .go, .step i (.fault error), .step i .go])

/-- The command has returned the error, and has changed nothing. -/
def Restored (s : State) (i : Nat) (write : SecretWrite) (error : Text) : Prop :=
  ∃ t, machine.run free s (failing i write error) = some t ∧
    (t.calls[i]?.map fun c => c.pc) = some (.returned (.error error)) ∧ t.hosts = s.hosts ∧ t.secrets = s.secrets

theorem goTo_call {s : State} {i : Nat} {c : Call} (hc : s.calls[i]? = some c) (d : Call) (pc : Pc) :
    (s.goTo i d pc).calls[i]? = some { d with pc := pc } := by
  obtain ⟨hi, -⟩ := List.getElem?_eq_some_iff.mp hc
  exact List.getElem?_set_self hi

theorem run_step {s : State} {i : Nat} {c : Call} {choice : Choice} {t : State} (hc : s.calls[i]? = some c)
    (hstep : s.callStep i c c.pc choice = some t) (rest : List Event) :
    machine.run free s (.step i choice :: rest) = machine.run free t rest := by
  have hmachine : machine.step s (.step i choice) = some t := by
    simp only [machine, step, hc, hstep]
  have hfree : free s (Event.step i choice) := trivial
  rw [Machine.run, if_pos hfree, hmachine, Option.bind_some]

/-- From the write of the secret on. -/
theorem update_failed {s : State} {i : Nat} {c : Call} {write : SecretWrite} {previousSecret : Option Text}
    (hc : s.calls[i]? = some c) (hpc : c.pc = .put write previousSecret) (error : Text) :
    ∃ t, machine.run free s [.step i .go, .step i (.fault error), .step i .go] = some t ∧
      (t.calls[i]?.map fun c => c.pc) = some (.returned (.error error)) ∧ t.hosts = s.hosts ∧
        t.secrets = Function.update s.secrets write.reference previousSecret := by
  -- the state behind each of the three sections
  let afterPut : State := { s.setSecret write.reference (some write.secret) with
    written := s.written ++ [write.reference] }.goTo i c (.update write previousSecret)
  let updating : Call := { c with pc := .update write previousSecret }
  let afterUpdate : State := afterPut.goTo i updating (.rollback write previousSecret error)
  let takingBack : Call := { updating with pc := .rollback write previousSecret error }
  have hput : afterPut.calls[i]? = some updating := goTo_call hc c _
  have hupdate : afterUpdate.calls[i]? = some takingBack := goTo_call hput updating _
  refine ⟨(afterUpdate.setSecret write.reference previousSecret).fail i takingBack error, ?_, ?_, rfl, ?_⟩
  · rw [run_step hc (by rw [hpc]; rfl), run_step hput rfl, run_step hupdate rfl]
    rfl
  · have hback : (afterUpdate.setSecret write.reference previousSecret).calls[i]? = some takingBack := hupdate
    rw [fail, goTo_call hback]
    rfl
  · exact Function.update_idem _ _ _

/-- The same from the lookup for the rollback on. -/
theorem backup_failed {s : State} {i : Nat} {c : Call} {write : SecretWrite} (hc : s.calls[i]? = some c)
    (hpc : c.pc = if write.backup.isSome then .backup write else .put write none) (error : Text) :
    ∃ t, machine.run free s ((if write.backup.isSome then [.step i .go] else []) ++
        [.step i .go, .step i (.fault error), .step i .go]) = some t ∧
      (t.calls[i]?.map fun c => c.pc) = some (.returned (.error error)) ∧ t.hosts = s.hosts ∧
        t.secrets = Function.update s.secrets write.reference (write.backup.bind s.secrets) := by
  cases hbackup : write.backup with
  | none =>
    rw [hbackup] at hpc
    exact update_failed hc hpc error
  | some old =>
    rw [hbackup] at hpc
    have hstep : s.callStep i c c.pc .go = some (s.goTo i c (.put write (some old |>.bind s.secrets))) := by
      rw [hpc]
      show some (s.goTo i c (.put write (write.backup.bind s.secrets))) = _
      rw [hbackup]
    rw [Option.isSome_some, if_pos rfl, List.singleton_append, run_step hc hstep]
    exact update_failed (goTo_call hc c _) rfl error

/-- A command that has planned its write changes nothing if and only if what it keeps of
the store is what stands under the new reference. -/
theorem restored_of_plan {s : State} {i : Nat} {c : Call} {write : SecretWrite} (hc : s.calls[i]? = some c)
    (hload : s.callStep i c c.pc .go =
      some (s.goTo i c (if write.backup.isSome then .backup write else .put write none))) (error : Text) :
    Restored s i write error ↔ write.backup.bind s.secrets = s.secrets write.reference := by
  have hplanned := goTo_call hc c (if write.backup.isSome then .backup write else .put write none)
  have hpc : ({ c with pc := if write.backup.isSome then .backup write else .put write none } : Call).pc =
      if write.backup.isSome then .backup write else .put write none := rfl
  obtain ⟨t, hrun, hpc, hhosts, hsecrets⟩ := backup_failed hplanned hpc error
  have hfailing : machine.run free s (failing i write error) = some t := by
    rw [failing, run_step hc hload, hrun]
  have hsame : t.secrets = s.secrets ↔ write.backup.bind s.secrets = s.secrets write.reference := by
    rw [hsecrets]
    exact Function.update_eq_self_iff
  constructor
  · intro ⟨t', hrun', _, _, hsecrets'⟩
    rw [hfailing] at hrun'
    cases hrun'
    exact hsame.mp hsecrets'
  · intro h
    exact ⟨t, hfailing, hpc, hhosts, hsame.mpr h⟩

/-! ## The two commands -/

theorem planPassword_backup {provider : CredentialProvider} {id : HostId} {password : Text} {host : Host}
    {write : SecretWrite} (h : planPassword provider id password (some host) = .ok write) :
    write.backup = if host.authRef = some write.reference then some write.reference else none := by
  unfold planPassword at h
  dsimp only at h
  split at h
  · cases h
  · split at h
    · cases h
    · split at h
      · cases h
        rfl
      · cases h
        rfl
      · cases h
      · cases h

theorem planTailscale_backup {provider : CredentialProvider} {id : HostId} {authKey : Text} {host : Host}
    {write : SecretWrite} (h : planTailscale provider id authKey (some host) = .ok write) :
    write.backup = (host.tailscale.bind (·.authKeyRef)).filter (isManagedReference provider) := by
  cases h
  cases host.tailscale <;> rfl

/-- When the update of the row fails, `save_host_password` leaves the store as it was if and
only if the row had the new reference, or nothing was stored under it;
`save_tailscale_auth_key` if and only if under the new reference stood what is stored under
the managed reference of the row. -/
theorem failed_update_iff (s : State) (i : Nat) (c : Call) (host : Host) (write : SecretWrite) (error : Text) :
    (∀ password : Text, s.calls[i]? = some c → c.pc = .load (.saveHostPassword password) → s.hosts c.host = some host →
      planPassword s.provider c.host password (some host) = .ok write →
      (Restored s i write error ↔ host.authRef = some write.reference ∨ s.secrets write.reference = none)) ∧
    ∀ authKey : Text, s.calls[i]? = some c → c.pc = .load (.saveTailscaleAuthKey authKey) →
      (authKey.isEmpty || authKey.any Text.isWhitespace) = false → s.hosts c.host = some host →
      planTailscale s.provider c.host authKey (some host) = .ok write →
      (Restored s i write error ↔
        ((host.tailscale.bind (·.authKeyRef)).filter (isManagedReference s.provider)).bind s.secrets =
          s.secrets write.reference) := by
  constructor
  · intro password hc hpc hhost hplan
    have hload : s.callStep i c c.pc .go =
        some (s.goTo i c (if write.backup.isSome then .backup write else .put write none)) := by
      rw [hpc]
      show some (s.loadStep i c (.saveHostPassword password)) = _
      rw [loadStep, hhost, hplan]
    rw [restored_of_plan hc hload, planPassword_backup hplan]
    split
    · case isTrue hsame => exact iff_of_true rfl (.inl hsame)
    · case isFalse hother =>
      rw [Option.bind_none, eq_comm]
      exact (or_iff_right hother).symm
  · intro authKey hc hpc hvalid hhost hplan
    have hload : s.callStep i c c.pc .go =
        some (s.goTo i c (if write.backup.isSome then .backup write else .put write none)) := by
      rw [hpc]
      show some (s.loadStep i c (.saveTailscaleAuthKey authKey)) = _
      rw [loadStep, if_neg (by rw [hvalid]; exact Bool.false_ne_true), hhost, hplan]
    rw [restored_of_plan hc hload, planTailscale_backup hplan]

/-! ### A key of another reference -/

/-- A host whose key is stored under another reference. -/
def movedKey : CredentialRef := ⟨.nativeKeyring, "tailscale-auth/old".toList⟩

def movedHost : Host where
  label := "lab".toList
  username := "alex".toList
  port := 22
  authRef := none
  authMode := .password
  privateKeyPath := none
  defaultRemotePath := "/".toList
  jump := none
  addresses := []
  tailscale := some ⟨true, .systemDaemon, none, some movedKey, none⟩

def saving : State where
  provider := .nativeKeyring
  hosts := fun id => if id = ⟨1⟩ then some movedHost else none
  runs := fun _ => 0
  secrets := fun r => if r = movedKey then some "old".toList else none
  calls := [⟨⟨1⟩, .load (.saveTailscaleAuthKey "new".toList), none⟩]
  written := []
  forgotten := []

/-- The secret of the old reference is put under the new one. -/
theorem old_key_copied : ¬ ∀ (s : State) (i : Nat) (c : Call) (authKey : Text) (host : Host) (write : SecretWrite)
    (error : Text), s.calls[i]? = some c → c.pc = .load (.saveTailscaleAuthKey authKey) →
    (authKey.isEmpty || authKey.any Text.isWhitespace) = false → s.hosts c.host = some host →
    planTailscale s.provider c.host authKey (some host) = .ok write → Restored s i write error := by
  intro hall
  have hrestored := hall saving 0 _ "new".toList movedHost _ [] rfl rfl (by decide) rfl rfl
  have hkept := (restored_of_plan rfl rfl []).mp hrestored
  revert hkept
  decide

end KW.Hosts
