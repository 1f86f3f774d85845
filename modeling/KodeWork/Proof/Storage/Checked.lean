import KodeWork.Proof.Storage.Hosts

/-!
# What the check reads of a host

`validate_host` reads the records of `Impl/Host`, the repositories store those of
`Impl/HostRecord`. A host that passes the check is stored as one that passes it
(`stored_valid`).
-/

namespace KW.HostRecord

def Address.checked (address : HostRecord.Address) : KW.Address := ⟨address.hostnameOrIp, address.port.toNat⟩

def JumpHost.checked (jump : HostRecord.JumpHost) : KW.JumpHost where
  hostname := jump.hostname
  port := jump.port.toNat
  username := jump.username
  authRef := jump.authRef
  authMode := jump.authMode
  privateKeyPath := jump.privateKeyPath

/-- The columns that `validate_host` and the commands read. -/
def Host.checked (host : HostRecord.Host) : KW.Host where
  label := host.label
  username := host.username
  port := host.port.toNat
  authRef := host.authRef
  authMode := host.authMode
  privateKeyPath := host.privateKeyPath
  defaultRemotePath := host.defaultRemotePath
  jump := host.jump.map (·.checked)
  addresses := host.addresses.map (·.checked)
  tailscale := host.tailscale

/-! ## The addresses in any order -/

theorem check_ok_iff {ε : Type} {c : Prop} [Decidable c] {e : ε} {f : Unit → Except ε Unit} :
    (if c then throw e >>= f else f ()) = .ok () ↔ ¬c ∧ f () = .ok () := by
  split
  · case isTrue h => exact iff_of_false nofun fun hok => hok.1 h
  · case isFalse h => exact (and_iff_right h).symm

theorem then_ok_iff {ε : Type} {x : Except ε Unit} {f : Unit → Except ε Unit} :
    x >>= f = .ok () ↔ x = .ok () ∧ f () = .ok () := by
  cases x with
  | error e => exact iff_of_false nofun fun hok => nomatch hok.1
  | ok u => exact (and_iff_right rfl).symm

theorem validateAddresses_ok_iff (addresses : List KW.Address) :
    (forIn addresses PUnit.unit fun address _ => do
      validateAddress address
      pure (ForInStep.yield PUnit.unit) : Except DomainError PUnit) = .ok PUnit.unit ↔
      ∀ address ∈ addresses, validateAddress address = .ok () := by
  induction addresses with
  | nil => simp [pure, Except.pure]
  | cons address addresses ih =>
    rw [List.forIn_cons, List.forall_mem_cons, ← ih]
    cases h : validateAddress address with
    | error e => simp [bind, Except.bind]
    | ok u => simp [bind, Except.bind, pure, Except.pure]

theorem validateHost_perm {host : KW.Host} {addresses : List KW.Address} (h : addresses.Perm host.addresses) :
    validateHost { host with addresses := addresses } = .ok () ↔ validateHost host = .ok () := by
  have hloop := (validateAddresses_ok_iff addresses).trans
    ((forall_congr' fun address => imp_congr_left h.mem_iff).trans (validateAddresses_ok_iff host.addresses).symm)
  unfold validateHost
  simp only [check_ok_iff, then_ok_iff]
  rw [hloop]

/-- A host that passes the check still passes it when it has been stored and read back. -/
theorem stored_valid (J : HostRows.HostJson) (order : HostRows.ValueOrder) {host : HostRecord.Host}
    (hvalid : validateHost host.checked = .ok ()) (tables : HostRows.Tables) :
    ∃ stored, HostRows.getHost J order host.id (HostRows.written J host tables) = .ok (some stored) ∧
      validateHost stored.checked = .ok () := by
  refine ⟨_, HostRows.getHost_written J order host tables, ?_⟩
  exact (@validateHost_perm host.checked _
    ((List.perm_insertionSort HostRows.Listed host.addresses).map _)).mpr hvalid

end KW.HostRecord
