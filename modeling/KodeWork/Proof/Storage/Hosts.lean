import KodeWork.Impl.HostRows
import KodeWork.Proof.Storage.Instances
import Mathlib.Data.List.Infix

/-!
# A host that is stored and read back

A row that `hostRow` or `addressRow` made is read as the record it was made of
(`readHostRow_hostRow`, `readAddressRow_addressRow`), whatever has been in its columns
before. `write` says what the statements of `upsert_host` do to the tables: they replace
the row of the host, and its addresses by those of the record, which SQLite sorts as the
addresses of the record are sorted (`loadAddresses_write`); of the other hosts they change
neither the row nor the addresses (`getHost_write_ne`).
-/

namespace KW.HostRows

open HostRecord (AddressId AddressKind RuntimeKind)
open RunRows (Value StorageError)

variable (J : HostJson) (order : ValueOrder)

/-! ## Values -/

@[simp] theorem getText_text (t : Text) : getText (.text t) = .ok t := rfl

@[simp] theorem getOptionText_text (t : Text) : getOptionText (.text t) = .ok (some t) := rfl

@[simp] theorem getOptionText_ofOptionText (t : Option Text) : getOptionText (ofOptionText t) = .ok t := by
  cases t <;> rfl

@[simp] theorem getU16_ofU16 (n : UInt16) : getU16 (ofU16 n) = .ok n := by
  have hlt : n.toNat < 65536 := n.toNat_lt
  rw [ofU16, getU16, if_pos ⟨Int.natCast_nonneg _, by omega⟩, Int.toNat_natCast, UInt16.ofNat_toNat]

@[simp] theorem getOptionU16_map (n : Option UInt16) : getOptionU16 ((n.map ofU16).getD .null) = .ok n := by
  cases n with
  | none => rfl
  | some n =>
    show (getU16 (ofU16 n)).map some = _
    rw [getU16_ofU16]
    rfl

@[simp] theorem getI32_toInt (n : Int32) : getI32 (.integer n.toInt) = .ok n := by
  rw [getI32, if_pos ⟨n.le_toInt, n.toInt_lt⟩, Int32.ofInt_toInt]

@[simp] theorem getBool_ofBool (b : Bool) : getBool (ofBool b) = .ok b := by
  cases b <;> rfl

@[simp] theorem fromText_toText {α : Type} (json : Json α) (a : α) : fromText json (json.toText a) = .ok a := by
  rw [fromText, json.from_to]

theorem ok_bind {α β : Type} (a : α) (k : α → Except StorageError β) : (Except.ok a).bind k = k a := rfl

/-- What `optional_json` wrote is read back. -/
theorem optionalJson_bind {α β : Type} (json : Json α) (a : Option α) (k : Option α → Except StorageError β) :
    ((getOptionText (optionalJson json a)).bind fun raw => (optionalFromJson json raw).bind k) = k a := by
  cases a with
  | none => rfl
  | some a =>
    show ((fromText json (json.toText a)).map some).bind k = _
    rw [fromText_toText]
    rfl

/-! ## Rows -/

theorem readRuntime_toText (runtime : RuntimeKind) : readRuntime J (J.runtime.toText runtime) = runtime := by
  rw [readRuntime, J.runtime.from_to]

theorem readAuthMode_toText (mode : AuthenticationMode) : readAuthMode J (J.authMode.toText mode) = .ok mode := by
  rw [readAuthMode, J.authMode.from_to]

/-- The jump host is the one of the JSON text, which repeats what is in the columns. -/
theorem jump_or_legacy (jump : Option HostRecord.JumpHost) :
    jump.or (legacyJump (jump.map (·.hostname)) (jump.map (·.port)) (jump.map (·.username))) = jump := by
  cases jump <;> rfl

theorem readHostRow_hostRow (host : HostRecord.Host) :
    readHostRow J (hostRow J host) = .ok { host with addresses := [] } := by
  have hport : getOptionU16 ((host.jump.map fun jump => ofU16 jump.port).getD .null) = .ok (host.jump.map (·.port)) := by
    rw [← getOptionU16_map (host.jump.map (·.port)), Option.map_map]
    rfl
  unfold readHostRow hostRow
  simp only [bind, getText_text, getOptionText_ofOptionText, hport, getU16_ofU16, optionalJson_bind, ok_bind,
    readAuthMode_toText, readRuntime_toText, jump_or_legacy]

theorem readAddressRow_addressRow (id : HostId) (address : HostRecord.Address) :
    readAddressRow J (addressRow J id address) = .ok address := by
  unfold readAddressRow addressRow
  simp only [bind, getText_text, fromText_toText, getU16_ofU16, getI32_toInt, getBool_ofBool, ok_bind]

/-! ## The order of the addresses -/

/-- By priority, and then by name. -/
def Listed (a b : HostRecord.Address) : Prop :=
  a.priority < b.priority ∨ (a.priority = b.priority ∧ a.hostnameOrIp ≤ b.hostnameOrIp)

instance : DecidableRel Listed := fun _ _ => inferInstanceAs (Decidable (_ ∨ _))

theorem before_addressRow (id : HostId) (a b : HostRecord.Address) :
    (addressRow J id a).Before order (addressRow J id b) ↔ Listed a b := by
  show order.le (.integer a.priority.toInt) (.integer b.priority.toInt) = true ∧
    (order.le (.integer b.priority.toInt) (.integer a.priority.toInt) = true →
      order.le (.text a.hostnameOrIp) (.text b.hostnameOrIp) = true) ↔ _
  rw [order.integer, order.integer, order.text, Listed, Int32.lt_iff_toInt_lt, ← Int32.toInt_inj]
  constructor
  · intro ⟨hle, htie⟩
    rcases Int.lt_or_eq_of_le hle with hlt | heq
    · exact .inl hlt
    · exact .inr ⟨heq, htie (Int.le_of_eq heq.symm)⟩
  · rintro (hlt | ⟨heq, hname⟩)
    · exact ⟨Int.le_of_lt hlt, fun hle => (Int.not_le.mpr hlt hle).elim⟩
    · exact ⟨Int.le_of_eq heq, fun _ => hname⟩

instance : Std.Total Listed where
  total a b := by
    simp only [Listed, Int32.lt_iff_toInt_lt, ← Int32.toInt_inj]
    rcases Int.lt_trichotomy a.priority.toInt b.priority.toInt with hlt | heq | hgt
    · exact .inl (.inl hlt)
    · rcases le_total a.hostnameOrIp b.hostnameOrIp with hname | hname
      · exact .inl (.inr ⟨heq, hname⟩)
      · exact .inr (.inr ⟨heq.symm, hname⟩)
    · exact .inr (.inl hgt)

instance : IsTrans HostRecord.Address Listed where
  trans a b c := by
    simp only [Listed, Int32.lt_iff_toInt_lt, ← Int32.toInt_inj]
    rintro (hab | ⟨hab, hname⟩) (hbc | ⟨hbc, hname'⟩)
    · exact .inl (Int.lt_trans hab hbc)
    · exact .inl (hbc ▸ hab)
    · exact .inl (hab ▸ hbc)
    · exact .inr ⟨hab.trans hbc, le_trans hname hname'⟩

theorem mapM_readAddressRow (id : HostId) (addresses : List HostRecord.Address) :
    (addresses.map (addressRow J id)).mapM (readAddressRow J) = .ok addresses := by
  induction addresses with
  | nil => rfl
  | cons address addresses ih =>
    rw [List.map_cons, List.mapM_cons, readAddressRow_addressRow, ih]
    rfl

/-! ## What is written -/

/-- The tables with the host. -/
def written (host : HostRecord.Host) (tables : Tables) : Tables where
  hosts :=
    if tables.hosts.any fun r => r.id = host.id then
      tables.hosts.map fun r => if r.id = host.id then hostRow J host else r
    else tables.hosts ++ [hostRow J host]
  addresses := (tables.addresses.filter fun r => r.hostId ≠ host.id) ++ host.addresses.map (addressRow J host.id)

def insertAll (faults : Nat → Bool) (hostId : HostId) : Nat → List HostRecord.Address → Statement
  | _, [] => fun w => .ok ((), w)
  | number, address :: addresses => fun w =>
    (guarded faults number (insertAddress J hostId address) w).bind fun p =>
      insertAll faults hostId (number + 1) addresses p.2

/-- The statements of `upsert_host`, on the tables. -/
def write (faults : Nat → Bool) (host : HostRecord.Host) : Statement := fun w =>
  (guarded faults 0 (insertHost J host) w).bind fun p =>
    (guarded faults 1 (deleteAddresses host.id) p.2).bind fun p =>
      (insertAll J faults host.id 2 host.addresses p.2).bind fun p =>
        guarded faults (host.addresses.length + 2) commit p.2

theorem follows_insertAddresses (faults : Nat → Bool) (hostId : HostId) (number : Nat)
    (addresses : List HostRecord.Address) :
    Follows (insertAddresses J faults hostId number addresses) (insertAll J faults hostId number addresses) := by
  induction addresses generalizing number with
  | nil => exact Follows.pure ()
  | cons address addresses ih => exact (Follows.statement _).bind fun _ => ih (number + 1)

theorem follows_writeHost (faults : Nat → Bool) (host : HostRecord.Host) :
    Follows (writeHost J faults host) (write J faults host) :=
  (Follows.statement _).bind fun _ => (Follows.statement _).bind fun _ =>
    (follows_insertAddresses J faults host.id 2 host.addresses).bind fun _ => Follows.statement _

theorem guarded_ok {faults : Nat → Bool} {number : Nat} {f : Statement} {w : Tables} {p : Unit × Tables}
    (h : guarded faults number f w = .ok p) : f w = .ok p := by
  rw [guarded] at h
  split at h
  · cases h
  · exact h

theorem bind_ok {α β : Type} {x : Except StorageError α} {k : α → Except StorageError β} {b : β}
    (h : x.bind k = .ok b) : ∃ a, x = .ok a ∧ k a = .ok b := by
  cases x with
  | error e => cases h
  | ok a => exact ⟨a, rfl, h⟩

theorem insertAll_ok {faults : Nat → Bool} {hostId : HostId} {number : Nat} {addresses : List HostRecord.Address}
    {w : Tables} {p : Unit × Tables} (h : insertAll J faults hostId number addresses w = .ok p) :
    p.2 = { w with addresses := w.addresses ++ addresses.map (addressRow J hostId) } := by
  induction addresses generalizing number w with
  | nil =>
    cases h
    rw [List.map_nil, List.append_nil]
  | cons address addresses ih =>
    obtain ⟨q, hq, hrest⟩ := bind_ok h
    have hinsert := guarded_ok hq
    rw [insertAddress] at hinsert
    split at hinsert
    · cases hinsert
    · cases hinsert
      rw [ih hrest, List.map_cons, List.append_assoc]
      rfl

theorem write_ok {faults : Nat → Bool} {host : HostRecord.Host} {w : Tables} {p : Unit × Tables}
    (h : write J faults host w = .ok p) : p.2 = written J host w := by
  obtain ⟨q, hhost, h⟩ := bind_ok h
  cases guarded_ok hhost
  obtain ⟨q, hdelete, h⟩ := bind_ok h
  cases guarded_ok hdelete
  obtain ⟨q, hinsert, h⟩ := bind_ok h
  cases guarded_ok h
  exact insertAll_ok J hinsert

/-! ## What is read -/

/-- The row of the host in place of its old one. -/
theorem id_replaced (host : HostRecord.Host) (r : HostRow) :
    (if r.id = host.id then hostRow J host else r).id = r.id := by
  split
  · case isTrue h => exact h.symm
  · rfl

theorem find_replaced (host : HostRecord.Host) (id : HostId) (rows : List HostRow) :
    ((rows.map fun r => if r.id = host.id then hostRow J host else r).find? fun r => r.id = id) =
      (rows.find? fun r => r.id = id).map fun r => if r.id = host.id then hostRow J host else r := by
  rw [List.find?_map]
  simp only [Function.comp_def, id_replaced]

theorem find_written (host : HostRecord.Host) (tables : Tables) :
    ((written J host tables).hosts.find? fun r => r.id = host.id) = some (hostRow J host) := by
  rw [written]
  dsimp only
  split
  · case isTrue hany =>
    rw [find_replaced]
    obtain ⟨row, hmem, hid⟩ := List.any_eq_true.mp hany
    have hsome : (tables.hosts.find? fun r => r.id = host.id).isSome :=
      List.find?_isSome.mpr ⟨row, hmem, by simpa using hid⟩
    obtain ⟨found, hfound⟩ := Option.isSome_iff_exists.mp hsome
    have hfoundId : found.id = host.id := by simpa using List.find?_some hfound
    rw [hfound, Option.map_some, if_pos hfoundId]
  · case isFalse hnone =>
    have hnew : (tables.hosts.find? fun r => r.id = host.id) = none :=
      List.find?_eq_none.mpr fun row hmem hid =>
        hnone (List.any_eq_true.mpr ⟨row, hmem, by simpa using hid⟩)
    rw [List.find?_append, hnew, Option.none_or]
    exact List.find?_cons_of_pos (decide_eq_true rfl)

theorem find_written_ne {host : HostRecord.Host} {id : HostId} (hne : id ≠ host.id) (tables : Tables) :
    ((written J host tables).hosts.find? fun r => r.id = id) = tables.hosts.find? fun r => r.id = id := by
  rw [written]
  dsimp only
  split
  · rw [find_replaced]
    cases hfound : tables.hosts.find? fun r => r.id = id with
    | none => rfl
    | some row =>
      have hid : row.id = id := by simpa using List.find?_some hfound
      rw [Option.map_some, if_neg (hid.symm ▸ hne)]
  · rw [List.find?_append, List.find?_cons_of_neg, List.find?_nil, Option.or_none]
    simp [hostRow, Ne.symm hne]

theorem addresses_written (host : HostRecord.Host) (tables : Tables) :
    ((written J host tables).addresses.filter fun r => r.hostId = host.id) =
      host.addresses.map (addressRow J host.id) := by
  have hold : ((tables.addresses.filter fun r => r.hostId ≠ host.id).filter fun r => r.hostId = host.id) = [] := by
    rw [List.filter_filter]
    exact List.filter_eq_nil_iff.mpr fun r _ => by simp
  have hnew : ((host.addresses.map (addressRow J host.id)).filter fun r => r.hostId = host.id) =
      host.addresses.map (addressRow J host.id) := by
    refine List.filter_eq_self.mpr fun r hr => ?_
    obtain ⟨address, -, rfl⟩ := List.mem_map.mp hr
    exact decide_eq_true rfl
  rw [written]
  dsimp only
  rw [List.filter_append, hold, hnew, List.nil_append]

theorem addresses_written_ne {host : HostRecord.Host} {id : HostId} (hne : id ≠ host.id) (tables : Tables) :
    ((written J host tables).addresses.filter fun r => r.hostId = id) =
      tables.addresses.filter fun r => r.hostId = id := by
  have hold : ((tables.addresses.filter fun r => r.hostId ≠ host.id).filter fun r => r.hostId = id) =
      tables.addresses.filter fun r => r.hostId = id := by
    rw [List.filter_filter]
    refine List.filter_congr fun r _ => ?_
    by_cases h : r.hostId = id
    · simp [h, hne]
    · simp [h]
  have hnew : ((host.addresses.map (addressRow J host.id)).filter fun r => r.hostId = id) = [] := by
    refine List.filter_eq_nil_iff.mpr fun r hr => ?_
    obtain ⟨address, -, rfl⟩ := List.mem_map.mp hr
    simp [addressRow, Ne.symm hne]
  rw [written]
  dsimp only
  rw [List.filter_append, hold, hnew, List.append_nil]

theorem loadAddresses_written (host : HostRecord.Host) (tables : Tables) :
    loadAddresses J order (written J host tables) { host with addresses := [] } =
      .ok { host with addresses := host.addresses.insertionSort Listed } := by
  have hsort := List.map_insertionSort Listed (AddressRow.Before order) (addressRow J host.id) host.addresses
    fun a _ b _ => (before_addressRow J order host.id a b).symm
  have hread : ((host.addresses.map (addressRow J host.id)).insertionSort (AddressRow.Before order)).mapM
      (readAddressRow J) = .ok (host.addresses.insertionSort Listed) := by
    rw [← hsort, mapM_readAddressRow]
  rw [loadAddresses]
  dsimp only
  rw [addresses_written, hread]
  rfl

theorem id_of_bind {α : Type} {x : Except StorageError α} {k : α → Except StorageError HostRecord.Host} {id : HostId}
    (h : ∀ a host, k a = .ok host → host.id = id) (host : HostRecord.Host) (hok : x.bind k = .ok host) :
    host.id = id := by
  obtain ⟨a, -, ha⟩ := bind_ok hok
  exact h a host ha

theorem readHostRow_id {row : HostRow} : ∀ host, readHostRow J row = .ok host → host.id = row.id := by
  unfold readHostRow
  simp only [bind]
  iterate 17 refine id_of_bind fun _ => ?_
  intro host h
  cases h
  rfl

theorem getHost_written (host : HostRecord.Host) (tables : Tables) :
    getHost J order host.id (written J host tables) =
      .ok (some { host with addresses := host.addresses.insertionSort Listed }) := by
  rw [getHost, find_written]
  dsimp only
  rw [readHostRow_hostRow]
  show (loadAddresses J order (written J host tables) { host with addresses := [] }).bind _ = _
  rw [loadAddresses_written]
  rfl

theorem getHost_written_ne {host : HostRecord.Host} {id : HostId} (hne : id ≠ host.id) (tables : Tables) :
    getHost J order id (written J host tables) = getHost J order id tables := by
  rw [getHost, getHost, find_written_ne J hne]
  cases hfound : tables.hosts.find? fun r => r.id = id with
  | none => rfl
  | some row =>
    dsimp only
    cases hrow : readHostRow J row with
    | error e => rfl
    | ok other =>
      have hid : other.id = id := by
        have hrowId : row.id = id := by simpa using List.find?_some hfound
        rw [readHostRow_id J other hrow, hrowId]
      have hload : loadAddresses J order (written J host tables) other = loadAddresses J order tables other := by
        rw [loadAddresses, loadAddresses, hid, addresses_written_ne J hne]
      show (loadAddresses J order (written J host tables) other).bind _ = _
      rw [hload]
      rfl

/-- A host that is stored is read back with its addresses in order, and no other host is
changed; a host that is not stored has changed nothing. -/
theorem upsertHost_getHost (faults : Nat → Bool) (host : HostRecord.Host) (tables : Tables) :
    (∃ tables', (upsertHost J faults host).exec (.idle tables) = (.ok (), .idle tables') ∧
      (∃ addresses, getHost J order host.id tables' = .ok (some { host with addresses := addresses }) ∧
        addresses.Perm host.addresses ∧ addresses.Pairwise Listed) ∧
      ∀ id, id ≠ host.id → getHost J order id tables' = getHost J order id tables) ∨
    ∃ e tables', (upsertHost J faults host).exec (.idle tables) = (.error e, .idle tables') ∧
      ∀ id, getHost J order id tables' = getHost J order id tables := by
  have hexec := transaction_exec (follows_writeHost J faults host) StorageError.sqlite tables
  rw [upsertHost]
  cases hwrite : write J faults host tables with
  | error e =>
    rw [hwrite] at hexec
    exact .inr ⟨e, tables, hexec, fun _ => rfl⟩
  | ok p =>
    rw [hwrite] at hexec
    have hp := write_ok J hwrite
    refine .inl ⟨p.2, hexec, ⟨host.addresses.insertionSort Listed, ?_, List.perm_insertionSort Listed _,
      List.pairwise_insertionSort Listed _⟩, fun id hne => ?_⟩
    · rw [hp]
      exact getHost_written J order host tables
    · rw [hp]
      exact getHost_written_ne J order hne tables

/-- A host with two addresses. -/
def plainHost : HostRecord.Host :=
  { id := ⟨1⟩, label := "build".toList, username := "ada".toList, port := 22, authRef := none, authMode := .password
    privateKeyPath := none, defaultRemotePath := "/".toList, jump := none
    addresses := [⟨⟨2⟩, .lan, "nas".toList, 22, 1, true⟩, ⟨⟨3⟩, .manual, "10.0.0.1".toList, 22, 0, true⟩]
    tailscale := none, defaultRuntime := .tmux }

/-- It is stored, and read back. -/
theorem plainHost_read :
    ∃ tables, (upsertHost serdeJson (fun _ => false) plainHost).exec (.idle ⟨[], []⟩) = (.ok (), .idle tables) ∧
    ∃ addresses, getHost serdeJson valueOrder ⟨1⟩ tables = .ok (some { plainHost with addresses := addresses }) ∧
      addresses.Perm plainHost.addresses ∧ addresses.Pairwise Listed := by
  rcases upsertHost_getHost serdeJson valueOrder (fun _ => false) plainHost ⟨[], []⟩ with
    ⟨tables, h, hread, -⟩ | ⟨e, tables, h, -⟩
  · exact ⟨tables, h, hread⟩
  · have hok : ((upsertHost serdeJson (fun _ => false) plainHost).exec (.idle ⟨[], []⟩)).1 = .ok () := rfl
    cases hok.symm.trans (congrArg Prod.fst h)

end KW.HostRows
