import KodeWork.Proof.HostKey.Steps

/-!
# When a stored key is overwritten

A verification that found no record stores its key after the user's decision,
with an upsert that does not look again. A verification that found a record of
its endpoint promotes it in the same way. In between another verification may
have stored a different key for the same scope, and that key is replaced
(`stored_key_replaced`).

This is the only way: in every run, no step replaces a stored key exactly when
no verification stores its key after another one has stored a different key for
its scope since its lookup (`stored_key_kept_iff`).
-/

namespace KW.HostKey

open HostKeyBroker

/-! ## Scopes -/

/-- The key stored for a scope. -/
def Database.trusted (db : Database) : Scope → Option PublicKey
  | .host host algorithm =>
    (db.getForHost host algorithm).map fun r => ⟨algorithm, r.fingerprint, r.keyBlobBase64⟩
  | .endpoint hostname port => db.hostKeys (hostname, port)

theorem trusted_store (r : VerifyRequest) (db : Database) :
    (r.store db).trusted r.scope = some r.key := by
  unfold VerifyRequest.store VerifyRequest.scope
  cases r.hostId with
  | none => exact Function.update_self _ _ _
  | some host =>
    have e : (db.saveForHost host r.info).getForHost host r.key.algorithm =
        some ⟨r.key.fingerprint, r.key.keyBlobBase64⟩ := Function.update_self _ _ _
    simp only [Database.trusted, e]
    rfl

theorem trusted_store_of_ne {r : VerifyRequest} {scope : Scope} (h : scope ≠ r.scope) (db : Database) :
    (r.store db).trusted scope = db.trusted scope := by
  unfold VerifyRequest.scope at h
  unfold VerifyRequest.store
  cases hh : r.hostId with
  | none =>
    rw [hh] at h
    cases scope with
    | host _ _ => rfl
    | endpoint hostname port =>
      refine Function.update_of_ne (fun e => h ?_) _ _
      exact congrArg₂ Scope.endpoint (congrArg Prod.fst e) (congrArg Prod.snd e)
  | some host =>
    rw [hh] at h
    cases scope with
    | endpoint _ _ => rfl
    | host host' algorithm =>
      refine congrArg (Option.map _) (Function.update_of_ne (fun e => h ?_) _ _)
      exact congrArg₂ Scope.host (congrArg Prod.fst e) (congrArg Prod.snd e)

/-- The verification has still to store its key, or to find out whether. -/
def VerifyPc.undecided : VerifyPc → Bool
  | .promote _ | .nextId | .insert _ | .push _ | .wait _ | .save _ => true
  | _ => false

/-- A verification that has stored its key is through. -/
theorem moves_writing {s : HostKeyBroker} {v v' : Verification} (h : Moves s v v')
    (hw : v.pc.writing = true) : v'.pc.undecided = false := by
  cases h with
  | promote | save => rfl
  | lookup _ _ e | prompt e | register e | publish e | decide e | forget e | finish e | drop e =>
    rw [e] at hw
    cases hw
  | fail e => rcases e with e | e | e <;> rw [e] at hw <;> cases hw

theorem VerifyPc.undecided_of_writing {pc : VerifyPc} (h : pc.writing = true) : pc.undecided = true := by
  cases pc <;> first | rfl | cases h

theorem afterLookup_ne_lookup (r : VerifyRequest) (l : Except String (Option KnownHostMatch)) :
    afterLookup r l ≠ .lookup := by
  cases l with
  | error message => nofun
  | ok saved =>
    simp only [afterLookup]
    split <;> nofun

theorem afterDecision_ne_lookup (id : Nat) (d : HostKeyDecision) : afterDecision id d ≠ .lookup := by
  cases d <;> nofun

/-- A verification that goes on after its lookup found nothing stored for its
scope. -/
theorem trusted_of_undecided {r : VerifyRequest} {db : Database} {identity endpoint : Fault}
    (h : (afterLookup r (r.lookup db identity endpoint)).undecided = true) :
    db.trusted r.scope = none := by
  cases hl : r.lookup db identity endpoint with
  | error message =>
    rw [hl] at h
    cases h
  | ok saved =>
    have hv := verdict_spec r saved
    rw [hl] at h
    simp only [afterLookup] at h
    -- the record found is none, or one of the endpoint for a host
    have hsaved : saved = none ∨ r.hostId ≠ none ∧ ∃ info, saved = some (.legacyEndpoint info) := by
      split at h <;> rename_i e <;> rw [e] at hv
      · cases h
      · obtain ⟨hh, info, hs, -⟩ := hv
        exact .inr ⟨by rw [hh]; nofun, info, hs⟩
      · cases h
      · exact .inl hv
    unfold VerifyRequest.scope
    unfold VerifyRequest.lookup at hl
    cases hh : r.hostId with
    | none =>
      rw [hh] at hl
      rcases hsaved with rfl | ⟨hne, -⟩
      · cases endpoint with
        | some message => cases hl
        | none =>
          have hget : db.get r.hostname r.port = none := by
            simpa [Database.lookup, Except.map] using hl
          simpa [Database.trusted, Database.get] using hget
      · exact absurd hh hne
    | some host =>
      rw [hh] at hl
      cases identity with
      | some message => cases hl
      | none =>
        simp only [Database.lookupForHostMatchAlgorithm] at hl
        split at hl
        · -- an identity was found
          cases hl
          rcases hsaved with hs | ⟨-, info, hs⟩ <;> cases hs
        · rename_i hnone
          exact congrArg (Option.map _) hnone

/-! ## The invariant -/

/-- What a verification knows of the key stored for its scope. -/
structure Tracked (db : Database) (v : Verification) : Prop where
  lookup : v.pc = .lookup → v.looked = none
  unlooked : v.looked = none → v.stale = false
  looked : v.pc.undecided = true → v.looked ≠ none
  fresh : v.pc.undecided = true → v.stale = false →
    db.trusted v.request.scope = none ∨ db.trusted v.request.scope = some v.request.key
  stale : v.stale = true → ∃ k, db.trusted v.request.scope = some k ∧ k ≠ v.request.key

/-- The stored keys stay. -/
def Kept (db db' : Database) : Prop :=
  ∀ scope k, db.trusted scope = some k → db'.trusted scope = some k

theorem Kept.refl (db : Database) : Kept db db := fun _ _ => id

/-- A step within the pcs after the lookup. -/
theorem Tracked.go {db : Database} {v v' : Verification} (h : Tracked db v)
    (hr : v'.request = v.request) (hl : v'.looked = v.looked) (hs : v'.stale = v.stale)
    (hp : v'.pc ≠ .lookup) (hu : v'.pc.undecided = true → v.pc.undecided = true) : Tracked db v' where
  lookup := fun e => absurd e hp
  unlooked := fun e => hs ▸ h.unlooked (hl ▸ e)
  looked := fun e => hl ▸ h.looked (hu e)
  fresh := by
    rw [hr, hs]
    exact fun e => h.fresh (hu e)
  stale := by
    rw [hr, hs]
    exact h.stale

theorem tracked_moves {s : HostKeyBroker} {v v' : Verification} (h : Tracked s.known v)
    (hm : Moves s v v') : Tracked s.known v' := by
  cases hm with
  | lookup identity endpoint hpc =>
    have hns : v.stale = false := h.unlooked (h.lookup hpc)
    refine ⟨fun e => ?_, nofun, fun _ => nofun, fun hu _ => .inl (trusted_of_undecided hu), fun hs => ?_⟩
    · exact absurd e (afterLookup_ne_lookup _ _)
    · exact absurd hs (by rw [show _ = false from hns]; nofun)
  | drop hpc => exact h.go rfl rfl rfl nofun nofun
  | promote ended hpc => exact h.go rfl rfl rfl nofun nofun
  | prompt hpc | register hpc | publish hpc =>
    exact h.go rfl rfl rfl nofun fun _ => by rw [hpc]; rfl
  | decide hpc hv =>
    exact h.go rfl rfl rfl (afterDecision_ne_lookup _ _) fun _ => by rw [hpc]; rfl
  | save ended hpc => exact h.go rfl rfl rfl nofun nofun
  | forget hpc => exact h.go rfl rfl rfl nofun nofun
  | @finish id result hpc => cases result <;> exact h.go rfl rfl rfl nofun nofun
  | fail hpc hp =>
    rcases hp with ⟨e, rfl | rfl⟩ | rfl <;> exact h.go rfl rfl rfl nofun nofun

/-- Another verification stores its key. -/
theorem tracked_overtake {db : Database} {v : Verification} {r : VerifyRequest} (h : Tracked db v)
    (hk : Kept db (r.store db)) : Tracked (r.store db) (v.overtake r) := by
  have hstale : v.stale = true →
      ∃ k, (r.store db).trusted v.request.scope = some k ∧ k ≠ v.request.key := by
    intro hs
    obtain ⟨k, hk', hne⟩ := h.stale hs
    exact ⟨k, hk _ _ hk', hne⟩
  unfold Verification.overtake
  split
  · rename_i ho
    obtain ⟨hl, hsc, hkey⟩ := ho
    refine ⟨h.lookup, fun e => ?_, h.looked, nofun, fun _ => ⟨r.key, ?_, Ne.symm hkey⟩⟩
    · rw [show v.looked = none from e] at hl
      cases hl
    · rw [show (v.request.scope = r.scope) from hsc]
      exact trusted_store r db
  · rename_i ho
    refine ⟨h.lookup, h.unlooked, h.looked, fun hu hs => ?_, hstale⟩
    by_cases hsc : v.request.scope = r.scope
    · by_cases hkey : v.request.key = r.key
      · rw [hsc, hkey]
        exact .inr (trusted_store r db)
      · exact absurd ⟨Option.isSome_iff_ne_none.mpr (h.looked hu), hsc, hkey⟩ ho
    · rw [trusted_store_of_ne hsc]
      exact h.fresh hu hs

/-- A verification after its own write. -/
theorem tracked_kept {db db' : Database} {v : Verification} (h : Tracked db v)
    (hu : v.pc.undecided = false) (hk : Kept db db') : Tracked db' v where
  lookup := h.lookup
  unlooked := h.unlooked
  looked := h.looked
  fresh := fun e => absurd e (by rw [hu]; nofun)
  stale := fun hs => by
    obtain ⟨k, hk', hne⟩ := h.stale hs
    exact ⟨k, hk _ _ hk', hne⟩

def TrackedInv (s : HostKeyBroker) : Prop := ∀ v ∈ s.verifications, Tracked s.known v

/-! ## Every run -/

/-- A verification stores its key only if no other one has stored a different
key for its scope since its lookup. -/
def StoresFresh (s : HostKeyBroker) : Action → Prop
  | .verify i .go => ∀ v ∈ s.verifications[i]?, v.pc.writing = true → v.stale = false
  | _ => True

/-- A step of a call that is no verification leaves the store alone. -/
theorem step_known {s t : HostKeyBroker} {a : Action} (h : step s a = some t)
    (ha : ∀ i c, a ≠ .verify i c) : t.known = s.known := by
  cases a with
  | verify i c => exact absurd rfl (ha i c)
  | reply i c =>
    simp only [step] at h
    split at h
    · exact (answerStep_spec h).known
    · cases h
  | verifyForConnection _ | answer _ _ | answerForOwner _ _ _ | cancelForOwner _ | drainRequests =>
    cases h
    rfl

/-- For one step: the stored keys stay if and only if no stale verification
stores its key. -/
theorem storesFresh_iff_kept {s t : HostKeyBroker} {a : Action} (hi : TrackedInv s)
    (h : step s a = some t) : StoresFresh s a ↔ Kept s.known t.known := by
  have hquiet : t.known = s.known → Kept s.known t.known := fun e => e ▸ .refl _
  cases a with
  | verify i c =>
    simp only [step] at h
    split at h
    · rename_i v hv
      have hv' : Tracked s.known v := hi v (List.mem_of_getElem? hv)
      obtain ⟨v', hs⟩ := verifyStep_spec h
      rcases hs.store with ⟨hk, -, hw⟩ | ⟨hw, rfl, hk, -⟩
      · refine iff_of_true ?_ (hquiet hk)
        cases c with
        | go =>
          intro w hw' hwr
          cases hv.symm.trans hw'
          exact absurd rfl (hw hwr)
        | faults _ _ | fault _ | poisoned | timeout | abort => trivial
      · constructor
        · -- the scope holds no key yet, or this one
          intro hf scope k hk'
          have hfresh := hv'.fresh (VerifyPc.undecided_of_writing hw) (hf v hv hw)
          rw [hk]
          by_cases e : scope = v.request.scope
          · rw [e] at hk' ⊢
            rw [trusted_store]
            rcases hfresh with hn | hn <;> rw [hn] at hk' <;> cases hk'
            rfl
          · rw [trusted_store_of_ne e]
            exact hk'
        · intro hkept w hw' _
          cases hv.symm.trans hw'
          by_contra hstale
          obtain ⟨k, hk', hne⟩ := hv'.stale (Bool.not_eq_false _ ▸ hstale)
          have hafter := hkept _ _ hk'
          rw [hk, trusted_store] at hafter
          exact hne (Option.some.inj hafter).symm
    · cases h
  | reply _ _ | verifyForConnection _ | answer _ _ | answerForOwner _ _ _ | cancelForOwner _
  | drainRequests => exact iff_of_true trivial (hquiet (step_known h nofun))

/-- A step that keeps the stored keys keeps the invariant. -/
theorem trackedInv_step {s t : HostKeyBroker} {a : Action} (hi : TrackedInv s)
    (h : step s a = some t) (hk : Kept s.known t.known) : TrackedInv t := by
  cases a with
  | verifyForConnection r =>
    cases h
    intro v hv
    rcases List.mem_append.mp hv with hv | hv
    · exact hi v hv
    · obtain rfl := List.mem_singleton.mp hv
      exact ⟨fun _ => rfl, fun _ => rfl, nofun, nofun, nofun⟩
  | answer _ _ | answerForOwner _ _ _ | cancelForOwner _ | drainRequests =>
    cases h
    exact hi
  | verify i c =>
    simp only [step] at h
    split at h
    · rename_i v hv
      obtain ⟨v', hs⟩ := verifyStep_spec h
      have hv' : Tracked s.known v' := tracked_moves (hi v (List.mem_of_getElem? hv)) hs.moves
      intro w hw
      rcases hs.store with ⟨hkn, hvs, -⟩ | ⟨hwr, -, hkn, hvs⟩ <;> rw [hvs] at hw <;>
        rcases List.mem_or_eq_of_mem_set hw with hw | rfl
      · rw [hkn]
        exact hi w hw
      · rw [hkn]
        exact hv'
      · obtain ⟨w', hw', rfl⟩ := List.mem_map.mp hw
        rw [hkn] at hk ⊢
        exact tracked_overtake (hi w' hw') hk
      · exact tracked_kept hv' (moves_writing hs.moves hwr) hk
    · cases h
  | reply i c =>
    simp only [step] at h
    split at h
    · have hs := answerStep_spec h
      intro w hw
      rw [hs.known]
      exact hi w (hs.verifications ▸ hw)
    · cases h

theorem trackedInv_new (known : Database) : TrackedInv (.new known) :=
  fun _ h => absurd h List.not_mem_nil

/-- In every run over any store: no step replaces a stored key if and only if
every verification that stores its key does so before another one has stored a
different key for its scope since its lookup. -/
theorem stored_key_kept_iff (known : Database) (as : List Action) :
    machine.Along (fun s a _ => StoresFresh s a) (.new known) as ↔
      machine.Along (fun s _ t => Kept s.known t.known) (.new known) as :=
  Machine.along_congr (I := TrackedInv) (fun _ _ _ hi h => storesFresh_iff_kept hi h)
    (fun _ _ _ hi h hf => trackedInv_step hi h ((storesFresh_iff_kept hi h).mp hf)) as
    (trackedInv_new known)

/-- Two workstations behind one bastion see different keys of it and both ask.
The first answer is stored; the second one replaces it. -/
theorem stored_key_replaced :
    ∃ s t, machine.Reach Machine.free Initial s ∧ step s (.verify 1 .go) = some t ∧
      s.known.trusted (.endpoint "jump.example" 22) = some sampleKey ∧
      t.known.trusted (.endpoint "jump.example" 22) = some otherKey := by
  obtain ⟨s, hs, hp⟩ := Machine.Reach.of_run machine Machine.free (init_new .empty)
    (List.flatten [
      [.verifyForConnection (bastion ⟨0⟩ sampleKey), .verifyForConnection (bastion ⟨1⟩ otherKey)],
      promptTrace 0, promptTrace 1, trustTrace 0 ⟨0⟩ 1, trustTrace 1 ⟨1⟩ 2,
      [.verify 0 .go, .verify 0 .go, .verify 1 .go]])
    (fun s => s.known.trusted (.endpoint "jump.example" 22) = some sampleKey &&
      (step s (.verify 1 .go)).any fun t =>
        t.known.trusted (.endpoint "jump.example" 22) = some otherKey) (by decide)
  obtain ⟨h₁, h₂⟩ := Bool.and_eq_true_iff.mp hp
  obtain ⟨t, ht, h₂⟩ := (Option.any_eq_true _ _).mp h₂
  exact ⟨s, t, hs, ht, of_decide_eq_true h₁, of_decide_eq_true h₂⟩

end KW.HostKey
