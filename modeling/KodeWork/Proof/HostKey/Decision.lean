import KodeWork.Proof.HostKey.Steps

/-!
# A key is accepted by the store or by the user

A verification returns `Ok(true)` only when its lookup found a record for the
presented key, or when the user trusted the key in an answer to its own prompt;
a record for another key and a store that fails end it without a prompt; and
`TrustAndSave` ends in `Ok` only after the save (`accepted_key_trusted`). This
holds in every run, whatever the store holds and however the calls interleave.

`Traced` follows one verification from its lookup to its result.
-/

namespace KW.HostKey

open HostKeyBroker

/-- What the lookup of the verification returned. -/
def Verification.found (v : Verification) : Option (Except String (Option KnownHostMatch)) :=
  v.looked.map fun l => v.request.lookup l.1 l.2.1 l.2.2

variable {delivered delivered' : List (Nat × HostKeyDecision)} {v : Verification}

/-- The result of a verification that asked the user: it was trusted in an
answer to its prompt, and saved if so decided. -/
def Answered (delivered : List (Nat × HostKeyDecision)) (v : Verification)
    (result : Except SshError Bool) : Prop :=
  (result = .ok true → ∃ id d, v.prompt = some id ∧ (id, d) ∈ delivered ∧ d ≠ .reject) ∧
  (v.decision = some .trustAndSave → ∀ b, result = .ok b → v.saved = some (.ok ()))

/-- A verification that found no record, and asks the user. -/
def Asking (delivered : List (Nat × HostKeyDecision)) (v : Verification) : VerifyPc → Prop
  | .nextId => v.decision = none
  | .insert id | .push id | .wait id => v.prompt = some id ∧ v.decision = none
  | .save id =>
    v.prompt = some id ∧ (id, .trustAndSave) ∈ delivered
  | .forgetRequest _ result | .forgetPending _ result =>
    ∀ r, result = some r → Answered delivered v r
  | .returned result => Answered delivered v result
  | .dropped => True
  | .lookup | .promote _ => False

/-- A verification that found a record for the presented key. -/
def Knowing (v : Verification) : VerifyPc → Prop
  | .promote _ => v.promoted = none
  | .returned (.ok _) => ∀ e, v.promoted ≠ some (.error e)
  | .returned (.error e) => ∃ message, e = .hostKeyStoreUnavailable message ∧
      v.promoted = some (.error message)
  | _ => False

/-- How a verification got to where it stands. -/
inductive Traced (delivered : List (Nat × HostKeyDecision)) (v : Verification) : Prop
  | fresh : v.found = none → (v.pc = .lookup ∨ v.pc = .dropped) → v.prompt = none →
      v.promoted = none → v.decision = none → Traced delivered v
  | failed {message : String} : v.found = some (.error message) →
      v.pc = .returned (.error (.hostKeyStoreUnavailable message)) → v.prompt = none →
      v.promoted = none → v.decision = none → Traced delivered v
  | changed {m : KnownHostMatch} : v.found = some (.ok (some m)) → ¬ m.Agrees v.request.key →
      v.pc = .returned (.error .hostKeyChanged) → v.prompt = none → v.promoted = none →
      v.decision = none → Traced delivered v
  | known {m : KnownHostMatch} : v.found = some (.ok (some m)) → m.Agrees v.request.key →
      Knowing v v.pc → v.prompt = none → v.decision = none → Traced delivered v
  | asking : v.found = some (.ok none) → v.promoted = none → Asking delivered v v.pc →
      Traced delivered v

theorem Answered.mono (hsub : ∀ x ∈ delivered, x ∈ delivered') {r : Except SshError Bool}
    (h : Answered delivered v r) : Answered delivered' v r := by
  refine ⟨fun e => ?_, h.2⟩
  obtain ⟨id, d, hp, hd, hn⟩ := h.1 e
  exact ⟨id, d, hp, hsub _ hd, hn⟩

theorem Asking.mono (hsub : ∀ x ∈ delivered, x ∈ delivered') {pc : VerifyPc}
    (h : Asking delivered v pc) : Asking delivered' v pc := by
  cases pc with
  | save id => exact ⟨h.1, hsub _ h.2⟩
  | forgetRequest id result | forgetPending id result => exact fun r e => (h r e).mono hsub
  | returned result => exact Answered.mono hsub h
  | lookup | promote _ | nextId | insert _ | push _ | wait _ | dropped => exact h

/-- More decisions are delivered. -/
theorem Traced.mono (hsub : ∀ x ∈ delivered, x ∈ delivered') (h : Traced delivered v) :
    Traced delivered' v := by
  cases h with
  | fresh hf hp hq ho hd => exact .fresh hf hp hq ho hd
  | failed hf hp hq ho hd => exact .failed hf hp hq ho hd
  | changed hf hm hp hq ho hd => exact .changed hf hm hp hq ho hd
  | known hf hm hp hq hd => exact .known hf hm hp hq hd
  | asking hf ho ha => exact .asking hf ho (ha.mono hsub)

/-- What another verification stores does not change the trace. -/
theorem Traced.overtake (h : Traced delivered v) (r : VerifyRequest) :
    Traced delivered (v.overtake r) := by
  unfold Verification.overtake
  split
  · cases h with
    | fresh hf hp hq ho hd => exact .fresh hf hp hq ho hd
    | failed hf hp hq ho hd => exact .failed hf hp hq ho hd
    | changed hf hm hp hq ho hd => exact .changed hf hm hp hq ho hd
    | known hf hm hp hq hd => exact .known hf hm hp hq hd
    | asking hf ho ha => exact .asking hf ho ha
  · exact h

/-! ## One step of the verification -/

/-- The decisions in the channels have been delivered. -/
def ChannelsDelivered (s : HostKeyBroker) : Prop :=
  ∀ id d, (s.channels id).value = some d → (id, d) ∈ s.delivered

/-- The lookup, and where it leads. -/
theorem traced_lookup (db : Database) (identity endpoint : Fault) (hq : v.prompt = none)
    (ho : v.promoted = none) (hd : v.decision = none) :
    Traced delivered { v with
      looked := some (db, identity, endpoint)
      pc := afterLookup v.request (v.request.lookup db identity endpoint) } := by
  cases hl : v.request.lookup db identity endpoint with
  | error message => exact .failed (congrArg some hl) rfl hq ho hd
  | ok saved =>
    have hv := verdict_spec v.request saved
    cases hverdict : v.request.verdict saved with
    | accept =>
      rw [hverdict] at hv
      obtain ⟨m, rfl, ha, -⟩ := hv
      refine .known (congrArg some hl) ha ?_ hq hd
      simp only [afterLookup, hverdict]
      intro e h
      cases ho.symm.trans h
    | promote host =>
      rw [hverdict] at hv
      obtain ⟨-, info, rfl, hf, hb⟩ := hv
      refine .known (congrArg some hl) ⟨hf, .inl hb⟩ ?_ hq hd
      simp only [afterLookup, hverdict]
      exact ho
    | changed =>
      rw [hverdict] at hv
      obtain ⟨m, rfl, ha⟩ := hv
      exact .changed (congrArg some hl) ha (by simp only [afterLookup, hverdict]) hq ho hd
    | prompt =>
      rw [hverdict] at hv
      obtain rfl : saved = none := hv
      refine .asking (congrArg some hl) ho ?_
      simp only [afterLookup, hverdict]
      exact hd

theorem traced_moves {s : HostKeyBroker} {v' : Verification} (hc : ChannelsDelivered s)
    (h : Traced s.delivered v) (hm : Moves s v v') : Traced s.delivered v' := by
  cases h with
  | fresh hf hp hq ho hd =>
    -- nothing but the lookup moves it
    have hpc : v.pc = .lookup := by
      rcases hp with hp | hp
      · exact hp
      · cases hm <;> simp_all
    cases hm with
    | lookup identity endpoint _ => exact traced_lookup s.known identity endpoint hq ho hd
    | drop _ => exact .fresh hf (.inr rfl) hq ho hd
    | promote _ e | prompt e | register e | publish e | decide e _ | save _ e | forget e | finish e =>
      rw [hpc] at e
      cases e
    | fail e _ => simp [hpc] at e
  | failed hf hp | changed hf _ hp => cases hm <;> simp_all
  | known hf hm' hk hq hd =>
    cases hm with
    | promote ended hpc =>
      refine .known hf hm' ?_ hq hd
      cases ended with
      | ok _ => exact fun e h => nomatch h
      | error message => exact ⟨message, rfl, rfl⟩
    | lookup _ _ hpc | prompt hpc | register hpc | publish hpc | decide hpc _ | save _ hpc | forget hpc
    | finish hpc | drop hpc =>
      rw [hpc] at hk
      cases hk
    | fail hpc _ => rcases hpc with hpc | hpc | hpc <;> rw [hpc] at hk <;> cases hk
  | asking hf ho ha =>
    cases hm with
    | prompt hpc =>
      rw [hpc] at ha
      exact .asking hf ho ⟨rfl, ha⟩
    | register hpc | publish hpc =>
      rw [hpc] at ha
      exact .asking hf ho ha
    | @decide id d hpc hv =>
      rw [hpc] at ha
      refine .asking hf ho ?_
      cases d with
      | trustOnce =>
        rintro _ ⟨⟩
        exact ⟨fun _ => ⟨id, _, ha.1, hc id _ hv, nofun⟩, nofun⟩
      | trustAndSave => exact ⟨ha.1, hc id _ hv⟩
      | reject =>
        rintro _ ⟨⟩
        exact ⟨nofun, fun _ => nofun⟩
    | @save id ended hpc =>
      rw [hpc] at ha
      refine .asking hf ho ?_
      rintro _ ⟨⟩
      cases ended with
      | ok _ => exact ⟨fun _ => ⟨id, _, ha.1, ha.2, nofun⟩, fun _ _ _ => rfl⟩
      | error message => exact ⟨nofun, fun _ => nofun⟩
    | forget hpc =>
      rw [hpc] at ha
      exact .asking hf ho ha
    | @finish id result hpc =>
      rw [hpc] at ha
      refine .asking hf ho ?_
      cases result with
      | none => exact trivial
      | some r => exact ha r rfl
    | @fail id pc hpc hp =>
      have herr : ∀ e, Answered s.delivered v (.error e) := fun e => ⟨nofun, fun _ => nofun⟩
      refine .asking hf ho ?_
      rcases hp with ⟨e, rfl | rfl⟩ | rfl
      · exact herr e
      · rintro _ ⟨⟩
        exact herr e
      · nofun
    | lookup _ _ hpc | promote _ hpc | drop hpc =>
      rw [hpc] at ha
      cases ha

/-! ## What a trace says of the result -/

/-- The key is accepted by a record, or by an answer to the prompt. -/
theorem Traced.accepted (h : Traced delivered v) (hpc : v.pc = .returned (.ok true)) :
    (∃ m, v.found = some (.ok (some m)) ∧ m.Agrees v.request.key) ∨
      ∃ id d, v.prompt = some id ∧ (id, d) ∈ delivered ∧ (d = .trustOnce ∨ d = .trustAndSave) := by
  cases h with
  | fresh hf hp => rcases hp with hp | hp <;> cases hp.symm.trans hpc
  | failed hf hp | changed hf hm hp => cases hp.symm.trans hpc
  | known hf hm => exact .inl ⟨_, hf, hm⟩
  | asking hf ho ha =>
    rw [hpc] at ha
    obtain ⟨id, d, hp, hdel, hn⟩ := ha.1 rfl
    refine .inr ⟨id, d, hp, hdel, ?_⟩
    cases d with
    | trustOnce => exact .inl rfl
    | trustAndSave => exact .inr rfl
    | reject => exact absurd rfl hn

/-- A record for another key is a hard failure. -/
theorem Traced.hostKeyChanged (h : Traced delivered v) {m : KnownHostMatch}
    (hm : v.found = some (.ok (some m))) (hn : ¬ m.Agrees v.request.key) :
    v.pc = .returned (.error .hostKeyChanged) ∧ v.prompt = none := by
  cases h with
  | fresh hf | failed hf | asking hf => cases hf.symm.trans hm
  | changed _ _ hp hq => exact ⟨hp, hq⟩
  | known hf ha =>
    cases hf.symm.trans hm
    exact absurd ha hn

/-- A promotion that failed ends in an error. -/
theorem knowing_failed {pc : VerifyPc} {message : String} (hk : Knowing v pc)
    (he : v.promoted = some (.error message)) :
    pc = .returned (.error (.hostKeyStoreUnavailable message)) := by
  cases pc with
  | promote host => exact nomatch (show v.promoted = none from hk).symm.trans he
  | returned result =>
    cases result with
    | ok b => exact absurd he (hk message)
    | error e =>
      obtain ⟨message', rfl, he'⟩ := hk
      cases he.symm.trans he'
      rfl
  | lookup | nextId | insert _ | push _ | wait _ | save _ | forgetRequest _ _ | forgetPending _ _
  | dropped => cases hk

/-- A lookup that failed ends in an error. -/
theorem Traced.lookupFailed (h : Traced delivered v) {message : String}
    (he : v.found = some (.error message)) :
    v.pc = .returned (.error (.hostKeyStoreUnavailable message)) ∧ v.prompt = none := by
  cases h with
  | fresh hf | changed hf | known hf | asking hf => cases hf.symm.trans he
  | failed hf hp hq =>
    cases hf.symm.trans he
    exact ⟨hp, hq⟩

theorem Traced.promotionFailed (h : Traced delivered v) {message : String}
    (he : v.promoted = some (.error message)) :
    v.pc = .returned (.error (.hostKeyStoreUnavailable message)) ∧ v.prompt = none := by
  cases h with
  | fresh _ _ _ ho | failed _ _ _ ho | changed _ _ _ _ ho | asking _ ho => cases ho.symm.trans he
  | known _ _ hk hq => exact ⟨knowing_failed hk he, hq⟩

/-- After `TrustAndSave`, `Ok` means that the key was saved. -/
theorem Traced.trustSaved (h : Traced delivered v) (hd : v.decision = some .trustAndSave) {b : Bool}
    (hpc : v.pc = .returned (.ok b)) : v.saved = some (.ok ()) := by
  cases h with
  | fresh _ _ _ _ hn | failed _ _ _ _ hn | changed _ _ _ _ _ hn | known _ _ _ _ hn =>
    cases hn.symm.trans hd
  | asking hf ho ha =>
    rw [hpc] at ha
    exact ha.2 hd b rfl

/-! ## Every run -/

structure DecisionInv (s : HostKeyBroker) : Prop where
  channels : ChannelsDelivered s
  traced : ∀ v ∈ s.verifications, Traced s.delivered v

theorem decisionInv_step {s t : HostKeyBroker} {a : Action} (hi : DecisionInv s)
    (h : step s a = some t) : DecisionInv t := by
  cases a with
  | verifyForConnection r =>
    cases h
    refine ⟨hi.channels, fun v hv => ?_⟩
    rcases List.mem_append.mp hv with hv | hv
    · exact hi.traced v hv
    · obtain rfl := List.mem_singleton.mp hv
      exact .fresh rfl (.inl rfl) rfl rfl rfl
  | answer id d | answerForOwner host id d | cancelForOwner host | drainRequests =>
    cases h
    exact ⟨hi.channels, hi.traced⟩
  | verify i c =>
    simp only [step] at h
    split at h
    · rename_i v hv
      obtain ⟨v', hs⟩ := verifyStep_spec h
      have hv' : Traced s.delivered v' :=
        traced_moves hi.channels (hi.traced v (List.mem_of_getElem? hv)) hs.moves
      refine ⟨fun id d hd => ?_, fun w hw => ?_⟩
      · rw [hs.delivered]
        exact hi.channels id d (hs.values id ▸ hd)
      · rw [hs.delivered]
        rcases hs.store with ⟨-, hvs, -⟩ | ⟨-, -, -, hvs⟩ <;> rw [hvs] at hw <;>
          rcases List.mem_or_eq_of_mem_set hw with hw | rfl
        · exact hi.traced w hw
        · exact hv'
        · obtain ⟨w', hw', rfl⟩ := List.mem_map.mp hw
          exact (hi.traced w' hw').overtake _
        · exact hv'
    · cases h
  | reply i c =>
    simp only [step] at h
    split at h
    · have hs := answerStep_spec h
      refine ⟨fun id d hd => ?_, fun w hw => ?_⟩
      · rcases hs.values id d hd with hd | hd
        · exact hs.delivered _ (hi.channels id d hd)
        · exact hd
      · rw [hs.verifications] at hw
        exact (hi.traced w hw).mono hs.delivered
    · cases h

theorem decisionInv_new (known : Database) : DecisionInv (.new known) where
  channels := by
    intro id d h
    cases h
  traced := fun _ h => absurd h List.not_mem_nil

theorem reach_decisionInv {s : HostKeyBroker} (h : machine.Reach Machine.free Initial s) :
    DecisionInv s :=
  h.invariant (I := DecisionInv) (by rintro _ ⟨known, rfl⟩; exact decisionInv_new known)
    fun _ _ _ hi _ hs => decisionInv_step hi hs

/-- In every run, for every verification: `Ok(true)` means that the lookup found
a record for the presented key, or that a trusting answer was delivered to its
own prompt; a record for another key is a hard failure without a prompt; a store
that fails, in the lookup or in the promotion, ends it in an error without a
prompt; and `TrustAndSave` ends in `Ok` only after the save. -/
theorem accepted_key_trusted {s : HostKeyBroker} (h : machine.Reach Machine.free Initial s)
    {v : Verification} (hv : v ∈ s.verifications) :
    (v.pc = .returned (.ok true) →
      (∃ m, v.found = some (.ok (some m)) ∧ m.Agrees v.request.key) ∨
      ∃ id d, v.prompt = some id ∧ (id, d) ∈ s.delivered ∧ (d = .trustOnce ∨ d = .trustAndSave)) ∧
    (∀ m, v.found = some (.ok (some m)) → ¬ m.Agrees v.request.key →
      v.pc = .returned (.error .hostKeyChanged) ∧ v.prompt = none) ∧
    (∀ message, v.found = some (.error message) ∨ v.promoted = some (.error message) →
      v.pc = .returned (.error (.hostKeyStoreUnavailable message)) ∧ v.prompt = none) ∧
    (v.decision = some .trustAndSave → ∀ b, v.pc = .returned (.ok b) → v.saved = some (.ok ())) := by
  have ht := (reach_decisionInv h).traced v hv
  refine ⟨ht.accepted, fun m hm hn => ht.hostKeyChanged hm hn, fun message he => ?_, fun hd b hpc => ?_⟩
  · rcases he with he | he
    · exact ht.lookupFailed he
    · exact ht.promotionFailed he
  · exact ht.trustSaved hd hpc

/-- The verification `0` has returned `Ok(true)` after `TrustAndSave`. -/
def HostKeyBroker.trustedForGood (s : HostKeyBroker) : Bool :=
  s.verifications[0]?.any fun v => match v.pc with
    | .returned (.ok true) => v.decision == some .trustAndSave
    | _ => false

/-- An unknown bastion, trusted for good by the owner of the prompt. -/
theorem trusted_bastion_saved :
    ∃ s v, machine.Reach Machine.free Initial s ∧ v ∈ s.verifications ∧ v.pc = .returned (.ok true) ∧
      v.saved = some (.ok ()) := by
  obtain ⟨s, hs, hp⟩ := Machine.Reach.of_run machine Machine.free (init_new .empty)
    (List.flatten [[.verifyForConnection (bastion ⟨0⟩ sampleKey)], promptTrace 0,
      trustTrace 0 ⟨0⟩ 1, List.replicate 4 (.verify 0 .go)])
    HostKeyBroker.trustedForGood (by decide)
  obtain ⟨v, hv, hp⟩ := (Option.any_eq_true _ _).mp hp
  split at hp
  · rename_i hpc
    have hmem : v ∈ s.verifications := List.mem_of_getElem? hv
    exact ⟨s, v, hs, hmem, hpc, (accepted_key_trusted hs hmem).2.2.2 (by simpa using hp) true hpc⟩
  · cases hp

end KW.HostKey
