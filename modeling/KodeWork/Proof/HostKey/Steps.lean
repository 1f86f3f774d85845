import KodeWork.Impl.HostKey.Broker

/-!
# What the calls on a broker can do

`verdict_cases` says what the record found means for the presented key,
`VerifySpec` what a step of a verification does to the store and to the other
calls, and `AnswerSpec` the same for the calls that answer: a decision gets into
a channel only together with its entry in `delivered`.
-/

namespace KW.HostKey

open HostKeyBroker

/-! ## The record found -/

/-- The record is for the presented key: the same fingerprint, and the same
key blob or none. -/
def KnownHostMatch.Agrees (m : KnownHostMatch) (key : PublicKey) : Prop :=
  m.info.fingerprint = key.fingerprint ∧
    (m.info.keyBlobBase64 = key.keyBlobBase64 ∨ m.info.keyBlobBase64 = "")

/-- What the verdict says about the record found. -/
def VerdictSpec (r : VerifyRequest) (saved : Option KnownHostMatch) : Verdict → Prop
  | .accept => ∃ m, saved = some m ∧ m.Agrees r.key ∧
      ((∃ info, m = .hostScoped info) ∨ r.hostId = none ∨ m.info.keyBlobBase64 = "")
  | .promote host => r.hostId = some host ∧ ∃ info, saved = some (.legacyEndpoint info) ∧
      info.fingerprint = r.key.fingerprint ∧ info.keyBlobBase64 = r.key.keyBlobBase64
  | .changed => ∃ m, saved = some m ∧ ¬ m.Agrees r.key
  | .prompt => saved = none

theorem verdict_spec (r : VerifyRequest) (saved : Option KnownHostMatch) :
    VerdictSpec r saved (r.verdict saved) := by
  cases saved with
  | none => rfl
  | some m =>
    by_cases hf : m.info.fingerprint = r.key.fingerprint
    · by_cases hempty : m.info.keyBlobBase64 = ""
      · have e : r.verdict (some m) = .accept := by simp [VerifyRequest.verdict, hf, hempty]
        rw [e]
        exact ⟨m, rfl, ⟨hf, .inr hempty⟩, .inr (.inr hempty)⟩
      · by_cases hb : m.info.keyBlobBase64 = r.key.keyBlobBase64
        · -- the same key: an endpoint record is promoted for a host
          simp only [VerifyRequest.verdict]
          rw [if_pos ⟨hf, hempty⟩, if_pos hb]
          cases m with
          | hostScoped info =>
            cases r.hostId <;> exact ⟨_, rfl, ⟨hf, .inl hb⟩, .inl ⟨info, rfl⟩⟩
          | legacyEndpoint info =>
            cases hh : r.hostId with
            | none => exact ⟨_, rfl, ⟨hf, .inl hb⟩, .inr (.inl hh)⟩
            | some host => exact ⟨hh, info, rfl, hf, hb⟩
        · have e : r.verdict (some m) = .changed := by simp [VerifyRequest.verdict, hf, hempty, hb]
          rw [e]
          exact ⟨m, rfl, fun ha => ha.2.elim hb hempty⟩
    · have e : r.verdict (some m) = .changed := by simp [VerifyRequest.verdict, hf]
      rw [e]
      exact ⟨m, rfl, fun ha => hf ha.1⟩

/-! ## Verifications -/

/-- The step that stores the key of the verification. -/
def VerifyPc.writing : VerifyPc → Bool
  | .promote _ | .save _ => true
  | _ => false

/-- What a step does to the verification itself. -/
inductive Moves (s : HostKeyBroker) (v : Verification) : Verification → Prop
  | lookup (identity endpoint : Fault) : v.pc = .lookup →
      Moves s v { v with
        looked := some (s.known, identity, endpoint)
        pc := afterLookup v.request (v.request.lookup s.known identity endpoint) }
  | promote {host : HostId} (ended : Except String Unit) : v.pc = .promote host →
      Moves s v { v with
        promoted := some ended
        pc := .returned (match ended with
          | .ok _ => .ok true
          | .error message => .error (.hostKeyStoreUnavailable message)) }
  | prompt : v.pc = .nextId → Moves s v { v with prompt := some s.nextId, pc := .insert s.nextId }
  | register {id : Nat} : v.pc = .insert id → Moves s v { v with pc := .push id }
  | publish {id : Nat} : v.pc = .push id → Moves s v { v with pc := .wait id }
  | decide {id : Nat} {d : HostKeyDecision} : v.pc = .wait id → (s.channels id).value = some d →
      Moves s v { v with decision := some d, pc := afterDecision id d }
  | save {id : Nat} (ended : Except String Unit) : v.pc = .save id →
      Moves s v { v with
        saved := some ended
        pc := .forgetRequest id (some (match ended with
          | .ok _ => .ok true
          | .error message => .error (.invalidConfiguration message))) }
  | forget {id : Nat} {result : Option (Except SshError Bool)} : v.pc = .forgetRequest id result →
      Moves s v { v with pc := .forgetPending id result }
  | finish {id : Nat} {result : Option (Except SshError Bool)} : v.pc = .forgetPending id result →
      Moves s v { v with pc := result.elim .dropped .returned }
  /-- Without a decision: an error, or the task is dropped. -/
  | fail {id : Nat} {pc : VerifyPc} : v.pc = .insert id ∨ v.pc = .push id ∨ v.pc = .wait id →
      (∃ e, pc = .returned (.error e) ∨ pc = .forgetRequest id (some (.error e))) ∨
        pc = .forgetRequest id none → Moves s v { v with pc := pc }
  | drop : v.pc = .lookup → Moves s v { v with pc := .dropped }

/-- What a step of the verification numbered `i` does to the broker. -/
structure VerifySpec (s t : HostKeyBroker) (i : Nat) (v : Verification) (c : Choice)
    (v' : Verification) : Prop where
  moves : Moves s v v'
  delivered : t.delivered = s.delivered
  values : ∀ id, (t.channels id).value = (s.channels id).value
  store : (t.known = s.known ∧ t.verifications = s.verifications.set i v' ∧
      (v.pc.writing = true → c ≠ .go)) ∨
    v.pc.writing = true ∧ c = .go ∧ t.known = v.request.store s.known ∧
      t.verifications = (s.verifications.map fun w => w.overtake v.request).set i v'

theorem value_dropReceiver (s : HostKeyBroker) (id j : Nat) :
    ((s.dropReceiver id).channels j).value = (s.channels j).value := by
  simp only [dropReceiver]
  by_cases e : j = id
  · rw [e, Function.update_self]
  · rw [Function.update_of_ne e]

theorem value_dropSender (s : HostKeyBroker) (id j : Nat) :
    ((s.dropSender id).channels j).value = (s.channels j).value := by
  unfold dropSender
  split
  · by_cases e : j = id
    · simp only [e, Function.update_self]
    · simp only [Function.update_of_ne e]
  · rfl

@[simp] theorem dropSender_known (s : HostKeyBroker) (id : Nat) : (s.dropSender id).known = s.known := by
  unfold dropSender
  split <;> rfl

@[simp] theorem dropSender_verifications (s : HostKeyBroker) (id : Nat) :
    (s.dropSender id).verifications = s.verifications := by
  unfold dropSender
  split <;> rfl

@[simp] theorem dropSender_delivered (s : HostKeyBroker) (id : Nat) :
    (s.dropSender id).delivered = s.delivered := by
  unfold dropSender
  split <;> rfl

/-- A step that writes no key. -/
theorem VerifySpec.go {s u : HostKeyBroker} {i : Nat} {v v' : Verification} {c : Choice} {pc : VerifyPc}
    (hm : Moves s v { v' with pc := pc }) (hw : v.pc.writing = true → c ≠ .go)
    (hk : u.known = s.known) (hvs : u.verifications = s.verifications) (hd : u.delivered = s.delivered)
    (hc : ∀ id, (u.channels id).value = (s.channels id).value) :
    VerifySpec s (u.goVerify i v' pc) i v c { v' with pc := pc } :=
  ⟨hm, hd, hc, .inl ⟨hk, by rw [goVerify, hvs], hw⟩⟩

/-- The step that stores the key. -/
theorem VerifySpec.write {s : HostKeyBroker} {i : Nat} {v v' : Verification} {pc : VerifyPc}
    (hm : Moves s v { v' with pc := pc }) (hw : v.pc.writing = true) :
    VerifySpec s ((s.write v.request).goVerify i v' pc) i v .go { v' with pc := pc } :=
  ⟨hm, rfl, fun _ => rfl, .inr ⟨hw, rfl, rfl, rfl⟩⟩

theorem verifyStep_spec {s t : HostKeyBroker} {i : Nat} {v : Verification} {c : Choice}
    (h : s.verifyStep i v v.pc c = some t) : ∃ v', VerifySpec s t i v c v' := by
  cases hpc : v.pc with
  | lookup =>
    rw [hpc] at h
    have hw : v.pc.writing = true → c ≠ .go := by rw [hpc]; nofun
    cases c with
    | faults identity endpoint =>
      cases h
      exact ⟨_, .go (.lookup identity endpoint hpc) hw rfl rfl rfl fun _ => rfl⟩
    | abort =>
      cases h
      exact ⟨_, .go (.drop hpc) hw rfl rfl rfl fun _ => rfl⟩
    | go | fault _ | poisoned | timeout => cases h
  | promote host =>
    rw [hpc] at h
    cases c with
    | go =>
      cases h
      exact ⟨_, .write (.promote (.ok ()) hpc) (by rw [hpc]; rfl)⟩
    | fault message =>
      cases h
      exact ⟨_, .go (.promote (.error message) hpc) nofun rfl rfl rfl fun _ => rfl⟩
    | faults _ _ | poisoned | timeout | abort => cases h
  | save id =>
    rw [hpc] at h
    cases c with
    | go =>
      cases h
      exact ⟨_, .write (.save (.ok ()) hpc) (by rw [hpc]; rfl)⟩
    | fault message =>
      cases h
      exact ⟨_, .go (.save (.error message) hpc) nofun rfl rfl rfl fun _ => rfl⟩
    | faults _ _ | poisoned | timeout | abort => cases h
  | nextId =>
    rw [hpc] at h
    have hw : v.pc.writing = true → c ≠ .go := by rw [hpc]; nofun
    cases c <;> cases h
    exact ⟨_, .go (.prompt hpc) hw rfl rfl rfl fun _ => rfl⟩
  | insert id =>
    rw [hpc] at h
    have hw : v.pc.writing = true → c ≠ .go := by rw [hpc]; nofun
    cases c <;> cases h
    · exact ⟨_, .go (.register hpc) hw rfl rfl rfl fun _ => rfl⟩
    · exact ⟨_, .go (.fail (.inl hpc) (.inl ⟨_, .inl rfl⟩)) hw rfl rfl rfl fun _ => rfl⟩
  | push id =>
    rw [hpc] at h
    have hw : v.pc.writing = true → c ≠ .go := by rw [hpc]; nofun
    cases c <;> cases h
    · exact ⟨_, .go (.publish hpc) hw rfl rfl rfl fun _ => rfl⟩
    · exact ⟨_, .go (.fail (.inr (.inl hpc)) (.inl ⟨_, .inr rfl⟩)) hw rfl rfl rfl fun _ => rfl⟩
  | wait id =>
    rw [hpc] at h
    have hw : v.pc.writing = true → c ≠ .go := by rw [hpc]; nofun
    have hfail : ∀ {pc}, (∃ e, pc = .returned (.error e) ∨ pc = .forgetRequest id (some (.error e))) ∨
        pc = .forgetRequest id none →
        VerifySpec s ((s.dropReceiver id).goVerify i v pc) i v c { v with pc := pc } :=
      fun hp => .go (.fail (.inr (.inr hpc)) hp) hw rfl rfl rfl (value_dropReceiver s id)
    cases c with
    | go =>
      simp only [verifyStep] at h
      split at h
      · cases h
        exact ⟨_, .go (.decide hpc ‹_›) hw rfl rfl rfl (value_dropReceiver s id)⟩
      · split at h <;> cases h
        exact ⟨_, hfail (.inl ⟨_, .inr rfl⟩)⟩
    | timeout =>
      cases h
      exact ⟨_, hfail (.inl ⟨_, .inr rfl⟩)⟩
    | abort =>
      cases h
      exact ⟨_, hfail (.inr rfl)⟩
    | faults _ _ | fault _ | poisoned => cases h
  | forgetRequest id result =>
    rw [hpc] at h
    have hw : v.pc.writing = true → c ≠ .go := by rw [hpc]; nofun
    cases c <;> cases h
    · exact ⟨_, .go (.forget hpc) hw (by simp) (by simp) (by simp) (value_dropSender s id)⟩
    · exact ⟨_, .go (.forget hpc) hw rfl rfl rfl fun _ => rfl⟩
  | forgetPending id result =>
    rw [hpc] at h
    have hw : v.pc.writing = true → c ≠ .go := by rw [hpc]; nofun
    cases c <;> cases h
    · exact ⟨_, .go (.finish hpc) hw rfl rfl rfl (value_dropReceiver (s.dropPending id) id)⟩
    · exact ⟨_, .go (.finish hpc) hw rfl rfl rfl (value_dropReceiver s id)⟩
  | returned result | dropped =>
    rw [hpc] at h
    cases c <;> cases h

/-! ## Answers -/

/-- What a step of an answering call does. -/
structure AnswerSpec (s t : HostKeyBroker) : Prop where
  known : t.known = s.known
  verifications : t.verifications = s.verifications
  delivered : ∀ x ∈ s.delivered, x ∈ t.delivered
  values : ∀ id d, (t.channels id).value = some d →
    (s.channels id).value = some d ∨ (id, d) ∈ t.delivered

theorem AnswerSpec.quiet {s t : HostKeyBroker} (hk : t.known = s.known)
    (hv : t.verifications = s.verifications) (hd : t.delivered = s.delivered)
    (hc : t.channels = s.channels) : AnswerSpec s t :=
  ⟨hk, hv, fun _ h => hd ▸ h, fun _ _ h => .inl (hc ▸ h)⟩

theorem answerStep_spec {s t : HostKeyBroker} {i : Nat} {a : AnswerCall} {pc : AnswerPc} {c : Choice}
    (h : s.answerStep i a pc c = some t) : AnswerSpec s t := by
  cases pc with
  | cancel host | retain id => cases c <;> cases h <;> exact .quiet rfl rfl rfl rfl
  | owner host id decision | remove id decision =>
    cases c with
    | go =>
      simp only [answerStep] at h
      split at h <;> cases h <;> exact .quiet rfl rfl rfl rfl
    | poisoned =>
      cases h
      exact .quiet rfl rfl rfl rfl
    | faults _ _ | fault _ | timeout | abort => cases h
  | send id decision =>
    cases c with
    | go =>
      simp only [answerStep] at h
      split at h <;> cases h
      · exact .quiet rfl rfl rfl rfl
      · refine ⟨rfl, rfl, fun x hx => List.mem_append_left _ hx, fun j d hd => ?_⟩
        simp only [goAnswer] at hd ⊢
        by_cases e : j = id
        · rw [e, Function.update_self] at hd
          cases hd
          exact .inr (List.mem_append_right _ (by simp [e]))
        · rw [Function.update_of_ne e] at hd
          exact .inl hd
    | faults _ _ | fault _ | poisoned | timeout | abort => cases h
  | returned applied =>
    cases c with
    | go =>
      simp only [answerStep] at h
      split at h <;> cases h
      exact .quiet rfl rfl rfl rfl
    | faults _ _ | fault _ | poisoned | timeout | abort => cases h

/-! ## Traces -/

def Database.empty : Database := ⟨fun _ => none, fun _ => none⟩

/-- The first presented key, and one that an impostor presents. -/
def sampleKey : PublicKey := ⟨"ssh-ed25519", "SHA256:one", "b25l"⟩
def otherKey : PublicKey := ⟨"ssh-ed25519", "SHA256:two", "dHdv"⟩

/-- A bastion, pinned by its endpoint; the prompt is the workstation's. -/
def bastion (owner : HostId) (key : PublicKey) : VerifyRequest :=
  ⟨none, some owner, 1, "jump.example", 22, key⟩

/-- The verification `i` finds no record and waits for a decision. -/
def promptTrace (i : Nat) : List Action :=
  .verify i (.faults none none) :: List.replicate 3 (.verify i .go)

/-- The answer `j` of the owner trusts the request `id` for good. -/
def trustTrace (j : Nat) (owner : HostId) (id : Nat) : List Action :=
  .answerForOwner owner id .trustAndSave :: List.replicate 4 (.reply j .go)

end KW.HostKey
