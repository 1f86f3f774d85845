import KodeWork.Proof.HostKey.Steps

/-!
# Identities of a host that are added silently

`verifyKnown` is a verification up to its prompt; `verifyKnown_run` says that
the broker runs it. A host that has identities is meant to be recognised by
them, at whatever address it is reached. The lookup however falls back to the
record of the endpoint whenever the host has no identity for the algorithm of
the presented key, and a matching record is accepted and promoted: an endpoint
that was trusted by itself becomes an identity of the host without a decision of
the user (`foreign_identity_added`).

`identity_kept_iff` gives the exact condition: this happens when the host has no
identity for the algorithm and the endpoint has a record for the presented key,
and in no other case.
-/

namespace KW.HostKey

open HostKeyBroker

/-- The record is for the presented key. -/
def HostKeyIdentityRecord.Agrees (record : HostKeyIdentityRecord) (key : PublicKey) : Prop :=
  record.fingerprint = key.fingerprint ∧
    (record.keyBlobBase64 = key.keyBlobBase64 ∨ record.keyBlobBase64 = "")

/-- One of the identities of the host is for the presented key. -/
def Database.Identifies (db : Database) (host : HostId) (key : PublicKey) : Prop :=
  ∃ record, db.getForHost host key.algorithm = some record ∧ record.Agrees key

/-- The endpoint has a record for the presented key. -/
def Database.Endorses (db : Database) (hostname : String) (port : Nat) (key : PublicKey) : Prop :=
  ∃ legacy, db.hostKeys (hostname, port) = some legacy ∧ legacy.algorithm = key.algorithm ∧
    legacy.fingerprint = key.fingerprint ∧
    (legacy.keyBlobBase64 = key.keyBlobBase64 ∨ legacy.keyBlobBase64 = "")

/-- However the queries go, a verification for the host succeeds without a
prompt only on a key of one of its identities, and leaves its identities as they
are. -/
def IdentityKept (db : Database) (host : HostId) (r : VerifyRequest) : Prop :=
  ∀ identity endpoint write,
    ((r.verifyKnown db identity endpoint write).1 = some (.ok true) → db.Identifies host r.key) ∧
    ∀ algorithm, (r.verifyKnown db identity endpoint write).2.getForHost host algorithm =
      db.getForHost host algorithm

/-- The request of a verification for the host. -/
def hostRequest (host : HostId) (owner : Option HostId) (generation : Nat) (hostname : String)
    (port : Nat) (key : PublicKey) : VerifyRequest :=
  ⟨some host, owner, generation, hostname, port, key⟩

/-- A verification up to its prompt succeeds on a record for the presented key,
and changes the store only for a record of the endpoint. -/
theorem verifyKnown_cases (r : VerifyRequest) (db : Database) (identity endpoint write : Fault) :
    ((r.verifyKnown db identity endpoint write).1 ≠ some (.ok true) ∧
      (r.verifyKnown db identity endpoint write).2 = db) ∨
    ∃ m, r.lookup db identity endpoint = .ok (some m) ∧ m.Agrees r.key ∧
      ((r.verifyKnown db identity endpoint write).2 = db ∨ ∃ info, m = .legacyEndpoint info) := by
  unfold VerifyRequest.verifyKnown
  cases hl : r.lookup db identity endpoint with
  | error message => exact .inl ⟨nofun, rfl⟩
  | ok saved =>
    have hv := verdict_spec r saved
    cases hverdict : r.verdict saved with
    | accept =>
      rw [hverdict] at hv
      obtain ⟨m, rfl, ha, -⟩ := hv
      exact .inr ⟨m, rfl, ha, .inl (by simp only [hverdict])⟩
    | promote host =>
      rw [hverdict] at hv
      obtain ⟨-, info, rfl, hf, hb⟩ := hv
      exact .inr ⟨_, rfl, ⟨hf, .inl hb⟩, .inr ⟨info, rfl⟩⟩
    | changed | prompt =>
      refine .inl ?_
      simp only [hverdict]
      exact ⟨nofun, trivial⟩

/-- A record for the presented key is accepted, unless a query fails. -/
theorem verifyKnown_accepts {r : VerifyRequest} {db : Database} {m : KnownHostMatch}
    (hl : r.lookup db none none = .ok (some m)) (ha : m.Agrees r.key) :
    (r.verifyKnown db none none none).1 = some (.ok true) := by
  have hv := verdict_spec r (some m)
  unfold VerifyRequest.verifyKnown
  rw [hl]
  cases hverdict : r.verdict (some m) with
  | accept | promote host => simp only [hverdict]
  | changed =>
    rw [hverdict] at hv
    obtain ⟨_, ⟨⟩, hn⟩ := hv
    exact absurd ha hn
  | prompt =>
    rw [hverdict] at hv
    cases hv

section

variable {db : Database} {host : HostId} {owner : Option HostId} {generation : Nat} {hostname : String}
  {port : Nat} {key : PublicKey}

/-- A host that has an identity for the algorithm is looked up by it. -/
theorem lookup_identity {record : HostKeyIdentityRecord} {m : KnownHostMatch} {identity endpoint : Fault}
    (h : db.getForHost host key.algorithm = some record)
    (hl : (hostRequest host owner generation hostname port key).lookup db identity endpoint =
      .ok (some m)) :
    m = .hostScoped ⟨hostname, port, key.algorithm, record.fingerprint, record.keyBlobBase64⟩ := by
  change db.lookupForHostMatchAlgorithm host hostname port key.algorithm identity endpoint = _ at hl
  cases identity with
  | some message => cases hl
  | none =>
    simp only [Database.lookupForHostMatchAlgorithm, h] at hl
    cases hl
    rfl

/-- A host that has none is looked up by its endpoint. -/
theorem lookup_endpoint {m : KnownHostMatch} {identity endpoint : Fault}
    (h : db.getForHost host key.algorithm = none)
    (hl : (hostRequest host owner generation hostname port key).lookup db identity endpoint =
      .ok (some m)) :
    ∃ legacy, db.hostKeys (hostname, port) = some legacy ∧ legacy.algorithm = key.algorithm ∧
      m.info.fingerprint = legacy.fingerprint ∧ m.info.keyBlobBase64 = legacy.keyBlobBase64 := by
  change db.lookupForHostMatchAlgorithm host hostname port key.algorithm identity endpoint = _ at hl
  cases identity with
  | some message => cases hl
  | none =>
    cases endpoint with
    | some message => simp only [Database.lookupForHostMatchAlgorithm, h, reduceCtorEq] at hl
    | none =>
      simp only [Database.lookupForHostMatchAlgorithm, h, Database.get] at hl
      cases hk : db.hostKeys (hostname, port) with
      | none => simp [hk] at hl
      | some legacy =>
        simp only [hk, Option.map_some] at hl
        split at hl <;> cases hl
        rename_i halg
        exact ⟨legacy, rfl, by simpa using halg, rfl, rfl⟩

/-- The endpoint's record for the algorithm is found. -/
theorem lookup_legacy (owner : Option HostId) (generation : Nat) {legacy : PublicKey}
    (h : db.getForHost host key.algorithm = none) (hk : db.hostKeys (hostname, port) = some legacy)
    (ha : legacy.algorithm = key.algorithm) :
    (hostRequest host owner generation hostname port key).lookup db none none =
      .ok (some (.legacyEndpoint
        ⟨hostname, port, legacy.algorithm, legacy.fingerprint, legacy.keyBlobBase64⟩)) := by
  show db.lookupForHostMatchAlgorithm host hostname port key.algorithm none none = _
  simp only [Database.lookupForHostMatchAlgorithm, h, Database.get, hk, Option.map_some, ha, ne_eq,
    not_true, ite_false]

end

/-- A verification for a host succeeds without a prompt only on a key of one of
its identities, and adds none, if and only if the host has an identity for the
algorithm of the presented key or the endpoint has no record for that key. -/
theorem identity_kept_iff (db : Database) (host : HostId) (owner : Option HostId) (generation : Nat)
    (hostname : String) (port : Nat) (key : PublicKey) :
    IdentityKept db host (hostRequest host owner generation hostname port key) ↔
      db.getForHost host key.algorithm ≠ none ∨ ¬ db.Endorses hostname port key := by
  constructor
  · intro hkept
    by_contra hno
    push Not at hno
    obtain ⟨hnone, legacy, hk, halg, hf, hb⟩ := hno
    have hok := verifyKnown_accepts (lookup_legacy owner generation hnone hk halg) ⟨hf, hb⟩
    obtain ⟨record, hr, -⟩ := (hkept none none none).1 hok
    cases hnone.symm.trans hr
  · intro hcond identity endpoint write
    rcases verifyKnown_cases (hostRequest host owner generation hostname port key) db identity endpoint
      write with ⟨hne, hdb⟩ | ⟨m, hl, ha, hdb⟩
    · exact ⟨fun e => absurd e hne, fun _ => by rw [hdb]⟩
    · cases hid : db.getForHost host key.algorithm with
      | none =>
        -- the record found is one of the endpoint
        obtain ⟨legacy, hk, halg, hf, hb⟩ := lookup_endpoint hid hl
        have hen : db.Endorses hostname port key := ⟨legacy, hk, halg, hf ▸ ha.1, hb ▸ ha.2⟩
        rcases hcond with hc | hc
        · exact absurd hid hc
        · exact absurd hen hc
      | some record =>
        obtain rfl := lookup_identity hid hl
        refine ⟨fun _ => ⟨record, hid, ha⟩, fun _ => ?_⟩
        rcases hdb with hdb | ⟨info, ⟨⟩⟩
        rw [hdb]

/-! ## The broker runs it -/

theorem getElem?_goVerify {s : HostKeyBroker} {i : Nat} (hi : i < s.verifications.length)
    (v : Verification) (pc : VerifyPc) :
    (s.goVerify i v pc).verifications[i]? = some { v with pc := pc } := List.getElem?_set_self hi

theorem path_verify {s t : HostKeyBroker} {i : Nat} {v : Verification} (c : Choice)
    (hv : s.verifications[i]? = some v) (h : s.verifyStep i v v.pc c = some t) :
    machine.Path Machine.free s t := by
  have hstep : machine.step s (.verify i c) = some t := by simp only [machine, step, hv, h]
  exact .single trivial hstep

/-- The steps of the verification numbered `i` lead to the result `p.1`, or to
the prompt, with the store `p.2`. -/
def Runs (s : HostKeyBroker) (i : Nat) (prompt : Option Nat)
    (p : Option (Except SshError Bool) × Database) : Prop :=
  ∃ t w, machine.Path Machine.free s t ∧ t.verifications[i]? = some w ∧ w.prompt = prompt ∧
    w.pc = p.1.elim .nextId .returned ∧ t.known = p.2

/-- From its lookup, a verification that is not interrupted returns what
`verifyKnown` returns, or goes on to its prompt, and leaves that store. -/
theorem verifyKnown_run {s : HostKeyBroker} {i : Nat} {v : Verification}
    (hv : s.verifications[i]? = some v) (hpc : v.pc = .lookup) (identity endpoint write : Fault) :
    Runs s i v.prompt (v.request.verifyKnown s.known identity endpoint write) := by
  obtain ⟨hi, -⟩ := List.getElem?_eq_some_iff.mp hv
  obtain ⟨v₁, hv₁⟩ : ∃ v₁, v₁ = { v with looked := some (s.known, identity, endpoint) } := ⟨_, rfl⟩
  have hreq : v₁.request = v.request := by rw [hv₁]
  have hprompt : v₁.prompt = v.prompt := by rw [hv₁]
  have hstep : machine.Path Machine.free s
      (s.goVerify i v₁ (afterLookup v.request (v.request.lookup s.known identity endpoint))) := by
    refine path_verify (.faults identity endpoint) hv ?_
    rw [hpc, hv₁]
    rfl
  -- without a promotion, the verification is through after this step
  have quiet : ∀ {p : Option (Except SshError Bool) × Database},
      afterLookup v.request (v.request.lookup s.known identity endpoint) = p.1.elim .nextId .returned →
      s.known = p.2 → Runs s i v.prompt p := fun e hk =>
    ⟨_, _, hstep, getElem?_goVerify hi v₁ _, hprompt, e, hk⟩
  unfold VerifyRequest.verifyKnown
  cases hl : v.request.lookup s.known identity endpoint with
  | error message =>
    rw [hl] at quiet
    exact quiet rfl rfl
  | ok saved =>
    rw [hl] at quiet hstep
    simp only [afterLookup] at quiet hstep
    cases hverdict : v.request.verdict saved with
    | accept | changed | prompt =>
      simp only [hverdict] at quiet ⊢
      exact quiet rfl rfl
    | promote host =>
      simp only [hverdict] at hstep ⊢
      have hhost : v.request.hostId = some host := by
        have hspec := verdict_spec v.request saved
        rw [hverdict] at hspec
        exact hspec.1
      have hw := getElem?_goVerify hi v₁ (.promote host)
      cases write with
      | none =>
        have hlen : i < ((s.goVerify i v₁ (.promote host)).write v₁.request).verifications.length := by
          simpa [HostKeyBroker.write, goVerify] using hi
        refine ⟨_, _, hstep.trans (path_verify .go hw rfl), getElem?_goVerify hlen _ _, hprompt, rfl, ?_⟩
        show v₁.request.store s.known = s.known.saveForHost host v.request.info
        rw [hreq, VerifyRequest.store, hhost]
      | some message =>
        have hlen : i < (s.goVerify i v₁ (.promote host)).verifications.length := by
          simpa [goVerify] using hi
        exact ⟨_, _, hstep.trans (path_verify (.fault message) hw rfl), getElem?_goVerify hlen _ _, hprompt,
          rfl, rfl⟩

/-! ## A foreign identity -/

def workstation : HostId := ⟨0⟩

/-- Of another machine, and trusted at its own address only. -/
def foreignKey : PublicKey := ⟨"ecdsa-sha2-nistp256", "SHA256:foreign", "Zm9yZWlnbg=="⟩

/-- The workstation has an identity; another machine's key is trusted for the
endpoint `nas.example:22`. -/
def sampleStore : Database where
  hostKeys := Function.update (fun _ => none) ("nas.example", 22) (some foreignKey)
  hostKeyIdentities := Function.update (fun _ => none) (workstation, "ssh-ed25519")
    (some ⟨sampleKey.fingerprint, sampleKey.keyBlobBase64⟩)

/-- An address of the workstation leads to the other machine: its key is
accepted without a prompt, and becomes an identity of the workstation. -/
theorem foreign_identity_added :
    sampleStore.getForHost workstation "ssh-ed25519" ≠ none ∧
    ¬ IdentityKept sampleStore workstation
      (hostRequest workstation (some workstation) 1 "nas.example" 22 foreignKey) ∧
    ((hostRequest workstation (some workstation) 1 "nas.example" 22 foreignKey).verifyKnown sampleStore
      none none none).2.getForHost workstation foreignKey.algorithm =
        some ⟨foreignKey.fingerprint, foreignKey.keyBlobBase64⟩ := by
  refine ⟨by decide, fun h => ?_, by decide⟩
  have hok : ((hostRequest workstation (some workstation) 1 "nas.example" 22 foreignKey).verifyKnown
      sampleStore none none none).1 = some (.ok true) := by decide
  have hnone : sampleStore.getForHost workstation foreignKey.algorithm = none := by decide
  obtain ⟨record, hr, -⟩ := (h none none none).1 hok
  cases hnone.symm.trans hr

end KW.HostKey
