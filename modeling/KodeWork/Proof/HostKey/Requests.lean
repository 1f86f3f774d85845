import KodeWork.Framework.OneShot
import KodeWork.Proof.HostKey.Steps

/-!
# The host-key broker as a desk

The requests of the host-key broker are requests that are answered once: every
step of a call on the broker is an access to its desk (`verifyStep_desk`,
`answerStep_desk`), and a call made for a workstation goes on only with requests
of that workstation (`Serves`). So the broker keeps the contract of a desk, as
long as nobody drains its requests (`hostKeyBroker_refines`).
-/

namespace KW.HostKey

open HostKeyBroker OneShot

/-! ## The desk -/

/-- How far the verification is with its request. -/
def VerifyPc.phase : VerifyPc → Phase
  | .lookup | .promote _ | .nextId => .outside
  | .insert _ => .insert
  | .push _ => .push
  | .wait _ => .wait
  | .save _ | .forgetRequest .. => .forgetRequest
  | .forgetPending .. => .forgetPending
  | .returned _ | .dropped => .ended

/-- The request the next step is about. -/
def VerifyPc.subject : VerifyPc → Option Nat
  | .insert id | .push id | .wait id | .save id | .forgetRequest id _ | .forgetPending id _ => some id
  | .lookup | .promote _ | .nextId | .returned _ | .dropped => none

def AnswerPc.subject : AnswerPc → Option Nat
  | .remove id _ | .send id _ | .retain id => some id
  | .cancel _ | .owner .. | .returned _ => none

/-- The request whose sender the call has in hand. -/
def AnswerPc.held : AnswerPc → Option Nat
  | .send id _ => some id
  | _ => none

def Verification.asker (v : Verification) : Asker (Option HostId) HostKeyDecision :=
  ⟨v.request.ownerHostId, v.prompt, v.pc.phase, v.decision⟩

def HostKeyBroker.desk (s : HostKeyBroker) : Desk (Option HostId) HostKeyDecision where
  requests := s.requests
  pending := s.pending.map fun request => (request.requestId, request.ownerHostId)
  nextId := s.nextId
  values := fun id => (s.channels id).value
  askers := s.verifications.map Verification.asker
  held := s.answers.map fun a => a.pc.held
  delivered := s.delivered

/-- The step is about the request of the verification. -/
def Verification.Named (v : Verification) : Prop := ∀ id, v.pc.subject = some id → v.prompt = some id

/-- The requests are not drained, and no lock is poisoned: that takes a panic
under it. -/
def Undrained (_ : HostKeyBroker) : Action → Prop
  | .drainRequests | .verify _ .poisoned | .reply _ .poisoned => False
  | _ => True

/-- The call stands at a request of the owner, or is about to look for one. -/
def AnswerPc.For (d : Desk (Option HostId) HostKeyDecision) (owner : Option HostId) : AnswerPc → Prop
  | .cancel host | .owner host _ _ => some host = owner
  | .remove id _ | .send id _ | .retain id => OwnedBy d owner id
  | .returned _ => True

/-- The call `n` goes on with requests of the owner only. -/
def Serves (owner : Option HostId) (n : Nat) (s : HostKeyBroker) : Prop :=
  ∃ a, s.answers[n]? = some a ∧ (∀ x ∈ a.left, some x.1 = owner) ∧ a.pc.For s.desk owner

theorem desk_goVerify (s : HostKeyBroker) (i : Nat) (v : Verification) (pc : VerifyPc) :
    (s.goVerify i v pc).desk = s.desk.go i { v with pc := pc }.asker := by
  simp only [desk, goVerify, Desk.go, List.map_set]

theorem desk_goAnswer (s : HostKeyBroker) (i : Nat) (a : AnswerCall) (pc : AnswerPc) :
    (s.goAnswer i a pc).desk = { s.desk with held := s.desk.held.set i pc.held } := by
  simp only [desk, goAnswer, List.map_set]

theorem desk_dropReceiver (s : HostKeyBroker) (id : Nat) : (s.dropReceiver id).desk = s.desk := by
  simp only [desk, value_dropReceiver]
  rfl

theorem desk_dropSender (s : HostKeyBroker) (id : Nat) : (s.dropSender id).desk = s.desk.dropRequest id := by
  have hreq : (s.dropSender id).requests = s.requests.filter (· ≠ id) := by
    unfold dropSender
    split
    · rfl
    · rename_i hn
      refine (List.filter_eq_self.mpr fun x hx => ?_).symm
      exact decide_eq_true fun (e : x = id) => hn (e ▸ hx)
  have hrest : (s.dropSender id).pending = s.pending ∧ (s.dropSender id).nextId = s.nextId ∧
      (s.dropSender id).answers = s.answers := by
    unfold dropSender
    split <;> exact ⟨rfl, rfl, rfl⟩
  simp only [desk, value_dropSender, hreq, hrest, dropSender_verifications, dropSender_delivered,
    Desk.dropRequest]

theorem desk_dropPending (s : HostKeyBroker) (id : Nat) :
    (s.dropPending id).desk = s.desk.dropPending id := by
  simp only [desk, dropPending, Desk.dropPending, List.filter_map]
  rfl

theorem overtake_asker (v : Verification) (r : VerifyRequest) : (v.overtake r).asker = v.asker := by
  unfold Verification.overtake
  split <;> rfl

theorem desk_write (s : HostKeyBroker) (r : VerifyRequest) : (s.write r).desk = s.desk := by
  simp only [desk, write, List.map_map]
  congr 1
  exact List.map_congr_left fun v _ => overtake_asker v r

/-! ## Steps -/

section

variable {s t : HostKeyBroker} {i : Nat} {c : Choice}

/-- The asker of a verification. -/
theorem asker_of_getElem? {v : Verification} (hv : s.verifications[i]? = some v) :
    s.desk.askers[i]? = some v.asker := by
  rw [show s.desk.askers = s.verifications.map Verification.asker from rfl, List.getElem?_map, hv]
  rfl

/-- A step that leaves the asker where it is. -/
theorem desk_still {v v' : Verification} {pc : VerifyPc} (hv : s.verifications[i]? = some v)
    (h : { v' with pc := pc }.asker = v.asker) : (s.goVerify i v' pc).desk = s.desk := by
  rw [desk_goVerify, h, Desk.go, set_self_of_getElem? (asker_of_getElem? hv)]

theorem verifyStep_desk {v : Verification} (hv : s.verifications[i]? = some v) (hn : v.Named)
    (hc : c ≠ .poisoned) (h : s.verifyStep i v v.pc c = some t) :
    OneShot.Step s.desk v.pc.subject t.desk := by
  have hq := asker_of_getElem? hv
  have hname : ∀ id, v.pc.subject = some id → v.asker.id = some id := hn
  cases hpc : v.pc with
  | lookup =>
    rw [hpc] at h
    have hp : v.asker.phase = .outside := by rw [Verification.asker, hpc]; rfl
    -- on to a promotion or a prompt, or to the end
    have go : ∀ v' : Verification, v'.request = v.request → v'.prompt = v.prompt →
        v'.decision = v.decision → v'.pc.phase = .outside ∨ v'.pc.phase = .ended →
        OneShot.Step s.desk none (s.goVerify i v' v'.pc).desk := by
      intro v' hr hpr hd hphase
      rcases hphase with hphase | hphase
      · rw [desk_still hv]
        · exact .idle none
        · simp only [Verification.asker, hr, hpr, hd, hphase, hpc]
          rfl
      · rw [desk_goVerify]
        have hfin := Step.finish hq hp
        simp only [Verification.asker, hr, hpr, hd, hphase] at hfin ⊢
        exact hfin
    cases c <;> simp only [verifyStep, reduceCtorEq, Option.some.injEq] at h <;> subst h
    · refine go { v with looked := _, pc := afterLookup v.request _ } rfl rfl rfl ?_
      unfold afterLookup
      split
      · exact .inr rfl
      · split
        · exact .inr rfl
        · exact .inl rfl
        · exact .inr rfl
        · exact .inl rfl
    · exact go { v with pc := .dropped } rfl rfl rfl (.inr rfl)
  | promote host =>
    rw [hpc] at h
    have hp : v.asker.phase = .outside := by rw [Verification.asker, hpc]; rfl
    cases c <;> simp only [verifyStep, reduceCtorEq, Option.some.injEq] at h <;> subst h
    · rw [desk_goVerify, desk_write]
      exact .finish hq hp
    · rw [desk_goVerify]
      exact .finish hq hp
  | nextId =>
    rw [hpc] at h
    have hp : v.asker.phase = .outside := by rw [Verification.asker, hpc]; rfl
    cases c <;> simp only [verifyStep, reduceCtorEq, Option.some.injEq] at h
    subst h
    rw [desk_goVerify]
    exact .draw hq hp
  | insert id =>
    rw [hpc] at h
    have hid := hname id (by rw [hpc]; rfl)
    have hp : v.asker.phase = .insert := by rw [Verification.asker, hpc]; rfl
    cases c <;> simp only [verifyStep, reduceCtorEq, Option.some.injEq] at h <;> subst h
    · rw [desk_goVerify]
      exact .insert hq hid hp
    · exact absurd rfl hc
  | push id =>
    rw [hpc] at h
    have hid := hname id (by rw [hpc]; rfl)
    have hp : v.asker.phase = .push := by rw [Verification.asker, hpc]; rfl
    cases c <;> simp only [verifyStep, reduceCtorEq, Option.some.injEq] at h <;> subst h
    · rw [desk_goVerify]
      have hpush := Step.push hq hid hp
      simp only [desk, List.map_append]
      exact hpush
    · exact absurd rfl hc
  | wait id =>
    rw [hpc] at h
    have hid := hname id (by rw [hpc]; rfl)
    have hp : v.asker.phase = .wait := by rw [Verification.asker, hpc]; rfl
    -- without a decision
    have leave : ∀ result, OneShot.Step s.desk (some id)
        ((s.dropReceiver id).goVerify i v (.forgetRequest id result)).desk := by
      intro result
      rw [desk_goVerify, desk_dropReceiver]
      exact .leave hq hid hp
    cases c <;> simp only [verifyStep, reduceCtorEq, Option.some.injEq] at h
    · split at h
      · rename_i d hd
        cases h
        rw [desk_goVerify, desk_dropReceiver]
        have hrec := Step.receive hq hid hp hd
        cases d <;> exact hrec
      · split at h <;> cases h
        exact leave _
    · subst h
      exact leave _
    · subst h
      exact leave _
  | save id =>
    rw [hpc] at h
    cases c <;> simp only [verifyStep, reduceCtorEq, Option.some.injEq] at h <;> subst h
    · rw [desk_goVerify, desk_write, ← desk_goVerify, desk_still hv]
      · exact .idle _
      · simp only [Verification.asker, hpc]
        rfl
    · rw [desk_still hv]
      · exact .idle _
      · simp only [Verification.asker, hpc]
        rfl
  | forgetRequest id result =>
    rw [hpc] at h
    have hid := hname id (by rw [hpc]; rfl)
    have hp : v.asker.phase = .forgetRequest := by rw [Verification.asker, hpc]; rfl
    cases c <;> simp only [verifyStep, reduceCtorEq, Option.some.injEq] at h <;> subst h
    · rw [desk_goVerify, desk_dropSender]
      exact .forgetRequest hq hid hp
    · exact absurd rfl hc
  | forgetPending id result =>
    rw [hpc] at h
    have hid := hname id (by rw [hpc]; rfl)
    have hp : v.asker.phase = .forgetPending := by rw [Verification.asker, hpc]; rfl
    cases c <;> simp only [verifyStep, reduceCtorEq, Option.some.injEq] at h <;> subst h
    · rw [desk_goVerify, desk_dropReceiver, desk_dropPending]
      have hend := Step.forgetPending hq hid hp
      cases result <;> exact hend
    · exact absurd rfl hc
  | returned result | dropped =>
    rw [hpc] at h
    cases c <;> simp only [verifyStep, reduceCtorEq] at h

/-- The verification keeps the name of its request. -/
theorem named_moves {v v' : Verification} (hn : v.Named) (hm : Moves s v v') : v'.Named := by
  have keep : ∀ (id : Nat) {pc : VerifyPc}, v.pc.subject = some id →
      pc.subject = some id ∨ pc.subject = none → ∀ j, pc.subject = some j → v.prompt = some j := by
    intro id pc hid hpc j hj
    rcases hpc with e | e <;> rw [e] at hj <;> cases hj
    exact hn id hid
  cases hm with
  | lookup identity endpoint hpc =>
    intro j hj
    simp only [afterLookup] at hj
    split at hj
    · cases hj
    · split at hj <;> cases hj
  | promote _ hpc | drop hpc => rintro j ⟨⟩
  | prompt hpc =>
    rintro j ⟨⟩
    rfl
  | register hpc | publish hpc | forget hpc => exact keep _ (by rw [hpc]; rfl) (.inl rfl)
  | save ended hpc => exact keep _ (by rw [hpc]; rfl) (.inl rfl)
  | @finish id result hpc => exact keep id (by rw [hpc]; rfl) (.inr (by cases result <;> rfl))
  | @decide id d hpc hv => exact keep id (by rw [hpc]; rfl) (by cases d <;> exact .inl rfl)
  | @fail id pc hpc hp =>
    have hid : v.pc.subject = some id := by rcases hpc with e | e | e <;> rw [e] <;> rfl
    refine keep id hid ?_
    rcases hp with ⟨e, rfl | rfl⟩ | rfl
    · exact .inr rfl
    · exact .inl rfl
    · exact .inl rfl

theorem answerStep_desk {a : AnswerCall} (ha : s.answers[i]? = some a) (hc : c ≠ .poisoned)
    (h : s.answerStep i a a.pc c = some t) : OneShot.Step s.desk a.pc.subject t.desk := by
  have hheld : s.desk.held[i]? = some a.pc.held := by
    rw [show s.desk.held = s.answers.map fun a => a.pc.held from rfl, List.getElem?_map, ha]
    rfl
  -- without a sender in hand, before and after
  have still : ∀ {a' : AnswerCall} {pc : AnswerPc} {x : Option Nat}, a.pc.held = none → pc.held = none →
      OneShot.Step s.desk x (s.goAnswer i a' pc).desk := by
    intro a' pc x h₀ h₁
    rw [desk_goAnswer, h₁, ← h₀, set_self_of_getElem? hheld]
    exact .idle x
  cases hpc : a.pc with
  | cancel host =>
    rw [hpc] at h still
    cases c <;> simp only [answerStep, reduceCtorEq, Option.some.injEq] at h <;> subst h <;>
      exact still rfl rfl
  | owner host id d =>
    rw [hpc] at h still
    cases c <;> simp only [answerStep, reduceCtorEq, Option.some.injEq] at h
    · split at h <;> cases h <;> exact still rfl rfl
    · exact absurd rfl hc
  | remove id d =>
    rw [hpc] at h hheld still
    cases c <;> simp only [answerStep, reduceCtorEq, Option.some.injEq] at h
    · split at h <;> cases h
      · rw [desk_goAnswer]
        exact .take hheld ‹_›
      · exact still rfl rfl
    · exact absurd rfl hc
  | send id d =>
    rw [hpc] at h hheld
    cases c <;> simp only [answerStep, reduceCtorEq] at h
    split at h <;> cases h
    · rw [desk_goAnswer]
      exact .lose hheld
    · rw [desk_goAnswer]
      have hsend := Step.send d hheld
      have hvalues : (fun j => (Function.update s.channels id { s.channels id with value := some d } j).value) =
          Function.update (fun j => (s.channels j).value) id (some d) := by
        funext j
        by_cases e : j = id
        · rw [e, Function.update_self, Function.update_self]
        · rw [Function.update_of_ne e, Function.update_of_ne e]
      simp only [desk, hvalues]
      exact hsend
  | retain id =>
    rw [hpc] at h hheld
    cases c <;> simp only [answerStep, reduceCtorEq, Option.some.injEq] at h <;> subst h
    · rw [desk_goAnswer, desk_dropPending]
      rw [show (s.desk.dropPending id).held = s.desk.held from rfl]
      rw [show (AnswerPc.returned true).held = (AnswerPc.retain id).held from rfl, set_self_of_getElem? hheld]
      exact .retain id
    · exact absurd rfl hc
  | returned applied =>
    rw [hpc] at h still
    cases c <;> simp only [answerStep, reduceCtorEq] at h
    split at h <;> cases h
    exact still rfl rfl

/-! ## The broker -/

/-- Every step is an access to the desk. -/
theorem step_desk {a : Action} (hi : ∀ v ∈ s.verifications, v.Named) (hok : Undrained s a)
    (h : step s a = some t) : (∀ v ∈ t.verifications, v.Named) ∧ ∃ x, OneShot.Step s.desk x t.desk := by
  cases a with
  | verifyForConnection r =>
    cases h
    refine ⟨fun v hv => ?_, none, ?_⟩
    · rcases List.mem_append.mp hv with hv | hv
      · exact hi v hv
      · rw [List.mem_singleton.mp hv]
        rintro id ⟨⟩
    · have hask := OneShot.Step.ask (d := s.desk) r.ownerHostId
      simp only [desk, List.map_append]
      exact hask
  | answer id d | answerForOwner host id d | cancelForOwner host =>
    cases h
    refine ⟨hi, none, ?_⟩
    have hcall := OneShot.Step.call (d := s.desk)
    simp only [desk, List.map_append]
    exact hcall
  | drainRequests => cases hok
  | verify i c =>
    have hc : c ≠ .poisoned := by
      rintro rfl
      exact hok
    simp only [step] at h
    split at h
    · rename_i v hv
      refine ⟨fun w hw => ?_, _, verifyStep_desk hv (hi v (List.mem_of_getElem? hv)) hc h⟩
      obtain ⟨v', hs⟩ := verifyStep_spec h
      have hv' := named_moves (hi v (List.mem_of_getElem? hv)) hs.moves
      rcases hs.store with ⟨-, hvs, -⟩ | ⟨-, -, -, hvs⟩ <;> rw [hvs] at hw <;>
        rcases List.mem_or_eq_of_mem_set hw with hw | rfl
      · exact hi w hw
      · exact hv'
      · obtain ⟨w', hw', rfl⟩ := List.mem_map.mp hw
        unfold Verification.overtake
        split
        · exact hi w' hw'
        · exact hi w' hw'
      · exact hv'
    · cases h
  | reply n c =>
    have hc : c ≠ .poisoned := by
      rintro rfl
      exact hok
    simp only [step] at h
    split at h
    · rename_i a ha
      refine ⟨?_, _, answerStep_desk ha hc h⟩
      rw [(answerStep_spec h).verifications]
      exact hi
    · cases h

theorem AnswerPc.For.step {d e : Desk (Option HostId) HostKeyDecision} {x : Option Nat}
    {owner : Option HostId} {pc : AnswerPc} (h : pc.For d owner) (hx : OneShot.Step d x e) :
    pc.For e owner := by
  cases pc with
  | cancel host | owner host id d | returned b => exact h
  | remove id d | send id d | retain id => exact OwnedBy.step h hx

/-- The steps of a call for an owner. -/
theorem serves_reply {owner : Option HostId} {n : Nat} (hinv : Inv s.desk) (hs : Serves owner n s)
    (hc : c ≠ .poisoned) (h : step s (.reply n c) = some t) : Serves owner n t := by
  obtain ⟨a, ha, hleft, hpc⟩ := hs
  simp only [step, ha] at h
  have hx := answerStep_desk ha hc h
  have hlt := (List.getElem?_eq_some_iff.mp ha).1
  -- it goes on with the requests it has, or with one it has looked up
  have go : ∀ {u : HostKeyBroker} {a' : AnswerCall} {pc : AnswerPc}, t = u.goAnswer n a' pc →
      u.answers = s.answers → (∀ x ∈ a'.left, some x.1 = owner) →
      pc.For s.desk owner → Serves owner n t := by
    rintro u a' pc rfl hu hl hp
    refine ⟨{ a' with pc := pc }, ?_, hl, hp.step hx⟩
    rw [goAnswer, hu, List.getElem?_set_self hlt]
  cases e : a.pc with
  | cancel host =>
    rw [e] at h hpc
    cases c <;> simp only [answerStep, reduceCtorEq, Option.some.injEq] at h <;> subst h
    · refine go rfl rfl (fun x hm => ?_) trivial
      obtain ⟨id, -, rfl⟩ := List.mem_map.mp hm
      exact hpc
    · exact absurd rfl hc
  | owner host id d =>
    rw [e] at h hpc
    cases c <;> simp only [answerStep, reduceCtorEq, Option.some.injEq] at h
    · split at h <;> cases h
      · rename_i hany
        refine go rfl rfl hleft ?_
        obtain ⟨r, hr, hid⟩ := List.any_eq_true.mp hany
        simp only [decide_eq_true_eq] at hid
        refine hinv.ownedBy (List.mem_map.mpr ⟨r, hr, ?_⟩)
        rw [hid.1, hid.2, hpc]
      · exact go rfl rfl hleft trivial
    · exact absurd rfl hc
  | remove id d =>
    rw [e] at h hpc
    cases c <;> simp only [answerStep, reduceCtorEq, Option.some.injEq] at h
    · split at h <;> cases h
      · refine go rfl rfl hleft ?_
        exact hpc
      · exact go rfl rfl hleft trivial
    · exact absurd rfl hc
  | send id d =>
    rw [e] at h hpc
    cases c <;> simp only [answerStep, reduceCtorEq] at h
    split at h <;> cases h
    · exact go rfl rfl hleft trivial
    · refine go rfl rfl hleft ?_
      exact hpc
  | retain id =>
    rw [e] at h
    cases c <;> simp only [answerStep, reduceCtorEq, Option.some.injEq] at h <;> subst h
    · refine go rfl rfl hleft ?_
      exact trivial
    · exact absurd rfl hc
  | returned applied =>
    rw [e] at h
    cases c <;> simp only [answerStep, reduceCtorEq] at h
    split at h <;> cases h
    rename_i host id left hl
    rw [hl] at hleft
    exact go rfl rfl (fun x hm => hleft x (List.mem_cons_of_mem _ hm)) (hleft _ List.mem_cons_self)

theorem verifyStep_answers {v : Verification} {pc : VerifyPc} (h : s.verifyStep i v pc c = some t) :
    t.answers = s.answers := by
  have hsender : ∀ id, (s.dropSender id).answers = s.answers := by
    intro id
    unfold dropSender
    split <;> rfl
  cases pc with
  | lookup | promote host | nextId | insert id | push id | save id | forgetPending id result =>
    cases c <;> simp only [verifyStep, reduceCtorEq, Option.some.injEq] at h <;> subst h <;> rfl
  | wait id =>
    cases c <;> simp only [verifyStep, reduceCtorEq, Option.some.injEq] at h
    · split at h
      · cases h
        rfl
      · split at h <;> cases h
        rfl
    · subst h
      rfl
    · subst h
      rfl
  | forgetRequest id result =>
    cases c <;> simp only [verifyStep, reduceCtorEq, Option.some.injEq] at h <;> subst h
    · exact hsender id
    · rfl
  | returned result | dropped => cases c <;> cases h

theorem answerStep_answers {a : AnswerCall} {pc : AnswerPc} (h : s.answerStep i a pc c = some t) :
    ∃ x, t.answers = s.answers.set i x := by
  cases pc with
  | cancel host | retain id =>
    cases c <;> simp only [answerStep, reduceCtorEq, Option.some.injEq] at h <;> subst h <;>
      exact ⟨_, rfl⟩
  | owner host id d | remove id d =>
    cases c <;> simp only [answerStep, reduceCtorEq, Option.some.injEq] at h
    · split at h <;> cases h <;> exact ⟨_, rfl⟩
    · subst h
      exact ⟨_, rfl⟩
  | send id d | returned applied =>
    cases c <;> simp only [answerStep, reduceCtorEq] at h
    split at h <;> cases h <;> exact ⟨_, rfl⟩

end

/-- The calls of others keep a call where it is. -/
theorem answers_of_ne {s t : HostKeyBroker} {a : Action} {n : Nat} {x : AnswerCall} (h : step s a = some t)
    (hx : s.answers[n]? = some x) (hn : ∀ c, a ≠ .reply n c) : t.answers[n]? = some x := by
  have hlt := (List.getElem?_eq_some_iff.mp hx).1
  cases a with
  | verifyForConnection r | drainRequests =>
    cases h
    exact hx
  | answer id d | answerForOwner host id d | cancelForOwner host =>
    cases h
    exact (List.getElem?_append_left hlt).trans hx
  | verify i c =>
    simp only [step] at h
    split at h
    · rw [verifyStep_answers h, hx]
    · cases h
  | reply m c =>
    have hm : m ≠ n := by
      rintro rfl
      exact hn c rfl
    simp only [step] at h
    split at h
    · obtain ⟨y, hy⟩ := answerStep_answers h
      rw [hy, List.getElem?_set_ne hm, hx]
    · cases h

/-! ## The contract -/

/-- The host-key broker, as long as its requests are not drained. -/
def hostKeyBroker : Broker HostKeyBroker Action (Option HostId) HostKeyDecision where
  machine := machine
  ok := Undrained
  init := Initial
  desk := desk
  starts := fun owner a => match a with
    | .answerForOwner host _ _ | .cancelForOwner host => some host = owner
    | _ => False
  call := fun n a => ∃ c, a = .reply n c
  asker := fun i a => ∃ c, a = .verify i c
  polls := fun i a => a = .verify i .go

theorem serves_step {s t : HostKeyBroker} {a : Action} {owner : Option HostId} {n : Nat}
    (hi : ∀ v ∈ s.verifications, v.Named) (hinv : Inv s.desk) (hs : Serves owner n s) (hok : Undrained s a)
    (h : step s a = some t) : Serves owner n t := by
  by_cases hn : ∃ c, a = .reply n c
  · obtain ⟨c, rfl⟩ := hn
    have hc : c ≠ .poisoned := by
      rintro rfl
      exact hok
    exact serves_reply hinv hs hc h
  · obtain ⟨x, ha, hleft, hpc⟩ := hs
    obtain ⟨-, y, hy⟩ := step_desk hi hok h
    exact ⟨x, answers_of_ne h ha fun c e => hn ⟨c, e⟩, hleft, hpc.step hy⟩

theorem desk_new (known : Database) : Inv (HostKeyBroker.new known).desk where
  drawn := by rintro _ _ _ ⟨⟩
  outside := by rintro _ _ ⟨⟩
  distinct := by rintro _ _ _ _ _ ⟨⟩
  requests := by rintro _ ⟨⟩
  pending := by rintro _ ⟨⟩
  held := by rintro _ _ ⟨⟩
  alone := by rintro _ _ _ ⟨⟩
  delivered := by rintro _ ⟨⟩
  once := List.nodup_nil
  values := fun id a => ⟨by rintro ⟨⟩, by rintro ⟨⟩⟩
  received := by rintro _ _ _ ⟨⟩

theorem hostKeyBroker_refines :
    hostKeyBroker.Refines (fun s => ∀ v ∈ s.verifications, v.Named) Serves where
  init := by
    rintro _ ⟨known, rfl⟩
    exact ⟨by rintro _ ⟨⟩, desk_new known⟩
  step := fun hi _ hok h => step_desk hi hok h
  starts := by
    intro s t a owner ha h
    have hlast : ∀ x : AnswerCall, (s.answers ++ [x])[s.desk.held.length]? = some x := by
      intro x
      rw [show s.desk.held.length = s.answers.length from List.length_map ..]
      exact List.getElem?_concat_length
    cases a with
    | answerForOwner host id d | cancelForOwner host =>
      cases h
      exact ⟨_, hlast _, by rintro _ ⟨⟩, ha⟩
    | verifyForConnection _ | answer _ _ | drainRequests | verify _ _ | reply _ _ => cases ha
  serves_step := fun hi hinv hs hok h => serves_step hi hinv hs hok h
  call := by
    rintro s t _ owner n - ⟨a, ha, -, hpc⟩ ⟨c, rfl⟩ hok h
    have hc : c ≠ .poisoned := by
      rintro rfl
      exact hok
    have h' : s.answerStep n a a.pc c = some t := by
      have hstep : step s (.reply n c) = some t := h
      simpa only [step, ha] using hstep
    refine ⟨_, answerStep_desk ha hc h', fun id hid => ?_⟩
    cases e : a.pc <;> rw [e] at hid hpc <;> cases hid <;> exact hpc
  asker := by
    rintro s t _ i hi ⟨c, rfl⟩ hok h
    have hc : c ≠ .poisoned := by
      rintro rfl
      exact hok
    have h' : step s (.verify i c) = some t := h
    simp only [step] at h'
    split at h'
    · rename_i v hv
      have hn := hi v (List.mem_of_getElem? hv)
      exact ⟨_, v.asker, verifyStep_desk hv hn hc h', asker_of_getElem? hv, hn⟩
    · cases h'
  polls := by
    rintro s t _ i q id d hi hq hid hp hd rfl h
    have h' : step s (.verify i .go) = some t := h
    simp only [step] at h'
    split at h'
    · rename_i v hv
      cases (asker_of_getElem? hv).symm.trans hq
      have hn := hi v (List.mem_of_getElem? hv)
      cases hpc : v.pc with
      | wait j =>
        obtain rfl : j = id := Option.some.inj ((hn j (by rw [hpc]; rfl)).symm.trans hid)
        have hd' : (s.channels j).value = some d := hd
        simp only [hpc, verifyStep, hd', Option.some.injEq] at h'
        subst h'
        rw [show hostKeyBroker.desk = desk from rfl, desk_goVerify, desk_dropReceiver]
        refine ⟨_, List.getElem?_set_self ?_, rfl⟩
        exact (List.getElem?_eq_some_iff.mp hq).1
      | _ => rw [Verification.asker, hpc] at hp; cases hp
    · cases h'

end KW.HostKey