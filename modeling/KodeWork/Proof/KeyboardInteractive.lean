import KodeWork.Impl.KeyboardInteractive
import KodeWork.Proof.HostKey.Requests

/-!
# The requests of the two brokers

The keyboard-interactive broker works on its desk as the host-key broker does
(`promptStep_desk`, `answerStep_desk`); only `cancel_for_owner` differs, which
takes the senders out of the table by itself. So both keep the contract of a
desk (`brokers_keep_requests_apart`): a call for a workstation leaves the
requests of the others alone, a request is answered once, and the tables forget
a request when its prompt has ended.

An answer that is delivered reaches no other prompt, but it need not reach its
own: the prompt may time out after the answer is sent and before it is received
(`delivered_answer_lost`).
-/

namespace KW.Keyboard

open KeyboardInteractiveBroker OneShot

/-! ## The desk -/

/-- How far the prompt is with its request. -/
def PromptPc.phase : PromptPc → Phase
  | .nextId => .outside
  | .insert _ => .insert
  | .push _ => .push
  | .wait _ => .wait
  | .forgetRequest .. => .forgetRequest
  | .forgetPending .. => .forgetPending
  | .returned _ | .dropped => .ended

/-- The request the next step is about. -/
def PromptPc.subject : PromptPc → Option Nat
  | .insert id | .push id | .wait id | .forgetRequest id _ | .forgetPending id _ => some id
  | .nextId | .returned _ | .dropped => none

def AnswerPc.subject : AnswerPc → Option Nat
  | .remove id _ | .send id _ | .retain id | .cancelRequest id _ | .cancelPending id _ => some id
  | .owner .. | .cancel _ | .returned _ => none

/-- The request whose sender the call has in hand. -/
def AnswerPc.held : AnswerPc → Option Nat
  | .send id _ => some id
  | _ => none

def Prompt.asker (p : Prompt) : Asker (Option HostId) (List String) :=
  ⟨p.args.ownerHostId, p.request, p.pc.phase, p.answer⟩

def KeyboardInteractiveBroker.desk (s : KeyboardInteractiveBroker) :
    Desk (Option HostId) (List String) where
  requests := s.requests
  pending := s.pending.map fun request => (request.requestId, request.ownerHostId)
  nextId := s.nextId
  values := fun id => (s.channels id).value
  askers := s.prompts.map Prompt.asker
  held := s.answers.map AnswerPc.held
  delivered := s.delivered

/-- The step is about the request of the prompt. -/
def Prompt.Named (p : Prompt) : Prop := ∀ id, p.pc.subject = some id → p.request = some id

/-- The requests are not drained. -/
def Undrained (_ : KeyboardInteractiveBroker) : Action → Prop
  | .drainRequests => False
  | _ => True

instance (s : KeyboardInteractiveBroker) : ∀ a, Decidable (Undrained s a)
  | .drainRequests => .isFalse id
  | .promptForConnection _ | .answer .. | .answerForOwner .. | .cancelForOwner _ | .prompt .. | .reply _ =>
    .isTrue trivial

/-- The call stands at requests of the owner, or is about to look for them. -/
def AnswerPc.For (d : Desk (Option HostId) (List String)) (owner : Option HostId) : AnswerPc → Prop
  | .cancel host | .owner host _ _ => some host = owner
  | .remove id _ | .send id _ | .retain id => OwnedBy d owner id
  | .cancelRequest id left | .cancelPending id left => OwnedBy d owner id ∧ ∀ j ∈ left, OwnedBy d owner j
  | .returned _ => True

/-- The call `n` goes on with requests of the owner only. -/
def Serves (owner : Option HostId) (n : Nat) (s : KeyboardInteractiveBroker) : Prop :=
  ∃ pc, s.answers[n]? = some pc ∧ pc.For s.desk owner

theorem value_setChannel (s : KeyboardInteractiveBroker) (id j : Nat) {c : Channel (List String)}
    (hc : c.value = (s.channels id).value) :
    ((s.setChannel id c).channels j).value = (s.channels j).value := by
  simp only [setChannel]
  by_cases e : j = id
  · rw [e, Function.update_self, hc]
  · rw [Function.update_of_ne e]

theorem desk_goPrompt (s : KeyboardInteractiveBroker) (i : Nat) (p : Prompt) (pc : PromptPc) :
    (s.goPrompt i p pc).desk = s.desk.go i { p with pc := pc }.asker := by
  simp only [desk, goPrompt, Desk.go, List.map_set]

theorem desk_goAnswer (s : KeyboardInteractiveBroker) (i : Nat) (pc : AnswerPc) :
    (s.goAnswer i pc).desk = { s.desk with held := s.desk.held.set i pc.held } := by
  simp only [desk, goAnswer, List.map_set]

theorem desk_dropReceiver (s : KeyboardInteractiveBroker) (id : Nat) :
    (s.dropReceiver id).desk = s.desk := by
  simp only [desk, dropReceiver, value_setChannel]
  rfl

theorem desk_dropSender (s : KeyboardInteractiveBroker) (id : Nat) :
    (s.dropSender id).desk = s.desk.dropRequest id := by
  unfold dropSender
  split
  · have hvalues := value_setChannel { s with requests := s.requests.filter (· ≠ id) } id
    simp only [desk, Desk.dropRequest, hvalues]
    rfl
  · rename_i hn
    have hreq : s.requests.filter (· ≠ id) = s.requests :=
      List.filter_eq_self.mpr fun x hx => decide_eq_true fun (e : x = id) => hn (e ▸ hx)
    simp only [desk, Desk.dropRequest, hreq]

theorem desk_dropPending (s : KeyboardInteractiveBroker) (id : Nat) :
    (s.dropPending id).desk = s.desk.dropPending id := by
  simp only [desk, dropPending, Desk.dropPending, List.filter_map]
  rfl

/-! ## Steps -/

section

variable {s t : KeyboardInteractiveBroker} {i : Nat}

theorem asker_of_getElem? {p : Prompt} (hp : s.prompts[i]? = some p) :
    s.desk.askers[i]? = some p.asker := by
  rw [show s.desk.askers = s.prompts.map Prompt.asker from rfl, List.getElem?_map, hp]
  rfl

theorem promptStep_desk {p : Prompt} {c : Choice} (hp : s.prompts[i]? = some p) (hn : p.Named)
    (h : s.promptStep i p p.pc c = some t) : OneShot.Step s.desk p.pc.subject t.desk := by
  have hq := asker_of_getElem? hp
  have hname : ∀ id, p.pc.subject = some id → p.asker.id = some id := hn
  cases hpc : p.pc with
  | nextId =>
    rw [hpc] at h
    have hphase : p.asker.phase = .outside := by rw [Prompt.asker, hpc]; rfl
    cases c <;> simp only [promptStep, reduceCtorEq] at h
    split at h <;> cases h
    · rw [desk_goPrompt]
      exact .finish hq hphase
    · rw [desk_goPrompt]
      exact .draw hq hphase
  | insert id =>
    rw [hpc] at h
    have hid := hname id (by rw [hpc]; rfl)
    have hphase : p.asker.phase = .insert := by rw [Prompt.asker, hpc]; rfl
    cases c <;> simp only [promptStep, reduceCtorEq, Option.some.injEq] at h
    subst h
    rw [desk_goPrompt]
    exact .insert hq hid hphase
  | push id =>
    rw [hpc] at h
    have hid := hname id (by rw [hpc]; rfl)
    have hphase : p.asker.phase = .push := by rw [Prompt.asker, hpc]; rfl
    cases c <;> simp only [promptStep, reduceCtorEq, Option.some.injEq] at h
    subst h
    rw [desk_goPrompt]
    have hpush := OneShot.Step.push hq hid hphase
    simp only [desk, List.map_append]
    exact hpush
  | wait id =>
    rw [hpc] at h
    have hid := hname id (by rw [hpc]; rfl)
    have hphase : p.asker.phase = .wait := by rw [Prompt.asker, hpc]; rfl
    -- without an answer
    have leave : ∀ result, OneShot.Step s.desk (some id)
        ((s.dropReceiver id).goPrompt i p (.forgetRequest id result)).desk := by
      intro result
      rw [desk_goPrompt, desk_dropReceiver]
      exact .leave hq hid hphase
    cases c <;> simp only [promptStep, Option.some.injEq] at h
    · split at h
      · rename_i a ha
        cases h
        rw [desk_goPrompt, desk_dropReceiver]
        exact .receive hq hid hphase ha
      · split at h
        · cases h
          exact leave _
        · cases h
    · subst h
      exact leave _
    · subst h
      exact leave _
  | forgetRequest id result =>
    rw [hpc] at h
    have hid := hname id (by rw [hpc]; rfl)
    have hphase : p.asker.phase = .forgetRequest := by rw [Prompt.asker, hpc]; rfl
    cases c <;> simp only [promptStep, reduceCtorEq, Option.some.injEq] at h
    subst h
    rw [desk_goPrompt, desk_dropSender]
    exact .forgetRequest hq hid hphase
  | forgetPending id result =>
    rw [hpc] at h
    have hid := hname id (by rw [hpc]; rfl)
    have hphase : p.asker.phase = .forgetPending := by rw [Prompt.asker, hpc]; rfl
    cases c <;> simp only [promptStep, reduceCtorEq, Option.some.injEq] at h
    subst h
    rw [desk_goPrompt, desk_dropPending]
    have hend := OneShot.Step.forgetPending hq hid hphase
    cases result <;> exact hend
  | returned result | dropped =>
    rw [hpc] at h
    cases c <;> simp only [promptStep, reduceCtorEq] at h

/-- What a step of a prompt leaves alone. -/
theorem promptStep_frame {p : Prompt} {c : Choice} (hn : p.Named) (h : s.promptStep i p p.pc c = some t) :
    t.answers = s.answers ∧ ∃ p', p'.Named ∧ t.prompts = s.prompts.set i p' := by
  have hsender : ∀ id, (s.dropSender id).answers = s.answers ∧ (s.dropSender id).prompts = s.prompts := by
    intro id
    unfold dropSender
    split <;> exact ⟨rfl, rfl⟩
  -- the prompt goes on with the request it has
  have keep : ∀ {id : Nat} {p' : Prompt} {pc : PromptPc}, p.pc.subject = some id → p'.request = p.request →
      pc.subject = some id ∨ pc.subject = none → Prompt.Named { p' with pc := pc } := by
    intro id p' pc hid hr hpc j hj
    show p'.request = some j
    rcases hpc with e | e
    · rw [hr, hn id hid, ← hj]
      exact e.symm
    · cases e.symm.trans hj
  cases hpc : p.pc with
  | nextId =>
    rw [hpc] at h
    cases c <;> simp only [promptStep, reduceCtorEq] at h
    split at h <;> cases h
    · exact ⟨rfl, _, by rintro j ⟨⟩, rfl⟩
    · exact ⟨rfl, _, by rintro j ⟨⟩; rfl, rfl⟩
  | insert id | push id =>
    rw [hpc] at h keep
    cases c <;> simp only [promptStep, reduceCtorEq, Option.some.injEq] at h
    subst h
    exact ⟨rfl, _, keep rfl rfl (.inl rfl), rfl⟩
  | wait id =>
    rw [hpc] at h keep
    cases c <;> simp only [promptStep, Option.some.injEq] at h
    · split at h
      · cases h
        refine ⟨rfl, _, ?_, rfl⟩
        exact keep rfl rfl (.inl rfl)
      · split at h
        · cases h
          exact ⟨rfl, _, keep rfl rfl (.inl rfl), rfl⟩
        · cases h
    · subst h
      exact ⟨rfl, _, keep rfl rfl (.inl rfl), rfl⟩
    · subst h
      exact ⟨rfl, _, keep rfl rfl (.inl rfl), rfl⟩
  | forgetRequest id result =>
    rw [hpc] at h keep
    cases c <;> simp only [promptStep, reduceCtorEq, Option.some.injEq] at h
    subst h
    refine ⟨(hsender id).1, { p with pc := .forgetPending id result }, keep rfl rfl (.inl rfl), ?_⟩
    rw [goPrompt, (hsender id).2]
  | forgetPending id result =>
    rw [hpc] at h keep
    cases c <;> simp only [promptStep, reduceCtorEq, Option.some.injEq] at h
    subst h
    exact ⟨rfl, _, keep rfl rfl (.inr (by cases result <;> rfl)), rfl⟩
  | returned result | dropped =>
    rw [hpc] at h
    cases c <;> simp only [promptStep, reduceCtorEq] at h

theorem answerStep_frame {pc : AnswerPc} (h : s.answerStep i pc = some t) :
    t.prompts = s.prompts ∧ ∃ x, t.answers = s.answers.set i x := by
  have hsender : ∀ id, (s.dropSender id).prompts = s.prompts ∧ (s.dropSender id).answers = s.answers := by
    intro id
    unfold dropSender
    split <;> exact ⟨rfl, rfl⟩
  cases pc with
  | owner host id responses | remove id responses | send id responses =>
    simp only [answerStep] at h
    split at h <;> cases h <;> exact ⟨rfl, _, rfl⟩
  | retain id | cancel host | cancelPending id left =>
    cases h
    exact ⟨rfl, _, rfl⟩
  | cancelRequest id left =>
    cases h
    exact ⟨(hsender id).1, _, by rw [goAnswer, (hsender id).2]⟩
  | returned applied => cases h

theorem answerStep_desk {pc : AnswerPc} (ha : s.answers[i]? = some pc) (h : s.answerStep i pc = some t) :
    OneShot.Step s.desk pc.subject t.desk := by
  have hheld : s.desk.held[i]? = some pc.held := by
    rw [show s.desk.held = s.answers.map AnswerPc.held from rfl, List.getElem?_map, ha]
    rfl
  -- without a sender in hand, before and after
  have still : ∀ {u : KeyboardInteractiveBroker} {pc' : AnswerPc}, u.desk.held = s.desk.held →
      pc.held = none → pc'.held = none → (u.goAnswer i pc').desk = u.desk := by
    intro u pc' hu h₀ h₁
    rw [desk_goAnswer, h₁, ← h₀, hu, set_self_of_getElem? hheld, ← hu]
  cases pc with
  | owner host id responses =>
    simp only [answerStep] at h
    split at h <;> cases h <;> rw [still rfl rfl rfl] <;> exact .idle _
  | remove id responses =>
    simp only [answerStep] at h
    split at h <;> cases h
    · rw [desk_goAnswer]
      exact .take hheld ‹_›
    · rw [still rfl rfl rfl]
      exact .idle _
  | send id responses =>
    simp only [answerStep] at h
    split at h <;> cases h
    · rw [desk_goAnswer]
      exact .lose hheld
    · rw [desk_goAnswer]
      have hsend := OneShot.Step.send responses hheld
      have hvalues : (fun j =>
          ((s.setChannel id { s.channels id with value := some responses }).channels j).value) =
          Function.update (fun j => (s.channels j).value) id (some responses) := by
        funext j
        simp only [setChannel]
        by_cases e : j = id
        · rw [e, Function.update_self, Function.update_self]
        · rw [Function.update_of_ne e, Function.update_of_ne e]
      simp only [desk, hvalues]
      exact hsend
  | retain id | cancelPending id left =>
    simp only [answerStep, Option.some.injEq] at h
    subst h
    rw [still (by rw [desk_dropPending]; rfl) rfl (by first | rfl | cases left <;> rfl), desk_dropPending]
    exact .retain id
  | cancel host =>
    simp only [answerStep, Option.some.injEq] at h
    subst h
    rw [still rfl rfl (by cases s.pendingForOwner host <;> rfl)]
    exact .idle _
  | cancelRequest id left =>
    simp only [answerStep, Option.some.injEq] at h
    subst h
    rw [still (by rw [desk_dropSender]; rfl) rfl rfl, desk_dropSender]
    exact .discard id
  | returned applied => cases h

/-! ## The broker -/

/-- Every step is an access to the desk. -/
theorem step_desk {a : Action} (hi : ∀ p ∈ s.prompts, p.Named) (hok : Undrained s a)
    (h : step s a = some t) : (∀ p ∈ t.prompts, p.Named) ∧ ∃ x, OneShot.Step s.desk x t.desk := by
  cases a with
  | promptForConnection args =>
    cases h
    refine ⟨fun p hp => ?_, none, ?_⟩
    · rcases List.mem_append.mp hp with hp | hp
      · exact hi p hp
      · rw [List.mem_singleton.mp hp]
        rintro id ⟨⟩
    · have hask := OneShot.Step.ask (d := s.desk) args.ownerHostId
      simp only [desk, List.map_append]
      exact hask
  | answer id responses | answerForOwner host id responses | cancelForOwner host =>
    cases h
    refine ⟨hi, none, ?_⟩
    have hcall := OneShot.Step.call (d := s.desk)
    simp only [desk, List.map_append]
    exact hcall
  | drainRequests => cases hok
  | prompt i c =>
    simp only [step] at h
    split at h
    · rename_i p hp
      have hn := hi p (List.mem_of_getElem? hp)
      refine ⟨fun q hq => ?_, _, promptStep_desk hp hn h⟩
      obtain ⟨-, p', hp', hset⟩ := promptStep_frame hn h
      rw [hset] at hq
      rcases List.mem_or_eq_of_mem_set hq with hq | rfl
      · exact hi q hq
      · exact hp'
    · cases h
  | reply n =>
    simp only [step] at h
    split at h
    · rename_i pc ha
      refine ⟨?_, _, answerStep_desk ha h⟩
      rw [(answerStep_frame h).1]
      exact hi
    · cases h

theorem AnswerPc.For.step {d e : Desk (Option HostId) (List String)} {x : Option Nat}
    {owner : Option HostId} {pc : AnswerPc} (h : pc.For d owner) (hx : OneShot.Step d x e) :
    pc.For e owner := by
  cases pc with
  | cancel host | owner host id responses | returned b => exact h
  | remove id responses | send id responses | retain id => exact OwnedBy.step h hx
  | cancelRequest id left | cancelPending id left => exact ⟨h.1.step hx, fun j hj => (h.2 j hj).step hx⟩

theorem AnswerPc.for_cancelNext {d : Desk (Option HostId) (List String)} {owner : Option HostId}
    {ids : List Nat} (h : ∀ id ∈ ids, OwnedBy d owner id) : (AnswerPc.cancelNext ids).For d owner := by
  cases ids with
  | nil => exact trivial
  | cons id left => exact ⟨h id List.mem_cons_self, fun j hj => h j (List.mem_cons_of_mem _ hj)⟩

/-- The steps of a call for an owner. -/
theorem serves_reply {owner : Option HostId} {n : Nat} (hinv : Inv s.desk) (hs : Serves owner n s)
    (h : step s (.reply n) = some t) : Serves owner n t := by
  obtain ⟨pc, ha, hpc⟩ := hs
  simp only [step, ha] at h
  have hx := answerStep_desk ha h
  have hlt := (List.getElem?_eq_some_iff.mp ha).1
  -- it goes on with the requests it has, or with those it has looked up
  have go : ∀ {u : KeyboardInteractiveBroker} {pc' : AnswerPc}, t = u.goAnswer n pc' →
      u.answers = s.answers → pc'.For s.desk owner → Serves owner n t := by
    rintro u pc' rfl hu hp
    refine ⟨pc', ?_, hp.step hx⟩
    rw [goAnswer, hu, List.getElem?_set_self hlt]
  cases pc with
  | owner host id responses =>
    simp only [answerStep] at h
    split at h <;> cases h
    · rename_i hany
      refine go rfl rfl ?_
      obtain ⟨r, hr, hid⟩ := List.any_eq_true.mp hany
      simp only [decide_eq_true_eq] at hid
      refine hinv.ownedBy (List.mem_map.mpr ⟨r, hr, ?_⟩)
      rw [hid.1, hid.2, show some host = owner from hpc]
    · exact go rfl rfl trivial
  | remove id responses =>
    simp only [answerStep] at h
    split at h <;> cases h
    · refine go rfl rfl ?_
      exact hpc
    · exact go rfl rfl trivial
  | send id responses =>
    simp only [answerStep] at h
    split at h <;> cases h
    · exact go rfl rfl trivial
    · refine go rfl rfl ?_
      exact hpc
  | retain id =>
    cases h
    refine go rfl rfl ?_
    exact trivial
  | cancel host =>
    cases h
    refine go rfl rfl (AnswerPc.for_cancelNext fun id hid => ?_)
    obtain ⟨r, hr, rfl⟩ := List.mem_map.mp hid
    obtain ⟨hr, howner⟩ := List.mem_filter.mp hr
    refine hinv.ownedBy (List.mem_map.mpr ⟨r, hr, ?_⟩)
    rw [of_decide_eq_true howner, show some host = owner from hpc]
  | cancelRequest id left =>
    cases h
    refine go rfl ?_ hpc
    unfold dropSender
    split <;> rfl
  | cancelPending id left =>
    cases h
    exact go rfl rfl (AnswerPc.for_cancelNext hpc.2)
  | returned applied => cases h

end

/-- The calls of others keep a call where it is. -/
theorem answers_of_ne {s t : KeyboardInteractiveBroker} {a : Action} {n : Nat} {x : AnswerPc}
    (hi : ∀ p ∈ s.prompts, p.Named) (h : step s a = some t) (hx : s.answers[n]? = some x)
    (hn : a ≠ .reply n) : t.answers[n]? = some x := by
  have hlt := (List.getElem?_eq_some_iff.mp hx).1
  cases a with
  | promptForConnection args | drainRequests =>
    cases h
    exact hx
  | answer id responses | answerForOwner host id responses | cancelForOwner host =>
    cases h
    exact (List.getElem?_append_left hlt).trans hx
  | prompt i c =>
    simp only [step] at h
    split at h
    · rename_i p hp
      rw [(promptStep_frame (hi p (List.mem_of_getElem? hp)) h).1, hx]
    · cases h
  | reply m =>
    have hm : m ≠ n := by
      rintro rfl
      exact hn rfl
    simp only [step] at h
    split at h
    · obtain ⟨-, y, hy⟩ := answerStep_frame h
      rw [hy, List.getElem?_set_ne hm, hx]
    · cases h

/-! ## The contract -/

/-- The keyboard-interactive broker, as long as its requests are not drained. -/
def keyboardBroker : Broker KeyboardInteractiveBroker Action (Option HostId) (List String) where
  machine := machine
  ok := Undrained
  init := FreshBroker
  desk := desk
  starts := fun owner a => match a with
    | .answerForOwner host _ _ | .cancelForOwner host => some host = owner
    | _ => False
  call := fun n a => a = .reply n
  asker := fun i a => ∃ c, a = .prompt i c
  polls := fun i a => a = .prompt i .go

theorem serves_step {s t : KeyboardInteractiveBroker} {a : Action} {owner : Option HostId} {n : Nat}
    (hi : ∀ p ∈ s.prompts, p.Named) (hinv : Inv s.desk) (hs : Serves owner n s) (hok : Undrained s a)
    (h : step s a = some t) : Serves owner n t := by
  by_cases hn : a = .reply n
  · subst hn
    exact serves_reply hinv hs h
  · obtain ⟨pc, ha, hpc⟩ := hs
    obtain ⟨-, y, hy⟩ := step_desk hi hok h
    exact ⟨pc, answers_of_ne hi h ha hn, hpc.step hy⟩

theorem desk_new : Inv KeyboardInteractiveBroker.new.desk where
  drawn := by rintro _ _ _ ⟨⟩
  outside := by rintro _ _ ⟨⟩
  distinct := by rintro _ _ _ _ _ ⟨⟩
  requests := by rintro _ ⟨⟩
  pending := by rintro _ ⟨⟩
  held := by rintro _ _ ⟨⟩
  alone := by rintro _ _ _ ⟨⟩
  delivered := by rintro _ ⟨⟩
  once := List.nodup_nil
  values := fun id a => ⟨by rintro ⟨⟩, by rintro ⟨⟩⟩
  received := by rintro _ _ _ ⟨⟩

theorem keyboardBroker_refines :
    keyboardBroker.Refines (fun s => ∀ p ∈ s.prompts, p.Named) Serves where
  init := by
    rintro _ rfl
    exact ⟨by rintro _ ⟨⟩, desk_new⟩
  step := fun hi _ hok h => step_desk hi hok h
  starts := by
    intro s t a owner ha h
    have hlast : ∀ x : AnswerPc, (s.answers ++ [x])[s.desk.held.length]? = some x := by
      intro x
      rw [show s.desk.held.length = s.answers.length from List.length_map ..]
      exact List.getElem?_concat_length
    cases a with
    | answerForOwner host id responses | cancelForOwner host =>
      cases h
      exact ⟨_, hlast _, ha⟩
    | promptForConnection _ | answer _ _ | drainRequests | prompt _ _ | reply _ => cases ha
  serves_step := fun hi hinv hs hok h => serves_step hi hinv hs hok h
  call := by
    rintro s t _ owner n - ⟨pc, ha, hpc⟩ rfl hok h
    have h' : s.answerStep n pc = some t := by
      have hstep : step s (.reply n) = some t := h
      simpa only [step, ha] using hstep
    refine ⟨_, answerStep_desk ha h', fun id hid => ?_⟩
    cases pc with
    | remove j responses | send j responses | retain j =>
      cases hid
      exact hpc
    | cancelRequest j left | cancelPending j left =>
      cases hid
      exact hpc.1
    | owner host j responses | cancel host | returned applied => cases hid
  asker := by
    rintro s t _ i hi ⟨c, rfl⟩ hok h
    have h' : step s (.prompt i c) = some t := h
    simp only [step] at h'
    split at h'
    · rename_i p hp
      have hn := hi p (List.mem_of_getElem? hp)
      exact ⟨_, p.asker, promptStep_desk hp hn h', asker_of_getElem? hp, hn⟩
    · cases h'
  polls := by
    rintro s t _ i q id a hi hq hid hphase ha rfl h
    have h' : step s (.prompt i .go) = some t := h
    simp only [step] at h'
    split at h'
    · rename_i p hp
      cases (asker_of_getElem? hp).symm.trans hq
      have hn := hi p (List.mem_of_getElem? hp)
      cases hpc : p.pc with
      | wait j =>
        obtain rfl : j = id := Option.some.inj ((hn j (by rw [hpc]; rfl)).symm.trans hid)
        have ha' : (s.channels j).value = some a := ha
        simp only [hpc, promptStep, ha', Option.some.injEq] at h'
        subst h'
        rw [show keyboardBroker.desk = desk from rfl, desk_goPrompt, desk_dropReceiver]
        refine ⟨_, List.getElem?_set_self ?_, rfl⟩
        exact (List.getElem?_eq_some_iff.mp hq).1
      | _ => rw [Prompt.asker, hpc] at hphase; cases hphase
    · cases h'

/-- In every run in which nobody drains the requests, both brokers keep the
requests of different workstations and of different prompts apart, answer a
request once, and forget it when its prompt has ended. -/
theorem brokers_keep_requests_apart : HostKey.hostKeyBroker.Contract ∧ keyboardBroker.Contract :=
  ⟨HostKey.hostKeyBroker_refines.contract, keyboardBroker_refines.contract⟩

/-! ## Traces -/

/-- The prompt has returned with a timeout. -/
def Prompt.timedOut (p : Prompt) : Bool :=
  match p.pc with
  | .returned (.error .timeout) => true
  | _ => false

theorem Prompt.timedOut_iff {p : Prompt} (h : p.timedOut = true) : p.pc = .returned (.error .timeout) := by
  unfold timedOut at h
  split at h
  · assumption
  · cases h

/-- The answer to a prompt is applied, and the prompt times out. -/
theorem delivered_answer_lost :
    ∃ s, machine.Reach Undrained FreshBroker s ∧ s.answers = [.returned true] ∧
      s.delivered = [(1, ["123456"])] ∧
      ∃ p, s.prompts = [p] ∧ p.request = some 1 ∧ p.pc = .returned (.error .timeout) ∧ p.answer = none := by
  obtain ⟨s, hs, hp⟩ := Machine.Reach.of_run machine Undrained freshBroker_new
    (.promptForConnection ⟨some ⟨0⟩, 1, "OTP", "", [⟨"Code", false⟩]⟩ ::
      List.flatten [List.replicate 3 (.prompt 0 .go), [.answerForOwner ⟨0⟩ 1 ["123456"]],
        List.replicate 3 (.reply 0), [.prompt 0 .timeout], List.replicate 2 (.prompt 0 .go), [.reply 0]])
    (fun s => decide (s.answers = [.returned true] ∧ s.delivered = [(1, ["123456"])] ∧
      s.prompts.length = 1) && s.prompts.all fun p : Prompt =>
        p.timedOut && decide (p.request = some 1 ∧ p.answer = none)) (by decide)
  simp only [Bool.and_eq_true, decide_eq_true_eq, List.all_eq_true] at hp
  obtain ⟨⟨ha, hd, hlen⟩, hall⟩ := hp
  obtain ⟨p, hone⟩ := List.length_eq_one_iff.mp hlen
  obtain ⟨ht, hr, hn⟩ := hall p (by rw [hone]; exact List.mem_singleton_self p)
  exact ⟨s, hs, ha, hd, p, hone, hr, p.timedOut_iff ht, hn⟩

end KW.Keyboard
