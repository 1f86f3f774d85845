import KodeWork.Impl.Connect
import KodeWork.Proof.HostKey.Steps
import KodeWork.Proof.KeyboardInteractive

/-!
# Which failures go on to the next address

The loop of a connect call goes on after a failure that is of a transport kind
(`fail_retryable`), and that says nothing of when it arose: an interactive budget
that elapses and a prompt nobody answers are such failures too. `Uninterrupted`
rules these out for the steps of an attempt in which a person or a credential is
involved already; in a run, that is exactly when the call keeps to one address
from then on (`keeps_to_address_iff`). What an attempt takes the host-key check and
the prompts to return is what the calls on the two brokers return
(`verification_checked`, `prompt_prompted`).
-/

namespace KW.Connect

open ConnectCall

/-! ## Failures -/

/-- The errors of the transport that `From<io::Error>` gives a kind of their own. -/
def IoError.interrupts (error : IoError) : Bool :=
  match error.kind with
  | .connectionRefused | .timedOut | .hostUnreachable | .networkUnreachable => true
  | .notFound | .other => false

/-- The transport has timed out, or cannot be reached any more. -/
def RusshError.interrupts : RusshError → Bool
  | .connectionTimeout | .keepaliveTimeout | .inactivityTimeout => true
  | .io error => error.interrupts
  | .keyChanged | .hup | .other _ => false

theorem retryable_ofIo (error : IoError) :
    addressFallbackIsRetryable (sshErrorOfIo error) = error.interrupts := by
  unfold sshErrorOfIo IoError.interrupts
  cases error.kind <;> rfl

theorem retryable_ofRussh (error : RusshError) :
    addressFallbackIsRetryable (sshErrorOfRussh error) = error.interrupts := by
  cases error with
  | io error => exact retryable_ofIo error
  | _ => rfl

theorem HostKeyFailure.not_retryable (failure : HostKeyFailure) :
    addressFallbackIsRetryable failure.error = false := by
  cases failure <;> rfl

/-- A retryable error is of a transport kind. -/
theorem kind_of_retryable {error : SshError} (h : addressFallbackIsRetryable error = true) :
    ConnectErrorKind.ofSshError error = .network ∨ ConnectErrorKind.ofSshError error = .timeout := by
  cases error with
  | timeout => exact .inr rfl
  | connectionRefused | unreachable | nameResolution _ => exact .inl rfl
  | _ => cases h

/-- Before the key exchange of the first hop, nobody is involved. -/
def DialPc.early : DialPc → Bool
  | .check | .spawn | .lookup _ | .tcp .. => true
  | .exchange _ | .decision _ | .exchanged _ | .auth .. | .forward => false

/-- What cuts `authenticate` short: the interactive budget, a transport that
fails, a prompt nobody answers; and, when no method is left, the transport having
failed under the agent. -/
def AuthPc.interrupted (methods : List Reconnect.AuthMethod) (specific : Option SshError) :
    AuthPc → Outcome → Bool
  | .method, .go => methods.isEmpty && specific.any addressFallbackIsRetryable
  | .prompt _, .prompted .timedOut => true
  | .password, .russh error | .rsaHash _, .russh error | .publicKey, .russh error
  | .keyboard, .russh error => error.interrupts
  | pc, .elapsed => pc.waits
  | _, _ => false

/-- What cuts an attempt short from the key exchange on: the interactive budget, a
transport that fails, or what cuts `authenticate` short. -/
def DialPc.interrupted : DialPc → Outcome → Bool
  | .exchange _, .russh error | .exchanged _, .russh error | .forward, .russh error => error.interrupts
  | .exchange _, .elapsed | .decision _, .elapsed | .exchanged _, .elapsed => true
  | .auth _ methods specific pc, a => pc.interrupted methods specific a
  | _, _ => false

section

variable {windows : Bool} {o : ConnectionOptions} {pc : DialPc} {a : Outcome}

theorem authStep_fail {hop : Hop} {methods : List Reconnect.AuthMethod} {specific : Option SshError}
    {pc : AuthPc} {error : SshError} (h : authStep windows o hop methods specific pc a = some (.fail error)) :
    addressFallbackIsRetryable error = pc.interrupted methods specific a := by
  cases pc with
  | method =>
    cases a with
    | go =>
      cases methods with
      | nil =>
        cases h
        cases specific <;> rfl
      | cons method rest =>
        exfalso
        cases method <;> simp only [authStep] at h <;> (try split at h) <;> cases h
    | _ => cases h
  | loadKey hadPassphrase key =>
    cases a with
    | keyError e =>
      simp only [authStep] at h
      split at h <;> cases h
      rfl
    | _ => cases h
  | password | publicKey =>
    cases a with
    | reply success => cases success <;> cases hop <;> cases h
    | russh e =>
      cases h
      exact retryable_ofRussh e
    | elapsed =>
      cases h
      rfl
    | _ => cases h
  | keyboard =>
    cases a with
    | reply success => cases success <;> cases hop <;> cases h
    | infoRequest name instructions prompts =>
      simp only [authStep] at h
      split at h <;> cases h
      rfl
    | russh e =>
      cases h
      exact retryable_ofRussh e
    | elapsed =>
      cases h
      rfl
    | _ => cases h
  | rsaHash key =>
    cases a with
    | russh e =>
      cases h
      exact retryable_ofRussh e
    | elapsed =>
      cases h
      rfl
    | _ => cases h
  | prompt args =>
    cases a with
    | prompted result =>
      cases result with
      | answered responses =>
        simp only [authStep, invalid] at h
        split at h <;> cases h
        rfl
      | cancelled | timedOut =>
        cases h
        rfl
    | elapsed =>
      cases h
      rfl
    | _ => cases h
  | agentIdentities =>
    cases a with
    | identities n => cases n <;> cases h
    | elapsed =>
      cases h
      rfl
    | _ => cases h
  | agentSign n =>
    cases a with
    | reply success => cases success <;> cases n <;> cases hop <;> cases h
    | elapsed =>
      cases h
      rfl
    | _ => cases h
  | agentPipe | agentPageant _ | agentHash _ =>
    cases a with
    | elapsed =>
      cases h
      rfl
    | _ => cases h

/-- From the key exchange on, the failures that go on to the next address are those
of an attempt cut short. -/
theorem fail_retryable {error : SshError} (hpc : pc.early = false)
    (h : dialStep windows o pc a = some (.fail error)) :
    addressFallbackIsRetryable error = pc.interrupted a := by
  cases pc with
  | check | spawn | lookup _ | tcp => cases hpc
  | exchange hop =>
    cases a with
    | hostKey check =>
      cases check <;> cases h
      exact HostKeyFailure.not_retryable _
    | russh e =>
      cases h
      exact retryable_ofRussh e
    | elapsed =>
      cases h
      rfl
    | _ => cases h
  | decision hop =>
    cases a with
    | decided result =>
      cases result <;> cases h
      exact HostKeyFailure.not_retryable _
    | elapsed =>
      cases h
      rfl
    | _ => cases h
  | exchanged hop =>
    cases a with
    | russh e =>
      cases h
      exact retryable_ofRussh e
    | elapsed =>
      cases h
      rfl
    | _ => cases h
  | auth hop methods specific pc => exact authStep_fail h
  | forward =>
    cases a with
    | russh e =>
      cases h
      exact retryable_ofRussh e
    | poisoned =>
      cases h
      rfl
    | _ => cases h

/-- An attempt cut short fails. -/
theorem fail_of_interrupted {m : Move} (hcut : pc.interrupted a = true)
    (h : dialStep windows o pc a = some m) : ∃ error, m = .fail error := by
  cases pc with
  | check | spawn | lookup _ | tcp => cases hcut
  | exchange hop | decision hop | exchanged hop | forward =>
    cases a with
    | russh e | elapsed => cases h <;> exact ⟨_, rfl⟩
    | _ => cases hcut
  | auth hop methods specific pc =>
    cases pc with
    | method =>
      cases a with
      | go =>
        cases methods with
        | nil =>
          cases h
          exact ⟨_, rfl⟩
        | cons method rest => cases hcut
      | _ => cases hcut
    | prompt args =>
      cases a with
      | prompted result =>
        cases result with
        | timedOut =>
          cases h
          exact ⟨_, rfl⟩
        | _ => cases hcut
      | elapsed =>
        cases h
        exact ⟨_, rfl⟩
      | _ => cases hcut
    | loadKey hadPassphrase key => cases a <;> cases hcut
    | _ =>
      cases a with
      | russh e | elapsed => cases h <;> first | exact ⟨_, rfl⟩ | cases hcut
      | _ => cases hcut

/-- Where a move goes on in the same attempt. -/
def Move.target : Move → Option DialPc
  | .goto pc | .interact pc | .offer _ pc => some pc
  | .connected | .fail _ => none

def DialPc.authenticating : DialPc → Bool
  | .auth .. => true
  | _ => false

/-- What the moves say of who is involved: nobody before the key exchange, which does
not come back; somebody from the begin of authentication, in which alone credentials
are sent. -/
def MoveSpec (pc : DialPc) (m : Move) : Prop :=
  match m with
  | .goto pc' =>
    (pc'.early = true → pc.early = true) ∧ (pc'.authenticating = true → pc.authenticating = true)
  | .interact pc' => pc'.early = false
  | .offer _ pc' => pc.authenticating = true ∧ pc'.early = false
  | .connected | .fail _ => True

theorem after_target {hop : Hop} {methods : List Reconnect.AuthMethod} {specific : Option SshError}
    {success : Bool} {pc' : DialPc}
    (h : (if success then authenticated hop else .goto (.auth hop methods specific .method)).target =
      some pc') : pc'.early = false := by
  cases success <;> cases hop <;> cases h <;> rfl

theorem authStep_target {hop : Hop} {methods : List Reconnect.AuthMethod} {specific : Option SshError}
    {pc : AuthPc} {m : Move} {pc' : DialPc} (h : authStep windows o hop methods specific pc a = some m)
    (hm : m.target = some pc') : pc'.early = false := by
  simp only [authStep] at h
  split at h
  case h_1 =>
    cases methods with
    | nil =>
      cases h
      cases hm
    | cons method rest =>
      cases method <;> simp only [] at h <;> (try split at h) <;> cases h <;> cases hm <;> rfl
  all_goals first
    | (split at h <;> cases h <;> cases hm <;> rfl)
    | (cases h <;> first | exact after_target hm | (cases hop <;> cases hm <;> rfl))

theorem connect_spec (o : ConnectionOptions) : MoveSpec .check (connect o) := by
  have direct : ∀ hop hostname port username auth proxy,
      MoveSpec .check (connectDirect hop hostname port username auth proxy) := by
    intro hop hostname port username auth proxy
    unfold connectDirect
    split_ifs <;> first | trivial | exact ⟨fun _ => rfl, by rintro ⟨⟩⟩
  unfold connect
  split
  · exact direct _ _ _ _ _ _
  · split_ifs <;> first | trivial | exact direct _ _ _ _ _ _

theorem dialStep_spec {m : Move} (h : dialStep windows o pc a = some m) : MoveSpec pc m := by
  cases pc with
  | check =>
    cases a with
    | go => exact Option.some.inj h ▸ connect_spec o
    | _ => cases h
  | auth hop methods specific pc =>
    have htarget : ∀ pc', m.target = some pc' → pc'.early = false := fun _ hm => authStep_target h hm
    cases m with
    | goto pc' => exact ⟨fun he => absurd he (ne_true_of_eq_false (htarget pc' rfl)), fun _ => rfl⟩
    | interact pc' => exact htarget pc' rfl
    | offer method pc' => exact ⟨rfl, htarget pc' rfl⟩
    | connected | fail _ => trivial
  | lookup hop =>
    cases a with
    | addresses n => cases n <;> cases h <;> first | trivial | exact ⟨fun _ => rfl, by rintro ⟨⟩⟩
    | _ => cases h <;> trivial
  | tcp hop n lastError =>
    cases n <;> cases a <;> cases h <;> first | trivial | exact ⟨fun _ => rfl, by rintro ⟨⟩⟩
  | exchange hop =>
    cases a with
    | hostKey check =>
      cases check <;> cases h <;> first | trivial | rfl | exact ⟨by rintro ⟨⟩, by rintro ⟨⟩⟩
    | _ => cases h <;> trivial
  | decision hop =>
    cases a with
    | decided result => cases result <;> cases h <;> first | trivial | exact ⟨by rintro ⟨⟩, by rintro ⟨⟩⟩
    | _ => cases h <;> trivial
  | spawn | exchanged hop | forward =>
    cases a <;> cases h <;> trivial

end

/-! ## Steps -/

/-- The call has not come to its loop. -/
def Pc.before : Pc → Bool
  | .resolving | .candidates | .reserve | .jumpAuth => true
  | _ => false

def Pc.dialing : Pc → Bool
  | .dial .. => true
  | _ => false

/-- What a step of the call is. -/
inductive StepKind (s : ConnectCall) (a : Outcome) (t : ConnectCall) : Prop
  /-- outside the attempts; the loop is entered once -/
  | plain (pc : Pc) (generation : Nat) : s.pc.dialing = false → pc.dialing = false →
      (pc.before = true → s.pc.before = true) → (pc = .next → s.pc.before = true) →
      t = { s with pc := pc, generation := generation } → StepKind s a t
  | resolved (candidates : List AddressCandidate) : s.pc = .candidates →
      t = { s with pc := .reserve, candidates := candidates, left := candidates } → StepKind s a t
  | tryNext (candidate : AddressCandidate) (left : List AddressCandidate) : s.pc = .next →
      s.left = candidate :: left → t = s.tryNext candidate left → StepKind s a t
  | dial (o : ConnectionOptions) (pc : DialPc) (m : Move) : s.pc = .dial o pc →
      dialStep s.windows o pc a = some m → t = s.apply o m → StepKind s a t

theorem step_kind {s t : ConnectCall} {a : Outcome} (h : step s a = some t) : StepKind s a t := by
  -- a step to `pc` from a place outside the attempts
  have go : ∀ {here : Pc} (pc : Pc), s.pc = here → here.dialing = false → pc.dialing = false →
      (pc.before = true → here.before = true) → (pc = .next → here.before = true) →
      t = { s with pc := pc } → StepKind s a t := by
    rintro here pc rfl h₁ h₂ h₃ h₄ ht
    exact .plain pc s.generation h₁ h₂ h₃ h₄ ht
  simp only [step] at h
  split at h
  case h_1 hpc => exact go .candidates hpc rfl rfl (fun _ => rfl) (fun _ => rfl) (Option.some.inj h).symm
  case h_2 cs hpc =>
    split at h <;> cases h
    · exact go _ hpc rfl rfl (fun _ => rfl) (fun _ => rfl) rfl
    · exact .resolved cs hpc rfl
  case h_3 g hpc =>
    cases h
    exact .plain .jumpAuth g (hpc ▸ rfl) rfl (fun _ => hpc ▸ rfl) (fun _ => hpc ▸ rfl) rfl
  case h_4 hpc =>
    split at h <;> cases h <;> exact go _ hpc rfl rfl (fun _ => rfl) (fun _ => rfl) rfl
  case h_5 hpc =>
    split at h
    case h_1 =>
      cases h
      exact go _ hpc rfl rfl (by rintro ⟨⟩) (by rintro ⟨⟩) rfl
    case h_2 candidate left hleft => exact .tryNext candidate left hpc hleft (Option.some.inj h).symm
    case h_3 =>
      cases h
      exact go _ hpc rfl rfl (by rintro ⟨⟩) (by rintro ⟨⟩) rfl
    case h_4 => cases h
  case h_6 o pc hpc =>
    obtain ⟨m, hm, rfl⟩ := Option.map_eq_some_iff.mp h
    exact .dial o pc m hpc hm rfl
  case h_14 => cases h
  all_goals
    rename_i hpc
    cases h
    exact go _ hpc rfl rfl (by rintro ⟨⟩) (by rintro ⟨⟩) rfl

/-! ## The property -/

/-- The loop goes on to another address. -/
def Continues (s : ConnectCall) : Prop := s.pc = .next ∧ s.left ≠ []

/-- What a step keeps of the law of the loop. -/
structure KeepsToAddress (s : ConnectCall) (_ : Outcome) (t : ConnectCall) : Prop where
  /-- The addresses are tried in the order of the resolver. -/
  order : t.tried <+: t.candidates
  /-- Another one is tried after a failure of the transport, before anybody was asked or
  authentication began. -/
  moved : t.tried ≠ s.tried → s.tried ≠ [] →
    s.interacted = false ∧ (s.lastError.kind = .network ∨ s.lastError.kind = .timeout)
  /-- A failure after that ends the call. -/
  ends : s.interacted = true → ¬ Continues t
  /-- No address but the one that is tried has been sent a credential. -/
  credentials : ∀ o ∈ t.offered, o.attempt = t.tried.length

/-- The step does not cut an attempt short in which a person or a credential is
involved, while there is another address. -/
def Uninterrupted (s : ConnectCall) (a : Outcome) (_ : ConnectCall) : Prop :=
  s.interacted = true → s.left ≠ [] → ∀ o pc, s.pc = .dial o pc → pc.interrupted a = false

structure Inv (s : ConnectCall) : Prop where
  order : s.tried ++ s.left = s.candidates
  before : s.pc.before = true → s.tried = [] ∧ s.interacted = false
  next : Continues s → s.interacted = false ∧
    (s.tried ≠ [] → s.lastError.kind = .network ∨ s.lastError.kind = .timeout)
  early : ∀ o pc, s.pc = .dial o pc → pc.early = true → s.interacted = false
  authenticating : ∀ o pc, s.pc = .dial o pc → pc.authenticating = true → s.interacted = true
  quiet : s.interacted = false → s.offered = []
  credentials : ∀ o ∈ s.offered, o.attempt = s.tried.length

section

variable {s t : ConnectCall} {a : Outcome}

/-- A failure is followed by another address just when it is retryable and there is
one. -/
theorem continues_failed {o : ConnectionOptions} {error : SshError} :
    Continues (s.failed o error) ↔ addressFallbackIsRetryable error = true ∧ s.left ≠ [] := by
  simp only [Continues, failed]
  refine and_congr_left fun _ => ?_
  split <;> simp_all

/-- The addresses tried and the addresses left are what the resolver returned. -/
theorem order_step (hi : Inv s) (h : step s a = some t) : t.tried ++ t.left = t.candidates := by
  cases step_kind h with
  | plain pc g _ _ _ _ ht => exact ht ▸ hi.order
  | resolved cs hpc ht =>
    subst ht
    rw [(hi.before (hpc ▸ rfl)).1, List.nil_append]
  | tryNext candidate left hpc hleft ht =>
    subst ht
    show (s.tried ++ [candidate]) ++ left = s.candidates
    rw [List.append_assoc, List.singleton_append, ← hleft, hi.order]
  | dial o pc m _ _ ht =>
    subst ht
    cases m <;> exact hi.order

theorem offered_apply {o : ConnectionOptions} {m : Move} {x : Offer}
    (hi : ∀ x ∈ s.offered, x.attempt = s.tried.length) (hx : x ∈ (s.apply o m).offered) :
    x.attempt = (s.apply o m).tried.length := by
  cases m with
  | offer method pc =>
    rcases List.mem_append.mp hx with hx | hx
    · exact hi x hx
    · exact List.mem_singleton.mp hx ▸ rfl
  | _ => exact hi x hx

theorem keepsToAddress_iff (hi : Inv s) (h : step s a = some t) :
    KeepsToAddress s a t ↔ Uninterrupted s a t := by
  have horder : t.tried <+: t.candidates := ⟨t.left, order_step hi h⟩
  cases step_kind h with
  | plain pc g hs hpc _ hnext ht =>
    subst ht
    refine iff_of_true ⟨horder, fun hne => absurd rfl hne, fun hin hc => ?_, hi.credentials⟩ ?_
    · rw [(hi.before (hnext hc.1)).2] at hin
      cases hin
    · intro _ _ o pc hd
      rw [hd] at hs
      cases hs
  | resolved cs hpc ht =>
    subst ht
    refine iff_of_true ⟨horder, fun hne => absurd rfl hne, fun _ hc => ?_, hi.credentials⟩ ?_
    · cases hc.1
    · intro _ _ o pc hd
      rw [hd] at hpc
      cases hpc
  | tryNext candidate left hpc hleft ht =>
    subst ht
    obtain ⟨hin, hkind⟩ := hi.next ⟨hpc, by rw [hleft]; exact List.cons_ne_nil _ _⟩
    refine iff_of_true ⟨horder, fun _ hne => ⟨hin, hkind hne⟩, fun _ hc => ?_, fun x hx => ?_⟩ ?_
    · cases hc.1
    · rw [show (s.tryNext candidate left).offered = [] from hi.quiet hin] at hx
      cases hx
    · intro _ _ o pc hd
      rw [hd] at hpc
      cases hpc
  | dial o pc m hpc hm ht =>
    subst ht
    have htried : (s.apply o m).tried = s.tried := by cases m <;> rfl
    constructor
    · intro hk hin hleft o' pc' hd
      cases hpc.symm.trans hd
      refine eq_false_of_ne_true fun hcut => ?_
      obtain ⟨error, rfl⟩ := fail_of_interrupted hcut hm
      have he : pc.early = false := eq_false_of_ne_true fun he => by
        rw [hi.early o pc hpc he] at hin
        cases hin
      refine hk.ends hin (continues_failed.mpr ⟨?_, hleft⟩)
      rw [fail_retryable he hm, hcut]
    · intro hu
      refine ⟨horder, fun hne => absurd htried hne, fun hin hc => ?_, fun x => offered_apply hi.credentials⟩
      cases m with
      | fail error =>
        have he : pc.early = false := eq_false_of_ne_true fun he => by
          rw [hi.early o pc hpc he] at hin
          cases hin
        obtain ⟨hretry, hleft⟩ := continues_failed.mp hc
        rw [fail_retryable he hm, hu hin hleft o pc hpc] at hretry
        cases hretry
      | _ => cases hc.1

theorem inv_step (hi : Inv s) (h : step s a = some t) (hk : KeepsToAddress s a t) : Inv t := by
  have horder := order_step hi h
  cases step_kind h with
  | plain pc g hs hpc hbefore hnext ht =>
    subst ht
    have hdial : ∀ o d, pc ≠ .dial o d := by
      rintro o d rfl
      cases hpc
    exact {
      order := horder
      before := fun hb => hi.before (hbefore hb)
      next := fun hc =>
        ⟨(hi.before (hnext hc.1)).2, fun hne => absurd (hi.before (hnext hc.1)).1 hne⟩
      early := fun o d hd => absurd hd (hdial o d)
      authenticating := fun o d hd => absurd hd (hdial o d)
      quiet := hi.quiet
      credentials := hi.credentials }
  | resolved cs hpc ht =>
    subst ht
    exact {
      order := horder
      before := fun _ => hi.before (hpc ▸ rfl)
      next := by rintro ⟨⟨⟩, -⟩
      early := by rintro o d ⟨⟩
      authenticating := by rintro o d ⟨⟩
      quiet := hi.quiet
      credentials := hi.credentials }
  | tryNext candidate left hpc hleft ht =>
    subst ht
    have hin := (hi.next ⟨hpc, by rw [hleft]; exact List.cons_ne_nil _ _⟩).1
    exact {
      order := horder
      before := by rintro ⟨⟩
      next := by rintro ⟨⟨⟩, -⟩
      early := fun _ _ _ _ => rfl
      authenticating := by
        rintro o d ⟨⟩ ⟨⟩
      quiet := fun _ => hi.quiet hin
      credentials := hk.credentials }
  | dial o pc m hpc hm ht =>
    subst ht
    have hspec := dialStep_spec hm
    cases m with
    | goto pc' =>
      exact { hi with
        before := by rintro ⟨⟩
        next := by rintro ⟨⟨⟩, -⟩
        early := by
          rintro o' d ⟨⟩ hd
          exact hi.early o pc hpc (hspec.1 hd)
        authenticating := by
          rintro o' d ⟨⟩ hd
          exact hi.authenticating o pc hpc (hspec.2 hd) }
    | interact pc' =>
      exact { hi with
        before := by rintro ⟨⟩
        next := by rintro ⟨⟨⟩, -⟩
        early := by
          rintro o' d ⟨⟩ hd
          cases hspec.symm.trans hd
        authenticating := fun _ _ _ _ => rfl
        quiet := by rintro ⟨⟩ }
    | offer method pc' =>
      have hin : s.interacted = true := hi.authenticating o pc hpc hspec.1
      exact { hi with
        before := by rintro ⟨⟩
        next := by rintro ⟨⟨⟩, -⟩
        early := by
          rintro o' d ⟨⟩ hd
          cases hspec.2.symm.trans hd
        authenticating := fun _ _ _ _ => hin
        quiet := fun hn => by cases hin.symm.trans hn
        credentials := hk.credentials }
    | connected =>
      exact { hi with
        before := by rintro ⟨⟩
        next := by rintro ⟨⟨⟩, -⟩
        early := by rintro o' d ⟨⟩
        authenticating := by rintro o' d ⟨⟩ }
    | fail error =>
      have hpc' : (s.failed o error).pc.before = false ∧ (s.failed o error).pc.dialing = false := by
        simp only [failed]
        split <;> exact ⟨rfl, rfl⟩
      have hdial : ∀ o' d, (s.failed o error).pc ≠ .dial o' d := fun o' d hd => by
        cases hpc'.2.symm.trans (congrArg Pc.dialing hd)
      exact {
        order := horder
        before := fun hb => by cases hpc'.1.symm.trans hb
        next := fun hc => ⟨eq_false_of_ne_true fun hin => hk.ends hin hc,
          fun _ => kind_of_retryable (continues_failed.mp hc).1⟩
        early := fun o' d hd => absurd hd (hdial o' d)
        authenticating := fun o' d hd => absurd hd (hdial o' d)
        quiet := hi.quiet
        credentials := hi.credentials }

end

theorem inv_new (hostId : HostId) (host : Host) (auth : List Reconnect.AuthMethod)
    (jumpAuth : Option (List Reconnect.AuthMethod)) (windows : Bool) :
    Inv (.new hostId host auth jumpAuth windows) where
  order := rfl
  before := fun _ => ⟨rfl, rfl⟩
  next := by rintro ⟨⟨⟩, -⟩
  early := by rintro o d ⟨⟩
  authenticating := by rintro o d ⟨⟩
  quiet := fun _ => rfl
  credentials := by rintro x ⟨⟩

/-- In a run of a connect call, the call keeps to the first address with which a person
or a credential was involved, and tries the addresses in order until then, if and
only if no such attempt is cut short while there is another address. -/
theorem keeps_to_address_iff (hostId : HostId) (host : Host) (auth : List Reconnect.AuthMethod)
    (jumpAuth : Option (List Reconnect.AuthMethod)) (windows : Bool) (outcomes : List Outcome) :
    machine.Along KeepsToAddress (.new hostId host auth jumpAuth windows) outcomes ↔
      machine.Along Uninterrupted (.new hostId host auth jumpAuth windows) outcomes :=
  Machine.along_congr (I := Inv) (fun _ _ _ hi h => keepsToAddress_iff hi h)
    (fun _ _ _ hi h hk => inv_step hi h hk) outcomes (inv_new hostId host auth jumpAuth windows)

/-! ## What the brokers return

The host-key checks and the prompts of an attempt end as the calls on the brokers do. -/

section

open HostKey (HostKeyBroker VerifyPc Verification)

/-- A check accepts the key, or fails in one of the listed ways. -/
def Checked (result : Except SshError Bool) : Prop :=
  result = .ok true ∨ ∃ failure : HostKeyFailure, result = .error failure.error

/-- What a verification returns, once it is decided. -/
def verifyResult : VerifyPc → Option (Except SshError Bool)
  | .forgetRequest _ result | .forgetPending _ result => result
  | .returned result => some result
  | _ => none

theorem checked_afterLookup (r : HostKey.VerifyRequest)
    (found : Except String (Option HostKey.KnownHostMatch)) :
    ∀ x ∈ verifyResult (HostKeyBroker.afterLookup r found), Checked x := by
  cases found with
  | error message =>
    rintro _ ⟨⟩
    exact .inr ⟨.storeUnavailable message, rfl⟩
  | ok saved =>
    simp only [HostKeyBroker.afterLookup]
    cases r.verdict saved with
    | accept =>
      rintro _ ⟨⟩
      exact .inl rfl
    | changed =>
      rintro _ ⟨⟩
      exact .inr ⟨.changed, rfl⟩
    | promote _ | prompt => rintro _ ⟨⟩

theorem verifyStep_checked {s t : HostKeyBroker} {i : Nat} {v : Verification} {pc : VerifyPc}
    {c : HostKey.Choice} (h : s.verifyStep i v pc c = some t) (hr : ∀ x ∈ verifyResult pc, Checked x) :
    ∃ pc', t.verifications.map (·.pc) = (s.verifications.map (·.pc)).set i pc' ∧
      ∀ x ∈ verifyResult pc', Checked x := by
  -- the verification goes on at `pc'`, and the others stay where they are
  have go : ∀ (s' : HostKeyBroker) (w : Verification) (pc' : VerifyPc),
      s'.verifications.map (·.pc) = s.verifications.map (·.pc) → some (s'.goVerify i w pc') = some t →
      (∀ x ∈ verifyResult pc', Checked x) → ∃ pc', t.verifications.map (·.pc) =
        (s.verifications.map (·.pc)).set i pc' ∧ ∀ x ∈ verifyResult pc', Checked x := by
    rintro s' w pc' hs' ⟨⟩ hpc'
    exact ⟨pc', by rw [← hs', HostKeyBroker.goVerify, List.map_set], hpc'⟩
  have hwrite : (s.write v.request).verifications.map (·.pc) = s.verifications.map (·.pc) := by
    simp only [HostKeyBroker.write, List.map_map]
    refine List.map_congr_left fun w _ => ?_
    simp only [Function.comp_apply, Verification.overtake]
    split <;> rfl
  have fails : ∀ failure : HostKeyFailure, ∀ x ∈ some (Except.error failure.error), Checked x := by
    rintro failure _ ⟨⟩
    exact .inr ⟨failure, rfl⟩
  have accepts : ∀ x ∈ some (.ok true : Except SshError Bool), Checked x := by
    rintro _ ⟨⟩
    exact .inl rfl
  cases pc with
  | lookup =>
    cases c with
    | faults identity endpoint => exact go _ _ _ rfl h (checked_afterLookup _ _)
    | abort => exact go _ _ _ rfl h (by rintro _ ⟨⟩)
    | _ => cases h
  | promote host =>
    cases c with
    | go => exact go _ _ _ hwrite h accepts
    | fault message => exact go _ _ _ rfl h (fails (.storeUnavailable message))
    | _ => cases h
  | nextId =>
    cases c with
    | go => exact go { s with nextId := s.nextId + 1 } _ _ rfl h (by rintro _ ⟨⟩)
    | _ => cases h
  | insert id =>
    cases c with
    | go => exact go { s with requests := s.requests.insert id } _ _ rfl h (by rintro _ ⟨⟩)
    | poisoned => exact go _ _ _ rfl h (fails .poisoned)
    | _ => cases h
  | push id =>
    cases c with
    | go => exact go { s with pending := s.pending ++ [⟨id, _, _, _⟩] } _ _ rfl h (by rintro _ ⟨⟩)
    | poisoned => exact go _ _ _ rfl h (fails .poisoned)
    | _ => cases h
  | wait id =>
    cases c with
    | go =>
      simp only [HostKeyBroker.verifyStep] at h
      split at h
      · refine go (s.dropReceiver id) _ _ rfl h ?_
        rename_i decision _
        cases decision with
        | trustOnce => exact accepts
        | trustAndSave => rintro _ ⟨⟩
        | reject => exact fails .rejected
      · split at h
        · exact go (s.dropReceiver id) _ _ rfl h (fails .rejected)
        · cases h
    | timeout => exact go (s.dropReceiver id) _ _ rfl h (fails .decisionTimeout)
    | abort => exact go (s.dropReceiver id) _ _ rfl h (by rintro _ ⟨⟩)
    | _ => cases h
  | save id =>
    cases c with
    | go => exact go _ _ _ hwrite h accepts
    | fault message => exact go _ _ _ rfl h (fails (.saveFailed message))
    | _ => cases h
  | forgetRequest id result =>
    cases c with
    | go => exact go (s.dropSender id) _ _ (by rw [HostKey.dropSender_verifications]) h hr
    | poisoned => exact go _ _ _ rfl h hr
    | _ => cases h
  | forgetPending id result =>
    have hr' : ∀ x ∈ verifyResult (result.elim .dropped .returned), Checked x := by
      cases result with
      | none => rintro _ ⟨⟩
      | some result => exact hr
    cases c with
    | go => exact go ((s.dropPending id).dropReceiver id) _ _ rfl h hr'
    | poisoned => exact go (s.dropReceiver id) _ _ rfl h hr'
    | _ => cases h
  | returned _ | dropped => cases c <;> cases h

/-- Every host-key check of every run of the broker ends in a listed way. -/
theorem verification_checked {s : HostKeyBroker} (hs : HostKey.machine.Reach Machine.free HostKey.Initial s)
    {v : Verification} (hv : v ∈ s.verifications) {result : Except SshError Bool}
    (hpc : v.pc = .returned result) : Checked result := by
  have hall : ∀ pc ∈ s.verifications.map (·.pc), ∀ x ∈ verifyResult pc, Checked x := by
    refine hs.invariant (I := fun s : HostKeyBroker =>
      ∀ pc ∈ s.verifications.map (·.pc), ∀ x ∈ verifyResult pc, Checked x) ?_ fun s a t hi _ h => ?_
    · rintro _ ⟨known, rfl⟩ pc ⟨⟩
    · cases a with
      | verifyForConnection r =>
        cases h
        intro pc hpc
        rw [List.map_append, List.mem_append] at hpc
        rcases hpc with hpc | hpc
        · exact hi pc hpc
        · rw [List.mem_singleton.mp hpc]
          rintro _ ⟨⟩
      | verify i c =>
        simp only [HostKey.machine, HostKey.step] at h
        split at h
        · rename_i v hv
          obtain ⟨pc', ht, hpc'⟩ := verifyStep_checked h (hi v.pc (List.mem_map_of_mem (List.mem_of_getElem? hv)))
          intro pc hpc
          rw [ht] at hpc
          rcases List.mem_or_eq_of_mem_set hpc with hpc | rfl
          · exact hi pc hpc
          · exact hpc'
        · cases h
      | reply i c =>
        simp only [HostKey.machine, HostKey.step] at h
        split at h
        · rw [(HostKey.answerStep_spec h).verifications]
          exact hi
        · cases h
      | _ =>
        cases h
        exact hi
  exact hall v.pc (List.mem_map_of_mem hv) result (by rw [hpc]; rfl)

end

section

open Keyboard (KeyboardInteractiveBroker PromptPc Prompt)

def PromptResult.result : PromptResult → Except SshError (List String)
  | .answered responses => .ok responses
  | .cancelled => .error .cancelled
  | .timedOut => .error .timeout

/-- A prompt has too many fields, or ends in one of the listed ways. -/
def Prompted (result : Except SshError (List String)) : Prop :=
  result = .error KeyboardInteractiveBroker.tooManyPrompts ∨ ∃ r : PromptResult, result = r.result

/-- What a prompt returns, once it is decided. -/
def promptResult : PromptPc → Option (Except SshError (List String))
  | .forgetRequest _ result | .forgetPending _ result => result
  | .returned result => some result
  | _ => none

theorem promptStep_prompted {s t : KeyboardInteractiveBroker} {i : Nat} {p : Prompt} {pc : PromptPc}
    {c : Keyboard.Choice} (h : s.promptStep i p pc c = some t) (hr : ∀ x ∈ promptResult pc, Prompted x) :
    ∃ p', t.prompts = s.prompts.set i p' ∧ ∀ x ∈ promptResult p'.pc, Prompted x := by
  -- the prompt goes on at `pc'`, and the others stay where they are
  have go : ∀ (s' : KeyboardInteractiveBroker) (q : Prompt) (pc' : PromptPc), s'.prompts = s.prompts →
      some (s'.goPrompt i q pc') = some t → (∀ x ∈ promptResult pc', Prompted x) →
      ∃ p', t.prompts = s.prompts.set i p' ∧ ∀ x ∈ promptResult p'.pc, Prompted x := by
    rintro s' q pc' hs' ⟨⟩ hpc'
    exact ⟨{ q with pc := pc' }, by rw [← hs', KeyboardInteractiveBroker.goPrompt], hpc'⟩
  have hsender : ∀ id, (s.dropSender id).prompts = s.prompts := by
    intro id
    unfold KeyboardInteractiveBroker.dropSender
    split <;> rfl
  have ends : ∀ r : PromptResult, ∀ x ∈ some r.result, Prompted x := by
    rintro r _ ⟨⟩
    exact .inr ⟨r, rfl⟩
  cases pc with
  | nextId =>
    cases c with
    | go =>
      simp only [KeyboardInteractiveBroker.promptStep] at h
      split at h
      · refine go _ _ _ rfl h ?_
        rintro _ ⟨⟩
        exact .inl rfl
      · exact go { s with nextId := s.nextId + 1 } _ _ rfl h (by rintro _ ⟨⟩)
    | _ => cases h
  | insert id =>
    cases c with
    | go => exact go { s with requests := s.requests.insert id } _ _ rfl h (by rintro _ ⟨⟩)
    | _ => cases h
  | push id =>
    cases c with
    | go => exact go { s with pending := s.pending ++ [⟨id, _, _, _, _, _⟩] } _ _ rfl h (by rintro _ ⟨⟩)
    | _ => cases h
  | wait id =>
    cases c with
    | go =>
      simp only [KeyboardInteractiveBroker.promptStep] at h
      split at h
      · exact go (s.dropReceiver id) _ _ rfl h (ends (.answered _))
      · split at h
        · exact go (s.dropReceiver id) _ _ rfl h (ends .cancelled)
        · cases h
    | timeout => exact go (s.dropReceiver id) _ _ rfl h (ends .timedOut)
    | abort => exact go (s.dropReceiver id) _ _ rfl h (by rintro _ ⟨⟩)
  | forgetRequest id result =>
    cases c with
    | go => exact go (s.dropSender id) _ _ (hsender id) h hr
    | _ => cases h
  | forgetPending id result =>
    cases c with
    | go =>
      refine go (s.dropPending id) _ _ rfl h ?_
      cases result with
      | none => rintro _ ⟨⟩
      | some result => exact hr
    | _ => cases h
  | returned _ | dropped => cases c <;> cases h

/-- Every prompt of every run of the broker ends in a listed way. -/
theorem prompt_prompted {s : KeyboardInteractiveBroker}
    (hs : Keyboard.machine.Reach Machine.free Keyboard.FreshBroker s) {p : Prompt} (hp : p ∈ s.prompts)
    {result : Except SshError (List String)} (hpc : p.pc = .returned result) : Prompted result := by
  have hall : ∀ p ∈ s.prompts, ∀ x ∈ promptResult p.pc, Prompted x := by
    refine hs.invariant (I := fun s : KeyboardInteractiveBroker =>
      ∀ p ∈ s.prompts, ∀ x ∈ promptResult p.pc, Prompted x) ?_ fun s a t hi _ h => ?_
    · rintro _ rfl p ⟨⟩
    · cases a with
      | promptForConnection args =>
        cases h
        intro p hp
        rcases List.mem_append.mp hp with hp | hp
        · exact hi p hp
        · rw [List.mem_singleton.mp hp]
          rintro _ ⟨⟩
      | prompt i c =>
        simp only [Keyboard.machine, Keyboard.step] at h
        split at h
        · rename_i p hp
          obtain ⟨p', ht, hp'⟩ := promptStep_prompted h (hi p (List.mem_of_getElem? hp))
          intro q hq
          rw [ht] at hq
          rcases List.mem_or_eq_of_mem_set hq with hq | rfl
          · exact hi q hq
          · exact hp'
        · cases h
      | reply i =>
        simp only [Keyboard.machine, Keyboard.step] at h
        split at h
        · rw [(Keyboard.answerStep_frame h).1]
          exact hi
        · cases h
      | _ =>
        cases h
        exact hi
  exact hall p hp result (by rw [hpc]; rfl)

end

/-! ## A prompt nobody answers -/

def sampleHost : Host where
  label := "station".toList
  username := "ada".toList
  port := 22
  authRef := none
  authMode := .password
  privateKeyPath := none
  defaultRemotePath := "/".toList
  jump := none
  addresses := []
  tailscale := none

def lan : AddressCandidate := ⟨⟨"192.168.0.2".toList, 22⟩, none⟩
def tailnet : AddressCandidate := ⟨⟨"100.64.0.2".toList, 22⟩, none⟩

/-- An address is reached, and its key is known. -/
def reached : List Outcome :=
  [.go, .go, .addresses 1, .go, .hostKey .trusted, .go]

/-- The password is refused and the prompt that follows is not answered: both are then
tried at the next address, where the password is sent again. -/
theorem password_sent_to_next_address :
    ∃ s, machine.Reach Machine.free Initial s ∧ s.tried = [lan, tailnet] ∧
      s.offered = [⟨1, .direct, .password [112]⟩, ⟨2, .direct, .password [112]⟩] := by
  have hinit : Initial (.new ⟨1⟩ sampleHost [.password [112], .keyboardInteractive] none false) :=
    ⟨⟨1⟩, sampleHost, [.password [112], .keyboardInteractive], none, false, rfl⟩
  obtain ⟨s, hs, hp⟩ := Machine.Reach.of_run machine Machine.free hinit
    (List.flatten [[.go, .candidates [lan, tailnet], .generation 1, .go], reached,
      [.go, .reply false, .go, .infoRequest "" "" [⟨"Code: ", false⟩], .prompted .timedOut], reached, [.go]])
    (fun s => decide (s.tried = [lan, tailnet]) &&
      decide (s.offered = [⟨1, .direct, .password [112]⟩, ⟨2, .direct, .password [112]⟩]))
    (by decide)
  simp only [Bool.and_eq_true, decide_eq_true_eq] at hp
  exact ⟨s, hs, hp⟩

end KW.Connect
