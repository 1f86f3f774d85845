import KodeWork.Impl.Reconnect
import KodeWork.Proof.Session.Guard

/-!
# What a failed attempt leaves behind

An attempt starts from `Reconnecting`. The connect call writes the state, and
leaves `Failed` behind when it fails. The checks before it do not, and the
supervisor writes the state after a failure only to ask the user for a
credential or to have the host retried. An attempt that fails on its
configuration is therefore made again at the next round, and at every round
after it (`misconfigured_host_retried`).

`unattended_failure_stops_iff` says exactly when a failure that is not retryable
stops the retries: if the attempt gets to its connect call, or if what it lacks
is a credential and the profile is still there to be told.
-/

namespace KW.Reconnect

open Session ActiveSession

/-! ## Credentials -/

/-- The store has a secret under the reference. -/
def UsableSecret (f : Findings) (reference : CredentialRef) : Prop :=
  isManagedReference f reference = true ∧ f.secrets.poisoned = false ∧
    ∃ secret, f.secrets.get reference = .ok secret ∧ secret ≠ []

/-- The store can be asked for the reference, and has no secret under it. -/
def NoSecret (f : Findings) (reference : CredentialRef) : Prop :=
  isManagedReference f reference = true ∧ f.secrets.poisoned = false ∧
    ∀ secret, f.secrets.get reference = .ok secret → secret = []

/-- Everything an unattended login needs is there. -/
def CredentialReady (f : Findings) (mode : AuthenticationMode) (privateKeyPath : Option Text)
    (authRef : Option CredentialRef) : Prop :=
  (∀ reference ∈ authRef, UsableSecret f reference) ∧ (mode = .password → authRef ≠ none) ∧
    (mode = .publicKey → f.isFile (keyPath f privateKeyPath) = true)

/-- The login lacks a secret that the user could give. -/
def CredentialMissing (f : Findings) (mode : AuthenticationMode) (authRef : Option CredentialRef) :
    Prop :=
  (∃ reference ∈ authRef, NoSecret f reference) ∨ (mode = .password ∧ authRef = none)

/-- The supervisor asks the user for a credential after an error of this kind. -/
def asksUser (kind : ConnectErrorKind) : Bool := kind == .credentialRequired || kind == .authentication

/-- How a check before the connect call can end: it passes if `ready` holds, and
it asks the user if `missing` holds. -/
structure Verdict {α : Type} (r : Except ConnectError α) (ready missing : Prop) : Prop where
  ok : (∃ a, r = .ok a) ↔ ready
  asks : (∃ error, r = .error error ∧ asksUser error.kind = true) ↔ missing

theorem Verdict.pass {α : Type} {a : α} {ready missing : Prop} (hr : ready) (hm : ¬ missing) :
    Verdict (.ok a) ready missing :=
  ⟨iff_of_true ⟨a, rfl⟩ hr, iff_of_false (by rintro ⟨_, ⟨⟩, -⟩) hm⟩

theorem Verdict.fail {α : Type} {error : ConnectError} {ready missing : Prop} (hr : ¬ ready)
    (hm : asksUser error.kind = true ↔ missing) : Verdict (.error error : Except ConnectError α) ready missing :=
  ⟨iff_of_false (by rintro ⟨_, ⟨⟩⟩) hr, ⟨by rintro ⟨_, ⟨⟩, h⟩; exact hm.mp h, fun h => ⟨error, rfl, hm.mpr h⟩⟩⟩

/-- A check that never asks the user. -/
theorem Verdict.quiet {α : Type} {r : Except ConnectError α}
    (h : ∀ error, r = .error error → asksUser error.kind = false) : Verdict r (∃ a, r = .ok a) False := by
  refine ⟨Iff.rfl, ?_, False.elim⟩
  rintro ⟨error, he, ha⟩
  rw [h error he] at ha
  cases ha

/-- One check after the other. -/
theorem Verdict.bind {α β : Type} {r : Except ConnectError α} {k : α → Except ConnectError β}
    {ready missing : Prop} {p q : α → Prop} (hr : Verdict r ready missing)
    (hk : ∀ a, r = .ok a → Verdict (k a) (p a) (q a)) :
    Verdict (r >>= k) (∃ a, r = .ok a ∧ p a) (missing ∨ ∃ a, r = .ok a ∧ q a) := by
  cases r with
  | error error =>
    refine .fail (by rintro ⟨_, ⟨⟩, -⟩) ?_
    rw [← hr.asks]
    constructor
    · exact fun h => .inl ⟨error, rfl, h⟩
    · rintro (⟨_, ⟨⟩, h⟩ | ⟨_, ⟨⟩, -⟩)
      exact h
  | ok a =>
    have hn : ¬ missing := by
      rw [← hr.asks]
      rintro ⟨_, ⟨⟩, -⟩
    obtain ⟨hok, hasks⟩ := hk a rfl
    refine ⟨?_, ?_⟩
    · show (∃ b, k a = .ok b) ↔ _
      simp [hok]
    · show (∃ error, k a = .error error ∧ _) ↔ _
      simp [hasks, hn]

theorem Verdict.congr {α : Type} {r : Except ConnectError α} {ready missing ready' missing' : Prop}
    (h : Verdict r ready missing) (hr : ready ↔ ready') (hm : missing ↔ missing') :
    Verdict r ready' missing' := ⟨h.ok.trans hr, h.asks.trans hm⟩

theorem storedSecret_verdict (f : Findings) (authRef : Option CredentialRef) :
    Verdict (storedSecret f authRef) (∀ reference ∈ authRef, UsableSecret f reference)
      (∃ reference ∈ authRef, NoSecret f reference) := by
  cases authRef with
  | none => exact .pass (by simp) (by simp)
  | some reference =>
    simp only [storedSecret, Option.mem_some_iff, forall_eq', exists_eq_left']
    split
    · rename_i hm
      split
      · rename_i hp
        refine .fail (fun h => ?_) ⟨by rintro ⟨⟩, fun h => ?_⟩
        · exact absurd hp (Bool.eq_false_iff.mp h.2.1)
        · exact absurd hp (Bool.eq_false_iff.mp h.2.1)
      · rename_i hp
        have hp' := Bool.eq_false_iff.mpr hp
        split
        · rename_i message hg
          refine .fail ?_ (iff_of_true rfl ⟨hm, hp', fun secret hs => ?_⟩)
          · rintro ⟨-, -, secret, hs, -⟩
            rw [hg] at hs
            cases hs
          · rw [hg] at hs
            cases hs
        · rename_i secret hg
          have hget : ∀ {secret'}, f.secrets.get reference = .ok secret' → secret' = secret := by
            intro secret' hs
            rw [hg] at hs
            cases hs
            rfl
          split
          · rename_i he
            refine .fail ?_ (iff_of_true rfl ⟨hm, hp', fun secret' hs => (hget hs).trans he⟩)
            rintro ⟨-, -, secret', hs, hne⟩
            exact hne ((hget hs).trans he)
          · rename_i he
            refine .pass ⟨hm, hp', secret, hg, he⟩ ?_
            exact fun h => he (h.2.2 secret hg)
    · rename_i hm
      exact .fail (fun h => hm h.1) ⟨by rintro ⟨⟩, fun h => absurd h.1 hm⟩

theorem storedSecret_none {f : Findings} {authRef : Option CredentialRef} {secret : Option (List UInt8)}
    (h : storedSecret f authRef = .ok secret) : secret = none ↔ authRef = none := by
  cases authRef with
  | none =>
    cases h
    simp
  | some reference =>
    simp only [storedSecret] at h
    split at h
    · split at h
      · cases h
      · split at h
        · cases h
        · split at h <;> cases h
          simp
    · cases h

/-- The login is checked: the secret first, then what the mode needs. -/
theorem resolveAuthMethods_verdict (f : Findings) (mode : AuthenticationMode)
    (privateKeyPath : Option Text) (authRef : Option CredentialRef) :
    Verdict (resolveAuthMethods f mode privateKeyPath authRef none)
      (CredentialReady f mode privateKeyPath authRef) (CredentialMissing f mode authRef) := by
  have hs := storedSecret_verdict f authRef
  refine (hs.bind
    (p := fun _ => (mode = .password → authRef ≠ none) ∧
      (mode = .publicKey → f.isFile (keyPath f privateKeyPath) = true))
    (q := fun _ => mode = .password ∧ authRef = none) fun secret hsecret => ?_).congr ?_ ?_
  · have hn := storedSecret_none hsecret
    cases mode with
    | password =>
      cases secret with
      | some secret => exact .pass (by simpa using hn) (by simpa using hn)
      | none => exact .fail (by simpa using hn) (by simpa [asksUser] using hn)
    | publicKey =>
      show Verdict (if f.isFile (keyPath f privateKeyPath) = true then _ else _) _ _
      split
      · rename_i hf
        exact .pass ⟨by rintro ⟨⟩, fun _ => hf⟩ (by rintro ⟨⟨⟩, -⟩)
      · rename_i hf
        exact .fail (fun h => hf (h.2 rfl)) ⟨by rintro ⟨⟩, by rintro ⟨⟨⟩, -⟩⟩
    | sshAgent | keyboardInteractive =>
      exact .pass ⟨by rintro ⟨⟩, by rintro ⟨⟩⟩ (by rintro ⟨⟨⟩, -⟩)
  · rw [CredentialReady, ← hs.ok]
    exact exists_and_right
  · refine or_congr_right ⟨?_, fun h => ⟨none, by rw [h.2]; rfl, h⟩⟩
    rintro ⟨_, -, h⟩
    exact h

/-! ## Before the connect call -/

/-- The connect path gets to its connect call. -/
def Prepared (f : Findings) : Prop :=
  ∃ host, f.secondRow = .row (some host) ∧ validateHost host = .ok () ∧ startTailscale f host = .ok () ∧
    CredentialReady f host.authMode host.privateKeyPath host.authRef ∧
    ∀ jump ∈ host.jump, CredentialReady f jump.authMode jump.privateKeyPath jump.authRef

/-- The connect path stops for want of a credential of the host or of its jump
host. -/
def LacksCredential (f : Findings) : Prop :=
  ∃ host, f.secondRow = .row (some host) ∧ validateHost host = .ok () ∧ startTailscale f host = .ok () ∧
    (CredentialMissing f host.authMode host.authRef ∨
      CredentialReady f host.authMode host.privateKeyPath host.authRef ∧
        ∃ jump ∈ host.jump, CredentialMissing f jump.authMode jump.authRef)

theorem loadHost_ok {row : HostRow} {host : Host} : loadHost row = .ok host ↔ row = .row (some host) := by
  cases row with
  | poisoned | error message => simp [loadHost]
  | row host' => cases host' <;> simp [loadHost]

theorem loadHost_asks {row : HostRow} {error : ConnectError} (h : loadHost row = .error error) :
    asksUser error.kind = false := by
  cases row with
  | poisoned | error message =>
    cases h
    rfl
  | row host =>
    cases host <;> cases h
    rfl

theorem tailscaleKey_asks {f : Findings} {config : TailscaleConfig} {error : ConnectError}
    (h : tailscaleKey f config = .error error) : asksUser error.kind = false := by
  simp only [tailscaleKey] at h
  split at h
  · cases h
  · split at h
    · cases h
      rfl
    · split at h <;> cases h
      rfl

theorem startTailscale_asks {f : Findings} {host : Host} {error : ConnectError}
    (h : startTailscale f host = .error error) : asksUser error.kind = false := by
  simp only [startTailscale] at h
  split at h
  · cases h
  · rename_i config _
    cases hkey : tailscaleKey f config with
    | error error' =>
      rw [hkey] at h
      cases h
      exact tailscaleKey_asks hkey
    | ok key =>
      simp only [hkey, bind, Except.bind] at h
      split at h <;> cases h
      rfl

theorem prepareConnect_verdict (f : Findings) :
    Verdict (prepareConnect f none) (Prepared f) (LacksCredential f) := by
  refine ((Verdict.quiet fun _ => loadHost_asks).bind
    (p := fun host => validateHost host = .ok () ∧ startTailscale f host = .ok () ∧
      CredentialReady f host.authMode host.privateKeyPath host.authRef ∧
      ∀ jump ∈ host.jump, CredentialReady f jump.authMode jump.privateKeyPath jump.authRef)
    (q := fun host => validateHost host = .ok () ∧ startTailscale f host = .ok () ∧
      (CredentialMissing f host.authMode host.authRef ∨
        CredentialReady f host.authMode host.privateKeyPath host.authRef ∧
          ∃ jump ∈ host.jump, CredentialMissing f jump.authMode jump.authRef)) fun host _ => ?_).congr ?_ ?_
  · cases hv : validateHost host with
    | error error => exact .fail (by rintro ⟨⟨⟩, -⟩) ⟨by rintro ⟨⟩, by rintro ⟨⟨⟩, -⟩⟩
    | ok _ =>
      have hauth := resolveAuthMethods_verdict f host.authMode host.privateKeyPath host.authRef
      have hunit : (∃ u, startTailscale f host = .ok u) ↔ startTailscale f host = .ok () := Unique.exists_iff
      refine ((Verdict.quiet fun _ => startTailscale_asks).bind
        fun _ _ => hauth.bind
          (p := fun _ => ∀ jump ∈ host.jump, CredentialReady f jump.authMode jump.privateKeyPath jump.authRef)
          (q := fun _ => ∃ jump ∈ host.jump, CredentialMissing f jump.authMode jump.authRef)
          fun auth _ => ?_).congr ?_ ?_
      · cases host.jump with
        | none => exact .pass (by simp) (by simp)
        | some jump =>
          have hjump := resolveAuthMethods_verdict f jump.authMode jump.privateKeyPath jump.authRef
          refine (hjump.bind (p := fun _ => True) (q := fun _ => False)
            fun _ _ => .pass trivial id).congr ?_ ?_
          · simpa using hjump.ok
          · simp
      · rw [← hauth.ok]
        simp [hunit]
      · rw [← hauth.ok]
        simp [hunit]
  · simp only [loadHost_ok, Prepared]
  · simp only [loadHost_ok, LacksCredential, false_or]

/-! ## The guarded calls -/

theorem setStateThen_reconnecting {s t : ActiveSession} {target : ConnectionState} {p r : Progress}
    (h : s.setStateThen target p = (t, r)) (ht : target ≠ .reconnecting)
    (hs : s.controller.state ≠ .reconnecting) : t.controller.state ≠ .reconnecting := by
  rcases setStateThen_cases s target p with e | e <;> rw [e] at h <;> cases h
  · exact ht
  · exact hs

theorem connectStep_reconnecting {s t : ActiveSession} {pc : ConnectPc} {c : OpChoice} {r : Progress}
    (h : s.connectStep pc c = some (t, r)) (hs : s.controller.state ≠ .reconnecting) :
    t.controller.state ≠ .reconnecting := by
  cases pc with
  | resolve | setReady g | setFailed kind =>
    cases c <;> simp only [connectStep, reduceCtorEq, Option.some.injEq] at h
    exact setStateThen_reconnecting h (by decide) hs
  | attempt n g e =>
    cases n <;> cases c <;> simp only [connectStep, reduceCtorEq, Option.some.injEq] at h
    · cases h
      exact hs
    · exact setStateThen_reconnecting h (by decide) hs
  | install g =>
    cases c <;> simp only [connectStep, ConnectionStateController.installGeneration, reduceCtorEq] at h
    split at h <;> cases h
    · rename_i hc
      split at hc <;> cases hc
      exact hs
    · exact hs
  | candidates =>
    cases c <;> simp only [connectStep, reduceCtorEq] at h
    split at h <;> cases h <;> exact hs
  | dial n g =>
    cases c <;> simp only [connectStep, reduceCtorEq, Option.some.injEq] at h
    · cases h
      exact hs
    · split at h <;> cases h <;> exact hs
  | reserve n | jump n g | store g | clearSftp g | clearPanes g | clearPending g | drainBridges g
  | clearTransfers g | spawnPump g =>
    cases c <;> simp only [connectStep, reduceCtorEq, Option.some.injEq] at h <;> cases h <;> exact hs

/-- A step of a guarded call does not bring the session to `Reconnecting`. -/
theorem opStep_reconnecting {s t : ActiveSession} {c : OpChoice} {r : Progress}
    (h : s.opStep c = some (t, r)) (hs : s.controller.state ≠ .reconnecting) :
    t.controller.state ≠ .reconnecting := by
  simp only [opStep] at h
  split at h
  · exact connectStep_reconnecting h hs
  · split at h
    · rename_i pc _ _
      have hd : s.disconnectStep pc = (t, r) := Option.some.inj h
      cases pc with
      | setDisconnected => exact setStateThen_reconnecting hd (by decide) hs
      | reserve | take | close | clearPanes | clearSftp | takeTransfers | drainBridges
      | clearSubscribers | clearPending | closeTunnels =>
        cases hd
        exact hs
    · cases h
  · cases h

theorem runCall_reconnecting {cs : List OpChoice} : ∀ {s t : ActiveSession} {result : OpResult},
    runCall s cs = some (t, result) → s.controller.state ≠ .reconnecting →
    t.controller.state ≠ .reconnecting := by
  induction cs with
  | nil =>
    intro s t result h
    cases h
  | cons c cs ih =>
    intro s t result h hs
    simp only [runCall] at h
    split at h
    · cases h
    · rename_i u op hu
      have hn := opStep_reconnecting hu hs
      exact ih h hn
    · rename_i u r hu
      have hn := opStep_reconnecting hu hs
      split at h <;> cases h
      exact hn

/-- A connect call from `Reconnecting` ends in another state. -/
theorem connect_reconnecting {s t u : ActiveSession} {cs : List OpChoice} {result : OpResult}
    (hs : s.controller.state = .reconnecting) (ht : s.acquireGuard (.connect .resolve) = some t)
    (h : runCall t cs = some (u, result)) : u.controller.state ≠ .reconnecting := by
  simp only [acquireGuard] at ht
  split at ht <;> cases ht
  cases cs with
  | nil => cases h
  | cons c cs =>
    -- the first step goes to `ResolvingAddress`, which `Reconnecting` allows
    cases c <;> simp only [runCall, opStep, connectStep, setStateThen,
      ConnectionStateController.transition, hs, connectionTransition, reduceCtorEq] at h
    exact runCall_reconnecting h (by rintro ⟨⟩)

theorem disconnectStep_disconnected (s : ActiveSession) (pc : DisconnectPc) :
    (∃ t pc', s.disconnectStep pc = (t, .next (.disconnect pc'))) ∨
    ∃ t r, s.disconnectStep pc = (t, .done r) ∧ t.controller.state = .disconnected := by
  cases pc with
  | setDisconnected =>
    refine .inr ⟨{ s with controller := { s.controller with state := .disconnected } }, .disconnected, ?_, rfl⟩
    simp only [disconnectStep, setStateThen, transition_disconnected]
  | reserve | take | close | clearPanes | clearSftp | takeTransfers | drainBridges | clearSubscribers
  | clearPending | closeTunnels => exact .inl ⟨_, _, rfl⟩

theorem runCall_disconnected {cs : List OpChoice} :
    ∀ {s t : ActiveSession} {pc : DisconnectPc} {result : OpResult}, s.op = some (.disconnect pc) →
    runCall s cs = some (t, result) → t.controller.state = .disconnected := by
  induction cs with
  | nil =>
    intro s t pc result _ h
    cases h
  | cons c cs ih =>
    intro s t pc result ho h
    simp only [runCall, opStep, ho] at h
    split at h
    · cases h
    · rename_i u op hu
      split at hu
      · rcases disconnectStep_disconnected s pc with ⟨_, pc', e⟩ | ⟨_, _, e, -⟩ <;> rw [e] at hu <;> cases hu
        exact ih rfl h
      · cases hu
    · rename_i u r hu
      split at hu
      · rcases disconnectStep_disconnected s pc with ⟨_, pc', e⟩ | ⟨_, _, e, hd⟩ <;> rw [e] at hu <;> cases hu
        split at h <;> cases h
        exact hd
      · cases hu

/-- A disconnect call ends in `Disconnected`. -/
theorem disconnect_state {s t : ActiveSession} (h : disconnect s = some t) :
    t.controller.state = .disconnected := by
  obtain ⟨u, hu, h⟩ := Option.bind_eq_some_iff.mp h
  obtain ⟨⟨v, r⟩, hv, rfl⟩ := Option.map_eq_some_iff.mp h
  simp only [acquireGuard] at hu
  split at hu <;> cases hu
  exact runCall_disconnected rfl hv

/-! ## After the attempt -/

theorem markWaitingForCredential_reconnecting (s : ActiveSession) :
    s.markWaitingForCredential.controller.state ≠ .reconnecting := by
  by_cases hs : s.controller.state = .reconnecting
  · simp [markWaitingForCredential, mark, ConnectionStateController.transition, hs, connectionTransition]
  · rcases mark_cases s .waitingForCredential with e | e <;> rw [markWaitingForCredential, e]
    · rintro ⟨⟩
    · exact hs

/-- A failure that is not retryable leaves `Reconnecting` behind unless the
attempt has left it, or the user is asked. -/
theorem completeAttempt_reconnecting (now : Nat) {error : ConnectError} (s : HostState)
    (hr : error.kind.retryable = false) :
    (completeAttempt now (.error error) s).session.controller.state ≠ .reconnecting ↔
      s.session.controller.state ≠ .reconnecting ∨ s.profile = true ∧ asksUser error.kind = true := by
  have hasks : asksUser error.kind = true ↔
      error.kind = .credentialRequired ∨ error.kind = .authentication := by simp [asksUser]
  simp only [completeAttempt, hasks, hr]
  by_cases hp : s.profile = true
  · by_cases ha : error.kind = .credentialRequired ∨ error.kind = .authentication
    · simp only [hp, ha, if_true, and_self, or_true, iff_true]
      exact markWaitingForCredential_reconnecting s.session
    · simp [hp, ha]
  · simp [hp]

/-- The attempt gets to its connect call. -/
def GetsToConnect (f : Findings) : Prop :=
  (∃ host, f.firstRow = .row (some host) ∧ canAttemptUnattended host = true) ∧ f.activeBefore = true ∧
    Prepared f

/-- What the attempt lacks is a credential: its mode needs the user, or the
connect path stops for want of a secret. -/
def AsksCredential (f : Findings) : Prop :=
  ∃ host, f.firstRow = .row (some host) ∧
    (canAttemptUnattended host = false ∨ f.activeBefore = true ∧ LacksCredential f)

/-- The connect path stops before its connect call, or leaves `Reconnecting`. -/
theorem connectHostInner_cases {f : Findings} {s t : HostState} {r : Except ConnectError Text}
    (hs : s.session.controller.state = .reconnecting)
    (h : connectHostInnerWithProfile f s none false = some (t, r)) :
    (∃ error, prepareConnect f none = .error error ∧ t = s ∧ r = .error error) ∨
      (∃ auth, prepareConnect f none = .ok auth) ∧ t.session.controller.state ≠ .reconnecting := by
  simp only [connectHostInnerWithProfile] at h
  split at h
  · rename_i error hp
    cases h
    exact .inl ⟨error, hp, rfl, rfl⟩
  · rename_i auth hp
    obtain ⟨⟨u, result⟩, hu, h⟩ := Option.bind_eq_some_iff.mp h
    obtain ⟨v, hv, hu⟩ := Option.bind_eq_some_iff.mp hu
    have hn := connect_reconnecting hs hv hu
    cases result <;> cases h
    · exact .inr ⟨⟨auth, hp⟩, hn⟩
    · exact .inr ⟨⟨auth, hp⟩, hn⟩

/-- What a failed attempt has done: nothing, when it did not get to its connect
call, or it has left `Reconnecting`. -/
theorem reconnectOnce_cases {f : Findings} {s t : HostState} {error : ConnectError}
    (hs : s.session.controller.state = .reconnecting) (h : reconnectOnce f s = some (t, .error error)) :
    (t = s ∧ ¬ GetsToConnect f ∧ (asksUser error.kind = true ↔ AsksCredential f)) ∨
      GetsToConnect f ∧ t.session.controller.state ≠ .reconnecting := by
  simp only [reconnectOnce] at h
  split at h
  · rename_i error' hload
    cases h
    have hno : ∀ host, f.firstRow ≠ .row (some host) := by
      intro host e
      rw [loadHost_ok.mpr e] at hload
      cases hload
    refine .inl ⟨rfl, ?_, ?_⟩
    · rintro ⟨⟨host, e, -⟩, -⟩
      exact hno host e
    · rw [loadHost_asks hload]
      refine ⟨by rintro ⟨⟩, ?_⟩
      rintro ⟨host, e, -⟩
      exact absurd e (hno host)
  · rename_i host hload
    have hrow := loadHost_ok.mp hload
    have hhost : ∀ {host'}, f.firstRow = .row (some host') → host' = host := by
      intro host' e
      rw [hrow] at e
      cases e
      rfl
    split at h
    · rename_i hcan
      split at h
      · rename_i hact
        have hverdict := prepareConnect_verdict f
        split at h
        · cases h
        · rename_i u error' hconn
          cases h
          rcases connectHostInner_cases hs hconn with ⟨e, hp, rfl, ⟨⟩⟩ | ⟨hp, hn⟩
          · refine .inl ⟨rfl, fun hg => ?_, fun ha => ⟨host, hrow, .inr ⟨hact, hverdict.asks.mp ⟨_, hp, ha⟩⟩⟩, ?_⟩
            · obtain ⟨auth, hok⟩ := hverdict.ok.mpr hg.2.2
              rw [hp] at hok
              cases hok
            · rintro ⟨host', e, hc | ⟨-, hl⟩⟩
              · rw [hhost e, hcan] at hc
                cases hc
              · obtain ⟨error', he, ha⟩ := hverdict.asks.mpr hl
                rw [hp] at he
                cases he
                exact ha
          · exact .inr ⟨⟨⟨host, hrow, hcan⟩, hact, hverdict.ok.mp hp⟩, hn⟩
        · rename_i u message hconn
          rcases connectHostInner_cases hs hconn with ⟨_, _, _, ⟨⟩⟩ | ⟨hp, -⟩
          obtain ⟨v, -, h⟩ := Option.bind_eq_some_iff.mp h
          split at h
          · cases h
          · -- the attempt finds itself cancelled, and disconnects
            obtain ⟨w, hw, he⟩ := Option.map_eq_some_iff.mp h
            cases he
            refine .inr ⟨⟨⟨host, hrow, hcan⟩, hact, hverdict.ok.mp hp⟩, ?_⟩
            rw [disconnect_state hw]
            rintro ⟨⟩
      · rename_i hact
        cases h
        refine .inl ⟨rfl, fun hg => hact hg.2.1, by rintro ⟨⟩, ?_⟩
        rintro ⟨host', e, hc | ⟨ha, -⟩⟩
        · rw [hhost e, hcan] at hc
          cases hc
        · exact absurd ha hact
    · rename_i hcan
      cases h
      refine .inl ⟨rfl, ?_, fun _ => ⟨host, hrow, .inl (Bool.eq_false_iff.mpr hcan)⟩, fun _ => rfl⟩
      rintro ⟨⟨host', e, hc⟩, -⟩
      exact hcan (hhost e ▸ hc)

/-- A failure that is not retryable stops the retries of the host if and only if
the attempt got to its connect call, or lacked a credential while its profile
was there. -/
theorem unattended_failure_stops_iff {f : Findings} {now : Nat} {s t : HostState} {error : ConnectError}
    (hs : s.session.controller.state = .reconnecting)
    (h : superviseAttempt f now s = some (t, .error error)) (hr : error.kind.retryable = false) :
    (t.session.controller.state ≠ .reconnecting ∧ ∀ later, tickRetries t later = false) ↔
      GetsToConnect f ∨ s.profile = true ∧ AsksCredential f := by
  obtain ⟨⟨u, r⟩, hu, he⟩ := Option.map_eq_some_iff.mp h
  obtain ⟨rfl, rfl⟩ := Prod.mk.inj he
  have hstop : ∀ v : HostState, v.session.controller.state ≠ .reconnecting →
      ∀ later, tickRetries v later = false := by
    intro v hv later
    simp [tickRetries, hv]
  rw [and_iff_left_of_imp (hstop _), completeAttempt_reconnecting now u hr]
  rcases reconnectOnce_cases (s := { s with reconnecting := true }) hs hu with ⟨rfl, hn, ha⟩ | ⟨hg, hne⟩
  · simp [hs, hn, ha]
  · simp [hg, hne]

/-! ## Two attempts -/

/-- A session that was connected and has lost its transport. -/
def lostSession : ActiveSession :=
  (Session.machine.run Machine.free (.new 512) (List.flatten [attachTrace, [.op .go],
    .pump 1 (.event (.disconnected "reset")) :: List.replicate 8 (.pump 1 .go)])).getD (.new 512)

def lostHost : HostState := ⟨lostSession, true, false, none⟩

theorem lostHost_reconnecting : lostHost.session.controller.state = .reconnecting := by decide

def keyHost : Host where
  label := "workstation".toList
  username := "dev".toList
  port := 22
  authRef := none
  authMode := .publicKey
  privateKeyPath := some "~/.ssh/workstation".toList
  defaultRemotePath := ['/']
  jump := none
  addresses := [⟨"10.0.0.2".toList, 22⟩]
  tailscale := none

/-- The attempt finds `keyHost`, and its key file if `present`; the only
candidate does not accept the key. -/
def keyFindings (present : Bool) : Findings where
  firstRow := .row (some keyHost)
  secondRow := .row (some keyHost)
  activeBefore := true
  activeAfter := true
  provider := .nativeKeyring
  secrets := ⟨false, fun _ => .error "no entry".toList⟩
  ensure := fun _ _ => .ok ()
  homeDir := some "/home/dev".toList
  isFile := fun _ => present
  choices := [.go, .candidates 1, .go, .go, .go, .dialError .authenticationFailed, .go]
  connectDetail := "candidate 10.0.0.2: authentication failed".toList
  events := []

/-- Whether the attempt failed with an error of this kind. -/
def failedWith (kind : ConnectErrorKind) (r : HostState × Except ConnectError Text) : Bool :=
  match r.2 with
  | .error error => error.kind == kind
  | .ok _ => false

theorem failedWith_cases {kind : ConnectErrorKind} {o : Option (HostState × Except ConnectError Text)}
    (h : o.any (failedWith kind) = true) : ∃ t error, o = some (t, .error error) ∧ error.kind = kind := by
  cases o with
  | none => cases h
  | some r =>
    obtain ⟨t, error | message⟩ := r
    · exact ⟨t, error, rfl, by simpa [failedWith] using h⟩
    · cases h

/-- The key is not accepted: the user is asked, and the host is not retried. -/
theorem rejected_key_stops : ∃ t error,
    superviseAttempt (keyFindings true) 0 lostHost = some (t, .error error) ∧
      error.kind.retryable = false ∧ t.session.controller.state ≠ .reconnecting ∧
      ∀ later, tickRetries t later = false := by
  obtain ⟨t, error, h, hk⟩ := failedWith_cases (show (superviseAttempt (keyFindings true) 0 lostHost).any
    (failedWith .authentication) = true by decide)
  have hr : error.kind.retryable = false := by rw [hk]; rfl
  refine ⟨t, error, h, hr, (unattended_failure_stops_iff lostHost_reconnecting h hr).mpr (.inl ?_)⟩
  refine ⟨⟨keyHost, rfl, rfl⟩, rfl, keyHost, rfl, by decide, rfl, ⟨?_, ?_, fun _ => rfl⟩, ?_⟩
  · rintro _ ⟨⟩
  · rintro ⟨⟩
  · rintro _ ⟨⟩

/-- The key file is gone: the attempt fails, and the next round of the supervisor
starts another one. -/
theorem misconfigured_host_retried : ∃ t error,
    superviseAttempt (keyFindings false) 0 lostHost = some (t, .error error) ∧
      error.kind.retryable = false ∧ t.session.controller.state = .reconnecting ∧
      tickRetries t 0 = true := by
  obtain ⟨t, error, h, hk⟩ := failedWith_cases (show (superviseAttempt (keyFindings false) 0 lostHost).any
    (failedWith .invalidConfiguration) = true by decide)
  have hp : (superviseAttempt (keyFindings false) 0 lostHost).all (fun r =>
      r.1.session.controller.state == .reconnecting && tickRetries r.1 0) = true := by decide
  rw [h] at hp
  simp only [Option.all_some, Bool.and_eq_true, beq_iff_eq] at hp
  exact ⟨t, error, h, by rw [hk]; rfl, hp⟩

end KW.Reconnect
