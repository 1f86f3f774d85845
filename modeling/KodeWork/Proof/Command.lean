import KodeWork.Impl.Command

/-!
# What a remote command has said

After the messages `ms`, the loop of `runCommandTracked` holds what `Read` says of them:
each stream is captured (`Captured`), the status and the end of the stream are known if
they have arrived, and no request has been refused. `Inv` adds how the call may have
ended, for every order of messages and every time of the deadline (`run_inv`).

An error says that nothing was dispatched in two cases only: no message was received, or
the last one is a refusal. So evidence of a start is only lost where a refusal follows it
(`start_reported_iff`), and the output of a call that succeeds is what `output_received`
says.
-/

namespace KW.Command

/-! ## A captured stream -/

/-- The payload of a message on the standard output. -/
def ChannelMsg.stdout : ChannelMsg → Option (List UInt8)
  | .data bytes => some bytes
  | _ => none

/-- The payload of a message on the standard error. -/
def ChannelMsg.stderr : ChannelMsg → Option (List UInt8)
  | .extendedData bytes ext => if ext = 1 then some bytes else none
  | _ => none

/-- What is captured of a stream that came in these payloads. -/
structure Captured (maxCapture : Nat) (payloads : List (List UInt8)) (bytes : List UInt8) (truncated : Bool) :
    Prop where
  isPrefix : bytes <+: payloads.flatten
  complete (h : truncated = false) : bytes = payloads.flatten
  full (h : truncated = true) : maxCapture ≤ bytes.length
  bound {n : Nat} (hpos : 0 < n) (h : ∀ p ∈ payloads, p.length ≤ n) : bytes.length < maxCapture + n

namespace Captured

variable {maxCapture : Nat} {payloads : List (List UInt8)} {bytes : List UInt8} {truncated : Bool}

theorem new (maxCapture : Nat) : Captured maxCapture [] [] false :=
  ⟨List.prefix_rfl, fun _ => rfl, (fun h => by cases h), fun hpos _ => Nat.add_pos_right _ hpos⟩

theorem extend (h : Captured maxCapture payloads bytes truncated) (hroom : bytes.length < maxCapture)
    (data : List UInt8) : Captured maxCapture (payloads ++ [data]) (bytes ++ data) truncated := by
  -- there is room, so nothing has been cut off
  have htruncated : truncated = false := by
    cases truncated with
    | false => rfl
    | true => exact (Nat.not_le.mpr hroom (h.full rfl)).elim
  have hbytes : bytes ++ data = (payloads ++ [data]).flatten := by
    rw [List.flatten_concat, ← h.complete htruncated]
  refine ⟨hbytes ▸ List.prefix_rfl, fun _ => hbytes, fun ht => ?_, fun {n} _ hn => ?_⟩
  · rw [htruncated] at ht
    cases ht
  · have hdata : data.length ≤ n := hn data (by simp)
    rw [List.length_append]
    omega

theorem drop (h : Captured maxCapture payloads bytes truncated) (hfull : ¬ bytes.length < maxCapture)
    (data : List UInt8) : Captured maxCapture (payloads ++ [data]) bytes true := by
  refine ⟨?_, (fun ht => by cases ht), fun _ => Nat.not_lt.mp hfull, fun hpos hn => ?_⟩
  · rw [List.flatten_concat]
    exact h.isPrefix.trans (List.prefix_append _ data)
  · exact h.bound hpos fun p hp => hn p (List.mem_append_left _ hp)

end Captured

/-! ## The loop -/

/-- The message shows that the command was started. -/
def ChannelMsg.started : ChannelMsg → Bool
  | .success | .data _ | .exitStatus _ | .eof => true
  | .extendedData _ ext => ext = 1
  | _ => false

/-- An exit status has arrived. -/
def HasStatus (ms : List ChannelMsg) : Prop := ∃ status, ChannelMsg.exitStatus status ∈ ms

/-- What the loop holds after these messages. -/
structure Read (maxCapture : Nat) (ms : List ChannelMsg) (r : Reader) : Prop where
  stdout : Captured maxCapture (ms.filterMap ChannelMsg.stdout) r.stdout r.stdoutTruncated
  stderr : Captured maxCapture (ms.filterMap ChannelMsg.stderr) r.stderr r.stderrTruncated
  status : r.exitCode.isSome = true ↔ HasStatus ms
  eof : r.sawEof = true ↔ ChannelMsg.eof ∈ ms
  accepted : ChannelMsg.failure ∉ ms

/-- The messages among the events. -/
def messages (evs : List Event) : List ChannelMsg :=
  evs.filterMap fun
    | .message m => some m
    | _ => none

/-- The events end a conversation. -/
def Ends (evs : List Event) : Prop :=
  evs.getLast? = some .ended ∨ evs.getLast? = some (.message .close) ∨
    (ChannelMsg.eof ∈ messages evs ∧ HasStatus (messages evs))

/-- What has become of a call after these events. -/
def Inv (maxCapture : Nat) (evs : List Event) (c : Call) : Prop :=
  match c.pc with
  | .opening | .sending => messages evs = [] ∧ c.dispatched = false
  | .reading r => Read maxCapture (messages evs) r ∧ c.dispatched = true
  | .returned (.ok output) => Ends evs ∧ ∃ r, Read maxCapture (messages evs) r ∧ output = r.output
  | .returned (.error e) =>
    (ChannelMsg.failure ∈ messages evs → e.dispatched = false) ∧
      (e.dispatched = false → messages evs = [] ∨ ∃ ms, messages evs = ms ++ [.failure])

theorem messages_message (evs : List Event) (m : ChannelMsg) :
    messages (evs ++ [.message m]) = messages evs ++ [m] := by
  rw [messages, List.filterMap_append]
  rfl

theorem Read.new (maxCapture : Nat) : Read maxCapture [] .new where
  stdout := .new maxCapture
  stderr := .new maxCapture
  status := by simp [Reader.new, HasStatus]
  eof := by simp [Reader.new]
  accepted := by simp

theorem payloads_concat {ms : List ChannelMsg} {m : ChannelMsg} {payload : ChannelMsg → Option (List UInt8)}
    (h : payload m = none) : (ms ++ [m]).filterMap payload = ms.filterMap payload := by
  simp [h]

/-- A message that neither is captured nor says anything the loop remembers. -/
theorem Read.silent {maxCapture : Nat} {ms : List ChannelMsg} {r : Reader} (h : Read maxCapture ms r)
    {m : ChannelMsg} (hout : m.stdout = none) (herr : m.stderr = none) (hstatus : ∀ s, m ≠ .exitStatus s)
    (heof : m ≠ .eof) (hfailure : m ≠ .failure) : Read maxCapture (ms ++ [m]) r where
  stdout := by rw [payloads_concat hout]; exact h.stdout
  stderr := by rw [payloads_concat herr]; exact h.stderr
  status := by
    rw [h.status]
    exact exists_congr fun s => by simp [Ne.symm (hstatus s)]
  eof := by simpa [Ne.symm heof] using h.eof
  accepted := by simpa [Ne.symm hfailure] using h.accepted

theorem Read.data {maxCapture : Nat} {ms : List ChannelMsg} {r : Reader} (h : Read maxCapture ms r)
    (data : List UInt8) :
    Read maxCapture (ms ++ [.data data])
      (if r.stdout.length < maxCapture then { r with stdout := r.stdout ++ data }
      else { r with stdoutTruncated := true }) := by
  have hpayloads : (ms ++ [ChannelMsg.data data]).filterMap ChannelMsg.stdout = ms.filterMap ChannelMsg.stdout ++ [data] := by
    simp [ChannelMsg.stdout]
  have herr : (ms ++ [ChannelMsg.data data]).filterMap ChannelMsg.stderr = ms.filterMap ChannelMsg.stderr :=
    payloads_concat rfl
  have hstatus : HasStatus (ms ++ [.data data]) ↔ HasStatus ms := exists_congr fun s => by simp
  split
  · case isTrue hroom =>
    exact ⟨hpayloads ▸ h.stdout.extend hroom data, herr ▸ h.stderr, h.status.trans hstatus.symm,
      by simpa using h.eof, by simpa using h.accepted⟩
  · case isFalse hfull =>
    exact ⟨hpayloads ▸ h.stdout.drop hfull data, herr ▸ h.stderr, h.status.trans hstatus.symm,
      by simpa using h.eof, by simpa using h.accepted⟩

theorem Read.extendedData {maxCapture : Nat} {ms : List ChannelMsg} {r : Reader} (h : Read maxCapture ms r)
    (data : List UInt8) :
    Read maxCapture (ms ++ [.extendedData data 1])
      (if r.stderr.length < maxCapture then { r with stderr := r.stderr ++ data }
      else { r with stderrTruncated := true }) := by
  have hpayloads : (ms ++ [ChannelMsg.extendedData data 1]).filterMap ChannelMsg.stderr = ms.filterMap ChannelMsg.stderr ++ [data] := by
    simp [ChannelMsg.stderr]
  have hout : (ms ++ [ChannelMsg.extendedData data 1]).filterMap ChannelMsg.stdout = ms.filterMap ChannelMsg.stdout :=
    payloads_concat rfl
  have hstatus : HasStatus (ms ++ [.extendedData data 1]) ↔ HasStatus ms := exists_congr fun s => by simp
  split
  · case isTrue hroom =>
    exact ⟨hout ▸ h.stdout, hpayloads ▸ h.stderr.extend hroom data, h.status.trans hstatus.symm,
      by simpa using h.eof, by simpa using h.accepted⟩
  · case isFalse hfull =>
    exact ⟨hout ▸ h.stdout, hpayloads ▸ h.stderr.drop hfull data, h.status.trans hstatus.symm,
      by simpa using h.eof, by simpa using h.accepted⟩

theorem Read.exitStatus {maxCapture : Nat} {ms : List ChannelMsg} {r : Reader} (h : Read maxCapture ms r)
    (status : UInt32) : Read maxCapture (ms ++ [.exitStatus status]) { r with exitCode := some status } where
  stdout := by rw [payloads_concat rfl]; exact h.stdout
  stderr := by rw [payloads_concat rfl]; exact h.stderr
  status := iff_of_true rfl ⟨status, by simp⟩
  eof := by simpa using h.eof
  accepted := by simpa using h.accepted

theorem Read.eofMessage {maxCapture : Nat} {ms : List ChannelMsg} {r : Reader} (h : Read maxCapture ms r) :
    Read maxCapture (ms ++ [.eof]) { r with sawEof := true } where
  stdout := by rw [payloads_concat rfl]; exact h.stdout
  stderr := by rw [payloads_concat rfl]; exact h.stderr
  status := h.status.trans (exists_congr fun s => by simp)
  eof := iff_of_true rfl (by simp)
  accepted := by simpa using h.accepted

/-! ## A call -/

/-- What a call that has failed before the loop, or at the deadline, says. -/
theorem inv_fail {maxCapture : Nat} {evs : List Event} {c : Call} {e : SshError}
    (hfailure : ChannelMsg.failure ∉ messages evs) (h : c.dispatched = false → messages evs = []) :
    Inv maxCapture evs (c.fail e) :=
  ⟨fun hin => (hfailure hin).elim, fun hd => .inl (h hd)⟩

theorem inv_finish {maxCapture : Nat} {evs : List Event} {c : Call} {r : Reader} (hends : Ends evs)
    (h : Read maxCapture (messages evs) r) : Inv maxCapture evs (c.finish r) := ⟨hends, r, h, rfl⟩

theorem inv_reading {maxCapture : Nat} {evs : List Event} {r : Reader} (h : Read maxCapture (messages evs) r) :
    Inv maxCapture evs ⟨true, .reading r⟩ := ⟨h, rfl⟩

/-- One message. -/
theorem inv_receive {maxCapture : Nat} {evs : List Event} {c : Call} {r : Reader}
    (h : Read maxCapture (messages evs) r) (hd : c.dispatched = true) (m : ChannelMsg) :
    Inv maxCapture (evs ++ [.message m]) (c.receive maxCapture r m) := by
  have hms : messages (evs ++ [.message m]) = messages evs ++ [m] := messages_message evs m
  have hreading {r' : Reader} (h' : Read maxCapture (messages evs ++ [m]) r') :
      Inv maxCapture (evs ++ [.message m]) ⟨true, .reading r'⟩ := inv_reading (hms ▸ h')
  cases m with
  | success => exact hreading (h.silent rfl rfl (by simp) (by simp) (by simp))
  | failure => exact ⟨fun _ => rfl, fun _ => .inr ⟨messages evs, hms⟩⟩
  | data data =>
    have hread := hreading (h.data data)
    rw [Call.receive]
    split at hread <;> split <;> first | exact hread | contradiction
  | extendedData data ext =>
    rw [Call.receive]
    by_cases hext : ext = 1
    · subst hext
      have hread := hreading (h.extendedData data)
      rw [if_pos rfl]
      split at hread <;> split <;> first | exact hread | contradiction
    · rw [if_neg hext, hd]
      exact hreading (h.silent rfl (if_neg hext) (by simp) (by simp) (by simp))
  | exitStatus status =>
    rw [Call.receive]
    split
    · case isTrue heof =>
      refine inv_finish (.inr (.inr ⟨?_, ?_⟩)) (hms ▸ h.exitStatus status)
      · rw [hms]
        exact List.mem_append_left _ (h.eof.mp heof)
      · exact ⟨status, by rw [hms]; simp⟩
    · exact hreading (h.exitStatus status)
  | eof =>
    rw [Call.receive]
    split
    · case isTrue hstatus =>
      obtain ⟨status, hin⟩ := h.status.mp hstatus
      refine inv_finish (.inr (.inr ⟨?_, status, ?_⟩)) (hms ▸ h.eofMessage)
      · rw [hms]
        simp
      · rw [hms]
        exact List.mem_append_left _ hin
    · exact hreading h.eofMessage
  | close =>
    rw [Call.receive, if_pos hd]
    refine inv_finish (.inr (.inl (by rw [List.getLast?_concat]))) ?_
    exact hms ▸ h.silent rfl rfl (by simp) (by simp) (by simp)
  | other =>
    rw [Call.receive, hd]
    exact hreading (h.silent rfl rfl (by simp) (by simp) (by simp))

/-- An event that is no message. -/
theorem messages_concat {evs : List Event} {ev : Event} (h : ∀ m, ev ≠ .message m) :
    messages (evs ++ [ev]) = messages evs := by
  rw [messages, List.filterMap_append, messages]
  cases ev with
  | message m => exact (h m rfl).elim
  | opened | sent | ended | deadline => exact List.append_nil _

/-- What an event does to a call. -/
theorem inv_step {maxCapture : Nat} {evs : List Event} {c d : Call} {ev : Event} (h : Inv maxCapture evs c)
    (hstep : (runCommandTracked maxCapture).step c ev = some d) : Inv maxCapture (evs ++ [ev]) d := by
  obtain ⟨dispatched, pc⟩ := c
  cases ev with
  | deadline =>
    have hms : messages (evs ++ [.deadline]) = messages evs := messages_concat (by simp)
    cases pc with
    | opening | sending =>
      cases hstep
      obtain ⟨hnone, -⟩ := h
      exact inv_fail (by rw [hms, hnone]; simp) fun _ => hms.trans hnone
    | reading r =>
      cases hstep
      obtain ⟨hread, hd⟩ := h
      refine inv_fail (by rw [hms]; exact hread.accepted) fun hd' => ?_
      cases hd.symm.trans hd'
    | returned => cases hstep
  | opened result poisoned =>
    have hms : messages (evs ++ [.opened result poisoned]) = messages evs := messages_concat (by simp)
    cases pc with
    | opening =>
      obtain ⟨hnone, hd⟩ := h
      have hfail (e : SshError) :
          Inv maxCapture (evs ++ [.opened result poisoned]) (Call.fail ⟨dispatched, .opening⟩ e) :=
        inv_fail (by rw [hms, hnone]; simp) fun _ => hms.trans hnone
      cases result with
      | error e => cases hstep; exact hfail e
      | ok =>
        cases poisoned with
        | true => cases hstep; exact hfail .cancelled
        | false => cases hstep; exact ⟨hms.trans hnone, hd⟩
    | sending | reading | returned => cases hstep
  | sent result =>
    have hms : messages (evs ++ [.sent result]) = messages evs := messages_concat (by simp)
    cases pc with
    | sending =>
      obtain ⟨hnone, -⟩ := h
      cases result with
      | error e =>
        cases hstep
        exact inv_fail (by rw [hms, hnone]; simp) fun _ => hms.trans hnone
      | ok =>
        cases hstep
        refine inv_reading ?_
        rw [hms, hnone]
        exact .new maxCapture
    | opening | reading | returned => cases hstep
  | message m =>
    cases pc with
    | reading r => cases hstep; exact inv_receive h.1 h.2 m
    | opening | sending | returned => cases hstep
  | ended =>
    have hms : messages (evs ++ [.ended]) = messages evs := messages_concat (by simp)
    cases pc with
    | reading r =>
      cases hstep
      exact inv_finish (.inl (by rw [List.getLast?_concat])) (hms ▸ h.1)
    | opening | sending | returned => cases hstep

theorem run_inv {maxCapture : Nat} {evs : List Event} {c : Call}
    (h : (runCommandTracked maxCapture).run Machine.free .new evs = some c) : Inv maxCapture evs c :=
  Machine.run_trace ⟨rfl, rfl⟩ (fun hinv _ hstep => inv_step hinv hstep) h

/-! ## Evidence of a start -/

/-- A refusal behind evidence that the command was started. -/
def RefusedLate (ms : List ChannelMsg) : Prop :=
  ∃ before after, ms = before ++ .failure :: after ∧ before.any ChannelMsg.started = true

/-- A call that was started is never reported as not dispatched, unless a refusal follows
the evidence. -/
theorem start_reported_iff {maxCapture : Nat} {evs : List Event} {c : Call}
    (h : (runCommandTracked maxCapture).run Machine.free .new evs = some c) :
    (∀ e, c.pc = .returned (.error e) → e.dispatched = false → ∀ m ∈ messages evs, m.started = false) ↔
      ¬ RefusedLate (messages evs) := by
  have hinv := run_inv h
  constructor
  · intro hreported ⟨before, after, hms, hstarted⟩
    have hin : ChannelMsg.failure ∈ messages evs := by rw [hms]; simp
    obtain ⟨m, hm, hm'⟩ := List.any_eq_true.mp hstarted
    have hmem : m ∈ messages evs := by rw [hms]; exact List.mem_append_left _ hm
    rw [Inv] at hinv
    split at hinv
    · exact List.not_mem_nil (hinv.1 ▸ hin)
    · exact List.not_mem_nil (hinv.1 ▸ hin)
    · exact hinv.1.accepted hin
    · obtain ⟨-, r, hread, -⟩ := hinv
      exact hread.accepted hin
    · case h_5 e hpc =>
      have hfalse := hreported e hpc (hinv.1 hin) m hmem
      rw [hm'] at hfalse
      cases hfalse
  · intro hlate e hpc hd m hm
    rw [Inv, hpc] at hinv
    rcases hinv.2 hd with hnone | ⟨ms, hms⟩
    · rw [hnone] at hm
      cases hm
    · rw [hms] at hm
      rcases List.mem_append.mp hm with hbefore | hlast
      · rw [← Bool.not_eq_true]
        exact fun hstarted => hlate ⟨ms, [], hms, List.any_eq_true.mpr ⟨m, hbefore, hstarted⟩⟩
      · rw [List.mem_singleton.mp hlast]
        rfl

/-- The server accepts the request, and then refuses one. -/
def refusedLate : List Event :=
  [.opened (.ok ()) false, .sent (.ok ()), .message .success, .message .failure]

def notDispatched : Call :=
  ⟨false, .returned (.error ⟨.protocol "remote rejected exec request", false⟩)⟩

theorem start_reported_refused :
    (∀ e, notDispatched.pc = .returned (.error e) → e.dispatched = false →
        ∀ m ∈ messages refusedLate, m.started = false) ↔ ¬ RefusedLate (messages refusedLate) :=
  @start_reported_iff 1 refusedLate notDispatched (by decide)

theorem start_denied : ¬ ∀ (maxCapture : Nat) (evs : List Event) (c : Call),
    (runCommandTracked maxCapture).run Machine.free .new evs = some c →
    ∀ e, c.pc = .returned (.error e) → e.dispatched = false → ∀ m ∈ messages evs, m.started = false := by
  intro hall
  have hrun : (runCommandTracked 1).run Machine.free .new refusedLate = some notDispatched := by decide
  have hfalse := hall 1 refusedLate notDispatched hrun _ rfl rfl .success (by decide)
  cases hfalse

/-- What `run_action` persists of a failed command: a failure to start, or nothing certain. -/
theorem runUpdate_failed_iff {mode : ActionMode} (hmode : mode = .quick ∨ mode = .background) (id : RunId)
    (now : Nat) (error : CommandExecutionError) :
    (History.runUpdate mode id now (.error (fromCommand error))).status = .failed ↔ error.dispatched = false := by
  rw [History.runUpdate, fromCommand]
  cases hd : error.dispatched with
  | true => simp [hmode]
  | false => simp

/-! ## The output -/

/-- A successful call returns what it received up to the end. -/
theorem output_received {maxCapture : Nat} {evs : List Event} {c : Call} {output : CommandOutput}
    (h : (runCommandTracked maxCapture).run Machine.free .new evs = some c) (hpc : c.pc = .returned (.ok output)) :
    Ends evs ∧
      Captured maxCapture ((messages evs).filterMap ChannelMsg.stdout) output.stdout output.stdoutTruncated ∧
      Captured maxCapture ((messages evs).filterMap ChannelMsg.stderr) output.stderr output.stderrTruncated ∧
      (output.exitCode.isSome = true ↔ HasStatus (messages evs)) := by
  have hinv := run_inv h
  rw [Inv, hpc] at hinv
  obtain ⟨hends, r, hread, rfl⟩ := hinv
  refine ⟨hends, hread.stdout, hread.stderr, ?_⟩
  rw [Reader.output, Option.isSome_map]
  exact hread.status

/-- Two bytes of output and a status behind the end of the stream, of which one is captured. -/
def shortTalk : List Event :=
  [.opened (.ok ()) false, .sent (.ok ()), .message .success, .message (.data [104]), .message (.data [105]),
    .message .eof, .message (.exitStatus 3)]

theorem output_shortTalk :
    Ends shortTalk ∧ Captured 1 ((messages shortTalk).filterMap ChannelMsg.stdout) [104] true ∧
      Captured 1 ((messages shortTalk).filterMap ChannelMsg.stderr) [] false ∧
      ((some 3 : Option Int32).isSome = true ↔ HasStatus (messages shortTalk)) :=
  @output_received 1 shortTalk ⟨true, .returned (.ok ⟨[104], [], some 3, true, false⟩)⟩ ⟨[104], [], some 3, true, false⟩
    (by decide) rfl

/-! ### Every conversation is answered -/

/-- The conversation goes on after these messages. -/
structure Open (ms : List ChannelMsg) : Prop where
  accepted : ChannelMsg.failure ∉ ms
  notClosed : ChannelMsg.close ∉ ms
  goesOn : ¬ (ChannelMsg.eof ∈ ms ∧ HasStatus ms)

/-- A call whose channel opens, and which is sent. -/
def dispatch (ms : List ChannelMsg) : List Event :=
  [.opened (.ok ()) false, .sent (.ok ())] ++ ms.map .message

theorem messages_dispatch (ms : List ChannelMsg) : messages (dispatch ms) = ms := by
  induction ms using List.reverseRecOn with
  | nil => rfl
  | append_singleton ms m ih =>
    have hsplit : dispatch (ms ++ [m]) = dispatch ms ++ [.message m] := by
      rw [dispatch, List.map_append, ← List.append_assoc]
      rfl
    rw [hsplit, messages_message, ih]

theorem run_concat {maxCapture : Nat} {evs : List Event} {c d : Call} {ev : Event}
    (h : (runCommandTracked maxCapture).run Machine.free .new evs = some c)
    (hstep : (runCommandTracked maxCapture).step c ev = some d) :
    (runCommandTracked maxCapture).run Machine.free .new (evs ++ [ev]) = some d :=
  Machine.run_append.mpr ⟨c, h, Machine.run_cons.mpr ⟨trivial, d, hstep, rfl⟩⟩

theorem run_dispatch (maxCapture : Nat) {ms : List ChannelMsg} (h : Open ms) :
    ∃ r, (runCommandTracked maxCapture).run Machine.free .new (dispatch ms) = some ⟨true, .reading r⟩ := by
  induction ms using List.reverseRecOn with
  | nil => exact ⟨.new, rfl⟩
  | append_singleton ms m ih =>
    have hopen : Open ms :=
      ⟨fun hin => h.accepted (List.mem_append_left _ hin), fun hin => h.notClosed (List.mem_append_left _ hin),
        fun ⟨heof, s, hs⟩ => h.goesOn ⟨List.mem_append_left _ heof, s, List.mem_append_left _ hs⟩⟩
    obtain ⟨r, hr⟩ := ih hopen
    have hread : Read maxCapture ms r := by
      have hinv : Read maxCapture (messages (dispatch ms)) r := (run_inv hr).1
      rwa [messages_dispatch] at hinv
    have hsplit : dispatch (ms ++ [m]) = dispatch ms ++ [.message m] := by
      rw [dispatch, List.map_append, ← List.append_assoc]
      rfl
    have hnext : ∃ r', Call.receive maxCapture ⟨true, .reading r⟩ r m = ⟨true, .reading r'⟩ := by
      cases m with
      | success | other => exact ⟨r, rfl⟩
      | failure => exact (h.accepted (by simp)).elim
      | close => exact (h.notClosed (by simp)).elim
      | data data =>
        rw [Call.receive]
        split <;> exact ⟨_, rfl⟩
      | extendedData data ext =>
        rw [Call.receive]
        split
        · split <;> exact ⟨_, rfl⟩
        · exact ⟨r, rfl⟩
      | exitStatus status =>
        have heof : r.sawEof ≠ true := fun heof =>
          h.goesOn ⟨List.mem_append_left _ (hread.eof.mp heof), status, by simp⟩
        exact ⟨{ r with exitCode := some status }, if_neg heof⟩
      | eof =>
        have hstatus : r.exitCode.isSome ≠ true := fun hstatus =>
          have ⟨s, hs⟩ := hread.status.mp hstatus
          h.goesOn ⟨by simp, s, List.mem_append_left _ hs⟩
        exact ⟨{ r with sawEof := true }, if_neg hstatus⟩
    obtain ⟨r', hr'⟩ := hnext
    rw [hsplit]
    exact ⟨r', run_concat hr (congrArg some hr')⟩

/-- What ends an open conversation. -/
def EndsBy (ms : List ChannelMsg) (ev : Event) : Prop :=
  ev = .ended ∨ ev = .message .close ∨ (ev = .message .eof ∧ HasStatus ms) ∨
    (∃ s, ev = .message (.exitStatus s)) ∧ ChannelMsg.eof ∈ ms

/-- Every conversation that ends is answered with its output. -/
theorem answered (maxCapture : Nat) {ms : List ChannelMsg} (h : Open ms) {ev : Event} (hev : EndsBy ms ev) :
    ∃ c output, (runCommandTracked maxCapture).run Machine.free .new (dispatch ms ++ [ev]) = some c ∧
      c.pc = .returned (.ok output) := by
  obtain ⟨r, hr⟩ := run_dispatch maxCapture h
  have hread : Read maxCapture ms r := by
    have hinv : Read maxCapture (messages (dispatch ms)) r := (run_inv hr).1
    rwa [messages_dispatch] at hinv
  have hstep : ∃ r', (runCommandTracked maxCapture).step ⟨true, .reading r⟩ ev =
      some (Call.finish ⟨true, .reading r⟩ r') := by
    rcases hev with rfl | rfl | ⟨rfl, hstatus⟩ | ⟨⟨s, rfl⟩, heof⟩
    · exact ⟨r, rfl⟩
    · exact ⟨r, rfl⟩
    · exact ⟨{ r with sawEof := true }, congrArg some (if_pos (hread.status.mpr hstatus))⟩
    · exact ⟨{ r with exitCode := some s }, congrArg some (if_pos (hread.eof.mpr heof))⟩
  obtain ⟨r', hr'⟩ := hstep
  exact ⟨_, r'.output, run_concat hr hr', rfl⟩

end KW.Command
