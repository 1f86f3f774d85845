import KodeWork.Impl.Channels

/-!
# What reaches the terminal event stream

A channel is in `filtered_channels` from the section that inserts it to the section
that releases it or the handler's removal of it (`Listed`): not before, and not
after. An event of a channel that `run_command_tracked`, `exec_owned`, `sftp` or
`forward_channel` opened stays off the terminal event stream as long as the handler
meets none of its packets outside of that time (`listedPackets`), and a packet it
meets outside of it gets there.

`run_command_tracked` returns when it has the exit status and the end of the output.
The server closes the channel after that: `close_sent` is the whole run.
-/

namespace KW.Channels

open Session (SessionEvent sessionEventChannel)
open Channels.Connection Machine

/-! ## Stages of a call -/

/-- What has become of the channel of a call. -/
inductive Stage
  /-- not inserted yet -/
  | early
  | registered
  /-- released, or never to be inserted -/
  | gone
deriving DecidableEq, Repr

def Call.stage (c : Call) : Stage :=
  match c.pc with
  | .opening | .insert => .early
  | .request => if c.opener.timed then .registered else .early
  | .wait _ | .sftpInit | .release _ | .abandoned => .registered
  | .holding => if c.opener.tracked then .registered else .early
  | .returned _ => .gone

/-- Only the four methods insert their channel, and a call has one when it is open. -/
def Call.Sound (c : Call) : Prop :=
  match c.pc with
  | .opening => c.channel = none
  | .insert | .sftpInit => c.opener.tracked = true
  | _ => True

/-- A step of a call: the set of filtered channels and the call after it. -/
inductive Moves (s : Connection) (c : Call) : List Nat → Call → Prop
  | opened (channel : Nat) (hpc : c.pc = .opening)
    (hfresh : ∀ d ∈ s.calls, d.channel ≠ some channel) :
    Moves s c s.filteredChannels { c with channel := some channel, pc := c.opener.opened }
  | insert (channel : Nat) (hpc : c.pc = .insert) (hchannel : c.channel = some channel) :
    Moves s c (s.filteredChannels.insert channel) { c with pc := c.opener.inserted }
  | release (reply : Reply) (hpc : c.pc = .release reply) :
    Moves s c (s.releaseFilteredChannel c.channel).filteredChannels { c with pc := .returned reply }
  /-- the call goes on, or ends before its channel was inserted -/
  | go (pc : Pc) (hpc : pc ≠ .opening) (hsound : ({ c with pc := pc } : Call).Sound)
    (hstage : ({ c with pc := pc } : Call).stage = c.stage ∨
      c.stage = .early ∧ ({ c with pc := pc } : Call).stage = .gone) :
    Moves s c s.filteredChannels { c with pc := pc }

/-- The steps that leave the set alone. -/
theorem moves_goTo {s : Connection} {i : Nat} {c : Call} {pc : Pc} (hpc : pc ≠ .opening)
    (hsound : ({ c with pc := pc } : Call).Sound)
    (hstage : ({ c with pc := pc } : Call).stage = c.stage ∨
      c.stage = .early ∧ ({ c with pc := pc } : Call).stage = .gone) :
    ∃ filtered d, Moves s c filtered d ∧
      s.goTo i c pc = { s with filteredChannels := filtered, calls := s.calls.set i d } :=
  ⟨_, _, .go pc hpc hsound hstage, rfl⟩

/-- The request is over without a reply. -/
theorem moves_unrequested {s : Connection} {i : Nat} {c : Call} {reply : Reply} (hpc : c.pc = .request) :
    ∃ filtered d, Moves s c filtered d ∧ s.goTo i c (c.opener.unrequested reply) =
      { s with filteredChannels := filtered, calls := s.calls.set i d } := by
  obtain ⟨opener, pc, channel⟩ := c
  subst hpc
  cases opener with
  | runCommandTracked maxCapture => exact moves_goTo (by rintro ⟨⟩) trivial (.inl rfl)
  | openPty => exact moves_goTo (by rintro ⟨⟩) trivial (.inr ⟨rfl, rfl⟩)
  | exec => exact moves_goTo (by rintro ⟨⟩) trivial (.inr ⟨rfl, rfl⟩)
  | execOwned => exact moves_goTo (by rintro ⟨⟩) trivial (.inr ⟨rfl, rfl⟩)
  | forwardChannel => exact moves_goTo (by rintro ⟨⟩) trivial (.inr ⟨rfl, rfl⟩)
  | sftp => exact moves_goTo (by rintro ⟨⟩) trivial (.inr ⟨rfl, rfl⟩)

theorem callStep_moves {s t : Connection} {i : Nat} {c : Call} {choice : Choice} (hc : c.Sound)
    (h : s.callStep i c c.pc choice = some t) :
    ∃ filtered d, Moves s c filtered d ∧
      t = { s with filteredChannels := filtered, calls := s.calls.set i d } := by
  cases hpc : c.pc with
  | opening =>
    have early : c.stage = .early := by simp only [Call.stage, hpc]
    rw [hpc] at h
    cases choice with
    | opened channel =>
      simp only [callStep] at h
      split at h
      · cases h
      · rename_i hfresh
        cases h
        refine ⟨_, _, .opened channel hpc fun d hd hchannel => hfresh ?_, rfl⟩
        exact List.any_eq_true.mpr ⟨d, hd, by simp [hchannel]⟩
    | failed error =>
      cases h
      exact moves_goTo (by rintro ⟨⟩) trivial (.inr ⟨early, rfl⟩)
    | elapsed =>
      obtain ⟨-, h⟩ := Option.ite_none_right_eq_some.mp h
      cases h
      exact moves_goTo (by rintro ⟨⟩) trivial (.inr ⟨early, rfl⟩)
    | dropped =>
      cases h
      exact moves_goTo (by rintro ⟨⟩) trivial (.inr ⟨early, rfl⟩)
    | go | message packet | ended => cases h
  | insert =>
    have early : c.stage = .early := by simp only [Call.stage, hpc]
    rw [hpc] at h
    cases choice with
    | go =>
      simp only [callStep] at h
      split at h
      · rename_i channel hchannel
        cases h
        exact ⟨_, _, .insert channel hpc hchannel, rfl⟩
      · cases h
    | elapsed =>
      obtain ⟨-, h⟩ := Option.ite_none_right_eq_some.mp h
      cases h
      exact moves_goTo (by rintro ⟨⟩) trivial (.inr ⟨early, rfl⟩)
    | dropped =>
      cases h
      exact moves_goTo (by rintro ⟨⟩) trivial (.inr ⟨early, rfl⟩)
    | opened channel | failed error | message packet | ended => cases h
  | request =>
    rw [hpc] at h
    cases choice with
    | go =>
      cases h
      obtain ⟨opener, pc, channel⟩ := c
      subst hpc
      cases opener with
      | runCommandTracked maxCapture => exact moves_goTo (by rintro ⟨⟩) trivial (.inl rfl)
      | openPty => exact moves_goTo (by rintro ⟨⟩) trivial (.inl rfl)
      | exec => exact moves_goTo (by rintro ⟨⟩) trivial (.inl rfl)
      | execOwned => exact moves_goTo (by rintro ⟨⟩) rfl (.inl rfl)
      | forwardChannel => exact moves_goTo (by rintro ⟨⟩) rfl (.inl rfl)
      | sftp => exact moves_goTo (by rintro ⟨⟩) rfl (.inl rfl)
    | failed error =>
      cases h
      exact moves_unrequested hpc
    | elapsed =>
      obtain ⟨-, h⟩ := Option.ite_none_right_eq_some.mp h
      cases h
      exact moves_unrequested hpc
    | dropped =>
      cases h
      exact moves_unrequested hpc
    | opened channel | message packet | ended => cases h
  | wait capture =>
    have registered : c.stage = .registered := by simp only [Call.stage, hpc]
    rw [hpc] at h
    cases choice with
    | message packet =>
      simp only [callStep] at h
      split at h
      · split at h
        · cases h
          exact moves_goTo (by rintro ⟨⟩) trivial (.inl registered.symm)
        · cases h
          exact moves_goTo (by rintro ⟨⟩) trivial (.inl registered.symm)
      · cases h
    | ended =>
      cases h
      exact moves_goTo (by rintro ⟨⟩) trivial (.inl registered.symm)
    | elapsed =>
      cases h
      exact moves_goTo (by rintro ⟨⟩) trivial (.inl registered.symm)
    | dropped =>
      cases h
      exact moves_goTo (by rintro ⟨⟩) trivial (.inl registered.symm)
    | go | opened channel | failed error => cases h
  | sftpInit =>
    have registered : c.stage = .registered := by simp only [Call.stage, hpc]
    rw [hpc] at h
    cases choice with
    | go =>
      cases h
      have tracked : c.opener.tracked = true := by simpa only [Call.Sound, hpc] using hc
      exact moves_goTo (by rintro ⟨⟩) trivial (.inl ((if_pos tracked).trans registered.symm))
    | failed error =>
      cases h
      exact moves_goTo (by rintro ⟨⟩) trivial (.inl registered.symm)
    | dropped =>
      cases h
      exact moves_goTo (by rintro ⟨⟩) trivial (.inl registered.symm)
    | opened channel | message packet | ended | elapsed => cases h
  | release reply =>
    rw [hpc] at h
    cases choice with
    | go =>
      cases h
      exact ⟨_, _, .release reply hpc, rfl⟩
    | opened channel | failed error | message packet | ended | elapsed | dropped => cases h
  | holding =>
    rw [hpc] at h
    cases choice with
    | dropped =>
      cases h
      obtain ⟨opener, pc, channel⟩ := c
      subst hpc
      cases opener with
      | openPty => exact moves_goTo (by rintro ⟨⟩) trivial (.inr ⟨rfl, rfl⟩)
      | exec => exact moves_goTo (by rintro ⟨⟩) trivial (.inr ⟨rfl, rfl⟩)
      | runCommandTracked maxCapture => exact moves_goTo (by rintro ⟨⟩) trivial (.inl rfl)
      | execOwned => exact moves_goTo (by rintro ⟨⟩) trivial (.inl rfl)
      | forwardChannel => exact moves_goTo (by rintro ⟨⟩) trivial (.inl rfl)
      | sftp => exact moves_goTo (by rintro ⟨⟩) trivial (.inl rfl)
    | go | opened channel | failed error | message packet | ended | elapsed => cases h
  | abandoned =>
    rw [hpc] at h
    cases choice <;> cases h
  | returned reply =>
    rw [hpc] at h
    cases choice <;> cases h

/-! ## The set and the stages -/

/-- The channel of the packet the transport is busy with. -/
def Driver.channel : Driver → Option Nat
  | .lookup channel _ => some channel
  | .reap channel _ => some channel
  | .send event => sessionEventChannel event
  | .idle | .stopped => none

structure Tidy (s : Connection) : Prop where
  sound : ∀ c ∈ s.calls, c.Sound
  unique : ∀ (i j : Nat) (c d : Call) (n : Nat), s.calls[i]? = some c → s.calls[j]? = some d →
    c.channel = some n → d.channel = some n → i = j
  listed : ∀ n, n ∈ s.filteredChannels ↔
    n ∉ s.reaped ∧ ∃ c ∈ s.calls, c.channel = some n ∧ c.stage = .registered
  reaped : ∀ c ∈ s.calls, ∀ n, c.channel = some n → c.stage = .early → n ∉ s.reaped
  used : ∀ n ∈ s.reaped, ∃ c ∈ s.calls, c.channel = some n
  driver : ∀ n, s.driver.channel = some n → ∃ c ∈ s.calls, c.channel = some n

/-- A call keeps its opener, and its channel when it has one. -/
theorem Moves.keeps {s : Connection} {c d : Call} {filtered : List Nat} (h : Moves s c filtered d)
    (hc : c.Sound) : d.opener = c.opener ∧ ∀ n, c.channel = some n → d.channel = some n := by
  cases h with
  | opened channel hpc =>
    refine ⟨rfl, fun n hn => ?_⟩
    have hnone : c.channel = none := by simpa only [Call.Sound, hpc] using hc
    cases hnone.symm.trans hn
  | insert | release | go => exact ⟨rfl, fun n hn => hn⟩

theorem Moves.sound {s : Connection} {c d : Call} {filtered : List Nat} (h : Moves s c filtered d)
    (hc : c.Sound) : d.Sound := by
  cases h with
  | opened channel hpc =>
    cases c with
    | mk opener pc channel => cases opener <;> trivial
  | insert channel hpc hchannel =>
    cases c with
    | mk opener pc channel => cases opener <;> trivial
  | release => trivial
  | go pc hpc hsound => exact hsound

theorem opened_stage (opener : Opener) (channel : Option Nat) :
    (⟨opener, opener.opened, channel⟩ : Call).stage = .early := by
  cases opener <;> rfl

theorem inserted_stage {opener : Opener} (h : opener.tracked = true) (channel : Option Nat) :
    (⟨opener, opener.inserted, channel⟩ : Call).stage = .registered := by
  cases opener with
  | openPty | exec => cases h
  | runCommandTracked maxCapture => rfl
  | execOwned | forwardChannel | sftp => rfl

/-- What the set holds after a step of a call. -/
theorem Tidy.listed_move {s : Connection} (hi : Tidy s) {i : Nat} {c d : Call} {filtered : List Nat}
    (hc : s.calls[i]? = some c) (hm : Moves s c filtered d) (n : Nat) : n ∈ filtered ↔
      n ∉ s.reaped ∧ ∃ b ∈ s.calls.set i d, b.channel = some n ∧ b.stage = .registered := by
  have hold := hi.listed n
  rw [exists_mem_split hc] at hold
  rw [exists_mem_set_split hc]
  -- neither before nor after the step the call is why the channel is listed
  have same (hc : c.stage ≠ .registered) (hd : d.stage ≠ .registered) :
      n ∈ s.filteredChannels ↔ n ∉ s.reaped ∧ ((d.channel = some n ∧ d.stage = .registered) ∨
        ∃ j b, j ≠ i ∧ s.calls[j]? = some b ∧ b.channel = some n ∧ b.stage = .registered) := by
    rw [hold]
    exact and_congr_right fun _ => or_congr_left (by simp [hc, hd])
  have hsound : c.Sound := hi.sound c (List.mem_of_getElem? hc)
  cases hm with
  | opened channel hpc hfresh =>
    refine same ?_ ?_
    · simp [Call.stage, hpc]
    · rw [opened_stage]
      rintro ⟨⟩
  | insert channel hpc hchannel =>
    have early : c.stage = .early := by simp only [Call.stage, hpc]
    have tracked : c.opener.tracked = true := by simpa only [Call.Sound, hpc] using hsound
    have hreaped : channel ∉ s.reaped := hi.reaped c (List.mem_of_getElem? hc) channel hchannel early
    rw [List.mem_insert_iff, hold, inserted_stage tracked]
    simp only [early, reduceCtorEq, and_false, false_or, and_true, hchannel, Option.some.injEq]
    constructor
    · rintro (rfl | ⟨hn, h⟩)
      · exact ⟨hreaped, .inl rfl⟩
      · exact ⟨hn, .inr h⟩
    · rintro ⟨hn, rfl | h⟩
      · exact .inl rfl
      · exact .inr ⟨hn, h⟩
  | release reply hpc =>
    have registered : c.stage = .registered := by simp only [Call.stage, hpc]
    have gone : (⟨c.opener, .returned reply, c.channel⟩ : Call).stage = .gone := rfl
    rw [gone]
    simp only [releaseFilteredChannel, List.mem_filter, decide_eq_true_eq, hold, registered, and_true,
      reduceCtorEq, and_false, false_or]
    constructor
    · rintro ⟨⟨hn, h | h⟩, hne⟩
      · exact absurd h hne
      · exact ⟨hn, h⟩
    · rintro ⟨hn, j, b, hj, hb, h⟩
      refine ⟨⟨hn, .inr ⟨j, b, hj, hb, h⟩⟩, fun hchannel => hj ?_⟩
      exact hi.unique j i b c n hb hc h.1 hchannel
  | go pc hpc hgo hstage =>
    rcases hstage with hstage | ⟨early, gone⟩
    · rw [hstage]
      exact hold
    · refine same ?_ ?_
      · rw [early]
        rintro ⟨⟩
      · rw [gone]
        rintro ⟨⟩

/-- The channel of a call is its own, or new. -/
theorem Moves.channel {s : Connection} {c d : Call} {filtered : List Nat} (h : Moves s c filtered d)
    {n : Nat} (hn : d.channel = some n) : c.channel = some n ∨ ∀ b ∈ s.calls, b.channel ≠ some n := by
  cases h with
  | opened channel hpc hfresh =>
    cases hn
    exact .inr hfresh
  | insert | release | go => exact .inl hn

/-- A channel that a call has, some call has after the step. -/
theorem Moves.held {s : Connection} {i : Nat} {c d : Call} {filtered : List Nat} (h : Moves s c filtered d)
    (hc : s.calls[i]? = some c) (hsound : c.Sound) {n : Nat} (hn : ∃ b ∈ s.calls, b.channel = some n) :
    ∃ b ∈ s.calls.set i d, b.channel = some n := by
  have hsplit := (exists_mem_split hc fun b => b.channel = some n).mp hn
  exact (exists_mem_set_split hc _).mpr (hsplit.imp_left ((h.keeps hsound).2 n))

/-- Steps of calls keep the set and the stages together. -/
theorem Tidy.move {s : Connection} (hi : Tidy s) {i : Nat} {c d : Call} {filtered : List Nat}
    (hc : s.calls[i]? = some c) (hm : Moves s c filtered d) :
    Tidy { s with filteredChannels := filtered, calls := s.calls.set i d } := by
  have hmem : c ∈ s.calls := List.mem_of_getElem? hc
  have hsound : c.Sound := hi.sound c hmem
  -- no other call has the channel of this one
  have alone {j : Nat} {b : Call} {n : Nat} (hb : s.calls[j]? = some b) (hbn : b.channel = some n)
      (hdn : d.channel = some n) : j = i := by
    rcases hm.channel hdn with hcn | hfresh
    · exact hi.unique j i b c n hb hc hbn hcn
    · exact absurd hbn (hfresh b (List.mem_of_getElem? hb))
  refine ⟨?_, ?_, hi.listed_move hc hm, ?_, ?_, ?_⟩
  · intro b hb
    rcases List.mem_or_eq_of_mem_set hb with hb | rfl
    · exact hi.sound b hb
    · exact hm.sound hsound
  · intro j k a b n ha hb han hbn
    rcases entry_of_set ha with ⟨rfl, rfl⟩ | ⟨hj, hold⟩
    · rcases entry_of_set hb with ⟨rfl, rfl⟩ | ⟨hk, hold⟩
      · rfl
      · exact absurd (alone hold hbn han) hk
    · rcases entry_of_set hb with ⟨rfl, rfl⟩ | ⟨hk, hold'⟩
      · exact absurd (alone hold han hbn) hj
      · exact hi.unique j k a b n hold hold' han hbn
  · intro b hb n hn early
    rcases List.mem_or_eq_of_mem_set hb with hb | rfl
    · exact hi.reaped b hb n hn early
    · cases hm with
      | opened channel hpc hfresh =>
        intro hreaped
        obtain ⟨user, huser, hchannel⟩ := hi.used n hreaped
        cases hn
        exact hfresh user huser hchannel
      | insert channel hpc =>
        have tracked : c.opener.tracked = true := by simpa only [Call.Sound, hpc] using hsound
        rw [inserted_stage tracked] at early
        cases early
      | release => cases early
      | go pc hpc hgo hstage =>
        rcases hstage with hstage | ⟨-, gone⟩
        · exact hi.reaped c hmem n hn (hstage.symm.trans early)
        · cases gone.symm.trans early
  · intro n hn
    exact hm.held hc hsound (hi.used n hn)
  · intro n hn
    exact hm.held hc hsound (hi.driver n hn)

/-- What the transport does with a packet. -/
inductive Handles (s : Connection) : Connection → Prop
  /-- a packet without an event, or a stream without a receiver -/
  | quiet (driver : Driver) (hdriver : driver = .idle ∨ driver = .stopped) :
    Handles s { s with driver := driver }
  /-- an event of a channel that is not in the set -/
  | event (channel : Nat) (packet : Packet) (event : SessionEvent) (hd : s.driver = .lookup channel packet)
    (hevent : packet.event channel = some event) (hout : channel ∉ s.filteredChannels) :
    Handles s { s with driver := .send event }
  | close (channel : Nat) (hd : s.driver = .lookup channel .close) :
    Handles s { s with driver := .reap channel (decide (channel ∈ s.filteredChannels)) }
  | reap (channel : Nat) (filtered : Bool) (hd : s.driver = .reap channel filtered) :
    Handles s { s.releaseFilteredChannel (some channel) with
      driver := if filtered then .idle else .send (.channelClosed channel)
      reaped := if channel ∈ s.filteredChannels then channel :: s.reaped else s.reaped }
  | sent (event : SessionEvent) (hd : s.driver = .send event) :
    Handles s { s with driver := .idle, sent := s.sent ++ [event] }

theorem driverStep_handles {s t : Connection} {sent : Bool}
    (h : s.driverStep sent s.driver = some t) : Handles s t := by
  cases hd : s.driver with
  | idle | stopped =>
    rw [hd] at h
    cases h
  | lookup channel packet =>
    rw [hd] at h
    simp only [driverStep] at h
    split at h
    · cases h
      exact .close channel hd
    · split at h
      · rename_i event hevent
        cases h
        by_cases hin : channel ∈ s.filteredChannels
        · simp only [hin, decide_true, if_true]
          exact .quiet .idle (.inl rfl)
        · simp only [hin, decide_false, Bool.false_eq_true, if_false]
          exact .event channel packet event hd hevent hin
      · cases h
        exact .quiet .idle (.inl rfl)
  | reap channel filtered =>
    rw [hd] at h
    cases h
    exact .reap channel filtered hd
  | send event =>
    rw [hd] at h
    simp only [driverStep] at h
    split at h
    · cases h
      exact .sent event hd
    · cases h
      exact .quiet .stopped (.inr rfl)

theorem event_channel {channel : Nat} {packet : Packet} {event : SessionEvent}
    (h : packet.event channel = some event) : sessionEventChannel event = some channel := by
  cases packet <;> cases h <;> rfl

/-- Steps of the transport do, too: a channel that it removes is not listed any more. -/
theorem Tidy.handle {s t : Connection} (hi : Tidy s) (h : Handles s t) : Tidy t := by
  cases h with
  | quiet driver hdriver =>
    refine { hi with driver := ?_ }
    intro n hn
    rcases hdriver with rfl | rfl <;> cases hn
  | event channel packet event hd hevent =>
    refine { hi with driver := ?_ }
    intro n hn
    refine hi.driver n ?_
    rw [hd]
    exact (event_channel hevent).symm.trans hn
  | close channel hd =>
    refine { hi with driver := ?_ }
    intro n hn
    refine hi.driver n ?_
    rw [hd]
    exact hn
  | reap channel filtered hd =>
    have hheld : ∃ c ∈ s.calls, c.channel = some channel := hi.driver channel (by rw [hd]; rfl)
    have hreaped {n : Nat} : n ∈ (if channel ∈ s.filteredChannels then channel :: s.reaped else s.reaped) ↔
        n ∈ s.reaped ∨ n = channel ∧ channel ∈ s.filteredChannels := by
      split
      · rename_i hin
        simp [hin, or_comm]
      · rename_i hout
        simp [hout]
    refine ⟨hi.sound, hi.unique, fun n => ?_, fun c hc n hn early => ?_, fun n hn => ?_, fun n hn => ?_⟩
    · have hold := hi.listed n
      change n ∈ s.filteredChannels.filter _ ↔ _
      rw [hreaped, List.mem_filter, decide_eq_true_eq]
      constructor
      · rintro ⟨hin, hne⟩
        obtain ⟨hn, hc⟩ := hold.mp hin
        refine ⟨?_, hc⟩
        rintro (hn' | ⟨rfl, -⟩)
        · exact hn hn'
        · exact hne rfl
      · rintro ⟨hn, hc⟩
        have hin : n ∈ s.filteredChannels := hold.mpr ⟨fun h => hn (.inl h), hc⟩
        refine ⟨hin, fun h => hn (.inr ?_)⟩
        cases h
        exact ⟨rfl, hin⟩
    · intro h
      rcases hreaped.mp h with h | ⟨rfl, hin⟩
      · exact hi.reaped c hc n hn early h
      · obtain ⟨-, d, hd, hdn, registered⟩ := (hi.listed n).mp hin
        obtain ⟨j, hj⟩ := List.mem_iff_getElem?.mp hc
        obtain ⟨k, hk⟩ := List.mem_iff_getElem?.mp hd
        obtain rfl := hi.unique j k c d n hj hk hn hdn
        cases hj.symm.trans hk
        cases early.symm.trans registered
    · rcases hreaped.mp hn with h | ⟨rfl, -⟩
      · exact hi.used n h
      · exact hheld
    · cases filtered with
      | true => cases hn
      | false =>
        cases hn
        exact hheld
  | sent event hd =>
    refine { hi with driver := ?_ }
    rintro n ⟨⟩

theorem step_tidy {s t : Connection} {e : Event} (hi : Tidy s) (h : machine.step s e = some t) :
    Tidy t := by
  cases e with
  | call opener =>
    cases h
    have hmem {P : Call → Prop} (h : ∃ c ∈ s.calls, P c) :
        ∃ c ∈ s.calls ++ [(⟨opener, .opening, none⟩ : Call)], P c := by
      obtain ⟨c, hc, hp⟩ := h
      exact ⟨c, List.mem_append_left _ hc, hp⟩
    have hnew {c : Call} (hc : c ∈ s.calls ++ [(⟨opener, .opening, none⟩ : Call)]) :
        c ∈ s.calls ∨ c = ⟨opener, .opening, none⟩ :=
      (List.mem_append.mp hc).imp_right List.mem_singleton.mp
    refine ⟨fun c hc => ?_, fun i j c d n hci hdj hcn hdn => ?_, fun n => (hi.listed n).trans ?_,
      fun c hc n hn early => ?_, fun n hn => hmem (hi.used n hn), fun n hn => hmem (hi.driver n hn)⟩
    · rcases hnew hc with hc | rfl
      · exact hi.sound c hc
      · rfl
    · rcases entry_of_append hci with hci | ⟨-, hc⟩
      · rcases entry_of_append hdj with hdj | ⟨-, hd⟩
        · exact hi.unique i j c d n hci hdj hcn hdn
        · obtain rfl := List.mem_singleton.mp hd
          cases hdn
      · obtain rfl := List.mem_singleton.mp hc
        cases hcn
    · refine and_congr_right fun _ => ⟨hmem, ?_⟩
      rintro ⟨c, hc, hcn, registered⟩
      rcases hnew hc with hc | rfl
      · exact ⟨c, hc, hcn, registered⟩
      · cases hcn
    · rcases hnew hc with hc | rfl
      · exact hi.reaped c hc n hn early
      · cases hn
  | step i choice =>
    simp only [machine, step] at h
    cases hc : s.calls[i]? with
    | none => simp [hc] at h
    | some c =>
      rw [hc] at h
      obtain ⟨filtered, d, hm, rfl⟩ := callStep_moves (hi.sound c (List.mem_of_getElem? hc)) h
      exact hi.move hc hm
  | packet channel packet =>
    simp only [machine, step] at h
    split at h
    · rename_i hopen
      cases h
      obtain ⟨c, hc, hchannel⟩ := List.any_eq_true.mp hopen.2
      refine { hi with driver := ?_ }
      rintro n ⟨⟩
      exact ⟨c, hc, by simpa using hchannel⟩
    · cases h
  | driver sent => exact hi.handle (driverStep_handles h)

theorem initial_tidy {s : Connection} (h : Initial s) : Tidy s := by
  obtain ⟨hfiltered, hcalls, hdriver, -, hreaped⟩ := h
  refine ⟨?_, ?_, ?_, ?_, ?_, ?_⟩ <;> simp [hfiltered, hcalls, hdriver, hreaped, Driver.channel]

theorem reach_tidy {s : Connection} (h : machine.Reach free Initial s) : Tidy s :=
  h.invariant (fun _ => initial_tidy) fun _ _ _ hi _ => step_tidy hi

/-! ## What is sent -/

/-- The call has inserted its channel and not released it, and the handler has not
removed it either. -/
def Connection.Listed (s : Connection) (c : Call) (channel : Nat) : Prop :=
  c.stage = .registered ∧ channel ∉ s.reaped

/-- A packet with an event is met while its channel is listed, if one of the four methods
opened it. -/
def listedPackets (s : Connection) : Event → Prop
  | .driver _ =>
    match s.driver with
    | .lookup channel packet => (packet.event channel).isSome → ∀ c ∈ s.calls, c.channel = some channel →
      c.opener.tracked = true → s.Listed c channel
    | _ => True
  | _ => True

instance (s : Connection) (c : Call) (channel : Nat) : Decidable (s.Listed c channel) :=
  inferInstanceAs (Decidable (c.stage = .registered ∧ channel ∉ s.reaped))

instance : (s : Connection) → (e : Event) → Decidable (listedPackets s e)
  | ⟨filtered, calls, .lookup channel packet, sent, reaped⟩, .driver _ =>
    inferInstanceAs (Decidable ((packet.event channel).isSome → ∀ c ∈ calls, c.channel = some channel →
      c.opener.tracked = true → Connection.Listed ⟨filtered, calls, .lookup channel packet, sent, reaped⟩ c channel))
  | ⟨_, _, .idle, _, _⟩, .driver _ | ⟨_, _, .reap _ _, _, _⟩, .driver _ | ⟨_, _, .send _, _, _⟩, .driver _
  | ⟨_, _, .stopped, _, _⟩, .driver _ | _, .call _ | _, .step _ _ | _, .packet _ _ => isTrue trivial

/-- The channel is a terminal's. -/
def Connection.Terminal (s : Connection) (channel : Nat) : Prop :=
  ∃ c ∈ s.calls, c.channel = some channel ∧ c.opener.tracked = false

structure Quiet (s : Connection) : Prop where
  tidy : Tidy s
  sent : ∀ e ∈ s.sent, ∀ n, sessionEventChannel e = some n → s.Terminal n
  send : ∀ e n, s.driver = .send e → sessionEventChannel e = some n → s.Terminal n
  reap : ∀ n, s.driver = .reap n false → s.Terminal n

theorem Tidy.listed_of_call {s : Connection} (hi : Tidy s) {c : Call} (hc : c ∈ s.calls) {n : Nat}
    (hn : c.channel = some n) : n ∈ s.filteredChannels ↔ s.Listed c n := by
  rw [hi.listed n]
  constructor
  · rintro ⟨hreaped, d, hd, hdn, registered⟩
    obtain ⟨j, hj⟩ := List.mem_iff_getElem?.mp hc
    obtain ⟨k, hk⟩ := List.mem_iff_getElem?.mp hd
    obtain rfl := hi.unique j k c d n hj hk hn hdn
    cases hj.symm.trans hk
    exact ⟨registered, hreaped⟩
  · rintro ⟨registered, hreaped⟩
    exact ⟨hreaped, c, hc, hn, registered⟩

/-- Under the condition, a channel the handler does not find is a terminal's. -/
theorem Tidy.terminal {s : Connection} (hi : Tidy s) {channel : Nat} {packet : Packet} {sent : Bool}
    (hd : s.driver = .lookup channel packet) (hevent : (packet.event channel).isSome)
    (hlisted : listedPackets s (.driver sent)) (hout : channel ∉ s.filteredChannels) :
    s.Terminal channel := by
  obtain ⟨c, hc, hn⟩ := hi.driver channel (by rw [hd]; rfl)
  refine ⟨c, hc, hn, Bool.eq_false_iff.mpr fun tracked => hout ?_⟩
  simp only [listedPackets, hd] at hlisted
  exact (hi.listed_of_call hc hn).mpr (hlisted hevent c hc hn tracked)

theorem step_quiet {s t : Connection} {e : Event} (hq : Quiet s) (hlisted : listedPackets s e)
    (h : machine.step s e = some t) : Quiet t := by
  have htidy : Tidy t := step_tidy hq.tidy h
  cases e with
  | call opener =>
    cases h
    have hmem {n : Nat} (h : s.Terminal n) :
        Connection.Terminal { s with calls := s.calls ++ [⟨opener, .opening, none⟩] } n := by
      obtain ⟨c, hc, hcn⟩ := h
      exact ⟨c, List.mem_append_left _ hc, hcn⟩
    exact ⟨htidy, fun e he n hn => hmem (hq.sent e he n hn), fun e n hd hn => hmem (hq.send e n hd hn),
      fun n hd => hmem (hq.reap n hd)⟩
  | step i choice =>
    simp only [machine, step] at h
    cases hc : s.calls[i]? with
    | none => simp [hc] at h
    | some c =>
      rw [hc] at h
      have hsound : c.Sound := hq.tidy.sound c (List.mem_of_getElem? hc)
      obtain ⟨filtered, d, hm, rfl⟩ := callStep_moves hsound h
      obtain ⟨hopener, hchannel⟩ := hm.keeps hsound
      have hkeep {n : Nat} (h : s.Terminal n) : Connection.Terminal
          { s with filteredChannels := filtered, calls := s.calls.set i d } n := by
        have hsplit := (exists_mem_split hc fun b => b.channel = some n ∧ b.opener.tracked = false).mp h
        refine (exists_mem_set_split hc _).mpr (hsplit.imp_left ?_)
        rintro ⟨hn, htracked⟩
        exact ⟨hchannel n hn, hopener ▸ htracked⟩
      exact ⟨htidy, fun e he n hn => hkeep (hq.sent e he n hn), fun e n hd hn => hkeep (hq.send e n hd hn),
        fun n hd => hkeep (hq.reap n hd)⟩
  | packet channel packet =>
    simp only [machine, step] at h
    split at h
    · cases h
      exact ⟨htidy, hq.sent, by rintro _ _ ⟨⟩, by rintro _ ⟨⟩⟩
    · cases h
  | driver sent =>
    have hhandles : Handles s t := driverStep_handles h
    cases hhandles with
    | quiet driver hdriver =>
      refine ⟨htidy, hq.sent, ?_, ?_⟩
      · rintro e n rfl
        rcases hdriver with h | h <;> cases h
      · rintro n rfl
        rcases hdriver with h | h <;> cases h
    | event channel packet event hd hevent hout =>
      refine ⟨htidy, hq.sent, ?_, by rintro _ ⟨⟩⟩
      rintro _ n ⟨⟩ hn
      cases (event_channel hevent).symm.trans hn
      exact hq.tidy.terminal hd (by rw [hevent]; rfl) hlisted hout
    | close channel hd =>
      refine ⟨htidy, hq.sent, by rintro _ _ ⟨⟩, ?_⟩
      intro n hreap
      simp only [Driver.reap.injEq, decide_eq_false_iff_not] at hreap
      obtain ⟨rfl, hout⟩ := hreap
      exact hq.tidy.terminal hd rfl hlisted hout
    | reap channel filtered hd =>
      cases filtered with
      | true => exact ⟨htidy, hq.sent, by rintro _ _ ⟨⟩, by rintro _ ⟨⟩⟩
      | false =>
        refine ⟨htidy, hq.sent, ?_, by rintro _ ⟨⟩⟩
        rintro _ n ⟨⟩ hn
        cases hn
        exact hq.reap channel hd
    | sent event hd =>
      refine ⟨htidy, ?_, by rintro _ _ ⟨⟩, by rintro _ ⟨⟩⟩
      intro e he n hn
      rcases List.mem_append.mp he with he | he
      · exact hq.sent e he n hn
      · exact hq.send event n hd (List.mem_singleton.mp he ▸ hn)

theorem initial_quiet {s : Connection} (h : Initial s) : Quiet s := by
  obtain ⟨-, -, hdriver, hsent, -⟩ := id h
  exact ⟨initial_tidy h, by simp [hsent], by simp [hdriver], by simp [hdriver]⟩

/-- What the handler does not find in the set, it sends. -/
theorem lookup_sends {s : Connection} {channel : Nat} {packet : Packet} {event : SessionEvent}
    (hd : s.driver = .lookup channel packet) (hevent : packet.event channel = some event)
    (hout : channel ∉ s.filteredChannels) : ∃ t, machine.Path free s t ∧ event ∈ t.sent := by
  have send {u : Connection} (hu : machine.Path free s u) (hsend : u.driver = .send event) :
      ∃ t, machine.Path free s t ∧ event ∈ t.sent := by
    have hstep : machine.step u (.driver true) = some { u with driver := .idle, sent := u.sent ++ [event] } := by
      simp only [machine, step, hsend]
      rfl
    exact ⟨_, hu.tail trivial hstep, List.mem_append_right _ (List.mem_singleton_self _)⟩
  by_cases hclose : packet = .close
  · subst hclose
    cases hevent
    have hlookup : machine.step s (.driver true) = some { s with driver := .reap channel false } := by
      simp only [machine, step, hd, driverStep, hout, decide_false]
    have hreap : machine.step { s with driver := .reap channel false } (.driver true) =
        some { s.releaseFilteredChannel (some channel) with
          driver := .send (.channelClosed channel)
          reaped := if channel ∈ s.filteredChannels then channel :: s.reaped else s.reaped } := rfl
    exact send ((Path.single trivial hlookup).tail trivial hreap) rfl
  · have hlookup : machine.step s (.driver true) = some { s with driver := .send event } := by
      cases packet with
      | close => exact absurd rfl hclose
      | success | failure | eof | other => cases hevent
      | data bytes | extendedData ext bytes | exitStatus status | exitSignal signal =>
        cases hevent
        simp [machine, step, hd, driverStep, hout, Packet.event]
    exact send (Path.single trivial hlookup) rfl

/-! ## The statement -/

/-- Over every interleaving of the calls and of the packets: while the handler meets the
packets of a channel that `run_command_tracked`, `exec_owned`, `sftp` or
`forward_channel` opened only when it is listed, no event of such a channel is sent on
the terminal event stream; and when it meets one otherwise, it goes on to send it. -/
theorem tracked_channel_quiet (s : Connection) :
    (machine.Reach listedPackets Initial s → ∀ c ∈ s.calls, c.opener.tracked = true →
      ∀ n, c.channel = some n → ∀ e ∈ s.sent, sessionEventChannel e ≠ some n) ∧
    (machine.Reach free Initial s → ∀ c ∈ s.calls, ∀ n, c.channel = some n →
      ∀ packet event, s.driver = .lookup n packet → packet.event n = some event → ¬ s.Listed c n →
        ∃ t, machine.Path free s t ∧ event ∈ t.sent) := by
  constructor
  · intro hs c hc tracked n hn e he hen
    have hq : Quiet s := hs.invariant (fun _ => initial_quiet) fun _ _ _ => step_quiet
    obtain ⟨d, hd, hdn, htracked⟩ := hq.sent e he n hen
    obtain ⟨j, hj⟩ := List.mem_iff_getElem?.mp hc
    obtain ⟨k, hk⟩ := List.mem_iff_getElem?.mp hd
    obtain rfl := hq.tidy.unique j k c d n hj hk hn hdn
    cases hj.symm.trans hk
    cases tracked.symm.trans htracked
  · intro hs c hc n hn packet event hd hevent hlisted
    exact lookup_sends hd hevent fun hin => hlisted (((reach_tidy hs).listed_of_call hc hn).mp hin)

/-- A command and a terminal have output, and the channel of the command is closed before
`run_command_tracked` has returned. -/
theorem command_channel_quiet :
    ∃ s, machine.Reach listedPackets Initial s ∧ s.sent = [.data 8 [66]] ∧
      ∃ c ∈ s.calls, c.opener.tracked = true ∧ c.channel = some 7 ∧
        ∀ e ∈ s.sent, sessionEventChannel e ≠ some 7 := by
  have hinit : Initial ⟨[], [], .idle, [], []⟩ := ⟨rfl, rfl, rfl, rfl, rfl⟩
  obtain ⟨s, hs, hp⟩ := Reach.of_run machine listedPackets hinit
    [.call (.runCommandTracked 1024), .step 0 (.opened 7), .step 0 .go, .step 0 .go,
      .call .openPty, .step 1 (.opened 8), .step 1 .go,
      .packet 7 (.data [65]), .driver true, .step 0 (.message (.data [65])),
      .packet 8 (.data [66]), .driver true, .driver true,
      .packet 7 .close, .driver true, .driver true, .step 0 (.message .close), .step 0 .go]
    (fun s => decide (s.sent = [.data 8 [66]]) &&
      s.calls.any fun c : Call => c.opener.tracked && c.channel == some 7)
    (by decide)
  simp only [Bool.and_eq_true, decide_eq_true_eq, List.any_eq_true, beq_iff_eq] at hp
  obtain ⟨hsent, c, hc, htracked, hchannel⟩ := hp
  exact ⟨s, hs, hsent, c, hc, htracked, hchannel, (tracked_channel_quiet s).1 hs c hc htracked 7 hchannel⟩

/-- `run_command_tracked` has the exit status and the end of the output, and returns; then
the server closes the channel. -/
theorem close_sent :
    ∃ s, machine.Reach free Initial s ∧ ∃ c ∈ s.calls, c.opener.tracked = true ∧ c.channel = some 7 ∧
      .channelClosed 7 ∈ s.sent := by
  have hinit : Initial ⟨[], [], .idle, [], []⟩ := ⟨rfl, rfl, rfl, rfl, rfl⟩
  obtain ⟨s, hs, hp⟩ := Reach.of_run machine free hinit
    [.call (.runCommandTracked 1024), .step 0 (.opened 7), .step 0 .go, .step 0 .go,
      .packet 7 .success, .driver true, .step 0 (.message .success),
      .packet 7 (.exitStatus 0), .driver true, .step 0 (.message (.exitStatus 0)),
      .packet 7 .eof, .driver true, .step 0 (.message .eof), .step 0 .go,
      .packet 7 .close, .driver true, .driver true, .driver true]
    (fun s => decide (s.sent = [.channelClosed 7]) &&
      s.calls.any fun c : Call => c.opener.tracked && c.channel == some 7)
    (by decide)
  simp only [Bool.and_eq_true, decide_eq_true_eq, List.any_eq_true, beq_iff_eq] at hp
  obtain ⟨hsent, c, hc, htracked, hchannel⟩ := hp
  exact ⟨s, hs, c, hc, htracked, hchannel, hsent ▸ List.mem_singleton_self _⟩

end KW.Channels
