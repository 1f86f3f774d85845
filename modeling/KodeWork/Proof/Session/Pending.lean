import KodeWork.Framework.Suffixes
import KodeWork.Proof.Session.Delivery

/-!
# The window of the replay buffer

`push_pending_event` keeps the longest suffix of what was pushed for a channel that is within both
bounds, and the counter is its size (`pushPendingEvent_window`). The counter saturates only where
one event alone is beyond the bounds, and then every event goes (`evict_saturated`).
-/

namespace KW.Session

/-! ## Eviction -/

/-- The events are within the bounds. -/
def Fits (es : List Emitted) : Prop := FitsReplay (es.map Emitted.event)

def sizeOf (es : List Emitted) : Nat := totalSize (es.map Emitted.event)

theorem sizeOf_cons (e : Emitted) (es : List Emitted) : sizeOf (e :: es) = sessionEventSize e.event + sizeOf es := rfl

theorem sizeOf_concat (es : List Emitted) (e : Emitted) :
    sizeOf (es ++ [e]) = sizeOf es + sessionEventSize e.event := by
  rw [sizeOf, List.map_append, totalSize_append]
  rfl

theorem fits_iff {es : List Emitted} :
    Fits es ↔ es.length ≤ maxPendingPaneEvents ∧ sizeOf es ≤ maxPendingPaneBytes := by
  rw [Fits, FitsReplay, List.length_map, sizeOf]

theorem fits_nil : Fits [] := by
  rw [fits_iff]
  decide

theorem Fits.of_concat {es : List Emitted} {e : Emitted} (h : Fits (es ++ [e])) : Fits es := by
  rw [Fits, List.map_append] at h
  exact h.left

/-- The longest suffix within the bounds, and its size. -/
structure Window (es : List Emitted) (entry : PendingPaneEvents) : Prop where
  longest : Longest Fits es entry.events
  bytes : entry.bytes = sizeOf entry.events

theorem evict_window (es : List Emitted) : Window es (evict es (sizeOf es)) := by
  induction es with
  | nil => exact ⟨.self fits_nil, rfl⟩
  | cons e es ih =>
    rw [evict]
    split
    · have hbig : ¬ Fits (e :: es) := by
        rw [fits_iff]
        omega
      rw [sizeOf_cons, Nat.add_sub_cancel_left]
      exact ⟨.cons hbig ih.longest, ih.bytes⟩
    · have hfits : Fits (e :: es) := by
        rw [fits_iff]
        omega
      exact ⟨.self hfits, rfl⟩

/-- A counter that is too small for the last event, and too large for the bounds without the
others, lets no event stay. -/
theorem evict_saturated {es : List Emitted} {e : Emitted} {bytes : Nat}
    (hmore : maxPendingPaneBytes + sizeOf es < bytes) (hless : bytes ≤ sizeOf es + sessionEventSize e.event) :
    evict (es ++ [e]) bytes = ⟨[], 0⟩ := by
  induction es generalizing bytes with
  | nil =>
    rw [sizeOf, List.map_nil, totalSize, List.foldr_nil] at hmore hless
    rw [List.nil_append, evict, if_pos (by omega), evict]
    congr 1
    omega
  | cons d es ih =>
    rw [sizeOf_cons] at hmore hless
    rw [List.cons_append, evict, if_pos (by omega)]
    exact ih (by omega) (by omega)

/-- An event that is beyond the bounds alone leaves the window empty. -/
theorem window_nil {es : List Emitted} {e : Emitted} (h : maxPendingPaneBytes < sessionEventSize e.event) :
    Window (es ++ [e]) ⟨[], 0⟩ where
  longest := by
    refine ⟨List.nil_suffix, fits_nil, fun s hs hfits => ?_⟩
    rcases List.suffix_concat_iff.mp hs with hs | ⟨t, hs, -⟩
    · exact hs ▸ List.suffix_rfl
    · rw [hs, fits_iff, sizeOf_concat] at hfits
      omega
  bytes := rfl

/-- The window after one more event. -/
theorem evict_concat {es : List Emitted} {entry : PendingPaneEvents} (h : Window es entry) (e : Emitted) :
    Window (es ++ [e]) (evict (entry.events ++ [e]) (min (entry.bytes + sessionEventSize e.event) usizeMax)) := by
  have hfits := fits_iff.mp h.longest.holds
  rw [h.bytes]
  by_cases hsmall : sizeOf entry.events + sessionEventSize e.event ≤ usizeMax
  · rw [Nat.min_eq_left hsmall, ← sizeOf_concat]
    have hevict := evict_window (entry.events ++ [e])
    exact ⟨h.longest.concat (fun _ => Fits.of_concat) hevict.longest, hevict.bytes⟩
  · have hroom : maxPendingPaneBytes + maxPendingPaneBytes < usizeMax := by decide
    rw [Nat.min_eq_right (by omega), evict_saturated (by omega) (by omega)]
    exact window_nil (by omega)

/-! ## Pushes -/

/-- The pushes of several channels, one after the other. -/
def pushAll (pending : PendingEvents) (pushes : List (Nat × Emitted)) : PendingEvents :=
  pushes.foldl (fun pending push => pushPendingEvent pending push.1 push.2) pending

/-- What was pushed for the channel. -/
def pushedFor (c : Nat) (pushes : List (Nat × Emitted)) : List Emitted :=
  (pushes.filter fun push => push.1 == c).map Prod.snd

/-- A push for another channel leaves the entry of the channel alone. -/
theorem pushPendingEvent_ne (pending : PendingEvents) {channel c : Nat} (e : Emitted) (h : c ≠ channel) :
    pushPendingEvent pending channel e c = pending c :=
  Function.update_of_ne h _ _

theorem pushPendingEvent_self (pending : PendingEvents) (c : Nat) (e : Emitted) :
    pushPendingEvent pending c e c = some (evict (((pending c).getD ⟨[], 0⟩).events ++ [e])
      (min (((pending c).getD ⟨[], 0⟩).bytes + sessionEventSize e.event) usizeMax)) :=
  Function.update_self c _ pending

theorem pushedFor_concat (c : Nat) (pushes : List (Nat × Emitted)) (push : Nat × Emitted) :
    pushedFor c (pushes ++ [push]) = pushedFor c pushes ++ if push.1 = c then [push.2] else [] := by
  rw [pushedFor, List.filter_append, List.map_append, ← pushedFor]
  congr 1
  by_cases h : push.1 = c
  · rw [if_pos h, List.filter_cons_of_pos (by simpa using h)]
    rfl
  · rw [if_neg h, List.filter_cons_of_neg (by simpa using h)]
    rfl

/-- What a channel's entry is after pushes: as it was without one for the channel, and else, if
there was none, the window of what was pushed for it. -/
theorem pushPendingEvent_window (pending : PendingEvents) (pushes : List (Nat × Emitted)) (c : Nat) :
    (pushedFor c pushes = [] → pushAll pending pushes c = pending c) ∧
      (pending c = none → pushedFor c pushes ≠ [] →
        ∃ entry, pushAll pending pushes c = some entry ∧ Longest Fits (pushedFor c pushes) entry.events ∧
          entry.bytes = sizeOf entry.events) := by
  induction pushes using List.reverseRecOn with
  | nil => exact ⟨fun _ => rfl, fun _ h => absurd rfl h⟩
  | append_singleton pushes push ih =>
    obtain ⟨hsame, hwindow⟩ := ih
    obtain ⟨channel, e⟩ := push
    have hlast : pushAll pending (pushes ++ [(channel, e)]) = pushPendingEvent (pushAll pending pushes) channel e := by
      rw [pushAll, List.foldl_append]
      rfl
    rw [hlast, pushedFor_concat]
    by_cases hc : channel = c
    · subst hc
      rw [if_pos rfl]
      refine ⟨fun h => absurd h (List.append_ne_nil_of_right_ne_nil _ (List.cons_ne_nil e [])), fun hnone _ => ?_⟩
      -- the window before the push: empty where there was no entry
      have hbefore : Window (pushedFor channel pushes) ((pushAll pending pushes channel).getD ⟨[], 0⟩) := by
        by_cases hnil : pushedFor channel pushes = []
        · rw [hsame hnil, hnone, hnil]
          exact ⟨.self fits_nil, rfl⟩
        · obtain ⟨entry, hentry, hlongest, hbytes⟩ := hwindow hnone hnil
          rw [hentry]
          exact ⟨hlongest, hbytes⟩
      have hafter := evict_concat hbefore e
      exact ⟨_, pushPendingEvent_self _ channel e, hafter.longest, hafter.bytes⟩
    · rw [if_neg hc, List.append_nil, pushPendingEvent_ne _ e (Ne.symm hc)]
      exact ⟨hsame, hwindow⟩

end KW.Session
