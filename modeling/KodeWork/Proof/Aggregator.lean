import KodeWork.Impl.Aggregator

/-!
# No byte is lost, repeated or left without a timestamp

What a call emits and what it leaves in the buffer are, one behind the other, what was in the
buffer and what it was given (`call_spec`); the buffer is taken whole or not at all, and with its
timestamp (`takeBatch_spec`). So the batches of a sequence of calls and the rest in the buffer are
the data of its pushes (`run_new`).
-/

namespace KW.Aggregator

open OutputAggregator

/-- A buffer with bytes has a timestamp, and fewer bytes than the threshold. -/
structure Sound (a : OutputAggregator) : Prop where
  below : 0 < a.byteThreshold → a.buffer.length < a.byteThreshold
  stamped : a.firstByteAt.isSome = true ↔ a.buffer ≠ []

theorem sound_new (byteThreshold maxInterval : Nat) : Sound (.new byteThreshold maxInterval) where
  below := fun h => h
  stamped := by simp [OutputAggregator.new]

/-- What a step does: it keeps the threshold, and no byte goes but in a batch. -/
structure Moves (a : OutputAggregator) (data : List UInt8) (r : Option (List UInt8) × OutputAggregator) : Prop where
  sound : Sound r.2
  threshold : r.2.byteThreshold = a.byteThreshold
  bytes : r.1.toList.flatten ++ r.2.buffer = a.buffer ++ data
  full : ∀ batch ∈ r.1, batch ≠ []

theorem Moves.stay {a : OutputAggregator} (h : Sound a) : Moves a [] (none, a) where
  sound := h
  threshold := rfl
  bytes := (List.append_nil a.buffer).symm
  full := fun _ hb => by cases hb

/-- The buffer goes as a batch, with its timestamp. -/
theorem takeBatch_spec {a : OutputAggregator} (h : a.firstByteAt.isSome = true ↔ a.buffer ≠ []) :
    Moves a [] a.takeBatch := by
  by_cases hempty : a.buffer = []
  · have htake : a.takeBatch = (none, a) := by
      rw [takeBatch, hempty]
      rfl
    rw [htake]
    refine .stay ⟨fun hpos => ?_, h⟩
    rw [hempty]
    exact hpos
  · have htake : a.takeBatch = (some a.buffer, { a with firstByteAt := none, buffer := [] }) :=
      if_neg (by simpa using hempty)
    rw [htake]
    exact {
      sound := ⟨fun hpos => hpos, by simp⟩
      threshold := rfl
      bytes := by simp
      full := fun batch hb => by
        cases hb
        exact hempty }

theorem push_spec {a : OutputAggregator} (h : Sound a) (data : List UInt8) (now : Nat) :
    Moves a data (a.push data now) := by
  by_cases hempty : data = []
  · rw [hempty]
    exact .stay h
  · -- the buffer has the bytes, and the timestamp of its first one
    obtain ⟨b, hpush, hbuffer, hthreshold, hstamped⟩ : ∃ b : OutputAggregator,
        a.push data now = (if b.byteThreshold ≤ b.buffer.length then b.takeBatch else (none, b)) ∧
          b.buffer = a.buffer ++ data ∧ b.byteThreshold = a.byteThreshold ∧ b.firstByteAt.isSome = true := by
      cases hfirst : a.firstByteAt with
      | none => exact ⟨{ a with buffer := a.buffer ++ data, firstByteAt := some now }, by simp [push, hempty, hfirst],
          rfl, rfl, rfl⟩
      | some started => exact ⟨{ a with buffer := a.buffer ++ data }, by simp [push, hempty, hfirst], rfl, rfl,
          by simp [hfirst]⟩
    have hnonempty : b.buffer ≠ [] := by
      rw [hbuffer]
      exact List.append_ne_nil_of_right_ne_nil _ hempty
    have hiff : b.firstByteAt.isSome = true ↔ b.buffer ≠ [] := iff_of_true hstamped hnonempty
    rw [hpush]
    split
    · have htake := takeBatch_spec hiff
      exact {
        sound := htake.sound
        threshold := htake.threshold.trans hthreshold
        bytes := by rw [htake.bytes, List.append_nil, hbuffer]
        full := htake.full }
    · exact {
        sound := ⟨fun _ => Nat.lt_of_not_le ‹_›, hiff⟩
        threshold := hthreshold
        bytes := hbuffer
        full := fun _ hb => by cases hb }

theorem tick_spec {a : OutputAggregator} (h : Sound a) (now : Nat) : Moves a [] (a.tick now) := by
  rw [tick]
  split
  · split
    · exact takeBatch_spec h.stamped
    · exact .stay h
  · exact .stay h

theorem call_spec {a : OutputAggregator} (h : Sound a) (c : Call) : Moves a c.data (call a c) := by
  cases c with
  | push data now => exact push_spec h data now
  | tick now => exact tick_spec h now
  | flush => exact takeBatch_spec h.stamped

theorem run_spec {a : OutputAggregator} (h : Sound a) (cs : List Call) :
    Sound (run a cs).2 ∧ (run a cs).2.byteThreshold = a.byteThreshold ∧
      (run a cs).1.flatten ++ (run a cs).2.buffer = a.buffer ++ cs.flatMap Call.data ∧
      ∀ batch ∈ (run a cs).1, batch ≠ [] := by
  induction cs generalizing a with
  | nil => exact ⟨h, rfl, by simp [run], by simp [run]⟩
  | cons c cs ih =>
    have hcall := call_spec h c
    obtain ⟨hsound, hthreshold, hbytes, hfull⟩ := ih hcall.sound
    rw [run]
    refine ⟨hsound, hthreshold.trans hcall.threshold, ?_, fun batch hb => ?_⟩
    · rw [List.flatten_append, List.append_assoc, hbytes, ← List.append_assoc, hcall.bytes, List.append_assoc,
        ← List.flatMap_cons]
    · rcases List.mem_append.mp hb with hb | hb
      · exact hcall.full batch (Option.mem_toList.mp hb)
      · exact hfull batch hb

/-- Whatever the calls, the batches and the buffer are the data of the pushes, no batch is empty,
and the buffer is below the threshold and has a timestamp exactly when it has bytes. -/
theorem run_new (byteThreshold maxInterval : Nat) (cs : List Call) :
    let r := run (.new byteThreshold maxInterval) cs
    r.1.flatten ++ r.2.buffer = cs.flatMap Call.data ∧ (∀ batch ∈ r.1, batch ≠ []) ∧
      (0 < byteThreshold → r.2.buffer.length < byteThreshold) ∧
      (r.2.firstByteAt.isSome = true ↔ r.2.buffer ≠ []) := by
  obtain ⟨hsound, hthreshold, hbytes, hfull⟩ := run_spec (sound_new byteThreshold maxInterval) cs
  refine ⟨hbytes, hfull, fun hpos => ?_, hsound.stamped⟩
  have hbelow := hsound.below
  rw [hthreshold] at hbelow
  exact hbelow hpos

end KW.Aggregator
