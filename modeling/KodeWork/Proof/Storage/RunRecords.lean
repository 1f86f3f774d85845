import KodeWork.Impl.History.Store
import KodeWork.Proof.Storage.Batch
import KodeWork.Proof.Storage.Repositories

/-!
# Rows and records of runs

`Impl/History/Store` has the table of the runs as a list of records, `Impl/History/Rows` as
SQLite has it. `Encodes` is what the rows of records look like. A batch of updates does to
the rows what it does to the records (`finishBatch_refines`). The runs of `Impl/Repositories`
have all columns; the list takes those whose row can be written (`createRunChange_ok_iff`).
-/

namespace KW.RunRows

variable {ρ : Type} (J : StatusJson)

/-- The update as `Impl/History/Store` has it. -/
def RunReconciliationUpdate.record (u : RunReconciliationUpdate) : History.RunReconciliationUpdate where
  id := u.id
  status := u.status
  exitCode := u.exitCode
  finishedAtMs := u.finishedAtMs.map (·.toNat)
  remoteSessionRef := u.remoteSessionRef.map String.ofList
  outputBytes := u.outputBytes.toNat
  reconciledAtMs := some u.reconciledAtMs.toNat

/-- An optional counter, as it is stored. -/
def optionCounter (n : Option Nat) : Value := (n.map fun n => Value.integer n).getD .null

/-- The row of a run. -/
structure Encodes (row : Row ρ) (run : History.Run) : Prop where
  id : row.id = run.id
  status : row.status = .text (J.toText run.status)
  exitCode : row.exitCode = sqlOptionI32 run.exitCode
  finishedAtMs : row.finishedAtMs = optionCounter run.finishedAtMs
  remoteSessionRef : row.remoteSessionRef = sqlOptionText (run.remoteSessionRef.map String.toList)
  outputBytes : row.outputBytes = .integer run.outputBytes
  lastReconciledAtMs : row.lastReconciledAtMs = optionCounter run.lastReconciledAtMs

variable {J}

theorem Encodes.update {row : Row ρ} {run : History.Run} (h : Encodes J row run) (u : RunReconciliationUpdate) :
    Encodes J (row.write J u ((u.finishedAtMs.map counter).getD .null) (counter u.outputBytes)
      (counter u.reconciledAtMs)) (run.update u.record) where
  id := h.id
  status := rfl
  exitCode := rfl
  finishedAtMs := by
    cases hfinished : u.finishedAtMs <;>
      simp [Row.write, History.Run.update, RunReconciliationUpdate.record, optionCounter, counter, hfinished]
  remoteSessionRef := by
    cases href : u.remoteSessionRef <;>
      simp [Row.write, History.Run.update, RunReconciliationUpdate.record, href, sqlOptionText]
  outputBytes := rfl
  lastReconciledAtMs := rfl

theorem encodes_applyUpdate {table : Table ρ} {runs : History.Runs} (h : List.Forall₂ (Encodes J) table runs)
    (u : RunReconciliationUpdate) :
    List.Forall₂ (Encodes J) (applyUpdate J table u)
      (runs.map fun r => if r.id = u.record.id then r.update u.record else r) := by
  refine List.rel_map (fun row run hrow => ?_) h
  have hid : row.id = u.id ↔ run.id = u.record.id := by
    rw [hrow.id]
    rfl
  by_cases hu : row.id = u.id
  · rw [if_pos hu, if_pos (hid.mp hu)]
    exact hrow.update u
  · rw [if_neg hu, if_neg (mt hid.mpr hu)]
    exact hrow

theorem storedStatus_encodes {table : Table ρ} {runs : History.Runs} (h : List.Forall₂ (Encodes J) table runs)
    (id : RunId) : storedStatus J table id = (runs.get id).map (·.status) := by
  rw [storedStatus]
  induction h with
  | nil => rfl
  | @cons row run table runs hrow hrest ih =>
    rw [Table.get, History.Runs.get, List.find?_cons, List.find?_cons, hrow.id]
    by_cases hid : run.id = id
    · simp only [hid, decide_true, Option.bind_some, Option.map_some, hrow.status, J.from_to]
    · simp only [hid, decide_false]
      exact ih

theorem le_i64Max_iff (n : UInt64) : n.toNat ≤ i64Max ↔ History.sqlU64 n.toNat = true := by
  rw [History.sqlU64, decide_eq_true_iff]
  exact Nat.lt_succ_iff.symm

theorem fits_iff (u : RunReconciliationUpdate) :
    Fits u ↔ History.sqlOptionU64 u.record.finishedAtMs = true ∧ History.sqlU64 u.record.outputBytes = true ∧
      History.sqlOptionU64 u.record.reconciledAtMs = true := by
  have hoption : (∀ n ∈ u.finishedAtMs, n.toNat ≤ i64Max) ↔
      History.sqlOptionU64 u.record.finishedAtMs = true := by
    rw [History.sqlOptionU64, RunReconciliationUpdate.record]
    cases u.finishedAtMs with
    | none => simp
    | some n => simpa using le_i64Max_iff n
  rw [Fits, hoption, le_i64Max_iff, le_i64Max_iff]
  rfl

theorem finish_ok_iff {table : Table ρ} {runs : History.Runs} (h : List.Forall₂ (Encodes J) table runs)
    (u : RunReconciliationUpdate) : (Accepts J table u ∧ runs.finish u.record =
        .ok (runs.map fun r => if r.id = u.record.id then r.update u.record else r)) ∨
      (¬Accepts J table u ∧ ∃ e, runs.finish u.record = .error e) := by
  have hid : u.record.id = u.id := rfl
  rw [Accepts, storedStatus_encodes h, fits_iff, History.Runs.finish, History.Runs.currentStatus, hid]
  cases runs.get u.id with
  | none => exact .inr ⟨fun ⟨⟨_, hnone, _⟩, _⟩ => (by cases hnone), _, rfl⟩
  | some run =>
    by_cases htransition : runTransition run.status u.record.status = false
    · refine .inr ⟨?_, _, if_pos htransition⟩
      rintro ⟨⟨current, ⟨⟩, hallowed⟩, -⟩
      exact Bool.false_ne_true (htransition.symm.trans hallowed)
    · by_cases hfits : History.sqlOptionU64 u.record.finishedAtMs = true ∧
          History.sqlU64 u.record.outputBytes = true ∧ History.sqlOptionU64 u.record.reconciledAtMs = true
      · exact .inl ⟨⟨⟨run.status, rfl, Bool.eq_true_of_not_eq_false htransition⟩, hfits⟩,
          (if_neg htransition).trans (if_pos hfits)⟩
      · exact .inr ⟨fun h => hfits h.2, _, (if_neg htransition).trans (if_neg hfits)⟩

/-- A batch of updates does to the rows what it does to the records, or fails on both. -/
theorem finishBatch_refines (updates : List RunReconciliationUpdate) {table : Table ρ} {runs : History.Runs}
    (h : List.Forall₂ (Encodes J) table runs) :
    (∃ table' runs', (finishBatch J updates : Storage ρ Unit).exec (.idle table) = (.ok (), .idle table') ∧
        runs.finishBatch (updates.map (·.record)) = .ok runs' ∧ List.Forall₂ (Encodes J) table' runs') ∨
      (∃ e, (finishBatch J updates : Storage ρ Unit).exec (.idle table) = (.error e, .idle table)) ∧
        ∃ e, runs.finishBatch (updates.map (·.record)) = .error e := by
  rw [finishBatch_exec]
  suffices hbatch : (∃ table' runs', batch J updates table = .ok ((), table') ∧
      runs.finishBatch (updates.map (·.record)) = .ok runs' ∧ List.Forall₂ (Encodes J) table' runs') ∨
      (∃ e, batch J updates table = .error e) ∧ ∃ e, runs.finishBatch (updates.map (·.record)) = .error e by
    rcases hbatch with ⟨table', runs', hrows, hrecords, h'⟩ | ⟨⟨e, hrows⟩, hrecords⟩
    · exact .inl ⟨table', runs', by rw [hrows], hrecords, h'⟩
    · exact .inr ⟨⟨e, by rw [hrows]⟩, hrecords⟩
  induction updates generalizing table runs with
  | nil => exact .inl ⟨table, runs, rfl, rfl, h⟩
  | cons u updates ih =>
    rw [List.map_cons, batch, History.Runs.finishBatch]
    rcases finish_ok_iff h u with ⟨haccepts, hfinish⟩ | ⟨hnot, e, hfinish⟩
    · rw [one_of_accepts J haccepts, hfinish]
      exact ih (encodes_applyUpdate h u)
    · obtain ⟨e', he⟩ := one_of_not_accepts J hnot
      rw [he, hfinish]
      exact .inr ⟨⟨e', rfl⟩, e, rfl⟩

theorem sqlU64_ok_iff (n : UInt64) : (∃ value, sqlU64 n = .ok value) ↔ History.sqlU64 n.toNat = true := by
  rw [← le_i64Max_iff, sqlU64]
  split
  · case isTrue h => exact iff_of_true ⟨_, rfl⟩ h
  · case isFalse h => exact iff_of_false (fun ⟨_, hok⟩ => nomatch hok) h

theorem sqlOptionU64_ok_iff (n : Option UInt64) :
    (∃ value, sqlOptionU64 n = .ok value) ↔ History.sqlOptionU64 (n.map (·.toNat)) = true := by
  cases n with
  | none => exact iff_of_true ⟨_, rfl⟩ rfl
  | some n => exact sqlU64_ok_iff n

end KW.RunRows

namespace KW.Repositories

open RunRows (sqlU64_ok_iff sqlOptionU64_ok_iff)

/-- The run as `Impl/History/Store` has it. -/
def Run.record (run : Run) : History.Run where
  id := run.id
  hostId := run.hostId
  mode := run.mode
  status := run.status
  startedAtMs := run.startedAtMs.map (·.toNat)
  finishedAtMs := run.finishedAtMs.map (·.toNat)
  exitCode := run.exitCode
  remoteSessionRef := run.remoteSessionRef.map String.ofList
  outputBytes := run.outputBytes.toNat
  lastReconciledAtMs := run.lastReconciledAtMs.map (·.toNat)

/-- A run whose row can be written is one that the list of records takes. -/
theorem createRunChange_ok_iff (J : StoreJson) (run : Run) :
    (∃ change, createRunChange J run = .ok change) ↔ History.Runs.create [] run.record = .ok [run.record] := by
  have hcreate : History.Runs.create [] run.record = .ok [run.record] ↔
      History.sqlOptionU64 run.record.startedAtMs = true ∧ History.sqlOptionU64 run.record.finishedAtMs = true ∧
        History.sqlU64 run.record.outputBytes = true ∧ History.sqlOptionU64 run.record.lastReconciledAtMs = true := by
    rw [History.Runs.create, if_neg (by simp [History.Runs.get])]
    split
    · case isTrue h => exact iff_of_true rfl h
    · case isFalse h => exact iff_of_false nofun h
  rw [hcreate]
  show _ ↔ History.sqlOptionU64 (run.startedAtMs.map (·.toNat)) = true ∧
    History.sqlOptionU64 (run.finishedAtMs.map (·.toNat)) = true ∧ History.sqlU64 run.outputBytes.toNat = true ∧
      History.sqlOptionU64 (run.lastReconciledAtMs.map (·.toNat)) = true
  rw [← sqlOptionU64_ok_iff, ← sqlOptionU64_ok_iff, ← sqlU64_ok_iff, ← sqlOptionU64_ok_iff]
  constructor
  · rintro ⟨change, h⟩
    obtain ⟨started, finished, bytes, reconciled, hstarted, hfinished, hbytes, hreconciled, -⟩ := createRunChange_ok h
    exact ⟨⟨_, hstarted⟩, ⟨_, hfinished⟩, ⟨_, hbytes⟩, _, hreconciled⟩
  · rintro ⟨⟨started, hstarted⟩, ⟨finished, hfinished⟩, ⟨bytes, hbytes⟩, reconciled, hreconciled⟩
    rw [createRunChange, hstarted, hfinished, hbytes, hreconciled]
    exact ⟨_, rfl⟩

end KW.Repositories
