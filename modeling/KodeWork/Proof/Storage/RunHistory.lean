import KodeWork.Proof.Storage.Erasure

/-!
# The history of the runs

What is written of a run when it is created (`recorded`) is never written again, and the
run stays when its action or its project is deleted, and with it all else but its host. A
sequence of calls only adds to the history (`history_kept`).
-/

namespace KW.Repositories

open Sql
open Migrations (Name Column)
open RunRows (Value)

variable {S : Sqlite} {J : StoreJson} {tables tables' : Tables}

/-- The columns of a run that are written once. -/
def runRecorded : List Column :=
  [.id, .hostId, .actionName, .commandSnapshot, .mode, .cwdSnapshot, .startedAtMs]

/-- What is written once of a run. -/
def recorded (row : Row) : List Value := runRecorded.map row

/-- The history of the runs, of all hosts but these. -/
def history (S : Sqlite) (hosts : List HostId) (tables : Tables) : Multiset (List Value) :=
  ((tables .runs).filter fun row => (hosts.all fun id => !has S .hostId (idToBlob id.uuid) row) = true).map recorded

/-- The hosts that are deleted. -/
def deletedHosts (calls : List (Operation × (Nat → Bool))) : List HostId :=
  calls.filterMap fun p =>
    match p.1 with
    | .deleteHost id => some id
    | _ => none

theorem recorded_of_mutable : ∀ c ∈ runRecorded, c ∉ runMutable := by decide

/-- A call touches what is mutable of the runs. -/
theorem Operation.Makes.touched_runs {operation : Operation} {change : Change} (h : operation.Makes S J change) :
    change.touched references .runs ⊆ runMutable := by
  have hdeletes (table : Name) (chosen : Row → Bool) :
      (Sql.Change.delete table chosen).touched references .runs ⊆ runMutable := by
    show ((schema.foreignKeys .runs).filter fun k => references.onDelete .runs k = .setNull).map (·.column) ⊆ _
    decide
  cases h.effect with
  | createRun hchange =>
    obtain ⟨_, _, _, _, -, -, -, -, rfl⟩ := createRunChange_ok hchange
    exact List.nil_subset _
  | updateRun sets chosen hsets => exact hsets
  | deleteHost id => exact hdeletes _ _
  | delete table chosen htable => exact hdeletes _ _
  | put htable hputs =>
    rw [Change.touched_of_ne hputs (ne_of_mem_of_not_mem htable (by decide))]
    exact List.nil_subset _

/-- No run goes with rows of other tables, but those of the hosts. -/
theorem run_stays {table : Name} {chosen : Row → Bool} (hhosts : table ≠ .hosts) (hruns : table ≠ .runs) (row : Row) :
    references.doomed S.toEngine tables (only table chosen) .runs row = false := by
  refine Bool.eq_false_iff.mpr fun hdoomed => ?_
  have hother := References.doomed_induction (P := fun name _ => name ≠ .hosts ∧ name ≠ .runs)
    (fun name row hchosen => ?_) (fun name row k hk hon parent hparent hother hsame => ?_) hdoomed
  · exact hother.2 rfl
  · have htable : name = table := of_decide_eq_true (Bool.and_eq_true_iff.mp hchosen).1
    rw [htable]
    exact ⟨hhosts, hruns⟩
  · rcases cascade_cases hk hon with ⟨-, rfl⟩ | ⟨rfl, -⟩
    · exact absurd rfl hother.1
    · exact ⟨Name.noConfusion, Name.noConfusion⟩

/-- A change of a call only adds to the history, if it is of a host that is deleted. -/
theorem Operation.Makes.history_le {operation : Operation} {change : Change} {hosts : List HostId}
    (h : operation.Makes S J change) (hhosts : ∀ id, operation = .deleteHost id → id ∈ hosts)
    (hrun : change.run S.toEngine references tables = some tables') :
    history S hosts tables ≤ history S hosts tables' := by
  refine Change.filter_map_le hrun (fun row row' hsame => ?_) fun table chosen hdelete row hrow hother => ?_
  · have hread (c : Column) (hc : c ∈ runRecorded) : row c = row' c :=
      hsame c fun hmem => recorded_of_mutable c hc (h.touched_runs hmem)
    refine ⟨?_, List.map_congr_left hread⟩
    have hhost : row .hostId = row' .hostId := hread .hostId (by decide)
    simp only [has, hhost]
  · subst hdelete
    cases h.effect with
    | createRun hchange =>
      obtain ⟨_, _, _, _, -, -, -, -, heq⟩ := createRunChange_ok hchange
      cases heq
    | deleteHost id =>
      refine Bool.eq_false_iff.mpr fun hdoomed => ?_
      have hid := List.all_eq_true.mp hother id (hhosts id rfl)
      rcases owned_of_doomed hdoomed with ⟨hname, -⟩ | ⟨-, hhost⟩ | ⟨hname, -⟩
      · cases hname
      · rw [hhost] at hid
        cases hid
      · cases hname
    | delete table chosen htable =>
      exact run_stays (ne_of_mem_of_not_mem htable (by decide)) (ne_of_mem_of_not_mem htable (by decide)) row
    | put htable hputs => exact absurd rfl (hputs table chosen)

/-- Over any calls, wherever they fail, the history of the runs of the hosts that are not
deleted only becomes longer: no run goes, and what was written of it when it was created is
still there. -/
theorem history_kept (S : Sqlite) (J : StoreJson) (calls : List (Operation × (Nat → Bool))) (tables : Tables) :
    ∃ tables', callAll S J calls (.idle tables) = .idle tables' ∧
      history S (deletedHosts calls) tables ≤ history S (deletedHosts calls) tables' := by
  refine callAll_keeps (I := fun tables' => history S (deletedHosts calls) tables ≤
    history S (deletedHosts calls) tables') (le_refl _) fun p hp change hmakes tables' tables'' hle hrun => ?_
  refine le_trans hle (hmakes.history_le (fun id hid => ?_) hrun)
  refine List.mem_filterMap.mpr ⟨p, hp, ?_⟩
  rw [hid]

/-- A run of no host. -/
def oneRun : Tables := fun name => if name = .runs then {fun c => if c = .id then idToBlob 7 else .null} else 0

theorem hostCalls_keep_history : ∃ tables', callAll typed serdeJson hostCalls (.idle oneRun) = .idle tables' ∧
    history typed [⟨1⟩] oneRun ≤ history typed [⟨1⟩] tables' :=
  history_kept typed serdeJson hostCalls oneRun

end KW.Repositories
