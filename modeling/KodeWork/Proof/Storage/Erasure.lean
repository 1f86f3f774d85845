import KodeWork.Proof.Storage.Repositories

/-!
# What the deletion of a host takes away

`Owned` says which rows are of a host: its own, those with its id, and the actions of its
projects. The deletion of the host goes along the foreign keys of the schema; these are the
rows that it reaches (`doomed_iff_owned`), and other rows only forget what they refer to
among them (`deleteHost_exact`).
-/

namespace KW.Repositories

open Sql
open Migrations (Name Column)
open RunRows (Value)

variable (S : Sqlite)

/-- The tables whose rows are of a host. -/
def hostTables : List Name :=
  [.addresses, .projects, .runs, .sessions, .transfers, .tunnels, .workspaceSnapshots, .hostKeyIdentities]

/-- The row is of the host. -/
def Owned (tables : Tables) (id : HostId) (name : Name) (row : Row) : Prop :=
  (name = .hosts ∧ has S .id (idToBlob id.uuid) row = true) ∨
    (name ∈ hostTables ∧ has S .hostId (idToBlob id.uuid) row = true) ∨
    (name = .actions ∧ ∃ project ∈ tables .projects, has S .hostId (idToBlob id.uuid) project = true ∧
      S.same (project .id) (row .projectId) = true)

instance (tables : Tables) (id : HostId) (name : Name) (row : Row) : Decidable (Owned S tables id name row) :=
  have : Decidable (∃ project ∈ tables .projects, has S .hostId (idToBlob id.uuid) project = true ∧
      S.same (project .id) (row .projectId) = true) := Multiset.decidableExistsMultiset
  inferInstanceAs (Decidable (_ ∨ _ ∨ _))

/-- The row without the references to what is of the host. -/
def forget (tables : Tables) (id : HostId) (name : Name) (row : Row) : Row := fun c =>
  if ∃ k ∈ schema.foreignKeys name, k.column = c ∧ onDelete name k = .setNull ∧
      k.RefersTo S.toEngine tables (fun name row => Owned S tables id name row) row then S.null
  else row c

/-! ## The rows that go -/

variable {S} {tables : Tables}

theorem owned_of_host {id : HostId} {name : Name} {row : Row} (hname : name ∈ hostTables)
    (h : has S .hostId (idToBlob id.uuid) row = true) : Owned S tables id name row := .inr (.inl ⟨hname, h⟩)

/-- The cascading keys: to the host, and of an action to its project. -/
theorem cascade_cases {name : Name} {k : ForeignKey Name Column} (hk : k ∈ schema.foreignKeys name)
    (hon : onDelete name k = .cascade) :
    (name ∈ hostTables ∧ k = Migrations.references .hostId .hosts) ∨
      (name = .actions ∧ k = Migrations.references .projectId .projects) := by
  have hkeys : ∀ name, ∀ k ∈ schema.foreignKeys name, onDelete name k = .cascade →
      (name ∈ hostTables ∧ k = Migrations.references .hostId .hosts) ∨
        (name = .actions ∧ k = Migrations.references .projectId .projects) := by decide
  exact hkeys name k hk hon

theorem hostTables_cascade : ∀ name ∈ hostTables, Migrations.references .hostId .hosts ∈ schema.foreignKeys name ∧
    onDelete name (Migrations.references .hostId .hosts) = .cascade := by decide

theorem actions_cascade : Migrations.references .projectId .projects ∈ schema.foreignKeys .actions ∧
    onDelete .actions (Migrations.references .projectId .projects) = .cascade := by decide

/-- The rows that a deletion of the host reaches are of the host. -/
theorem owned_of_doomed {id : HostId} {name : Name} {row : Row}
    (h : references.doomed S.toEngine tables (only .hosts (has S .id (idToBlob id.uuid))) name row = true) :
    Owned S tables id name row := by
  refine References.doomed_induction (P := Owned S tables id) (fun name row hchosen => ?_)
    (fun name row k hk hon parent hparent howned hsame => ?_) h
  · obtain ⟨hname, hrow⟩ := Bool.and_eq_true_iff.mp hchosen
    exact .inl ⟨of_decide_eq_true hname, hrow⟩
  · rcases cascade_cases hk hon with ⟨hname, rfl⟩ | ⟨rfl, rfl⟩
    · have hparentId : has S .id (idToBlob id.uuid) parent = true := by
        rcases howned with ⟨-, hid⟩ | ⟨htable, -⟩ | ⟨htable, -⟩
        · exact hid
        · exact absurd htable (by decide)
        · cases htable
      exact owned_of_host hname (S.same_trans (S.same_symm hsame) hparentId)
    · have hparentHost : has S .hostId (idToBlob id.uuid) parent = true := by
        rcases howned with ⟨htable, -⟩ | ⟨-, hhost⟩ | ⟨htable, -⟩
        · cases htable
        · exact hhost
        · cases htable
      exact .inr (.inr ⟨rfl, parent, hparent, hparentHost, hsame⟩)

/-- A row with the id of the host goes with the host, as it refers to one that is there. -/
theorem doomed_of_hostId (hvalid : Valid S.toEngine ⟨schema, tables⟩) {id : HostId} {name : Name} {row : Row}
    (hname : name ∈ hostTables) (hrow : row ∈ tables name) (h : has S .hostId (idToBlob id.uuid) row = true) :
    references.doomed S.toEngine tables (only .hosts (has S .id (idToBlob id.uuid))) name row = true := by
  obtain ⟨hk, hon⟩ := hostTables_cascade name hname
  have hdefined : ∃ d, schema.definition name = some d := by
    have hall : ∀ name ∈ hostTables, (schema.definition name).isSome := by decide
    exact Option.isSome_iff_exists.mp (hall name hname)
  obtain ⟨d, hd⟩ := hdefined
  have hnull : row .hostId ≠ S.null := by
    intro hnull
    rw [has, hnull, S.same_null] at h
    cases h
  obtain ⟨host, hhost, hsame⟩ :=
    ((hvalid.meets hd).refers row hrow _ (Schema.foreignKeys_eq hd ▸ hk)).resolve_left hnull
  refine References.doomed_iff.mpr (.inr ⟨_, hk, hon, host, hhost, ?_, hsame⟩)
  refine References.doomed_iff.mpr (.inl (Bool.and_eq_true_iff.mpr ⟨decide_eq_true rfl, ?_⟩))
  exact S.same_trans hsame h

/-- What is of the host goes with it, and nothing else. -/
theorem doomed_iff_owned (hvalid : Valid S.toEngine ⟨schema, tables⟩) {id : HostId} {name : Name} {row : Row}
    (hrow : row ∈ tables name) :
    references.doomed S.toEngine tables (only .hosts (has S .id (idToBlob id.uuid))) name row = true ↔
      Owned S tables id name row := by
  refine ⟨owned_of_doomed, fun howned => ?_⟩
  rcases howned with ⟨rfl, hid⟩ | ⟨hname, hhost⟩ | ⟨rfl, project, hproject, hhost, hsame⟩
  · exact References.doomed_iff.mpr (.inl (Bool.and_eq_true_iff.mpr ⟨decide_eq_true rfl, hid⟩))
  · exact doomed_of_hostId hvalid hname hrow hhost
  · have hgoes := doomed_of_hostId hvalid (by decide) hproject hhost
    exact References.doomed_iff.mpr (.inr ⟨_, actions_cascade.1, actions_cascade.2, project, hproject, hgoes, hsame⟩)

/-- A row that stays forgets what it refers to of the host. -/
theorem cleared_eq_forget (hvalid : Valid S.toEngine ⟨schema, tables⟩) (id : HostId) (name : Name) (row : Row) :
    references.cleared S.toEngine tables (only .hosts (has S .id (idToBlob id.uuid))) name row =
      forget S tables id name row := by
  funext c
  have hrefers (k : ForeignKey Name Column) :
      k.RefersTo S.toEngine tables (references.doomed S.toEngine tables (only .hosts (has S .id (idToBlob id.uuid)))) row ↔
        k.RefersTo S.toEngine tables (fun name row => Owned S tables id name row) row := by
    refine exists_congr fun parent => and_congr_right fun hparent => and_congr_left fun _ => ?_
    rw [doomed_iff_owned hvalid hparent, decide_eq_true_eq]
  rw [References.cleared, forget]
  simp only [hrefers]
  rfl

/-! ## The deletion -/

theorem run_deleteHost (S : Sqlite) (tables : Tables) (id : HostId) :
    (deleteHostChange S id).run S.toEngine references tables =
      some (references.deleteRows S.toEngine tables (only .hosts (has S .id (idToBlob id.uuid)))) := by
  have hdefined : ∃ d, schema.definition .hosts = some d := Option.isSome_iff_exists.mp (by decide)
  obtain ⟨d, hd⟩ := hdefined
  have hallowed : (deleteHostChange S id).Allowed schema d :=
    ⟨List.nil_subset _, List.nil_subset _, fun _ _ _ _ => List.not_mem_nil⟩
  rw [Change.run, deleteHostChange, Change.table, hd, Option.bind_some, if_pos ⟨hallowed, rfl⟩]

/-- A statement outside of a transaction. -/
theorem execute_idle {faults : Nat → Bool} {change : Change} {tables' : Tables} (hfaults : faults 0 = false)
    (hrun : change.run S.toEngine references tables = some tables') :
    (execute S faults 0 change).exec (.idle tables) = (.ok (change.count tables), .idle tables') := by
  refine statement_idle ?_
  rw [if_neg (by simp [hfaults]), hrun]

/-- A database of the last version. -/
structure Store (S : Sqlite) where
  tables : Tables
  valid : Valid S.toEngine ⟨schema, tables⟩

/-- The deletion of a host takes away, all at once, what is of the host in every table, and
nothing else; rows of other hosts forget what they refer to of it. It returns whether there
was such a host. -/
theorem deleteHost_exact (S : Sqlite) (store : Store S) (id : HostId) (faults : Nat → Bool) :
    ∃ result, ∃ after : Store S, (deleteHost S faults id).exec (.idle store.tables) = (result, .idle after.tables) ∧
      (faults 0 = true → result = .error .sqlite ∧ after.tables = store.tables) ∧
      (faults 0 = false →
        (∃ found, result = .ok found ∧
          (found = true ↔ ∃ host ∈ store.tables .hosts, has S .id (idToBlob id.uuid) host = true)) ∧
        ∀ name, after.tables name =
          ((store.tables name).filter fun row => ¬Owned S store.tables id name row).map
            (forget S store.tables id name)) := by
  cases store with
  | mk tables hvalid =>
  rw [deleteHost, exec_bind]
  cases hfaults : faults 0 with
  | true =>
    have hfails : (execute S faults 0 (deleteHostChange S id)).exec (.idle tables) = (.error .sqlite, .idle tables) :=
      statement_idle_error (if_pos hfaults)
    rw [hfails]
    exact ⟨_, ⟨tables, hvalid⟩, rfl, fun _ => ⟨rfl, rfl⟩, (fun h => by cases h)⟩
  | false =>
    have hrun := run_deleteHost S tables id
    rw [execute_idle hfaults hrun]
    refine ⟨_, ⟨_, Change.run_valid hvalid hrun⟩, rfl, (fun h => by cases h), fun _ => ⟨⟨_, rfl, ?_⟩, fun name => ?_⟩⟩
    · show ((tables .hosts).countP _ != 0) = true ↔ _
      rw [bne_iff_ne, ← Nat.pos_iff_ne_zero, Multiset.countP_pos]
    · show references.deleteRows S.toEngine tables _ name = _
      rw [References.deleteRows]
      refine (Multiset.map_congr ?_ fun row _ => cleared_eq_forget hvalid id name row)
      refine Multiset.filter_congr fun row hrow => ?_
      rw [← Bool.not_eq_true, doomed_iff_owned hvalid hrow]

/-- Two hosts with an address each, and a project of the first with an action. -/
def twoHosts : Name → List (List (Column × Value))
  | .hosts =>
    [1, 2].map fun n => [(.id, idToBlob n), (.label, .text "build".toList), (.username, .text "ada".toList),
      (.port, .integer 22), (.defaultRuntime, .text "\"Tmux\"".toList), (.authMode, .text "\"Password\"".toList),
      (.defaultRemotePath, .text "/".toList)]
  | .addresses =>
    [1, 2].map fun n => [(.id, idToBlob (n + 2)), (.hostId, idToBlob n), (.kind, .text "\"Lan\"".toList),
      (.hostnameOrIp, .text "nas".toList), (.port, .integer 22), (.priority, .integer 0), (.enabled, .integer 1)]
  | .projects =>
    [[(.id, idToBlob 5), (.hostId, idToBlob 1), (.name, .text "kodework".toList), (.remoteCwd, .text "/".toList),
      (.preferredRuntime, .text "\"Tmux\"".toList)]]
  | .actions =>
    [[(.id, idToBlob 6), (.projectId, idToBlob 5), (.name, .text "test".toList), (.command, .text "make test".toList),
      (.mode, .text "\"Quick\"".toList), (.dangerLevel, .text "\"Safe\"".toList),
      (.confirmation, .text "\"Never\"".toList), (.envJson, .text "\x7b\x7d".toList)]]
  | _ => []

noncomputable def twoHostsStore : Store typed where
  tables := Migrations.tablesOf twoHosts
  valid := by
    refine @Migrations.valid_of_entries 13 twoHosts (by decide +kernel) (by decide +kernel) fun name => ?_
    cases name <;> decide +kernel

/-- The first host goes with its address, its project and the action of this. -/
theorem twoHosts_delete :
    ∃ after : Store typed, (deleteHost typed (fun _ => false) ⟨1⟩).exec (.idle twoHostsStore.tables) =
        (.ok true, .idle after.tables) ∧
      (after.tables .hosts).card = 1 ∧ (after.tables .addresses).card = 1 ∧ after.tables .projects = 0 ∧
      after.tables .actions = 0 := by
  obtain ⟨result, after, hexec, -, hdone⟩ := deleteHost_exact typed twoHostsStore ⟨1⟩ fun _ => false
  obtain ⟨⟨found, rfl, hfound⟩, htables⟩ := hdone rfl
  have hhost : found = true := hfound.mpr ⟨_, Multiset.mem_coe.mpr List.mem_cons_self, by decide +kernel⟩
  rw [hhost] at hexec
  refine ⟨after, hexec, ?_, ?_, ?_, ?_⟩
  · rw [htables, Multiset.card_map]
    rfl
  · rw [htables, Multiset.card_map]
    rfl
  · rw [htables]
    rfl
  · rw [htables]
    rfl

end KW.Repositories
