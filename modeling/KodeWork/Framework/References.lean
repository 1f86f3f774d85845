import KodeWork.Framework.Tables

/-!
# Rows that refer to rows

What is done to the rows of a database whose tables refer to each other (`Change`): rows
are inserted, updated and deleted, and the deletion of a row reaches those that refer to
it, which go with it or lose the reference (`References`).

`doomed_iff` says which rows go with a deletion, `deleteRows` what is left of the others.
`Change.run_valid` is the step: what a change makes of valid tables is valid. What may be
in the columns is kept column by column (`Change.forall_columns`).
-/

namespace KW.Sql

variable {N C V : Type}

/-- What the deletion of a row does to a row that refers to it. -/
inductive OnDelete
  | cascade
  | setNull
deriving DecidableEq, Repr

namespace Schema

def foreignKeys (schema : Schema N C V) (name : N) : List (ForeignKey N C) :=
  (schema.definition name).elim [] (·.foreignKeys)

theorem foreignKeys_eq {schema : Schema N C V} {name : N} {d : TableDef N C V} (h : schema.definition name = some d) :
    schema.foreignKeys name = d.foreignKeys := by
  rw [foreignKeys, h]
  rfl

end Schema

/-- What the foreign keys of a schema do on deletion. The tables do not refer to each other
in a circle. A column that is cleared can be null, and no other row refers to it. -/
structure References (schema : Schema N C V) where
  onDelete : N → ForeignKey N C → OnDelete
  rank : N → Nat
  rank_lt {name : N} : ∀ k ∈ schema.foreignKeys name, rank k.table < rank name
  nullable {name : N} {d : TableDef N C V} : schema.definition name = some d → ∀ k ∈ d.foreignKeys,
    onDelete name k = .setNull → ∀ column ∈ d.columns, column.name = k.column → column.notNull = false
  unreferred {name : N} : ∀ k ∈ schema.foreignKeys name, onDelete name k = .setNull →
    ∀ other, ∀ k' ∈ schema.foreignKeys other, k'.table = name → k'.key ≠ k.column

variable (E : Engine V)

/-- The row refers with the key to one of these. -/
def ForeignKey.RefersTo (tables : Tables N C V) (k : ForeignKey N C) (among : N → Row C V → Bool) (row : Row C V) :
    Prop :=
  ∃ parent ∈ tables k.table, among k.table parent = true ∧ E.same (parent k.key) (row k.column) = true

instance (tables : Tables N C V) (k : ForeignKey N C) (among : N → Row C V → Bool) (row : Row C V) :
    Decidable (k.RefersTo E tables among row) :=
  Multiset.decidableExistsMultiset

namespace References

variable {schema : Schema N C V} (R : References schema) (tables : Tables N C V)

/-! ## Deletion -/

/-- The row goes, or refers to one that goes with it; through so many tables. -/
def doomedWithin (chosen : N → Row C V → Bool) : Nat → N → Row C V → Bool
  | 0, name, row => chosen name row
  | depth + 1, name, row =>
    chosen name row || (schema.foreignKeys name).any fun k =>
      R.onDelete name k = .cascade ∧ k.RefersTo E tables (doomedWithin chosen depth) row

/-- The row goes when these are deleted. -/
def doomed (chosen : N → Row C V → Bool) (name : N) (row : Row C V) : Bool :=
  R.doomedWithin E tables chosen (R.rank name) name row

/-- The row without the references to rows that go. -/
def cleared [DecidableEq C] (chosen : N → Row C V → Bool) (name : N) (row : Row C V) : Row C V := fun c =>
  if ∃ k ∈ schema.foreignKeys name, k.column = c ∧ R.onDelete name k = .setNull ∧
      k.RefersTo E tables (R.doomed E tables chosen) row then E.null
  else row c

/-- What is left of the tables when these rows are deleted. -/
def deleteRows [DecidableEq C] (chosen : N → Row C V → Bool) : Tables N C V := fun name =>
  ((tables name).filter fun row => R.doomed E tables chosen name row = false).map (R.cleared E tables chosen name)

variable {E} {R} {tables} {chosen : N → Row C V → Bool}

theorem doomedWithin_succ {depth : Nat} {name : N} {row : Row C V} :
    R.doomedWithin E tables chosen (depth + 1) name row = true ↔
      chosen name row = true ∨ ∃ k ∈ schema.foreignKeys name, R.onDelete name k = .cascade ∧
        k.RefersTo E tables (R.doomedWithin E tables chosen depth) row := by
  rw [doomedWithin, Bool.or_eq_true, List.any_eq_true]
  simp only [decide_eq_true_eq]

theorem foreignKeys_of_rank {name : N} (h : R.rank name = 0) : schema.foreignKeys name = [] := by
  refine List.eq_nil_iff_forall_not_mem.mpr fun k hk => ?_
  have hlt := R.rank_lt k hk
  omega

theorem doomedWithin_eq {m n : Nat} {name : N} (hm : R.rank name ≤ m) (hn : R.rank name ≤ n) (row : Row C V) :
    R.doomedWithin E tables chosen m name row = R.doomedWithin E tables chosen n name row := by
  have hzero (n : Nat) {name : N} (hname : R.rank name = 0) (row : Row C V) :
      R.doomedWithin E tables chosen n name row = chosen name row := by
    cases n with
    | zero => rfl
    | succ n => rw [doomedWithin, foreignKeys_of_rank hname, List.any_nil, Bool.or_false]
  induction m generalizing n name row with
  | zero => rw [hzero 0 (by omega), hzero n (by omega)]
  | succ m ih =>
    cases n with
    | zero => rw [hzero 0 (by omega), hzero (m + 1) (by omega)]
    | succ n =>
      rw [Bool.eq_iff_iff, doomedWithin_succ, doomedWithin_succ]
      refine or_congr_right (exists_congr fun k => and_congr_right fun hk => and_congr_right fun _ => ?_)
      have hlt := R.rank_lt k hk
      refine exists_congr fun parent => and_congr_right fun _ => ?_
      rw [@ih n k.table (by omega) (by omega)]

/-- A row goes if it is chosen, or with one that goes and that it refers to. -/
theorem doomed_iff {name : N} {row : Row C V} :
    R.doomed E tables chosen name row = true ↔
      chosen name row = true ∨ ∃ k ∈ schema.foreignKeys name, R.onDelete name k = .cascade ∧
        k.RefersTo E tables (R.doomed E tables chosen) row := by
  rw [doomed, doomedWithin_eq (n := R.rank name + 1) (le_refl _) (Nat.le_succ _), doomedWithin_succ]
  refine or_congr_right (exists_congr fun k => and_congr_right fun hk => and_congr_right fun _ => ?_)
  refine exists_congr fun parent => and_congr_right fun _ => ?_
  rw [doomed, doomedWithin_eq (le_of_lt (R.rank_lt k hk)) (le_refl _)]

/-- What holds of the chosen rows, and passes from a row to those that go with it, holds of
all that go. -/
theorem doomed_induction {P : N → Row C V → Prop} (hchosen : ∀ name row, chosen name row = true → P name row)
    (hcascade : ∀ name row, ∀ k ∈ schema.foreignKeys name, R.onDelete name k = .cascade →
      ∀ parent ∈ tables k.table, P k.table parent → E.same (parent k.key) (row k.column) = true → P name row)
    {name : N} {row : Row C V} (h : R.doomed E tables chosen name row = true) : P name row := by
  rw [doomed] at h
  generalize R.rank name = depth at h
  induction depth generalizing name row with
  | zero => exact hchosen name row h
  | succ depth ih =>
    rcases doomedWithin_succ.mp h with hmem | ⟨k, hk, hon, parent, hparent, hgoes, hsame⟩
    · exact hchosen name row hmem
    · exact hcascade name row k hk hon parent hparent (ih hgoes) hsame

variable [DecidableEq C]

theorem cleared_ne_null {name : N} {row : Row C V} {c : C} (h : R.cleared E tables chosen name row c ≠ E.null) :
    R.cleared E tables chosen name row c = row c := by
  rw [cleared] at h ⊢
  split at h
  · exact absurd rfl h
  · case isFalse hkeeps => exact if_neg hkeeps

/-- A column that no reference is cleared in. -/
theorem cleared_eq {name : N} {c : C}
    (h : ∀ k ∈ schema.foreignKeys name, R.onDelete name k = .setNull → k.column ≠ c) (row : Row C V) :
    R.cleared E tables chosen name row c = row c := by
  refine if_neg ?_
  rintro ⟨k, hk, hcolumn, hon, -⟩
  exact h k hk hon hcolumn

theorem mem_deleteRows {name : N} {row' : Row C V} :
    row' ∈ R.deleteRows E tables chosen name ↔
      ∃ row ∈ tables name, R.doomed E tables chosen name row = false ∧ R.cleared E tables chosen name row = row' := by
  simp only [deleteRows, Multiset.mem_map, Multiset.mem_filter, and_assoc]

/-- A table from which no reference is cleared. -/
theorem deleteRows_filter {name : N} (h : ∀ k ∈ schema.foreignKeys name, R.onDelete name k = .cascade) :
    R.deleteRows E tables chosen name =
      (tables name).filter fun row => R.doomed E tables chosen name row = false := by
  have hcleared : R.cleared E tables chosen name = id := by
    funext row c
    refine cleared_eq (fun k hk hon => ?_) row
    rw [h k hk] at hon
    cases hon
  rw [deleteRows, hcleared, Multiset.map_id]

end References

variable {E}

/-- What a deletion leaves of valid tables is valid. -/
theorem Valid.delete [DecidableEq C] {schema : Schema N C V} {tables : Tables N C V} (h : Valid E ⟨schema, tables⟩)
    (R : References schema) (chosen : N → Row C V → Bool) :
    Valid E ⟨schema, R.deleteRows E tables chosen⟩ where
  absent := by
    intro name hname
    have hnone : tables name = 0 := h.absent hname
    show R.deleteRows E tables chosen name = 0
    rw [References.deleteRows, hnone, Multiset.filter_zero, Multiset.map_zero]
  stored := by
    intro name d hd row' hrow'
    obtain ⟨row, hrow, -, rfl⟩ := References.mem_deleteRows.mp hrow'
    have hstored := h.stored hd row hrow
    refine ⟨fun column hcolumn => ?_, fun c hc => ?_⟩
    · by_cases hnull : R.cleared E tables chosen name row column.name = E.null
      · rw [hnull]
        exact (E.convert_eq_null _ _).mpr rfl
      · rw [References.cleared_ne_null hnull]
        exact hstored.convert column hcolumn
    · by_contra hnull
      exact hnull (References.cleared_ne_null hnull ▸ hstored.outside c hc)
  meets := by
    intro name d hd
    have hmeets := h.meets hd
    have hkeys := Schema.foreignKeys_eq hd
    refine ⟨fun row' hrow' column hcolumn hnotNull hnull => ?_, fun row' hrow' => ?_, fun row' hrow' k hk => ?_⟩
    · obtain ⟨row, hrow, -, rfl⟩ := References.mem_deleteRows.mp hrow'
      have hkept : R.cleared E tables chosen name row column.name = row column.name := by
        refine References.cleared_eq (fun k hk hon heq => ?_) row
        have hnullable := R.nullable hd k (hkeys ▸ hk) hon column hcolumn heq.symm
        rw [hnullable] at hnotNull
        cases hnotNull
      exact hmeets.notNull row hrow column hcolumn hnotNull (hkept ▸ hnull)
    · obtain ⟨row, hrow, -, rfl⟩ := References.mem_deleteRows.mp hrow'
      -- rows that are the same now were the same before, as null is the same as nothing
      have hsame : ∀ r : Row C V, E.sameKey d.primaryKey (R.cleared E tables chosen name r)
          (R.cleared E tables chosen name row) = true → E.sameKey d.primaryKey r row = true := by
        intro r hr
        refine List.all_eq_true.mpr fun c hc => ?_
        have hc := List.all_eq_true.mp hr c hc
        have hleft : R.cleared E tables chosen name r c ≠ E.null := fun hnull => by
          rw [hnull, E.same_null] at hc
          cases hc
        have hright : R.cleared E tables chosen name row c ≠ E.null := fun hnull => by
          rw [hnull] at hc
          have hc := E.same_symm hc
          rw [E.same_null] at hc
          cases hc
        rwa [References.cleared_ne_null hleft, References.cleared_ne_null hright] at hc
      refine le_trans ?_ (hmeets.key row hrow)
      show (R.deleteRows E tables chosen name).countP _ ≤ (tables name).countP _
      rw [References.deleteRows, Multiset.countP_map, ← Multiset.countP_eq_card_filter]
      refine le_trans (Multiset.countP_le_of_le _ (Multiset.filter_le _ _)) ?_
      rw [Multiset.countP_eq_card_filter, Multiset.countP_eq_card_filter]
      exact Multiset.card_le_card (Multiset.monotone_filter_right _ fun r => hsame r)
    · obtain ⟨row, hrow, hstays, rfl⟩ := References.mem_deleteRows.mp hrow'
      by_cases hnull : R.cleared E tables chosen name row k.column = E.null
      · exact .inl hnull
      right
      have hcolumn := References.cleared_ne_null hnull
      rw [hcolumn] at hnull ⊢
      obtain ⟨parent, hparent, hsame⟩ := (hmeets.refers row hrow k hk).resolve_left hnull
      have hmem : k ∈ schema.foreignKeys name := hkeys ▸ hk
      have hparentStays : R.doomed E tables chosen k.table parent = false := by
        by_contra hgoes
        rw [Bool.not_eq_false] at hgoes
        cases hon : R.onDelete name k with
        | cascade =>
          have hdoomed := References.doomed_iff.mpr (.inr ⟨k, hmem, hon, parent, hparent, hgoes, hsame⟩)
          exact absurd (hstays.symm.trans hdoomed) Bool.false_ne_true
        | setNull =>
          refine hnull (hcolumn.symm.trans (if_pos ?_))
          exact ⟨k, hmem, rfl, hon, parent, hparent, hgoes, hsame⟩
      refine ⟨_, References.mem_deleteRows.mpr ⟨parent, hparent, hparentStays, rfl⟩, ?_⟩
      rw [References.cleared_eq (fun k' hk' hon heq => ?_)]
      · exact hsame
      · exact R.unreferred k' hk' hon name k hmem rfl heq.symm

/-- Valid tables with other rows in one of them, in which no key is lost that rows refer to. -/
theorem Valid.put [DecidableEq N] [DecidableEq V] {schema : Schema N C V} {tables tables' : Tables N C V}
    (h : Valid E ⟨schema, tables⟩) {name : N} {d : TableDef N C V} {rows : Multiset (Row C V)}
    (hd : schema.definition name = some d) (hrun : Sql.putRows E tables name d rows = some tables')
    (hstored : ∀ row ∈ rows, Stored E d row)
    (hparents : ∀ other, ∀ k ∈ schema.foreignKeys other, k.table = name → ∀ parent ∈ tables name,
      ∃ parent' ∈ rows, parent' k.key = parent k.key) : Valid E ⟨schema, tables'⟩ := by
  rw [Sql.putRows] at hrun
  split at hrun
  case isFalse => cases hrun
  case isTrue hmeets =>
  cases hrun
  refine ⟨fun {other} hother => ?_, fun {other d'} hd' => ?_, fun {other d'} hd' => ?_⟩
  · have hne : other ≠ name := fun heq => by
      rw [heq] at hother
      exact absurd (hother.symm.trans hd) (by simp)
    exact (Function.update_of_ne hne _ _).trans (h.absent hother)
  · show ∀ row ∈ Function.update tables name rows other, Stored E d' row
    by_cases heq : other = name
    · subst heq
      cases hd.symm.trans hd'
      rwa [Function.update_self]
    · rw [Function.update_of_ne heq]
      exact h.stored hd'
  · show Meets E (Function.update tables name rows) d' (Function.update tables name rows other)
    by_cases heq : other = name
    · subst heq
      cases hd.symm.trans hd'
      rwa [Function.update_self]
    · rw [Function.update_of_ne heq]
      refine (h.meets hd').mono fun k hk parent hparent _ => ?_
      by_cases htable : k.table = name
      · rw [htable] at hparent
        rw [htable, Function.update_self]
        exact hparents other k (Schema.foreignKeys_eq hd' ▸ hk) htable parent hparent
      · rw [Function.update_of_ne htable]
        exact ⟨parent, hparent, rfl⟩

/-! ## Changes -/

inductive Change (N C V : Type)
  | insert (table : N) (columns : List C) (values : List V)
  /-- `ON CONFLICT(..) DO UPDATE SET c = excluded.c, ..` for the columns of the primary key -/
  | upsert (table : N) (columns : List C) (values : List V) (sets : List C)
  | update (table : N) (sets : List (C × V)) (chosen : Row C V → Bool)
  | delete (table : N) (chosen : Row C V → Bool)

namespace Change

def table : Change N C V → N
  | .insert table _ _ => table
  | .upsert table _ _ _ => table
  | .update table _ _ => table
  | .delete table _ => table

/-- The columns that are set in rows that are there. -/
def sets : Change N C V → List C
  | .insert _ _ _ => []
  | .upsert _ _ _ sets => sets
  | .update _ sets _ => sets.map Prod.fst
  | .delete _ _ => []

/-- The columns that are given values in new rows. -/
def columns : Change N C V → List C
  | .insert _ columns _ => columns
  | .upsert _ columns _ _ => columns
  | .update _ _ _ => []
  | .delete _ _ => []

/-- How many rows the change is about; those that a deletion reaches are not counted. -/
def count (tables : Tables N C V) : Change N C V → Nat
  | .insert _ _ _ => 1
  | .upsert _ _ _ _ => 1
  | .update table _ chosen => (tables table).countP fun row => chosen row = true
  | .delete table chosen => (tables table).countP fun row => chosen row = true

/-- The schema lets the change run on the table. One that sets a column that rows refer to
is left out: it fails here. -/
def Allowed (schema : Schema N C V) (d : TableDef N C V) (change : Change N C V) : Prop :=
  change.columns ⊆ d.names ∧ change.sets ⊆ d.names ∧
    ∀ other, ∀ k ∈ schema.foreignKeys other, k.table = change.table → k.key ∉ change.sets

instance [DecidableEq N] [DecidableEq C] [Fintype N] (schema : Schema N C V) (d : TableDef N C V)
    (change : Change N C V) : Decidable (change.Allowed schema d) :=
  inferInstanceAs (Decidable (_ ∧ _ ∧ _))

end Change

/-! ### The rows of a change -/

variable (E) [DecidableEq C]

/-- The row with what is set in the chosen ones. -/
def setWhere (d : TableDef N C V) (sets : List (C × V)) (chosen : Row C V → Bool) (row : Row C V) : Row C V :=
  if chosen row then setColumns E d sets row else row

/-- The rows with a new one, which is merged into the one with its key. -/
def upsertRow (d : TableDef N C V) (sets : List C) (new : Row C V) (rows : Multiset (Row C V)) :
    Multiset (Row C V) :=
  if 0 < rows.countP (fun row => E.sameKey d.primaryKey row new) then
    rows.map (setWhere E d (sets.map fun c => (c, new c)) fun row => E.sameKey d.primaryKey row new)
  else rows + {new}

variable {E}

theorem Stored.setWhere {d : TableDef N C V} {row : Row C V} (h : Stored E d row) (sets : List (C × V))
    (chosen : Row C V → Bool) : Stored E d (Sql.setWhere E d sets chosen row) := by
  rw [Sql.setWhere]
  split
  · exact h.setColumns sets
  · exact h

theorem setWhere_of_notMem {d : TableDef N C V} {sets : List (C × V)} {c : C} (h : c ∉ sets.map Prod.fst)
    (chosen : Row C V → Bool) (row : Row C V) : setWhere E d sets chosen row c = row c := by
  rw [setWhere]
  split
  · exact setColumns_of_notMem d h row
  · rfl

theorem setWhere_cases (d : TableDef N C V) (sets : List (C × V)) (chosen : Row C V → Bool) (row : Row C V) (c : C) :
    setWhere E d sets chosen row c = row c ∨
      ∃ v, (c, v) ∈ sets ∧ ∃ column ∈ d.columns, column.name = c ∧
        setWhere E d sets chosen row c = E.convert column.affinity v := by
  rw [setWhere]
  split
  · rw [setColumns]
    split
    · case h_1 v column hlookup hcolumn =>
      obtain ⟨before, after, hsets, -⟩ := List.lookup_eq_some_iff.mp hlookup
      have hmem : (c, v) ∈ sets := hsets ▸ List.mem_append_right _ List.mem_cons_self
      refine .inr ⟨v, hmem, column, List.mem_of_find?_eq_some hcolumn, ?_, rfl⟩
      simpa using List.find?_some hcolumn
    · exact .inl rfl
  · exact .inl rfl

omit [DecidableEq C] in
theorem map_fst_excluded (sets : List C) (new : Row C V) : (sets.map fun c => (c, new c)).map Prod.fst = sets := by
  rw [List.map_map]
  exact List.map_id _

/-- A row of the table that a new one is put into: an old one, up to what is set, or the new one. -/
theorem mem_upsertRow {d : TableDef N C V} {sets : List C} {new row' : Row C V} {rows : Multiset (Row C V)}
    (h : row' ∈ upsertRow E d sets new rows) :
    (∃ row ∈ rows, row' = setWhere E d (sets.map fun c => (c, new c)) (fun r => E.sameKey d.primaryKey r new) row) ∨
      row' = new := by
  rw [upsertRow] at h
  split at h
  · obtain ⟨row, hrow, rfl⟩ := Multiset.mem_map.mp h
    exact .inl ⟨row, hrow, rfl⟩
  · cases Multiset.mem_add.mp h with
    | inr hmem => exact .inr (Multiset.mem_singleton.mp hmem)
    | inl hmem =>
      case isFalse hnone =>
      refine .inl ⟨row', hmem, (if_neg fun hsame => hnone ?_).symm⟩
      exact Multiset.countP_pos.mpr ⟨row', hmem, hsame⟩

/-! ### The run of a change -/

variable (E)

/-- The rows of its table that the change leaves, where it deletes none. -/
def Change.rows (d : TableDef N C V) (rows : Multiset (Row C V)) : Change N C V → Multiset (Row C V)
  | .insert _ columns values => rows + {newRow E d columns values}
  | .upsert _ columns values sets => upsertRow E d sets (newRow E d columns values) rows
  | .update _ sets chosen => rows.map (setWhere E d sets chosen)
  | .delete _ _ => rows

variable {E}

/-- A row that the change leaves: an old one, up to what is set, or a new one. -/
theorem Change.mem_rows {d : TableDef N C V} {change : Change N C V} {rows : Multiset (Row C V)} {row' : Row C V}
    (h : row' ∈ change.rows E d rows) :
    (∃ row ∈ rows, ∃ sets chosen, sets.map Prod.fst ⊆ change.sets ∧ row' = setWhere E d sets chosen row) ∨
      ∃ values, row' = newRow E d change.columns values := by
  cases change with
  | insert table columns values =>
    cases Multiset.mem_add.mp h with
    | inl hmem => exact .inl ⟨row', hmem, [], fun _ => false, List.Subset.refl _, rfl⟩
    | inr hmem => exact .inr ⟨values, Multiset.mem_singleton.mp hmem⟩
  | upsert table columns values sets =>
    rcases mem_upsertRow h with ⟨row, hrow, rfl⟩ | rfl
    · refine .inl ⟨row, hrow, _, _, ?_, rfl⟩
      rw [map_fst_excluded]
      exact List.Subset.refl _
    · exact .inr ⟨values, rfl⟩
  | update table sets chosen =>
    obtain ⟨row, hrow, rfl⟩ := Multiset.mem_map.mp h
    exact .inl ⟨row, hrow, sets, chosen, List.Subset.refl _, rfl⟩
  | delete table chosen => exact .inl ⟨row', h, [], fun _ => false, List.Subset.refl _, rfl⟩

omit [DecidableEq C] in
/-- Rows that are changed outside of what is read of them. -/
theorem filter_map_eq {α : Type} {g : Row C V → Row C V} {p : Row C V → Bool} {f : Row C V → α}
    (hg : ∀ row, p (g row) = p row ∧ f (g row) = f row) (rows : Multiset (Row C V)) :
    ((rows.map g).filter fun row => p row = true).map f = (rows.filter fun row => p row = true).map f := by
  have hp : (fun row => p row = true) ∘ g = fun row => p row = true := funext fun row => congrArg (· = true) (hg row).1
  rw [Multiset.filter_map, Multiset.map_map]
  simp only [hp]
  exact Multiset.map_congr rfl fun row _ => (hg row).2

/-- What is read of the rows that it does not set only becomes more. -/
theorem Change.filter_map_le_rows {α : Type} {d : TableDef N C V} {change : Change N C V} {p : Row C V → Bool}
    {f : Row C V → α} (hkept : ∀ row row', (∀ c, c ∉ change.sets → row c = row' c) → p row = p row' ∧ f row = f row')
    (rows : Multiset (Row C V)) :
    (rows.filter fun row => p row = true).map f ≤
      ((change.rows E d rows).filter fun row => p row = true).map f := by
  have hadd (new : Row C V) : (rows.filter fun row => p row = true).map f ≤
      ((rows + {new}).filter fun row => p row = true).map f := by
    rw [Multiset.filter_add, Multiset.map_add]
    exact Multiset.le_add_right _ _
  have hset {sets : List (C × V)} (chosen : Row C V → Bool) (hsets : sets.map Prod.fst = change.sets) :
      (rows.filter fun row => p row = true).map f ≤
        ((rows.map (setWhere E d sets chosen)).filter fun row => p row = true).map f := by
    refine le_of_eq (filter_map_eq (fun row => ?_) rows).symm
    exact hkept _ _ fun c hc => setWhere_of_notMem (by rwa [hsets]) _ row
  cases change with
  | insert table columns values => exact hadd _
  | upsert table columns values sets =>
    rw [Change.rows, upsertRow]
    split
    · exact hset _ (map_fst_excluded _ _)
    · exact hadd _
  | update table sets chosen => exact hset _ rfl
  | delete table chosen => exact le_refl _

variable (E) [DecidableEq V] [DecidableEq N]

/-- A required column of the new row is null, which is found before a key in conflict. -/
def Change.lacks (d : TableDef N C V) (change : Change N C V) : Bool :=
  match change with
  | .upsert _ columns values _ =>
    d.columns.any fun column => column.notNull = true ∧ newRow E d columns values column.name = E.null
  | _ => false

/-- The rows of one table. -/
def only (table : N) (chosen : Row C V → Bool) (name : N) (row : Row C V) : Bool := name = table && chosen row

/-- What the change makes of the tables, or none where it fails. -/
def Change.run [Fintype N] {schema : Schema N C V} (R : References schema) (tables : Tables N C V)
    (change : Change N C V) : Option (Tables N C V) :=
  (schema.definition change.table).bind fun d =>
    if change.Allowed schema d ∧ change.lacks E d = false then
      match change with
      | .delete table chosen => some (R.deleteRows E tables (only table chosen))
      | change => putRows E tables change.table d (change.rows E d (tables change.table))
    else none

variable {E}

namespace Change

variable {schema : Schema N C V} {R : References schema} {tables tables' : Tables N C V} {change : Change N C V}

/-- A change that runs puts rows into its table, or deletes rows. -/
theorem run_cases [Fintype N] (hrun : change.run E R tables = some tables') :
    ∃ d, schema.definition change.table = some d ∧ change.Allowed schema d ∧
      (putRows E tables change.table d (change.rows E d (tables change.table)) = some tables' ∨
        ∃ table chosen, change = .delete table chosen ∧ tables' = R.deleteRows E tables (only table chosen)) := by
  obtain ⟨d, hd, hrun⟩ := Option.bind_eq_some_iff.mp hrun
  split at hrun
  case isFalse => cases hrun
  case isTrue hallowed =>
  refine ⟨d, hd, hallowed.1, ?_⟩
  cases change with
  | insert table columns values => exact .inl hrun
  | upsert table columns values sets => exact .inl hrun
  | update table sets chosen => exact .inl hrun
  | delete table chosen => exact .inr ⟨table, chosen, rfl, (Option.some.inj hrun).symm⟩

end Change

/-- What a change makes of valid tables is valid. -/
theorem Change.run_valid [Fintype N] {schema : Schema N C V} {R : References schema} {tables tables' : Tables N C V}
    {change : Change N C V} (h : Valid E ⟨schema, tables⟩) (hrun : change.run E R tables = some tables') :
    Valid E ⟨schema, tables'⟩ := by
  obtain ⟨d, hd, hallowed, hput | ⟨table, chosen, rfl, rfl⟩⟩ := run_cases hrun
  · refine h.put hd hput (fun row' hrow' => ?_) fun other k hk htable parent hparent => ?_
    · rcases mem_rows hrow' with ⟨row, hrow, sets, chosen, -, rfl⟩ | ⟨values, rfl⟩
      · exact (h.stored hd row hrow).setWhere _ _
      · exact stored_newRow d _ values
    · have hkey : k.key ∉ change.sets := hallowed.2.2 other k hk htable
      have hle := filter_map_le_rows (E := E) (d := d) (p := fun _ => true) (f := fun row => row k.key)
        (fun row row' hsame => ⟨rfl, hsame _ hkey⟩) (tables change.table)
      simp only [Multiset.filter_true] at hle
      exact Multiset.mem_map.mp (Multiset.mem_of_le hle (Multiset.mem_map_of_mem _ hparent))
  · exact h.delete R _

/-! ### What a change keeps -/

namespace Change

/-- The columns that the change can alter in the rows of a table. -/
def touched {schema : Schema N C V} (R : References schema) (name : N) : Change N C V → List C
  | .delete _ _ => ((schema.foreignKeys name).filter fun k => R.onDelete name k = .setNull).map (·.column)
  | change => if change.table = name then change.sets else []

variable {schema : Schema N C V} {R : References schema} {tables tables' : Tables N C V} {change : Change N C V}

omit [DecidableEq C] [DecidableEq V] in
theorem touched_of_ne {name : N} (hputs : ∀ table chosen, change ≠ .delete table chosen) (hne : change.table ≠ name) :
    change.touched R name = [] := by
  cases change with
  | insert table columns values => exact if_neg hne
  | upsert table columns values sets => exact if_neg hne
  | update table sets chosen => exact if_neg hne
  | delete table chosen => exact absurd rfl (hputs table chosen)

variable [Fintype N]

/-- What is read of rows outside of the columns that the change touches, of the rows that it
does not delete, only becomes more. -/
theorem filter_map_le {α : Type} {name : N} {p : Row C V → Bool} {f : Row C V → α}
    (hrun : change.run E R tables = some tables')
    (hkept : ∀ row row', (∀ c, c ∉ change.touched R name → row c = row' c) → p row = p row' ∧ f row = f row')
    (hstays : ∀ table chosen, change = .delete table chosen → ∀ row ∈ tables name, p row = true →
      R.doomed E tables (only table chosen) name row = false) :
    ((tables name).filter fun row => p row = true).map f ≤ ((tables' name).filter fun row => p row = true).map f := by
  obtain ⟨d, hd, hallowed, hput | ⟨table, chosen, rfl, rfl⟩⟩ := run_cases hrun
  · rw [putRows] at hput
    split at hput
    case isFalse => cases hput
    case isTrue =>
    cases hput
    by_cases heq : name = change.table
    · rw [heq, Function.update_self]
      refine filter_map_le_rows (fun row row' hsame => hkept row row' fun c hc => hsame c ?_) _
      have htouched : change.sets ⊆ change.touched R name := by
        rw [heq]
        cases change with
        | insert table columns values => simp [touched, Change.table]
        | upsert table columns values sets => simp [touched, Change.table]
        | update table sets chosen => simp [touched, Change.table]
        | delete table chosen => simp [sets]
      exact fun hmem => hc (htouched hmem)
    · rw [Function.update_of_ne heq]
  · have hcleared (row : Row C V) : p (R.cleared E tables (only table chosen) name row) = p row ∧
        f (R.cleared E tables (only table chosen) name row) = f row := by
      refine hkept _ _ fun c hc => References.cleared_eq (fun k hk hon heq => hc ?_) row
      exact List.mem_map.mpr ⟨k, List.mem_filter.mpr ⟨hk, decide_eq_true hon⟩, heq⟩
    rw [References.deleteRows, filter_map_eq hcleared, Multiset.filter_filter]
    refine Multiset.map_le_map (le_of_eq (Multiset.filter_congr fun row hrow => ?_))
    exact ⟨fun hp => ⟨hp, hstays table chosen rfl row hrow hp⟩, And.left⟩

/-- A table that refers to no other is changed by changes of its own only. -/
theorem run_other {name : N} (hrun : change.run E R tables = some tables') (hne : name ≠ change.table)
    (hkeys : schema.foreignKeys name = []) : tables' name = tables name := by
  obtain ⟨d, hd, hallowed, hput | ⟨table, chosen, rfl, rfl⟩⟩ := run_cases hrun
  · rw [putRows] at hput
    split at hput
    case isFalse => cases hput
    case isTrue =>
    cases hput
    exact Function.update_of_ne hne _ _
  · have hnone : ∀ k ∈ schema.foreignKeys name, R.onDelete name k = .cascade := by
      rw [hkeys]
      exact fun k hk => absurd hk List.not_mem_nil
    rw [References.deleteRows_filter hnone]
    refine Multiset.filter_eq_self.mpr fun row _ => Bool.eq_false_iff.mpr fun hdoomed => ?_
    rcases References.doomed_iff.mp hdoomed with hmem | ⟨k, hk, -⟩
    · have heq := (Bool.and_eq_true_iff.mp hmem).1
      exact hne (of_decide_eq_true heq)
    · rw [hkeys] at hk
      exact absurd hk List.not_mem_nil

/-- The rows keep what new rows have and what set and cleared rows keep. -/
theorem forall_rows {P : N → Row C V → Prop} (hrun : change.run E R tables = some tables')
    (hrows : ∀ name, ∀ row ∈ tables name, P name row)
    (hput : ∀ d, schema.definition change.table = some d → ∀ row ∈ change.rows E d (tables change.table),
      P change.table row)
    (hcleared : ∀ name row row', P name row → (∀ c, row' c = row c ∨ row' c = E.null ∧
      ∃ k ∈ schema.foreignKeys name, k.column = c ∧ R.onDelete name k = .setNull) → P name row') :
    ∀ name, ∀ row ∈ tables' name, P name row := by
  intro name row hrow
  obtain ⟨d, hd, hallowed, hput' | ⟨table, chosen, rfl, rfl⟩⟩ := run_cases hrun
  · rw [putRows] at hput'
    split at hput'
    case isFalse => cases hput'
    case isTrue =>
    cases hput'
    by_cases heq : name = change.table
    · subst heq
      rw [Function.update_self] at hrow
      exact hput d hd row hrow
    · rw [Function.update_of_ne heq] at hrow
      exact hrows name row hrow
  · obtain ⟨old, hold, -, rfl⟩ := References.mem_deleteRows.mp hrow
    refine hcleared name old _ (hrows name old hold) fun c => ?_
    rw [References.cleared]
    split
    · case isTrue h =>
      obtain ⟨k, hk, hcolumn, hon, -⟩ := h
      exact .inr ⟨rfl, k, hk, hcolumn, hon⟩
    · exact .inl rfl

/-- What the change writes into the columns of its table may be there. -/
def Writes (E : Engine V) (fine : N → C → V → Prop) (d : TableDef N C V) : Change N C V → Prop
  | .insert table columns values => ∀ column ∈ d.columns,
    fine table column.name (((columns.zip values).lookup column.name).getD (column.default.getD E.null))
  | .upsert table columns values _ => ∀ column ∈ d.columns,
    fine table column.name (((columns.zip values).lookup column.name).getD (column.default.getD E.null))
  | .update table sets _ => ∀ p ∈ sets, fine table p.1 p.2
  | .delete _ _ => True

/-- What may be in the columns stays so. -/
theorem forall_columns {fine : N → C → V → Prop}
    (hconvert : ∀ name, ∀ d ∈ schema.definition name, ∀ column ∈ d.columns, ∀ v, fine name column.name v →
      fine name column.name (E.convert column.affinity v))
    (hnull : ∀ name, ∀ k ∈ schema.foreignKeys name, R.onDelete name k = .setNull → fine name k.column E.null)
    (hwrites : ∀ d ∈ schema.definition change.table, change.Writes E fine d)
    (hrows : ∀ name, ∀ row ∈ tables name, ∀ d ∈ schema.definition name, ∀ c ∈ d.names, fine name c (row c))
    (hrun : change.run E R tables = some tables') :
    ∀ name, ∀ row ∈ tables' name, ∀ d ∈ schema.definition name, ∀ c ∈ d.names, fine name c (row c) := by
  refine forall_rows (P := fun name row => ∀ d ∈ schema.definition name, ∀ c ∈ d.names, fine name c (row c)) hrun hrows
    (fun d hd row' hrow' d' hd' c hc => ?_) fun name row row' hrow hcleared d hd c hc => ?_
  · cases hd.symm.trans hd'
    obtain ⟨d', hd', ⟨-, hsets, -⟩, -⟩ := run_cases hrun
    cases hd.symm.trans hd'
    have hset {sets : List (C × V)} {chosen : Row C V → Bool} {row : Row C V} (hrow : row ∈ tables change.table)
        (hsets : ∀ p ∈ sets, fine change.table p.1 p.2) : fine change.table c (setWhere E d sets chosen row c) := by
      rcases setWhere_cases d sets chosen row c with heq | ⟨v, hv, column, hcolumn, rfl, heq⟩
      · rw [heq]
        exact hrows _ row hrow d hd c hc
      · rw [heq]
        exact hconvert _ d hd column hcolumn v (hsets _ hv)
    have hnew {columns : List C} {values : List V} (hvalues : ∀ column ∈ d.columns, fine change.table column.name
        (((columns.zip values).lookup column.name).getD (column.default.getD E.null))) :
        ∀ c ∈ d.names, fine change.table c (newRow E d columns values c) := by
      intro c hc
      obtain ⟨column, hcolumn, rfl⟩ := List.mem_map.mp hc
      rw [newRow, TableDef.column?_name hcolumn]
      exact hconvert _ d hd column hcolumn _ (hvalues column hcolumn)
    have hwrites := hwrites d hd
    cases change with
    | insert table columns values =>
      cases Multiset.mem_add.mp hrow' with
      | inl hmem => exact hrows _ row' hmem d hd c hc
      | inr hmem =>
        rw [Multiset.mem_singleton.mp hmem]
        exact hnew hwrites c hc
    | upsert table columns values sets =>
      rcases mem_upsertRow hrow' with ⟨row, hrow, rfl⟩ | rfl
      · refine hset hrow fun p hp => ?_
        obtain ⟨set, hmem, rfl⟩ := List.mem_map.mp hp
        exact hnew hwrites set (hsets hmem)
      · exact hnew hwrites c hc
    | update table sets chosen =>
      obtain ⟨row, hrow, rfl⟩ := Multiset.mem_map.mp hrow'
      exact hset hrow hwrites
    | delete table chosen => exact hrows _ row' hrow' d hd c hc
  · rcases hcleared c with heq | ⟨heq, k, hk, rfl, hon⟩
    · rw [heq]
      exact hrow d hd c hc
    · rw [heq]
      exact hnull name k hk hon

end Change

end KW.Sql
