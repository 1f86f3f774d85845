import KodeWork.Framework.Tables

/-!
# Scripts

The statements of SQL that create, fill, rename and drop tables. What a statement asks of
the schema and does to it (`Allowed`, `effect`) is computed from the schema alone; what it
does to the rows (`rows`) fails where they would not meet the constraints of their table.
A statement that drops, renames or updates a table that others refer to is left out: it
fails here.

`run_valid` is the step and `runAll_valid` the run: what a script makes of a valid
database is valid.
-/

namespace KW.Sql

variable {N C V : Type}

inductive Statement (N C V : Type)
  | createTable (name : N) (definition : TableDef N C V) (ifNotExists : Bool)
  | createIndex (name table : N) (columns : List C)
  | addColumn (table : N) (column : ColumnDef C V)
  | dropTable (name : N)
  | renameTable (old new : N)
  | insertValues (table : N) (columns : List C) (values : List V)
  | insertSelect (table : N) (columns : List C) (select : Select N C V)
  /-- of all the rows -/
  | update (table : N) (sets : List (C × V))

variable [DecidableEq N] [DecidableEq C]

namespace Statement

/-- The schema lets the statement run. -/
def Allowed (schema : Schema N C V) : Statement N C V → Prop
  | .createTable name _ ifNotExists => schema name = none ∨ ifNotExists = true ∧ (schema.definition name).isSome
  | .createIndex name table columns => schema name = none ∧ ∃ d ∈ schema.definition table, columns ⊆ d.names
  | .addColumn table column => ∃ d ∈ schema.definition table, column.name ∉ d.names
  | .dropTable name => (schema.definition name).isSome ∧ ¬ schema.Referred name
  | .renameTable old new => (schema.definition old).isSome ∧ schema new = none ∧ ¬ schema.Referred old
  | .insertValues table columns _ => ∃ d ∈ schema.definition table, columns ⊆ d.names
  | .insertSelect table columns select =>
    (∃ d ∈ schema.definition table, columns ⊆ d.names) ∧
      ∀ name ∈ select.source :: select.joins.map (·.table), (schema.definition name).isSome
  | .update table sets => (∃ d ∈ schema.definition table, sets.map Prod.fst ⊆ d.names) ∧ ¬ schema.Referred table

instance [Fintype N] (schema : Schema N C V) : DecidablePred (Allowed schema)
  | .createTable name _ ifNotExists =>
    inferInstanceAs (Decidable (schema name = none ∨ ifNotExists = true ∧ (schema.definition name).isSome))
  | .createIndex name table columns =>
    inferInstanceAs (Decidable (schema name = none ∧ ∃ d ∈ schema.definition table, columns ⊆ d.names))
  | .addColumn table column => inferInstanceAs (Decidable (∃ d ∈ schema.definition table, column.name ∉ d.names))
  | .dropTable name => inferInstanceAs (Decidable ((schema.definition name).isSome ∧ ¬ schema.Referred name))
  | .renameTable old new =>
    inferInstanceAs (Decidable ((schema.definition old).isSome ∧ schema new = none ∧ ¬ schema.Referred old))
  | .insertValues table columns _ => inferInstanceAs (Decidable (∃ d ∈ schema.definition table, columns ⊆ d.names))
  | .insertSelect table columns select =>
    inferInstanceAs (Decidable ((∃ d ∈ schema.definition table, columns ⊆ d.names) ∧
      ∀ name ∈ select.source :: select.joins.map (·.table), (schema.definition name).isSome))
  | .update table sets =>
    inferInstanceAs (Decidable ((∃ d ∈ schema.definition table, sets.map Prod.fst ⊆ d.names) ∧
      ¬ schema.Referred table))

/-- What the statement does to the schema. -/
def effect (schema : Schema N C V) : Statement N C V → Schema N C V
  | .createTable name d _ =>
    match schema name with
    | none => Function.update schema name (some (.table d))
    | some _ => schema
  | .createIndex name table _ => Function.update schema name (some (.index table))
  | .addColumn table column =>
    match schema.definition table with
    | none => schema
    | some d =>
      if h : column.name ∉ d.names then Function.update schema table (some (.table (d.extend column h))) else schema
  | .dropTable name => schema.drop name
  | .renameTable old new =>
    match schema.definition old with
    | none => schema
    | some d => schema.rename old new d
  | .insertValues _ _ _ => schema
  | .insertSelect _ _ _ => schema
  | .update _ _ => schema

end Statement

variable (E : Engine V) [DecidableEq V]

namespace Statement

/-- What the statement does to the rows. -/
def rows (schema : Schema N C V) (tables : Tables N C V) : Statement N C V → Option (Tables N C V)
  | .createTable name _ _ =>
    match schema name with
    | none => some (Function.update tables name 0)
    | some _ => some tables
  | .createIndex _ _ _ => some tables
  | .addColumn table column =>
    let value := E.convert column.affinity (column.default.getD E.null)
    if column.notNull = true ∧ value = E.null then none
    else some (Function.update tables table ((tables table).map fun row => Function.update row column.name value))
  | .dropTable name => some (Function.update tables name 0)
  | .renameTable old new => some (Function.update (Function.update tables old 0) new (tables old))
  | .insertValues table columns values =>
    (schema.definition table).bind fun d => putRows E tables table d (tables table + {newRow E d columns values})
  | .insertSelect table columns select =>
    (schema.definition table).bind fun d =>
      putRows E tables table d (tables table + (select.joined E tables).map fun e =>
        newRow E d columns (select.columns.map (·.eval e)))
  | .update table sets =>
    (schema.definition table).bind fun d => putRows E tables table d ((tables table).map (setColumns E d sets))

/-- What the statement makes of the database, or none where it fails. -/
def run [Fintype N] (db : Database N C V) (s : Statement N C V) : Option (Database N C V) :=
  if s.Allowed db.schema then (s.rows E db.schema db.rows).map (Database.mk (s.effect db.schema)) else none

end Statement

variable [Fintype N]

def runAll : List (Statement N C V) → Database N C V → Option (Database N C V)
  | [], db => some db
  | s :: ss, db => (s.run E db).bind (runAll ss)

/-! ### The schema and the rows of a run -/

/-- The schema lets the statements run one after another. -/
def AllowedAll : List (Statement N C V) → Schema N C V → Prop
  | [], _ => True
  | s :: ss, schema => s.Allowed schema ∧ AllowedAll ss (s.effect schema)

def decAllowedAll : (ss : List (Statement N C V)) → (schema : Schema N C V) → Decidable (AllowedAll ss schema)
  | [], _ => isTrue trivial
  | s :: ss, schema =>
    have := decAllowedAll ss (s.effect schema)
    inferInstanceAs (Decidable (s.Allowed schema ∧ AllowedAll ss (s.effect schema)))

instance (ss : List (Statement N C V)) (schema : Schema N C V) : Decidable (AllowedAll ss schema) :=
  decAllowedAll ss schema

def effectAll (ss : List (Statement N C V)) (schema : Schema N C V) : Schema N C V :=
  ss.foldl (fun schema s => s.effect schema) schema

def rowsAll : List (Statement N C V) → Schema N C V → Tables N C V → Option (Tables N C V)
  | [], _, tables => some tables
  | s :: ss, schema, tables => (s.rows E schema tables).bind (rowsAll ss (s.effect schema))

theorem runAll_eq {ss : List (Statement N C V)} {db : Database N C V} (h : AllowedAll ss db.schema) :
    runAll E ss db = (rowsAll E ss db.schema db.rows).map (Database.mk (effectAll ss db.schema)) := by
  induction ss generalizing db with
  | nil => rfl
  | cons s ss ih =>
    rw [runAll, rowsAll, Statement.run, if_pos h.1]
    cases s.rows E db.schema db.rows with
    | none => rfl
    | some tables => exact @ih ⟨s.effect db.schema, tables⟩ h.2

/-! ## Valid databases -/

variable {E}

namespace Statement

/-- What a statement makes of a valid database is valid. -/
theorem run_valid {db db' : Database N C V} {s : Statement N C V} (h : Valid E db) (hrun : s.run E db = some db') :
    Valid E db' := by
  rw [run] at hrun
  split at hrun
  case isFalse => cases hrun
  case isTrue hallowed =>
  obtain ⟨tables, hrows, rfl⟩ := Option.map_eq_some_iff.mp hrun
  cases s with
  | createTable name d ifNotExists =>
    rw [rows] at hrows
    rw [effect]
    cases hname : db.schema name with
    | some entry =>
      rw [hname] at hrows
      cases hrows
      exact h
    | none =>
      rw [hname] at hrows
      cases hrows
      exact h.create (by rw [Schema.definition, hname]) d
  | createIndex name table columns =>
    cases hrows
    exact
      { absent := fun hn => h.absent (by rwa [effect, Schema.definition_index hallowed.1] at hn)
        stored := fun hd => h.stored (by rwa [effect, Schema.definition_index hallowed.1] at hd)
        meets := fun hd => h.meets (by rwa [effect, Schema.definition_index hallowed.1] at hd) }
  | addColumn table column =>
    obtain ⟨d, hd, hfresh⟩ := hallowed
    rw [rows] at hrows
    split at hrows
    case isTrue => cases hrows
    case isFalse hvalue =>
    cases hrows
    have heffect : effect db.schema (.addColumn table column) =
        Function.update db.schema table (some (.table (d.extend column hfresh))) := by
      rw [effect, Option.mem_def.mp hd]
      exact dif_pos hfresh
    rw [heffect]
    exact h.extend hd hfresh (E.convert_convert _ _) fun hnotNull => fun hnull => hvalue ⟨hnotNull, hnull⟩
  | dropTable name =>
    cases hrows
    exact h.drop hallowed.2
  | renameTable old new =>
    cases hrows
    obtain ⟨d, hd⟩ := Option.isSome_iff_exists.mp hallowed.1
    rw [effect, hd]
    exact h.rename hd hallowed.2.1 hallowed.2.2
  | insertValues table columns values =>
    obtain ⟨d, hd, hrows⟩ := Option.bind_eq_some_iff.mp hrows
    refine h.putRows hd hrows (fun row hrow => ?_) fun c parent hparent _ _ => ?_
    · cases Multiset.mem_add.mp hrow with
      | inl hmem => exact h.stored hd row hmem
      | inr hmem =>
        rw [Multiset.mem_singleton.mp hmem]
        exact stored_newRow d columns values
    · exact ⟨parent, Multiset.mem_add.mpr (.inl hparent), rfl⟩
  | insertSelect table columns select =>
    obtain ⟨d, hd, hrows⟩ := Option.bind_eq_some_iff.mp hrows
    refine h.putRows hd hrows (fun row hrow => ?_) fun c parent hparent _ _ => ?_
    · cases Multiset.mem_add.mp hrow with
      | inl hmem => exact h.stored hd row hmem
      | inr hmem =>
        obtain ⟨e, -, rfl⟩ := Multiset.mem_map.mp hmem
        exact stored_newRow d columns _
    · exact ⟨parent, Multiset.mem_add.mpr (.inl hparent), rfl⟩
  | update table sets =>
    obtain ⟨d, hd, hrows⟩ := Option.bind_eq_some_iff.mp hrows
    refine h.putRows hd hrows (fun row' hrow' => ?_) fun c parent _ _ hreferred => absurd hreferred hallowed.2
    obtain ⟨row, hrow, rfl⟩ := Multiset.mem_map.mp hrow'
    exact (h.stored hd row hrow).setColumns sets

end Statement

/-- What a script makes of a valid database is valid. -/
theorem runAll_valid {ss : List (Statement N C V)} {db db' : Database N C V} (h : Valid E db)
    (hrun : runAll E ss db = some db') : Valid E db' := by
  induction ss generalizing db with
  | nil =>
    cases hrun
    exact h
  | cons s ss ih =>
    obtain ⟨next, hstep, hrest⟩ := Option.bind_eq_some_iff.mp hrun
    exact ih (s.run_valid h hstep) hrest

/-! ## Empty tables -/

namespace Statement

/-- The tables whose rows the statement reads or writes. -/
def tables : Statement N C V → List N
  | .createTable name _ _ => [name]
  | .createIndex _ _ _ => []
  | .addColumn table _ => [table]
  | .dropTable name => [name]
  | .renameTable old new => [old, new]
  | .insertValues table _ _ => [table]
  | .insertSelect table _ select => table :: select.source :: select.joins.map (·.table)
  | .update table _ => [table]

variable (E)

/-- The statement has something to put into tables without rows, or a column that cannot be filled. -/
def Fills : Statement N C V → Prop
  | .addColumn _ column => column.notNull = true ∧ E.convert column.affinity (column.default.getD E.null) = E.null
  | .insertValues _ _ _ => True
  | _ => False

variable {E}

omit [DecidableEq C] [Fintype N] in
theorem putRows_zero (tables : Tables N C V) (name : N) (d : TableDef N C V) :
    putRows E tables name d 0 = some (Function.update tables name 0) := by
  refine if_pos ⟨?_, ?_, ?_⟩ <;> exact fun row hrow => absurd hrow (Multiset.notMem_zero row)

omit [DecidableEq C] [DecidableEq V] [Fintype N] in
theorem joined_zero {tables : Tables N C V} {select : Select N C V} (h : tables select.source = 0) :
    select.joined E tables = 0 := by
  have hjoins (joins : List (Join N C)) :
      joins.foldl (fun rows join => join.apply E tables rows) (0 : Multiset (Joined N C V)) = 0 := by
    induction joins with
    | nil => rfl
    | cons join joins ih => exact ih
  rw [Select.joined, h, Multiset.map_zero, hjoins]

omit [Fintype N] in
/-- A statement on empty tables leaves empty tables. -/
theorem rows_of_empty {schema : Schema N C V} {tables : Tables N C V} {s : Statement N C V} {kept : N}
    (hallowed : s.Allowed schema) (hfills : ¬s.Fills E) (hkept : kept ∉ s.tables)
    (hempty : ∀ name ≠ kept, tables name = 0) :
    ∃ tables', s.rows E schema tables = some tables' ∧ tables' kept = tables kept ∧
      ∀ name ≠ kept, tables' name = 0 := by
  have hupdate {name : N} (hname : name ≠ kept) : Function.update tables name 0 kept = tables kept ∧
      ∀ other ≠ kept, Function.update tables name 0 other = 0 := by
    refine ⟨Function.update_of_ne hname.symm _ _, fun other hother => ?_⟩
    by_cases heq : other = name
    · rw [heq, Function.update_self]
    · rw [Function.update_of_ne heq, hempty other hother]
  cases s with
  | createTable name d ifNotExists =>
    have hname : name ≠ kept := fun heq => hkept (heq ▸ List.mem_singleton_self _)
    rw [rows]
    cases schema name with
    | none => exact ⟨_, rfl, hupdate hname⟩
    | some entry => exact ⟨_, rfl, rfl, hempty⟩
  | createIndex name table columns => exact ⟨_, rfl, rfl, hempty⟩
  | addColumn table column =>
    have hname : table ≠ kept := fun heq => hkept (heq ▸ List.mem_singleton_self _)
    have hfilled : ¬(column.notNull = true ∧ E.convert column.affinity (column.default.getD E.null) = E.null) := hfills
    rw [rows, if_neg hfilled, hempty table hname, Multiset.map_zero]
    exact ⟨_, rfl, hupdate hname⟩
  | dropTable name =>
    have hname : name ≠ kept := fun heq => hkept (heq ▸ List.mem_singleton_self _)
    exact ⟨_, rfl, hupdate hname⟩
  | renameTable old new =>
    rw [Statement.tables, List.mem_cons, List.mem_singleton, not_or] at hkept
    obtain ⟨hold, hothers⟩ := hupdate (Ne.symm hkept.1)
    rw [rows, hempty old (Ne.symm hkept.1)]
    refine ⟨_, rfl, (Function.update_of_ne hkept.2 _ _).trans hold, fun other hother => ?_⟩
    by_cases heq : other = new
    · rw [heq, Function.update_self]
    · rw [Function.update_of_ne heq, hothers other hother]
  | insertValues table columns values => exact absurd trivial hfills
  | insertSelect table columns select =>
    obtain ⟨d, hd, -⟩ := hallowed.1
    rw [Statement.tables, List.mem_cons, List.mem_cons, not_or, not_or] at hkept
    have hname : table ≠ kept := Ne.symm hkept.1
    rw [rows, Option.mem_def.mp hd, Option.bind_some, joined_zero (hempty _ (Ne.symm hkept.2.1)), hempty table hname,
      Multiset.map_zero, add_zero, putRows_zero]
    exact ⟨_, rfl, hupdate hname⟩
  | update table sets =>
    obtain ⟨d, hd, -⟩ := hallowed.1
    have hname : table ≠ kept := fun heq => hkept (heq ▸ List.mem_singleton_self _)
    rw [rows, Option.mem_def.mp hd, Option.bind_some, hempty table hname, Multiset.map_zero, putRows_zero]
    exact ⟨_, rfl, hupdate hname⟩

end Statement

omit [Fintype N] in
/-- A script on empty tables. -/
theorem rowsAll_of_empty {ss : List (Statement N C V)} {schema : Schema N C V} {tables : Tables N C V} {kept : N}
    (hallowed : AllowedAll ss schema) (hfills : ∀ s ∈ ss, ¬s.Fills E) (hkept : ∀ s ∈ ss, kept ∉ s.tables)
    (hempty : ∀ name ≠ kept, tables name = 0) :
    ∃ tables', rowsAll E ss schema tables = some tables' ∧ tables' kept = tables kept ∧
      ∀ name ≠ kept, tables' name = 0 := by
  induction ss generalizing schema tables with
  | nil => exact ⟨tables, rfl, rfl, hempty⟩
  | cons s ss ih =>
    obtain ⟨next, hnext, hsame, hnone⟩ := Statement.rows_of_empty hallowed.1 (hfills s List.mem_cons_self)
      (hkept s List.mem_cons_self) hempty
    obtain ⟨tables', hrest, hsame', hnone'⟩ := ih hallowed.2 (fun s hs => hfills s (List.mem_cons_of_mem _ hs))
      (fun s hs => hkept s (List.mem_cons_of_mem _ hs)) hnone
    exact ⟨tables', by rw [rowsAll, hnext, Option.bind_some, hrest], hsame'.trans hsame, hnone'⟩

end KW.Sql
