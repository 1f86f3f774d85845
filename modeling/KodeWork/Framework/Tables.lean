import Mathlib.Data.Fintype.Basic
import Mathlib.Data.Multiset.Bind
import Mathlib.Data.Multiset.Filter
import Mathlib.Logic.Function.Basic

/-!
# Tables

The tables of a relational database: a schema, the rows of its tables, and the joins of
queries. The rows of a table are a multiset, as those of a query are in no order. A row
gives every column a value; where its table has no such column that is null.

What is done with values is a parameter (`Engine`): two of them are the same, in a
condition and in a key, or not, and what is stored of a value is up to the column.

A join loses and doubles nothing if every row on its left has one partner
(`Join.map_apply`), and it has where it refers to the primary key of the table
(`Join.card_matching`).
-/

namespace KW.Sql

inductive Affinity
  | blob
  | text
  | integer
deriving DecidableEq, Repr

structure Engine (V : Type) where
  null : V
  same : V → V → Bool
  same_null (v : V) : same null v = false
  same_symm {v w : V} : same v w = true → same w v = true
  same_trans {u v w : V} : same u v = true → same v w = true → same u w = true
  /-- what a column stores of a value -/
  convert : Affinity → V → V
  convert_eq_null (affinity : Affinity) (v : V) : convert affinity v = null ↔ v = null
  convert_convert (affinity : Affinity) (v : V) : convert affinity (convert affinity v) = convert affinity v

structure ColumnDef (C V : Type) where
  name : C
  affinity : Affinity
  notNull : Bool
  default : Option V
deriving DecidableEq, Repr

structure ForeignKey (N C : Type) where
  column : C
  table : N
  key : C
deriving DecidableEq, Repr

structure TableDef (N C V : Type) where
  columns : List (ColumnDef C V)
  primaryKey : List C
  foreignKeys : List (ForeignKey N C)
  nodup : (columns.map (·.name)).Nodup := by decide
  primaryKey_subset : primaryKey ⊆ columns.map (·.name) := by decide
  foreignKeys_mem : ∀ k ∈ foreignKeys, k.column ∈ columns.map (·.name) := by decide
deriving DecidableEq

/-- What a name of the schema stands for. -/
inductive Entry (N C V : Type)
  | table (definition : TableDef N C V)
  | index (table : N)
deriving DecidableEq

abbrev Schema (N C V : Type) := N → Option (Entry N C V)

abbrev Row (C V : Type) := C → V

abbrev Tables (N C V : Type) := N → Multiset (Row C V)

structure Database (N C V : Type) where
  schema : Schema N C V
  rows : Tables N C V

variable {N C V : Type}

namespace TableDef

def names (d : TableDef N C V) : List C := d.columns.map (·.name)

def column? [DecidableEq C] (d : TableDef N C V) (c : C) : Option (ColumnDef C V) :=
  d.columns.find? fun column => column.name = c

theorem column?_name [DecidableEq C] {d : TableDef N C V} {column : ColumnDef C V} (h : column ∈ d.columns) :
    d.column? column.name = some column := by
  cases hfound : d.column? column.name with
  | none => exact absurd (List.find?_eq_none.mp hfound column h) (by simp)
  | some found =>
    have hname : found.name = column.name := by simpa using List.find?_some hfound
    rw [List.inj_on_of_nodup_map d.nodup (List.mem_of_find?_eq_some hfound) h hname]

theorem column?_eq_none [DecidableEq C] {d : TableDef N C V} {c : C} : d.column? c = none ↔ c ∉ d.names := by
  simp [column?, names]

/-- With one more column. -/
def extend (d : TableDef N C V) (column : ColumnDef C V) (h : column.name ∉ d.names) : TableDef N C V where
  columns := d.columns ++ [column]
  primaryKey := d.primaryKey
  foreignKeys := d.foreignKeys
  nodup := by
    rw [List.map_append]
    exact d.nodup.append (List.nodup_singleton _) (List.disjoint_singleton.mpr h)
  primaryKey_subset := by
    rw [List.map_append]
    exact fun c hc => List.mem_append_left _ (d.primaryKey_subset hc)
  foreignKeys_mem := by
    intro k hk
    rw [List.map_append]
    exact List.mem_append_left _ (d.foreignKeys_mem k hk)

end TableDef

namespace Schema

def definition (schema : Schema N C V) (name : N) : Option (TableDef N C V) :=
  match schema name with
  | some (.table d) => some d
  | _ => none

/-- A table refers to this one. -/
def Referred (schema : Schema N C V) (name : N) : Prop :=
  ∃ n, ∃ d ∈ schema.definition n, ∃ k ∈ d.foreignKeys, k.table = name

instance [DecidableEq N] [Fintype N] (schema : Schema N C V) (name : N) : Decidable (schema.Referred name) :=
  inferInstanceAs (Decidable (∃ n, ∃ d ∈ schema.definition n, ∃ k ∈ d.foreignKeys, k.table = name))

variable [DecidableEq N]

/-- Without the table and its indexes. -/
def drop (schema : Schema N C V) (name : N) : Schema N C V := fun n =>
  if n = name then none
  else
    match schema n with
    | some (.index table) => if table = name then none else some (.index table)
    | entry => entry

/-- With the table and its indexes under the new name. -/
def rename (schema : Schema N C V) (old new : N) (d : TableDef N C V) : Schema N C V := fun n =>
  if n = new then some (.table d)
  else if n = old then none
  else
    match schema n with
    | some (.index table) => some (.index (if table = old then new else table))
    | entry => entry

theorem definition_update (schema : Schema N C V) (name : N) (d : TableDef N C V) (n : N) :
    definition (Function.update schema name (some (.table d))) n = if n = name then some d else schema.definition n := by
  unfold definition
  by_cases hn : n = name
  · rw [if_pos hn, hn, Function.update_self]
  · rw [if_neg hn, Function.update_of_ne hn]

theorem definition_index {schema : Schema N C V} {name : N} (h : schema name = none) (table n : N) :
    definition (Function.update schema name (some (.index table))) n = schema.definition n := by
  unfold definition
  by_cases hn : n = name
  · rw [hn, Function.update_self, h]
  · rw [Function.update_of_ne hn]

theorem definition_drop (schema : Schema N C V) (name n : N) :
    (schema.drop name).definition n = if n = name then none else schema.definition n := by
  unfold definition drop
  by_cases hn : n = name
  · rw [if_pos hn, if_pos hn]
  · rw [if_neg hn, if_neg hn]
    cases hentry : schema n with
    | none => rfl
    | some entry =>
      cases entry with
      | table d => rfl
      | index table => by_cases ht : table = name <;> simp [ht]

theorem definition_rename (schema : Schema N C V) (old new : N) (d : TableDef N C V) (n : N) :
    (schema.rename old new d).definition n =
      if n = new then some d else if n = old then none else schema.definition n := by
  unfold definition rename
  by_cases hnew : n = new
  · rw [if_pos hnew, if_pos hnew]
  · by_cases hold : n = old
    · rw [if_neg hnew, if_neg hnew, if_pos hold, if_pos hold]
    · rw [if_neg hnew, if_neg hnew, if_neg hold, if_neg hold]
      cases hentry : schema n with
      | none => rfl
      | some entry => cases entry <;> rfl

end Schema


/-! ## Constraints -/

variable (E : Engine V)

/-- The rows are the same in these columns. -/
def Engine.sameKey (columns : List C) (row row' : Row C V) : Bool := columns.all fun c => E.same (row c) (row' c)

/-- The rows of a table meet its constraints; `tables` are the rows of all of them. -/
structure Meets (tables : Tables N C V) (d : TableDef N C V) (rows : Multiset (Row C V)) : Prop where
  notNull : ∀ row ∈ rows, ∀ c ∈ d.columns, c.notNull = true → row c.name ≠ E.null
  key : ∀ row ∈ rows, rows.countP (fun r => E.sameKey d.primaryKey r row) ≤ 1
  refers : ∀ row ∈ rows, ∀ k ∈ d.foreignKeys,
    row k.column = E.null ∨ ∃ parent ∈ tables k.table, E.same (parent k.key) (row k.column) = true

instance [DecidableEq V] (tables : Tables N C V) (d : TableDef N C V) (rows : Multiset (Row C V)) : Decidable (Meets E tables d rows) :=
  have (row : Row C V) (k : ForeignKey N C) :
      Decidable (∃ parent ∈ tables k.table, E.same (parent k.key) (row k.column) = true) :=
    Multiset.decidableExistsMultiset
  have : Decidable (∀ row ∈ rows, ∀ c ∈ d.columns, c.notNull = true → row c.name ≠ E.null) :=
    Multiset.decidableForallMultiset
  have : Decidable (∀ row ∈ rows, rows.countP (fun r => E.sameKey d.primaryKey r row) ≤ 1) :=
    Multiset.decidableForallMultiset
  have : Decidable (∀ row ∈ rows, ∀ k ∈ d.foreignKeys,
      row k.column = E.null ∨ ∃ parent ∈ tables k.table, E.same (parent k.key) (row k.column) = true) :=
    Multiset.decidableForallMultiset
  decidable_of_iff (_ ∧ _ ∧ _) ⟨fun h => ⟨h.1, h.2.1, h.2.2⟩, fun h => ⟨h.notNull, h.key, h.refers⟩⟩

/-- The row is as its table stores it. -/
structure Stored (d : TableDef N C V) (row : Row C V) : Prop where
  convert : ∀ c ∈ d.columns, E.convert c.affinity (row c.name) = row c.name
  outside : ∀ c, c ∉ d.names → row c = E.null

/-- Every table has rows that it stores and that meet its constraints. -/
structure Valid (db : Database N C V) : Prop where
  absent : ∀ {name}, db.schema.definition name = none → db.rows name = 0
  stored : ∀ {name d}, db.schema.definition name = some d → ∀ row ∈ db.rows name, Stored E d row
  meets : ∀ {name d}, db.schema.definition name = some d → Meets E db.rows d (db.rows name)

variable {E}

/-- No value is the key of two rows. -/
theorem Meets.countP_le_one {tables : Tables N C V} {d : TableDef N C V} {rows : Multiset (Row C V)} {c : C}
    (h : Meets E tables d rows) (hkey : d.primaryKey = [c]) (v : V) :
    rows.countP (fun r => E.same (r c) v) ≤ 1 := by
  by_cases hany : ∃ row ∈ rows, E.same (row c) v = true
  · obtain ⟨row, hrow, hv⟩ := hany
    have hle := h.key row hrow
    rw [hkey] at hle
    have hkeys : ∀ r : Row C V, E.same (r c) v = true → E.sameKey [c] r row = true := by
      intro r hr
      simp only [Engine.sameKey, List.all_cons, List.all_nil, Bool.and_true]
      exact E.same_trans hr (E.same_symm hv)
    rw [Multiset.countP_eq_card_filter] at hle ⊢
    exact le_trans (Multiset.card_le_card (Multiset.monotone_filter_right rows hkeys)) hle
  · have hnone : rows.countP (fun r => E.same (r c) v) = 0 :=
      Multiset.countP_eq_zero.mpr fun row hrow hv => hany ⟨row, hrow, hv⟩
    exact le_of_eq_of_le hnone (Nat.zero_le 1)

/-- Rows with the keys of a table. -/
theorem Meets.countP_sameKey {tables : Tables N C V} {d : TableDef N C V} {rows rows' : Multiset (Row C V)} {c : C}
    (h : Meets E tables d rows) (hkey : d.primaryKey = [c])
    (hkeys : rows'.map (fun row => row c) = rows.map fun row => row c) (row : Row C V) :
    rows'.countP (fun r => E.sameKey [c] r row) ≤ 1 := by
  have hvalues : ∀ s : Multiset (Row C V), s.countP (fun r => E.sameKey [c] r row) =
      (s.map fun r => r c).countP fun v => E.same v (row c) := by
    intro s
    rw [Multiset.countP_map, Multiset.countP_eq_card_filter]
    simp only [Engine.sameKey, List.all_cons, List.all_nil, Bool.and_true]
  have hle := h.countP_le_one hkey (row c)
  rw [hvalues, hkeys, ← hvalues]
  simpa only [Engine.sameKey, List.all_cons, List.all_nil, Bool.and_true] using hle

/-- Other tables serve as well, where they have every key. -/
theorem Meets.mono {tables tables' : Tables N C V} {d : TableDef N C V} {rows : Multiset (Row C V)}
    (h : Meets E tables d rows)
    (hparents : ∀ k ∈ d.foreignKeys, ∀ parent ∈ tables k.table, parent k.key ≠ E.null →
      ∃ parent' ∈ tables' k.table, parent' k.key = parent k.key) :
    Meets E tables' d rows where
  notNull := h.notNull
  key := h.key
  refers := by
    intro row hrow k hk
    refine (h.refers row hrow k hk).imp_right fun ⟨parent, hparent, hsame⟩ => ?_
    have hkey : parent k.key ≠ E.null := by
      intro hnull
      rw [hnull, E.same_null] at hsame
      cases hsame
    obtain ⟨parent', hmem, hequal⟩ := hparents k hk parent hparent hkey
    exact ⟨parent', hmem, hequal ▸ hsame⟩

/-- Rows that are changed outside of their keys. -/
theorem Meets.map {tables : Tables N C V} {d d' : TableDef N C V} {rows : Multiset (Row C V)} {f : Row C V → Row C V}
    (h : Meets E tables d rows) (hprimary : d'.primaryKey = d.primaryKey) (hforeign : d'.foreignKeys = d.foreignKeys)
    (hnotNull : ∀ row ∈ rows, ∀ column ∈ d'.columns, column.notNull = true → f row column.name ≠ E.null)
    (hkeys : ∀ row, ∀ c ∈ d.primaryKey ++ d.foreignKeys.map (·.column), f row c = row c) :
    Meets E tables d' (rows.map f) where
  notNull := by
    intro row' hrow'
    obtain ⟨row, hrow, rfl⟩ := Multiset.mem_map.mp hrow'
    exact hnotNull row hrow
  key := by
    intro row' hrow'
    obtain ⟨row, hrow, rfl⟩ := Multiset.mem_map.mp hrow'
    have hsame : ∀ r, E.sameKey d.primaryKey (f r) (f row) = E.sameKey d.primaryKey r row := by
      intro r
      refine Bool.eq_iff_iff.mpr ?_
      simp only [Engine.sameKey, List.all_eq_true]
      refine forall₂_congr fun c hc => ?_
      rw [hkeys r c (List.mem_append_left _ hc), hkeys row c (List.mem_append_left _ hc)]
    rw [hprimary, Multiset.countP_map, ← Multiset.countP_eq_card_filter]
    simp only [hsame]
    exact h.key row hrow
  refers := by
    intro row' hrow' k hk
    obtain ⟨row, hrow, rfl⟩ := Multiset.mem_map.mp hrow'
    rw [hforeign] at hk
    rw [hkeys row k.column (List.mem_append_right _ (List.mem_map_of_mem hk))]
    exact h.refers row hrow k hk

/-- One table is replaced, and has every key that it had. -/
theorem Valid.replace [DecidableEq N] {db : Database N C V} (h : Valid E db) {schema : Schema N C V} {name : N}
    {d : TableDef N C V} {rows : Multiset (Row C V)}
    (hschema : ∀ n, schema.definition n = if n = name then some d else db.schema.definition n)
    (hstored : ∀ row ∈ rows, Stored E d row) (hmeets : Meets E (Function.update db.rows name rows) d rows)
    (hparents : ∀ c, ∀ parent ∈ db.rows name, parent c ≠ E.null → db.schema.Referred name →
      ∃ parent' ∈ rows, parent' c = parent c) :
    Valid E ⟨schema, Function.update db.rows name rows⟩ where
  absent := by
    intro n hn
    rw [hschema] at hn
    split at hn
    · cases hn
    · case isFalse hne => exact (Function.update_of_ne hne _ _).trans (h.absent hn)
  stored := by
    intro n d' hd'
    rw [hschema] at hd'
    split at hd'
    · case isTrue heq =>
      cases hd'
      intro row hrow
      exact hstored row (by simpa [heq] using hrow)
    · case isFalse hne =>
      intro row hrow
      exact h.stored hd' row (by simpa [hne] using hrow)
  meets := by
    intro n d' hd'
    rw [hschema] at hd'
    split at hd'
    · case isTrue heq =>
      cases hd'
      simpa [heq] using hmeets
    · case isFalse hne =>
      show Meets E (Function.update db.rows name rows) d' (Function.update db.rows name rows n)
      rw [Function.update_of_ne hne]
      refine (h.meets hd').mono fun k hk parent hparent hkey => ?_
      by_cases htable : k.table = name
      · rw [htable] at hparent
        rw [htable, Function.update_self]
        exact hparents k.key parent hparent hkey ⟨n, d', hd', k, hk, htable⟩
      · rw [Function.update_of_ne htable]
        exact ⟨parent, hparent, rfl⟩

theorem Meets.update_of_ne [DecidableEq N] {tables : Tables N C V} {d : TableDef N C V}
    {rows : Multiset (Row C V)} (h : Meets E tables d rows) {name : N} (hne : ∀ k ∈ d.foreignKeys, k.table ≠ name)
    (rows' : Multiset (Row C V)) : Meets E (Function.update tables name rows') d rows :=
  h.mono fun k hk parent hparent _ => ⟨parent, by rwa [Function.update_of_ne (hne k hk)], rfl⟩

/-- What a column refers to that is never null. -/
theorem Meets.parent {tables : Tables N C V} {d : TableDef N C V} {rows : Multiset (Row C V)}
    (h : Meets E tables d rows) {row : Row C V} (hrow : row ∈ rows) {k : ForeignKey N C} (hk : k ∈ d.foreignKeys)
    {column : ColumnDef C V} (hcolumn : column ∈ d.columns) (hname : column.name = k.column)
    (hnotNull : column.notNull = true) : ∃ parent ∈ tables k.table, E.same (parent k.key) (row k.column) = true :=
  (h.refers row hrow k hk).resolve_left fun hnull => h.notNull row hrow column hcolumn hnotNull (hname ▸ hnull)

/-! ### Changes of a table -/

theorem Valid.create [DecidableEq N] {db : Database N C V} (h : Valid E db) {name : N}
    (hname : db.schema.definition name = none) (d : TableDef N C V) :
    Valid E ⟨Function.update db.schema name (some (.table d)), Function.update db.rows name 0⟩ := by
  refine h.replace (db.schema.definition_update name d) (fun row hrow => ?_) ⟨?_, ?_, ?_⟩ fun c parent hparent => ?_
  · exact absurd hrow (Multiset.notMem_zero row)
  · exact fun row hrow => absurd hrow (Multiset.notMem_zero row)
  · exact fun row hrow => absurd hrow (Multiset.notMem_zero row)
  · exact fun row hrow => absurd hrow (Multiset.notMem_zero row)
  · rw [h.absent hname] at hparent
    exact absurd hparent (Multiset.notMem_zero parent)

/-- A column is added, with one value in all rows. -/
theorem Valid.extend [DecidableEq N] [DecidableEq C] {db : Database N C V} (h : Valid E db) {table : N}
    {d : TableDef N C V} {column : ColumnDef C V} (hd : db.schema.definition table = some d)
    (hfresh : column.name ∉ d.names) {value : V} (hstored : E.convert column.affinity value = value)
    (hnotNull : column.notNull = true → value ≠ E.null) :
    Valid E ⟨Function.update db.schema table (some (.table (d.extend column hfresh))),
      Function.update db.rows table ((db.rows table).map fun row => Function.update row column.name value)⟩ := by
  have hne : ∀ c ∈ d.names, c ≠ column.name := fun c hc heq => hfresh (heq ▸ hc)
  -- the column has been null so far, so that no key of another table is found there
  have hkept : ∀ c, ∀ parent ∈ db.rows table, parent c ≠ E.null →
      ∃ parent' ∈ (db.rows table).map fun row => Function.update row column.name value, parent' c = parent c := by
    intro c parent hparent hnull
    refine ⟨_, Multiset.mem_map_of_mem _ hparent, Function.update_of_ne (fun hc => hnull ?_) _ _⟩
    rw [hc]
    exact (h.stored hd parent hparent).outside _ hfresh
  refine h.replace (db.schema.definition_update table _) (fun row' hrow' => ?_) ?_
    fun c parent hparent hnull _ => hkept c parent hparent hnull
  · obtain ⟨row, hrow, rfl⟩ := Multiset.mem_map.mp hrow'
    have hrow := h.stored hd row hrow
    refine ⟨fun c hc => ?_, fun c hc => ?_⟩
    · cases List.mem_append.mp hc with
      | inl hc =>
        rw [Function.update_of_ne (hne _ (List.mem_map_of_mem hc))]
        exact hrow.convert c hc
      | inr hc =>
        rw [List.mem_singleton.mp hc, Function.update_self]
        exact hstored
    · rw [TableDef.names, TableDef.extend, List.map_append, List.mem_append, not_or] at hc
      rw [Function.update_of_ne fun heq => hc.2 (List.mem_singleton.mpr heq)]
      exact hrow.outside c hc.1
  · have hmeets : Meets E db.rows (d.extend column hfresh)
        ((db.rows table).map fun row => Function.update row column.name value) := by
      refine (h.meets hd).map rfl rfl (fun row hrow c hc hc' => ?_) fun row c hc => ?_
      · cases List.mem_append.mp hc with
        | inl hc =>
          rw [Function.update_of_ne (hne _ (List.mem_map_of_mem hc))]
          exact (h.meets hd).notNull row hrow c hc hc'
        | inr hc =>
          rw [List.mem_singleton.mp hc] at hc' ⊢
          rw [Function.update_self]
          exact hnotNull hc'
      · refine Function.update_of_ne (hne c ?_) _ _
        cases List.mem_append.mp hc with
        | inl hc => exact d.primaryKey_subset hc
        | inr hc =>
          obtain ⟨k, hk, rfl⟩ := List.mem_map.mp hc
          exact d.foreignKeys_mem k hk
    refine hmeets.mono fun k _ parent hparent hnull => ?_
    by_cases htable : k.table = table
    · rw [htable] at hparent
      rw [htable, Function.update_self]
      exact hkept k.key parent hparent hnull
    · rw [Function.update_of_ne htable]
      exact ⟨parent, hparent, rfl⟩

theorem Valid.drop [DecidableEq N] {db : Database N C V} (h : Valid E db) {name : N}
    (hname : ¬ db.schema.Referred name) : Valid E ⟨db.schema.drop name, Function.update db.rows name 0⟩ := by
  have hother : ∀ {n d}, (db.schema.drop name).definition n = some d → n ≠ name ∧ db.schema.definition n = some d := by
    intro n d hd
    rw [Schema.definition_drop] at hd
    split at hd
    · cases hd
    · case isFalse hne => exact ⟨hne, hd⟩
  refine ⟨fun {n} hn => ?_, fun {n d} hd => ?_, fun {n d} hd => ?_⟩
  · by_cases hname : n = name
    · exact (congrArg _ hname).trans (Function.update_self _ _ _)
    · refine (Function.update_of_ne hname _ _).trans (h.absent ?_)
      rwa [Schema.definition_drop, if_neg hname] at hn
  · obtain ⟨hne, hd⟩ := hother hd
    intro row hrow
    exact h.stored hd row (by simpa [hne] using hrow)
  · obtain ⟨hne, hd⟩ := hother hd
    show Meets E _ d (Function.update db.rows name 0 n)
    rw [Function.update_of_ne hne]
    refine (h.meets hd).mono fun k hk parent hparent _ => ⟨parent, ?_, rfl⟩
    have htable : k.table ≠ name := fun heq => hname ⟨n, d, hd, k, hk, heq⟩
    show parent ∈ Function.update db.rows name 0 k.table
    rwa [Function.update_of_ne htable]

theorem Valid.rename [DecidableEq N] {db : Database N C V} (h : Valid E db) {old new : N} {d : TableDef N C V}
    (hd : db.schema.definition old = some d) (hnew : db.schema new = none) (hold : ¬ db.schema.Referred old) :
    Valid E ⟨db.schema.rename old new d, Function.update (Function.update db.rows old 0) new (db.rows old)⟩ := by
  have hne : old ≠ new := by
    intro heq
    rw [← heq] at hnew
    rw [Schema.definition, hnew] at hd
    cases hd
  have habsent : db.rows new = 0 := h.absent (by rw [Schema.definition, hnew])
  -- renaming is dropping the table and creating it with its rows
  have hdropped : Valid E ⟨db.schema.drop old, Function.update db.rows old 0⟩ := h.drop hold
  have hmono : ∀ {n d'}, db.schema.definition n = some d' →
      Meets E (Function.update (Function.update db.rows old 0) new (db.rows old)) d' (db.rows n) := by
    intro n d' hd'
    refine (h.meets hd').mono fun k hk parent hparent _ => ⟨parent, ?_, rfl⟩
    have htable : k.table ≠ old := fun heq => hold ⟨n, d', hd', k, hk, heq⟩
    have htable' : k.table ≠ new := by
      intro heq
      rw [heq, habsent] at hparent
      exact absurd hparent (Multiset.notMem_zero parent)
    rwa [Function.update_of_ne htable', Function.update_of_ne htable]
  refine hdropped.replace (fun n => ?_) (h.stored hd) (hmono hd) fun c parent hparent => ?_
  · rw [Schema.definition_rename, Schema.definition_drop]
  · have hnone : Function.update db.rows old 0 new = 0 := by rw [Function.update_of_ne hne.symm, habsent]
    exact absurd (hnone ▸ hparent) (Multiset.notMem_zero parent)

/-! ### The rows of a statement -/

variable (E)

/-- The row with these values in the columns, as the table stores it. -/
def newRow [DecidableEq C] (d : TableDef N C V) (columns : List C) (values : List V) : Row C V := fun c =>
  match d.column? c with
  | none => E.null
  | some column => E.convert column.affinity (((columns.zip values).lookup c).getD (column.default.getD E.null))

/-- The row with what an update sets. -/
def setColumns [DecidableEq C] (d : TableDef N C V) (sets : List (C × V)) (row : Row C V) : Row C V := fun c =>
  match sets.lookup c, d.column? c with
  | some v, some column => E.convert column.affinity v
  | _, _ => row c

variable {E}

theorem stored_newRow [DecidableEq C] (d : TableDef N C V) (columns : List C) (values : List V) :
    Stored E d (newRow E d columns values) where
  convert := by
    intro column hcolumn
    rw [newRow, TableDef.column?_name hcolumn]
    exact E.convert_convert _ _
  outside := by
    intro c hc
    rw [newRow, TableDef.column?_eq_none.mpr hc]

theorem setColumns_of_notMem [DecidableEq C] (d : TableDef N C V) {sets : List (C × V)} {c : C}
    (h : c ∉ sets.map Prod.fst) (row : Row C V) : setColumns E d sets row c = row c := by
  have hlookup : sets.lookup c = none := by
    refine List.lookup_eq_none_iff.mpr fun p hp => bne_iff_ne.mpr fun heq => h ?_
    exact heq ▸ List.mem_map_of_mem hp
  rw [setColumns, hlookup]

theorem lookup_zip_map {α β : Type} [DecidableEq α] {f : α → β} {l : List α} {a : α} (h : a ∈ l) :
    (l.zip (l.map f)).lookup a = some (f a) := by
  induction l with
  | nil => cases h
  | cons b l ih =>
    rw [List.map_cons, List.zip_cons_cons, List.lookup_cons]
    by_cases hab : a = b
    · rw [hab, beq_self_eq_true]
    · rw [beq_false_of_ne hab]
      exact ih ((List.mem_cons.mp h).resolve_left hab)

/-- A row that is copied into a table with the same columns. -/
theorem newRow_copy [DecidableEq C] {d d' : TableDef N C V} {row : Row C V} (h : Stored E d row)
    (hcolumns : d'.columns.map (fun column => (column.name, column.affinity)) =
      d.columns.map fun column => (column.name, column.affinity)) :
    newRow E d' d'.names (d'.names.map row) = row := by
  have hnames : d'.names = d.names := by
    have hfirst := congrArg (List.map Prod.fst) hcolumns
    rwa [List.map_map, List.map_map] at hfirst
  funext c
  cases hcolumn : d'.column? c with
  | none =>
    rw [newRow, hcolumn]
    exact (h.outside c (hnames ▸ TableDef.column?_eq_none.mp hcolumn)).symm
  | some column' =>
    have hmem : column' ∈ d'.columns := List.mem_of_find?_eq_some hcolumn
    have hname : column'.name = c := by simpa using List.find?_some hcolumn
    have hc : c ∈ d'.names := hname ▸ List.mem_map_of_mem hmem
    obtain ⟨column, hcolumn', heq⟩ := List.mem_map.mp (hcolumns ▸ List.mem_map_of_mem hmem :
      (column'.name, column'.affinity) ∈ d.columns.map fun column => (column.name, column.affinity))
    obtain ⟨hname', haffinity⟩ := Prod.mk.inj heq
    rw [newRow, hcolumn]
    show E.convert column'.affinity (((d'.names.zip (d'.names.map row)).lookup c).getD _) = row c
    rw [lookup_zip_map hc, Option.getD_some, ← haffinity, ← hname, ← hname']
    exact h.convert column hcolumn'

theorem Stored.setColumns [DecidableEq C] {d : TableDef N C V} {row : Row C V} (h : Stored E d row) (sets : List (C × V)) :
    Stored E d (setColumns E d sets row) where
  convert := by
    intro column hcolumn
    rw [Sql.setColumns, TableDef.column?_name hcolumn]
    cases sets.lookup column.name with
    | none => exact h.convert column hcolumn
    | some v => exact E.convert_convert _ _
  outside := by
    intro c hc
    rw [Sql.setColumns, TableDef.column?_eq_none.mpr hc]
    cases sets.lookup c <;> exact h.outside c hc

variable (E)

/-- The table with these rows, if they meet its constraints. -/
def putRows [DecidableEq N] [DecidableEq V] (tables : Tables N C V) (name : N) (d : TableDef N C V) (rows : Multiset (Row C V)) :
    Option (Tables N C V) :=
  if Meets E (Function.update tables name rows) d rows then some (Function.update tables name rows) else none

variable {E}

theorem Valid.putRows [DecidableEq N] [DecidableEq V] {db : Database N C V} (h : Valid E db) {name : N} {d : TableDef N C V}
    {rows : Multiset (Row C V)} {tables : Tables N C V} (hd : db.schema.definition name = some d)
    (hrun : Sql.putRows E db.rows name d rows = some tables) (hstored : ∀ row ∈ rows, Stored E d row)
    (hparents : ∀ c, ∀ parent ∈ db.rows name, parent c ≠ E.null → db.schema.Referred name →
      ∃ parent' ∈ rows, parent' c = parent c) :
    Valid E ⟨db.schema, tables⟩ := by
  rw [Sql.putRows] at hrun
  split at hrun
  · case isTrue hmeets =>
    cases hrun
    refine h.replace (fun n => ?_) hstored hmeets hparents
    split
    · case isTrue hn => rw [hn, hd]
    · rfl
  · cases hrun

/-! ## Queries -/

variable (E) [DecidableEq N]

inductive Expr (N C V : Type)
  | column (table : N) (name : C)
  | literal (v : V)
deriving DecidableEq, Repr

/-- `INNER JOIN table ON left = right`. -/
structure Join (N C : Type) where
  table : N
  left : N × C
  right : N × C
deriving DecidableEq, Repr

structure Select (N C V : Type) where
  columns : List (Expr N C V)
  source : N
  joins : List (Join N C)
deriving DecidableEq, Repr

/-- The rows that a query has put together, by their tables. -/
abbrev Joined (N C V : Type) := N → Row C V

def Expr.eval (joined : Joined N C V) : Expr N C V → V
  | .column table name => joined table name
  | .literal v => v

/-- The partners of what has been joined so far. -/
def Join.matching (tables : Tables N C V) (join : Join N C) (joined : Joined N C V) : Multiset (Joined N C V) :=
  ((tables join.table).map (Function.update joined join.table)).filter fun e =>
    E.same (e join.left.1 join.left.2) (e join.right.1 join.right.2) = true

def Join.apply (tables : Tables N C V) (join : Join N C) (rows : Multiset (Joined N C V)) :
    Multiset (Joined N C V) :=
  rows.bind (join.matching E tables)

def Select.joined (tables : Tables N C V) (select : Select N C V) : Multiset (Joined N C V) :=
  select.joins.foldl (fun rows join => join.apply E tables rows)
    ((tables select.source).map (Function.update (fun _ _ => E.null) select.source))

/-! ### What a join keeps -/

variable {E}

theorem Join.mem_apply {tables : Tables N C V} {join : Join N C} {rows : Multiset (Joined N C V)}
    {e : Joined N C V} (h : e ∈ join.apply E tables rows) :
    ∃ e' ∈ rows, ∃ row ∈ tables join.table, e = Function.update e' join.table row ∧
      E.same (e join.left.1 join.left.2) (e join.right.1 join.right.2) = true := by
  obtain ⟨e', he', hmatch⟩ := Multiset.mem_bind.mp h
  obtain ⟨hmem, hsame⟩ := Multiset.mem_filter.mp hmatch
  obtain ⟨row, hrow, rfl⟩ := Multiset.mem_map.mp hmem
  exact ⟨e', he', row, hrow, rfl, hsame⟩

/-- A join that gives every row one partner keeps what the partner does not matter to. -/
theorem Join.map_apply {α : Type} {tables : Tables N C V} {join : Join N C} {rows : Multiset (Joined N C V)}
    {f : Joined N C V → α} (hf : ∀ e row, f (Function.update e join.table row) = f e)
    (hone : ∀ e ∈ rows, (join.matching E tables e).card = 1) : (join.apply E tables rows).map f = rows.map f := by
  have hmatching : ∀ e ∈ rows, (join.matching E tables e).map f = {f e} := by
    intro e he
    obtain ⟨e', he'⟩ := Multiset.card_eq_one.mp (hone e he)
    have hmem : e' ∈ join.matching E tables e := he' ▸ Multiset.mem_singleton_self e'
    obtain ⟨row, -, rfl⟩ := Multiset.mem_map.mp (Multiset.mem_of_mem_filter hmem)
    rw [he', Multiset.map_singleton, hf]
  rw [Join.apply, Multiset.map_bind, Multiset.bind_congr hmatching, Multiset.bind_singleton]

/-- The row that a foreign key points to is its one partner. -/
theorem Join.card_matching {tables : Tables N C V} {d : TableDef N C V} {join : Join N C} {e : Joined N C V}
    (hmeets : Meets E tables d (tables join.table)) (hkey : d.primaryKey = [join.left.2])
    (hleft : join.left.1 = join.table) (hright : join.right.1 ≠ join.table)
    (hparent : ∃ parent ∈ tables join.table, E.same (parent join.left.2) (e join.right.1 join.right.2) = true) :
    (join.matching E tables e).card = 1 := by
  have hmatching : join.matching E tables e =
      ((tables join.table).filter fun row =>
        E.same (row join.left.2) (e join.right.1 join.right.2) = true).map (Function.update e join.table) := by
    rw [Join.matching, Multiset.filter_map]
    simp only [Function.comp_def, hleft, Function.update_self, Function.update_of_ne hright]
  rw [hmatching, Multiset.card_map, ← Multiset.countP_eq_card_filter]
  exact le_antisymm (hmeets.countP_le_one hkey _) (Multiset.countP_pos.mpr hparent)

end KW.Sql
