import KodeWork.Framework.References

/-!
# What a key finds

`found` is what the rows with a key hold in some columns. Behind an insertion or an upsert
the key of the new row finds what the row holds, and every other key what it has found
before (`found_insert`, `found_upsertRow`).
-/

namespace KW.Sql

variable {N C V : Type} {E : Engine V}

/-- What the columns hold in the rows with the key. -/
def found (E : Engine V) (rows : Multiset (Row C V)) (key : C) (columns : List C) (v : V) : Multiset (List V) :=
  (rows.filter fun row => E.same (row key) v = true).map fun row => columns.map row

theorem found_cons (row : Row C V) (rows : Multiset (Row C V)) (key : C) (columns : List C) (v : V) :
    found E (row ::ₘ rows) key columns v =
      if E.same (row key) v = true then columns.map row ::ₘ found E rows key columns v
      else found E rows key columns v := by
  split
  · case isTrue h =>
    have hfilter := Multiset.filter_cons_of_pos (p := fun row : Row C V => E.same (row key) v = true) rows h
    rw [found, hfilter, Multiset.map_cons, found]
  · case isFalse h =>
    have hfilter := Multiset.filter_cons_of_neg (p := fun row : Row C V => E.same (row key) v = true) rows h
    rw [found, hfilter, found]

theorem found_eq_zero {rows : Multiset (Row C V)} {key : C} (columns : List C) {v : V}
    (h : ∀ row ∈ rows, E.same (row key) v = false) : found E rows key columns v = 0 := by
  rw [found, Multiset.filter_eq_nil.mpr fun row hrow => by rw [h row hrow]; exact Bool.false_ne_true, Multiset.map_zero]

theorem sameKey_singleton (key : C) (row row' : Row C V) : E.sameKey [key] row row' = E.same (row key) (row' key) := by
  rw [Engine.sameKey, List.all_cons, List.all_nil, Bool.and_true]

/-- Where no two rows have the key, it is new. -/
theorem distinct_of_insert {key : C} {new : Row C V} {rows : Multiset (Row C V)}
    (hone : (rows + {new}).countP (fun row => E.same (row key) (new key) = true) ≤ 1) :
    ∀ row ∈ rows, E.same (row key) (new key) = false := by
  intro row hrow
  refine Bool.eq_false_iff.mpr fun hsame => ?_
  have hold : 0 < rows.countP fun row => E.same (row key) (new key) = true := Multiset.countP_pos.mpr ⟨row, hrow, hsame⟩
  have hself : 0 < ({new} : Multiset (Row C V)).countP fun row => E.same (row key) (new key) = true :=
    Multiset.countP_pos.mpr ⟨new, Multiset.mem_singleton_self new, E.same_trans (E.same_symm hsame) hsame⟩
  rw [Multiset.countP_add] at hone
  omega

/-- What is found with a key behind an insertion. -/
theorem found_insert {key : C} {new : Row C V} {rows : Multiset (Row C V)}
    (hnone : ∀ row ∈ rows, E.same (row key) (new key) = false) (columns : List C) (v : V) :
    found E (rows + {new}) key columns v =
      if E.same (new key) v = true then {columns.map new} else found E rows key columns v := by
  rw [Multiset.add_comm, Multiset.singleton_add, found_cons]
  split
  · case isTrue h =>
    have hzero : found E rows key columns v = 0 := found_eq_zero columns fun row hrow => by
      rw [Bool.eq_false_iff]
      intro hrowv
      have hsame := E.same_trans hrowv (E.same_symm h)
      rw [hnone row hrow] at hsame
      cases hsame
    rw [hzero]
    rfl
  · rfl

variable [DecidableEq C]

/-- What is found with a key behind an upsert: the new row, or what has been found before. -/
theorem found_upsertRow {d : TableDef N C V} {key : C} {columns sets : List C} {new : Row C V}
    {rows : Multiset (Row C V)} (hkey : d.primaryKey = [key]) (hsets : key ∉ sets)
    (hone : rows.countP (fun row => E.same (row key) (new key) = true) ≤ 1)
    (hmerged : ∀ row ∈ rows, E.same (row key) (new key) = true →
      columns.map (setColumns E d (sets.map fun c => (c, new c)) row) = columns.map new) (v : V) :
    found E (upsertRow E d sets new rows) key columns v =
      if E.same (new key) v = true then {columns.map new} else found E rows key columns v := by
  have hrows : upsertRow E d sets new rows =
      if 0 < rows.countP (fun row => E.same (row key) (new key) = true) then
        rows.map (setWhere E d (sets.map fun c => (c, new c)) fun row => E.same (row key) (new key))
      else rows + {new} := by
    simp only [upsertRow, hkey, sameKey_singleton]
  rw [hrows]
  split
  · case isTrue hpos =>
    obtain ⟨row, hrow, hsame⟩ := Multiset.countP_pos.mp hpos
    obtain ⟨rest, rfl⟩ := Multiset.exists_cons_of_mem hrow
    have hrest : ∀ r ∈ rest, E.same (r key) (new key) = false := by
      have hcount :=
        Multiset.countP_cons_of_pos (p := fun row : Row C V => E.same (row key) (new key) = true) rest hsame
      rw [hcount] at hone
      have hzero := Multiset.countP_eq_zero.mp (Nat.le_zero.mp (Nat.le_of_succ_le_succ hone))
      exact fun r hr => Bool.eq_false_iff.mpr (hzero r hr)
    have hkept :
        rest.map (setWhere E d (sets.map fun c => (c, new c)) fun row => E.same (row key) (new key)) = rest := by
      refine (Multiset.map_congr rfl fun r hr => ?_).trans (Multiset.map_id' rest)
      exact if_neg (Bool.eq_false_iff.mp (hrest r hr))
    have hset : setWhere E d (sets.map fun c => (c, new c)) (fun row => E.same (row key) (new key)) row key = row key :=
      setWhere_of_notMem (by rwa [map_fst_excluded]) _ _
    have hnew : columns.map (setWhere E d (sets.map fun c => (c, new c)) (fun row => E.same (row key) (new key)) row) =
        columns.map new := by
      rw [setWhere, if_pos hsame]
      exact hmerged row hrow hsame
    rw [Multiset.map_cons, hkept, found_cons, hset, hnew, found_cons]
    by_cases hv : E.same (new key) v = true
    · have hzero : found E rest key columns v = 0 := found_eq_zero columns fun r hr => by
        rw [Bool.eq_false_iff]
        intro hrv
        have hsame' := E.same_trans hrv (E.same_symm hv)
        rw [hrest r hr] at hsame'
        cases hsame'
      rw [if_pos (E.same_trans hsame hv), if_pos hv, hzero]
      rfl
    · have hrow' : ¬E.same (row key) v = true := fun h => hv (E.same_trans (E.same_symm hsame) h)
      rw [if_neg hrow', if_neg hv, if_neg hrow']
  · case isFalse hnone =>
    refine found_insert (fun row hrow => Bool.eq_false_iff.mpr fun hsame => hnone ?_) columns v
    exact Multiset.countP_pos.mpr ⟨row, hrow, hsame⟩

end KW.Sql
