import KodeWork.Impl.History.Rows
import KodeWork.Proof.Storage.Instances

/-!
# A batch of reconciled runs

`finish_batch` in its transaction does what `batch` does on the table
(`follows_finishEach`). `batch_ok_iff` says when that succeeds, by induction over the
updates: each of them finds a status that it may follow, in the table that those before
it have left. What they have left is read off the list (`storedStatus_foldl`): the status
of the last of them for the same run, or the stored one.
-/

namespace KW.RunRows

variable {ρ : Type} (J : StatusJson)

/-! ## What is written -/

def counter (n : UInt64) : Value := .integer n.toNat

/-- The counters of the update fit into signed integers. -/
def Fits (u : RunReconciliationUpdate) : Prop :=
  (∀ n ∈ u.finishedAtMs, n.toNat ≤ i64Max) ∧ u.outputBytes.toNat ≤ i64Max ∧ u.reconciledAtMs.toNat ≤ i64Max

/-- The row of the update with what it says. -/
def applyUpdate (table : Table ρ) (u : RunReconciliationUpdate) : Table ρ :=
  table.map fun row =>
    if row.id = u.id then
      row.write J u ((u.finishedAtMs.map counter).getD .null) (counter u.outputBytes) (counter u.reconciledAtMs)
    else row

/-- The status in the table, if it can be read. -/
def storedStatus (table : Table ρ) (id : RunId) : Option RunStatus :=
  (table.get id).bind fun row =>
    match row.status with
    | .text raw => J.fromText raw
    | _ => none

theorem sqlU64_ok {n : UInt64} (h : n.toNat ≤ i64Max) : sqlU64 n = .ok (counter n) := if_pos h

theorem sqlU64_error {n : UInt64} (h : ¬ n.toNat ≤ i64Max) : sqlU64 n = .error .sqlite := if_neg h

theorem updateRun_ok {u : RunReconciliationUpdate} (h : Fits u) (table : Table ρ) :
    updateRun J u table = .ok ((), applyUpdate J table u) := by
  obtain ⟨hfinished, hbytes, hreconciled⟩ := h
  have hoption : sqlOptionU64 u.finishedAtMs = .ok ((u.finishedAtMs.map counter).getD .null) := by
    cases hcase : u.finishedAtMs with
    | none => rfl
    | some n => exact sqlU64_ok (hfinished n hcase)
  rw [updateRun, hoption, sqlU64_ok hbytes, sqlU64_ok hreconciled]
  rfl

theorem updateRun_error {u : RunReconciliationUpdate} (h : ¬ Fits u) (table : Table ρ) :
    updateRun J u table = .error .sqlite := by
  rw [updateRun]
  by_cases hfinished : ∀ n ∈ u.finishedAtMs, n.toNat ≤ i64Max
  · have hoption : sqlOptionU64 u.finishedAtMs = .ok ((u.finishedAtMs.map counter).getD .null) := by
      cases hcase : u.finishedAtMs with
      | none => rfl
      | some n => exact sqlU64_ok (hfinished n hcase)
    rw [hoption]
    by_cases hbytes : u.outputBytes.toNat ≤ i64Max
    · have hreconciled : ¬ u.reconciledAtMs.toNat ≤ i64Max := fun hle => h ⟨hfinished, hbytes, hle⟩
      rw [sqlU64_ok hbytes, sqlU64_error hreconciled]
      rfl
    · rw [sqlU64_error hbytes]
      rfl
  · have hoption : sqlOptionU64 u.finishedAtMs = .error .sqlite := by
      cases hcase : u.finishedAtMs with
      | none => simp [hcase] at hfinished
      | some n =>
        refine sqlU64_error fun hle => hfinished fun m hm => ?_
        rw [hcase] at hm
        cases hm
        exact hle
    rw [hoption]
    rfl

/-! ## The table behind an update -/

theorem get_applyUpdate (table : Table ρ) (u : RunReconciliationUpdate) (id : RunId) :
    Table.get (applyUpdate J table u) id = (table.get id).map fun row =>
      if row.id = u.id then
        row.write J u ((u.finishedAtMs.map counter).getD .null) (counter u.outputBytes) (counter u.reconciledAtMs)
      else row := by
  rw [Table.get, applyUpdate, List.find?_map, Table.get]
  congr 2
  funext row
  simp only [Function.comp_apply]
  split <;> rfl

theorem storedStatus_applyUpdate (table : Table ρ) (u : RunReconciliationUpdate) (id : RunId) :
    storedStatus J (applyUpdate J table u) id =
      if id = u.id then (table.get id).map fun _ => u.status else storedStatus J table id := by
  rw [storedStatus, get_applyUpdate, storedStatus]
  cases hget : table.get id with
  | none => simp
  | some row =>
    have hid : row.id = id := by simpa using List.find?_some hget
    simp only [Option.map_some, Option.bind_some, hid]
    by_cases h : id = u.id
    · rw [if_pos h, if_pos h]
      exact J.from_to u.status
    · rw [if_neg h, if_neg h]

/-- The status of a run before an update: what the last of the updates before it for the
same run has left, or what is stored. -/
def statusBefore (table : Table ρ) (before : List RunReconciliationUpdate) (id : RunId) : Option RunStatus :=
  match (before.filter fun v => v.id = id).getLast? with
  | some v => (table.get id).map fun _ => v.status
  | none => storedStatus J table id

theorem storedStatus_foldl (table : Table ρ) (before : List RunReconciliationUpdate) (id : RunId) :
    storedStatus J (before.foldl (applyUpdate J) table) id = statusBefore J table before id := by
  induction before generalizing table with
  | nil => rfl
  | cons v before ih =>
    rw [List.foldl_cons, ih, statusBefore, statusBefore, List.filter_cons]
    have hrow : (Table.get (applyUpdate J table v) id).map (fun _ => ()) = (table.get id).map fun _ => () := by
      rw [get_applyUpdate, Option.map_map, Function.comp_def]
    have hconst (s : RunStatus) :
        (Table.get (applyUpdate J table v) id).map (fun _ => s) = (table.get id).map fun _ => s := by
      have h := congrArg (Option.map fun _ => s) hrow
      rwa [Option.map_map, Option.map_map] at h
    cases hlast : (before.filter fun v => v.id = id).getLast? with
    | some w =>
      -- a later update for the same run decides
      by_cases hv : v.id = id
      · simp only [hv, decide_true, if_true, List.getLast?_cons, hlast, Option.getD_some, hconst]
      · simp only [hv, decide_false, Bool.false_eq_true, if_false, hlast, hconst]
    | none =>
      rw [List.getLast?_eq_none_iff] at hlast
      by_cases hv : v.id = id
      · simp [hv, hlast, storedStatus_applyUpdate]
      · simp [hv, Ne.symm hv, hlast, storedStatus_applyUpdate]

/-! ## The transaction -/

def readStatus (raw : Text) (table : Table ρ) : Except StorageError (RunStatus × Table ρ) :=
  match J.fromText raw with
  | some status => .ok (status, table)
  | none => .error .serialization

def one (u : RunReconciliationUpdate) (table : Table ρ) : Except StorageError (Unit × Table ρ) :=
  (selectStatus u.id table).bind fun p => (readStatus J p.1 p.2).bind fun q =>
    if runTransition q.1 u.status = false then .error (.invalidRunTransition q.1 u.status) else updateRun J u q.2

def batch : List RunReconciliationUpdate → Table ρ → Except StorageError (Unit × Table ρ)
  | [], table => .ok ((), table)
  | u :: updates, table => (one J u table).bind fun p => batch updates p.2

theorem follows_fromText (raw : Text) :
    Follows (fromText J raw : Storage ρ RunStatus) (readStatus J raw) := by
  unfold fromText readStatus
  cases J.fromText raw with
  | none => exact Follows.throw _
  | some status => exact Follows.pure status

theorem follows_finishOne (u : RunReconciliationUpdate) : Follows (finishOne J u : Storage ρ Unit) (one J u) := by
  have hcheck (current : RunStatus) :
      Follows (if runTransition current u.status = false then throw (.invalidRunTransition current u.status)
          else statement (updateRun J u) : Storage ρ Unit)
        fun table =>
          if runTransition current u.status = false then .error (.invalidRunTransition current u.status)
          else updateRun J u table := (Follows.throw _).ite (Follows.statement _)
  exact (Follows.statement (selectStatus u.id)).bind fun raw => (follows_fromText J raw).bind hcheck

theorem follows_finishEach (updates : List RunReconciliationUpdate) :
    Follows (finishEach J updates : Storage ρ Unit) (batch J updates) := by
  induction updates with
  | nil => exact Follows.pure ()
  | cons u updates ih => exact (follows_finishOne J u).bind fun _ => ih

/-- The update finds a status that it may follow, and fits. -/
def Accepts (table : Table ρ) (u : RunReconciliationUpdate) : Prop :=
  (∃ current, storedStatus J table u.id = some current ∧ runTransition current u.status = true) ∧ Fits u

theorem one_of_accepts {table : Table ρ} {u : RunReconciliationUpdate} (h : Accepts J table u) :
    one J u table = .ok ((), applyUpdate J table u) := by
  obtain ⟨⟨current, hstored, hallowed⟩, hfits⟩ := h
  rw [storedStatus] at hstored
  obtain ⟨row, hrow, hstatus⟩ := Option.bind_eq_some_iff.mp hstored
  cases hvalue : row.status with
  | text raw =>
    rw [hvalue] at hstatus
    have hselect : selectStatus u.id table = .ok (raw, table) := by
      rw [selectStatus, hrow]
      simp only [hvalue]
    have hread : readStatus J raw table = .ok (current, table) := by
      rw [readStatus]
      simp only [hstatus]
    rw [one, hselect, Except.bind, hread, Except.bind, hallowed, updateRun_ok J hfits]
    rfl
  | null | integer | real | blob => rw [hvalue] at hstatus; cases hstatus

theorem one_of_not_accepts {table : Table ρ} {u : RunReconciliationUpdate} (h : ¬ Accepts J table u) :
    ∃ e, one J u table = .error e := by
  cases hselect : selectStatus u.id table with
  | error e => exact ⟨e, by rw [one, hselect]; rfl⟩
  | ok p =>
    obtain ⟨raw, table'⟩ := p
    have hstored : storedStatus J table u.id = J.fromText raw ∧ table' = table := by
      rw [selectStatus] at hselect
      split at hselect
      · cases hselect
      · case h_2 row hrow =>
        split at hselect
        · case h_1 raw' hvalue =>
          cases hselect
          rw [storedStatus, hrow, Option.bind_some, hvalue]
          exact ⟨rfl, rfl⟩
        · cases hselect
    obtain ⟨hstored, rfl⟩ := hstored
    rw [one, hselect, Except.bind]
    cases hread : J.fromText raw with
    | none =>
      rw [readStatus, hread]
      exact ⟨_, rfl⟩
    | some current =>
      rw [readStatus, hread, Except.bind]
      cases hallowed : runTransition current u.status with
      | false => exact ⟨_, rfl⟩
      | true =>
        have hfits : ¬ Fits u := fun hfits => h ⟨⟨current, hstored.trans hread, hallowed⟩, hfits⟩
        exact ⟨_, updateRun_error J hfits table'⟩

/-- The batch succeeds if each update is accepted where those before it have been
applied. -/
theorem batch_ok {updates : List RunReconciliationUpdate} {table : Table ρ}
    (h : ∀ before u after, updates = before ++ u :: after → Accepts J (before.foldl (applyUpdate J) table) u) :
    batch J updates table = .ok ((), updates.foldl (applyUpdate J) table) := by
  induction updates generalizing table with
  | nil => rfl
  | cons u updates ih =>
    have hu : Accepts J table u := h [] u updates rfl
    rw [batch, one_of_accepts J hu, Except.bind]
    refine ih fun before v after hsplit => ?_
    rw [hsplit] at h
    exact h (u :: before) v after rfl

theorem batch_error {updates : List RunReconciliationUpdate} {table : Table ρ} {before : List RunReconciliationUpdate}
    {u : RunReconciliationUpdate} {after : List RunReconciliationUpdate} (hsplit : updates = before ++ u :: after)
    (h : ¬ Accepts J (before.foldl (applyUpdate J) table) u) : ∃ e, batch J updates table = .error e := by
  subst hsplit
  induction before generalizing table with
  | nil =>
    have hu : ¬ Accepts J table u := h
    obtain ⟨e, he⟩ := one_of_not_accepts J hu
    exact ⟨e, by rw [List.nil_append, batch, he]; rfl⟩
  | cons v before ih =>
    rw [List.cons_append, batch]
    by_cases hv : Accepts J table v
    · rw [one_of_accepts J hv, Except.bind]
      exact ih h
    · obtain ⟨e, he⟩ := one_of_not_accepts J hv
      exact ⟨e, by rw [he]; rfl⟩

/-! ## When a batch fails -/

/-- What can be wrong with a batch. -/
def Fails (table : Table ρ) (updates : List RunReconciliationUpdate) : Prop :=
  (∃ u ∈ updates, table.get u.id = none) ∨
    (∃ u ∈ updates, table.get u.id ≠ none ∧ storedStatus J table u.id = none) ∨
      (∃ u ∈ updates, ¬ Fits u) ∨
        ∃ before u after current, updates = before ++ u :: after ∧
          statusBefore J table before u.id = some current ∧ runTransition current u.status = false

/-- The first update of a run in the batch meets the stored status. -/
theorem first_split {updates : List RunReconciliationUpdate} {u : RunReconciliationUpdate} (hu : u ∈ updates) :
    ∃ before v after, updates = before ++ v :: after ∧ v.id = u.id ∧
      (before.filter fun w => w.id = u.id) = [] := by
  have hsome : (updates.find? fun w => w.id = u.id).isSome :=
    List.find?_isSome.mpr ⟨u, hu, by simp⟩
  obtain ⟨v, hv⟩ := Option.isSome_iff_exists.mp hsome
  obtain ⟨hid, before, after, hsplit, hbefore⟩ := List.find?_eq_some_iff_append.mp hv
  refine ⟨before, v, after, hsplit, by simpa using hid, ?_⟩
  exact List.filter_eq_nil_iff.mpr fun w hw => by simpa using hbefore w hw

theorem fails_iff (table : Table ρ) (updates : List RunReconciliationUpdate) :
    Fails J table updates ↔ ∃ before u after, updates = before ++ u :: after ∧
      ¬ Accepts J (before.foldl (applyUpdate J) table) u := by
  have hunread {u : RunReconciliationUpdate} (hu : u ∈ updates) (hnone : storedStatus J table u.id = none) :
      ∃ before u after, updates = before ++ u :: after ∧ ¬ Accepts J (before.foldl (applyUpdate J) table) u := by
    obtain ⟨before, v, after, hsplit, hid, hbefore⟩ := first_split hu
    refine ⟨before, v, after, hsplit, fun h => ?_⟩
    obtain ⟨⟨current, hcurrent, -⟩, -⟩ := h
    rw [storedStatus_foldl, statusBefore, hid, hbefore, List.getLast?_nil, hnone] at hcurrent
    cases hcurrent
  constructor
  · rintro (⟨u, hu, hget⟩ | ⟨u, hu, -, hnone⟩ | ⟨u, hu, hfits⟩ | ⟨before, u, after, current, hsplit, hcurrent, hnot⟩)
    · exact hunread hu (by rw [storedStatus, hget]; rfl)
    · exact hunread hu hnone
    · obtain ⟨before, after, hsplit⟩ := List.append_of_mem hu
      exact ⟨before, u, after, hsplit, fun h => hfits h.2⟩
    · refine ⟨before, u, after, hsplit, fun h => ?_⟩
      obtain ⟨⟨current', hcurrent', hallowed⟩, -⟩ := h
      rw [storedStatus_foldl, hcurrent] at hcurrent'
      cases hcurrent'
      rw [hnot] at hallowed
      cases hallowed
  · intro ⟨before, u, after, hsplit, hnot⟩
    have hu : u ∈ updates := by rw [hsplit]; exact List.mem_append_cons_self
    by_cases hfits : Fits u
    · cases hcurrent : statusBefore J table before u.id with
      | some current =>
        refine .inr (.inr (.inr ⟨before, u, after, current, hsplit, hcurrent, ?_⟩))
        refine Bool.not_eq_true _ ▸ fun hallowed => hnot ⟨⟨current, ?_, hallowed⟩, hfits⟩
        rw [storedStatus_foldl, hcurrent]
      | none =>
        -- no update before this one has found its run, or the stored status cannot be read
        cases hget : table.get u.id with
        | none => exact .inl ⟨u, hu, hget⟩
        | some row =>
          refine .inr (.inl ⟨u, hu, by rw [hget]; exact Option.some_ne_none row, ?_⟩)
          rw [statusBefore, hget] at hcurrent
          cases hlast : (before.filter fun v => v.id = u.id).getLast? with
          | none => rwa [hlast] at hcurrent
          | some v => rw [hlast] at hcurrent; cases hcurrent
    · exact .inr (.inr (.inl ⟨u, hu, hfits⟩))

theorem finishBatch_exec (table : Table ρ) (updates : List RunReconciliationUpdate) :
    (finishBatch J updates : Storage ρ Unit).exec (.idle table) =
      match batch J updates table with
      | .ok (a, table') => (.ok a, .idle table')
      | .error e => (.error e, .idle table) := by
  cases updates with
  | nil => rfl
  | cons u updates =>
    show (transaction .sqlite (finishEach J (u :: updates)) : Storage ρ Unit).exec (.idle table) = _
    rw [transaction_exec (follows_finishEach J (u :: updates))]
    cases batch J (u :: updates) table <;> rfl

/-- All updates of the batch, each of them allowed where it stands, or nothing. -/
theorem finish_batch_atomic (table : Table ρ) (updates : List RunReconciliationUpdate) :
    let r := (finishBatch J updates : Storage ρ Unit).exec (.idle table)
    (r = (.ok (), .idle (updates.foldl (applyUpdate J) table)) ∧
        (∀ before u after, updates = before ++ u :: after → ∃ current,
          storedStatus J (before.foldl (applyUpdate J) table) u.id = some current ∧
          statusBefore J table before u.id = some current ∧ runTransition current u.status = true) ∨
      ∃ e, r = (.error e, .idle table)) ∧
    ((∃ e, r.1 = .error e) ↔ Fails J table updates) := by
  intro r
  have hr : r = _ := finishBatch_exec J table updates
  by_cases hfails : Fails J table updates
  · obtain ⟨before, u, after, hsplit, hnot⟩ := (fails_iff J table updates).mp hfails
    obtain ⟨e, he⟩ := batch_error J hsplit hnot
    rw [he] at hr
    exact ⟨.inr ⟨e, hr⟩, fun _ => hfails, fun _ => ⟨e, by rw [hr]⟩⟩
  · have haccepts : ∀ before u after, updates = before ++ u :: after →
        Accepts J (before.foldl (applyUpdate J) table) u := by
      intro before u after hsplit
      by_contra hnot
      exact hfails ((fails_iff J table updates).mpr ⟨before, u, after, hsplit, hnot⟩)
    rw [batch_ok J haccepts] at hr
    refine ⟨.inl ⟨hr, fun before u after hsplit => ?_⟩, fun ⟨e, he⟩ => ?_, fun h => (hfails h).elim⟩
    · obtain ⟨⟨current, hcurrent, hallowed⟩, -⟩ := haccepts before u after hsplit
      exact ⟨current, hcurrent, (storedStatus_foldl J table before u.id).symm.trans hcurrent, hallowed⟩
    · rw [hr] at he
      cases he

def runningRow : Row Unit :=
  ⟨⟨1⟩, .text (serdeJson.toText .running), .null, .null, .null, .integer 0, .text [], .text [], .null, ()⟩

def endedUpdate : RunReconciliationUpdate := ⟨⟨1⟩, .succeeded, some 0, some 9, none, 0, 10⟩

/-- A running run is finished; and with an update of a run that is not there, it is not. -/
theorem finish_batch_running :
    (finishBatch serdeJson [endedUpdate] : Storage Unit Unit).exec (.idle [runningRow]) =
        (.ok (), .idle (applyUpdate serdeJson [runningRow] endedUpdate)) ∧
      ∃ e, (finishBatch serdeJson [endedUpdate, { endedUpdate with id := ⟨2⟩ }] : Storage Unit Unit).exec
        (.idle [runningRow]) = (.error e, .idle [runningRow]) := by
  constructor
  · rcases (finish_batch_atomic serdeJson [runningRow] [endedUpdate]).1 with ⟨h, -⟩ | ⟨e, h⟩
    · exact h
    · cases congrArg Prod.fst h
  · rcases (finish_batch_atomic serdeJson [runningRow] [endedUpdate, { endedUpdate with id := ⟨2⟩ }]).1 with
      ⟨h, -⟩ | ⟨e, h⟩
    · cases congrArg Prod.fst h
    · exact ⟨e, h⟩

end KW.RunRows
