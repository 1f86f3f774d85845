import Mathlib.Data.List.Induction
import Mathlib.Tactic.Common
import Mathlib.Logic.Function.Basic

/-!
# Machines: steps, runs and invariants

A machine is a deterministic step function on states and actions; what the
environment chooses (which task moves, what a remote call answers) is part of
the action, so every interleaving of the tasks of a program is a list of
actions. `Machine.run` executes such a list, as long as its steps meet a
decidable condition, and is what a concrete trace is evaluated with.

`Path ok s t` is a run from `s` to `t` whose steps all meet `ok`, a condition
on the state before the step and the action; `Reach` starts it from an initial
state. A property of every state of every run is proved by
`Reach.invariant`: it holds at the start, and one step keeps it.
`Along P s as` says that `P` holds of each step of the run `as`. Two properties
that are the same for one step from a state with an invariant are the same for
whole runs (`along_congr`), if a step that has them keeps the invariant.
`M.history record` is `M` with a history variable, which its steps write and
never read: what a statement about a run has to remember.
A machine whose steps do not depend on a part of its states and actions runs the
same without it (`run_map`), so that two runs that agree on the rest agree on it to
their end (`run_map_congr`).

States keep tasks, channels and records in tables, functions to `Option` or
lists; `entry_of_update`, `entry_of_set`, `entry_of_append` and `entry_of_concat` tell where an
entry of an updated table comes from, and `exists_mem_split` and
`exists_mem_set_split` tell the entry a step works on from the others.
-/

namespace KW

universe u v

/-- An entry of an updated table is the new one, or was there. -/
theorem entry_of_update {ι : Type u} {β : Type v} [DecidableEq ι] {table : ι → Option β} {a k : ι}
    {b : Option β} {c : β} (h : Function.update table a b k = some c) :
    (k = a ∧ b = some c) ∨ (k ≠ a ∧ table k = some c) := by
  by_cases hk : k = a
  · rw [hk, Function.update_self] at h
    exact .inl ⟨hk, h⟩
  · rw [Function.update_of_ne hk] at h
    exact .inr ⟨hk, h⟩

/-- The same of a list. -/
theorem entry_of_set {β : Type u} {table : List β} {a k : Nat} {b c : β}
    (h : (table.set a b)[k]? = some c) : (k = a ∧ c = b) ∨ (k ≠ a ∧ table[k]? = some c) := by
  by_cases hk : k = a
  · subst hk
    obtain ⟨hlt, hc⟩ := List.getElem?_eq_some_iff.mp h
    rw [List.getElem_set_self] at hc
    exact .inl ⟨rfl, hc.symm⟩
  · rw [List.getElem?_set_ne (Ne.symm hk)] at h
    exact .inr ⟨hk, h⟩

/-- An entry of a list that grew was there, or is one of the new ones. -/
theorem entry_of_append {β : Type u} {table added : List β} {k : Nat} {c : β}
    (h : (table ++ added)[k]? = some c) : table[k]? = some c ∨ table.length ≤ k ∧ c ∈ added := by
  by_cases hk : k < table.length
  · exact .inl (List.getElem?_append_left hk ▸ h)
  · rw [List.getElem?_append_right (Nat.le_of_not_lt hk)] at h
    exact .inr ⟨Nat.le_of_not_lt hk, List.mem_of_getElem? h⟩

/-- The same for one new entry. -/
theorem entry_of_concat {β : Type u} {table : List β} {k : Nat} {b c : β} (h : (table ++ [b])[k]? = some c) :
    table[k]? = some c ∨ k = table.length ∧ c = b := by
  rcases entry_of_append h with hold | ⟨hk, hc⟩
  · exact .inl hold
  · have hlt : k < (table ++ [b]).length := (List.getElem?_eq_some_iff.mp h).1
    rw [List.length_append, List.length_singleton] at hlt
    exact .inr ⟨Nat.le_antisymm (Nat.le_of_lt_succ hlt) hk, List.mem_singleton.mp hc⟩

theorem set_self_of_getElem? {β : Type u} {table : List β} {k : Nat} {c : β} (h : table[k]? = some c) :
    table.set k c = table := by
  obtain ⟨hk, rfl⟩ := List.getElem?_eq_some_iff.mp h
  exact List.set_getElem_self hk

/-- An entry of a list with a property is the one at `k`, or another. -/
theorem exists_mem_split {β : Type u} {table : List β} {k : Nat} {c : β} (h : table[k]? = some c)
    (P : β → Prop) :
    (∃ b ∈ table, P b) ↔ P c ∨ ∃ j b, j ≠ k ∧ table[j]? = some b ∧ P b := by
  constructor
  · rintro ⟨b, hb, hp⟩
    obtain ⟨j, hj⟩ := List.mem_iff_getElem?.mp hb
    by_cases hjk : j = k
    · subst hjk
      cases h.symm.trans hj
      exact .inl hp
    · exact .inr ⟨j, b, hjk, hj, hp⟩
  · rintro (hp | ⟨j, b, -, hj, hp⟩)
    · exact ⟨c, List.mem_of_getElem? h, hp⟩
    · exact ⟨b, List.mem_of_getElem? hj, hp⟩

/-- The same when the entry at `k` is a new one. -/
theorem exists_mem_set_split {β : Type u} {table : List β} {k : Nat} {c d : β} (h : table[k]? = some c)
    (P : β → Prop) :
    (∃ b ∈ table.set k d, P b) ↔ P d ∨ ∃ j b, j ≠ k ∧ table[j]? = some b ∧ P b := by
  have hk : k < table.length := (List.getElem?_eq_some_iff.mp h).1
  rw [exists_mem_split (List.getElem?_set_self hk) P]
  refine or_congr_right (exists_congr fun j => exists_congr fun b => and_congr_right fun hjk => ?_)
  rw [List.getElem?_set_ne (Ne.symm hjk)]

/-- A state space `σ` with one step for every action `α` that is enabled. -/
structure Machine (σ : Type u) (α : Type v) where
  step : σ → α → Option σ

namespace Machine

variable {σ : Type u} {α : Type v} (M : Machine σ α)

/-- The state after a list of actions, if each of them is enabled in turn and
meets `ok`. -/
def run (ok : σ → α → Prop) [∀ s a, Decidable (ok s a)] : σ → List α → Option σ
  | s, [] => some s
  | s, a :: as => if ok s a then (M.step s a).bind fun t => run ok t as else none

/-- `t` is reached from `s` by steps that all meet `ok`. -/
inductive Path (ok : σ → α → Prop) : σ → σ → Prop
  | refl (s : σ) : Path ok s s
  | tail {s t u : σ} {a : α} : Path ok s t → ok t a → M.step t a = some u → Path ok s u

/-- `t` is reached from an initial state by steps that all meet `ok`. -/
def Reach (ok : σ → α → Prop) (init : σ → Prop) (t : σ) : Prop := ∃ s, init s ∧ M.Path ok s t

/-- The condition every step meets: `Path free` is any run at all. -/
def free : σ → α → Prop := fun _ _ => True

instance (s : σ) (a : α) : Decidable (free s a) := isTrue trivial

/-- `P` holds of every step (its state, its action and the state after it) of
the run `as` from `s`, which gets to its end. -/
def Along (P : σ → α → σ → Prop) : σ → List α → Prop
  | _, [] => True
  | s, a :: as => ∃ t, M.step s a = some t ∧ P s a t ∧ Along P t as

/-- `M` with a history variable: `record` says what a step makes of it. -/
def history {γ : Type*} (record : σ → γ → α → σ → γ) : Machine (σ × γ) α :=
  ⟨fun s a => (M.step s.1 a).map fun t => (t, record s.1 s.2 a t)⟩

variable {M}

theorem history_step {γ : Type*} {record : σ → γ → α → σ → γ} {s t : σ × γ} {a : α}
    (h : (M.history record).step s a = some t) :
    M.step s.1 a = some t.1 ∧ t.2 = record s.1 s.2 a t.1 := by
  obtain ⟨u, hu, rfl⟩ := Option.map_eq_some_iff.mp h
  exact ⟨hu, rfl⟩

theorem run_cons {ok : σ → α → Prop} [∀ s a, Decidable (ok s a)] {s u : σ} {a : α} {as : List α} :
    M.run ok s (a :: as) = some u ↔ ok s a ∧ ∃ t, M.step s a = some t ∧ M.run ok t as = some u := by
  simp only [run]
  split
  · rename_i h
    rw [Option.bind_eq_some_iff]
    exact (and_iff_right h).symm
  · rename_i h
    simp [h]

theorem run_append {ok : σ → α → Prop} [∀ s a, Decidable (ok s a)] {u : σ} {bs : List α} :
    ∀ {as : List α} {s : σ}, M.run ok s (as ++ bs) = some u ↔
      ∃ t, M.run ok s as = some t ∧ M.run ok t bs = some u
  | [], s => by simp [run]
  | a :: as, s => by
    rw [List.cons_append, run_cons]
    constructor
    · rintro ⟨ha, t, ht, hrest⟩
      obtain ⟨v, hv, hu⟩ := run_append.mp hrest
      exact ⟨v, run_cons.mpr ⟨ha, t, ht, hv⟩, hu⟩
    · rintro ⟨v, hv, hu⟩
      obtain ⟨ha, t, ht, hrest⟩ := run_cons.mp hv
      exact ⟨ha, t, ht, run_append.mpr ⟨v, hrest, hu⟩⟩

/-- What holds of no actions at the start, and is kept by one more of them, holds of the
actions of a run and the state it ends in. -/
theorem run_trace {ok : σ → α → Prop} [∀ s a, Decidable (ok s a)] {s : σ} {P : List α → σ → Prop}
    (hinit : P [] s)
    (hstep : ∀ {as : List α} {t u : σ} {a : α}, P as t → ok t a → M.step t a = some u → P (as ++ [a]) u)
    {as : List α} {t : σ} (h : M.run ok s as = some t) : P as t := by
  induction as using List.reverseRecOn generalizing t with
  | nil =>
    cases h
    exact hinit
  | append_singleton as a ih =>
    obtain ⟨u, hu, hlast⟩ := run_append.mp h
    obtain ⟨ha, v, hv, hnil⟩ := run_cons.mp hlast
    cases hnil
    exact hstep (ih hu) ha hv

/-- `f` and `g` map the steps of `M` to those of `N`; then they map its runs. -/
theorem run_map {τ : Type*} {β : Type*} {N : Machine τ β} {f : σ → τ} {g : α → β}
    (h : ∀ s a, N.step (f s) (g a) = (M.step s a).map f) :
    ∀ (as : List α) (s : σ), N.run free (f s) (as.map g) = (M.run free s as).map f
  | [], _ => rfl
  | a :: as, s => by
    simp only [List.map_cons, run, free, if_true, h]
    cases M.step s a with
    | none => rfl
    | some t => exact run_map h as t

/-- Two runs from states that `f` does not tell apart, with actions that `g` does not
tell apart, end in states that `f` does not tell apart. -/
theorem run_map_congr {τ : Type*} {β : Type*} {N : Machine τ β} {f : σ → τ} {g : α → β}
    (h : ∀ s a, N.step (f s) (g a) = (M.step s a).map f) {s s' : σ} {as as' : List α}
    (hs : f s = f s') (has : as.map g = as'.map g) :
    (M.run free s as).map f = (M.run free s' as').map f := by
  rw [← run_map h, ← run_map h, hs, has]

theorem along_congr {P Q : σ → α → σ → Prop} {I : σ → Prop}
    (hiff : ∀ s a t, I s → M.step s a = some t → (P s a t ↔ Q s a t))
    (hkeep : ∀ s a t, I s → M.step s a = some t → P s a t → I t) :
    ∀ (as : List α) {s : σ}, I s → (M.Along P s as ↔ M.Along Q s as)
  | [], _, _ => Iff.rfl
  | a :: as, s, hs => by
    constructor
    · rintro ⟨t, ht, hp, hrest⟩
      exact ⟨t, ht, (hiff s a t hs ht).mp hp, (along_congr hiff hkeep as (hkeep s a t hs ht hp)).mp hrest⟩
    · rintro ⟨t, ht, hq, hrest⟩
      have hp : P s a t := (hiff s a t hs ht).mpr hq
      exact ⟨t, ht, hp, (along_congr hiff hkeep as (hkeep s a t hs ht hp)).mpr hrest⟩

namespace Path

variable {ok : σ → α → Prop}

theorem single {s t : σ} {a : α} (ho : ok s a) (h : M.step s a = some t) : M.Path ok s t :=
  .tail (.refl s) ho h

theorem mono {ok' : σ → α → Prop} (h : ∀ s a, ok s a → ok' s a) {s t : σ} (hp : M.Path ok s t) : M.Path ok' s t := by
  induction hp with
  | refl => exact .refl s
  | tail _ ho hs ih => exact .tail ih (h _ _ ho) hs

theorem trans {s t u : σ} (h₁ : M.Path ok s t) (h₂ : M.Path ok t u) : M.Path ok s u := by
  induction h₂ with
  | refl => exact h₁
  | tail _ ho hs ih => exact .tail ih ho hs

/-- What one step keeps, a run keeps. -/
theorem invariant {I : σ → Prop} (hstep : ∀ s a t, I s → ok s a → M.step s a = some t → I t)
    {s t : σ} (hp : M.Path ok s t) (hs : I s) : I t := by
  induction hp with
  | refl => exact hs
  | tail _ ho he ih => exact hstep _ _ _ ih ho he

/-- A list of actions that runs to its end is a path. -/
theorem of_run [∀ s a, Decidable (ok s a)] :
    ∀ {as : List α} {s t : σ}, M.run ok s as = some t → M.Path ok s t
  | [], s, t, h => by
    simp only [run, Option.some.injEq] at h
    exact h ▸ .refl s
  | a :: as, s, t, h => by
    simp only [run] at h
    split at h
    · obtain ⟨s₁, h₁, h₂⟩ := Option.bind_eq_some_iff.mp h
      exact trans (single ‹_› h₁) (of_run h₂)
    · cases h

end Path

namespace Reach

variable {ok : σ → α → Prop} {init : σ → Prop}

/-- The invariant rule: what holds of the initial states and is kept by every
step that meets `ok` holds of every state reached by such steps. -/
theorem invariant {I : σ → Prop} (hinit : ∀ s, init s → I s)
    (hstep : ∀ s a t, I s → ok s a → M.step s a = some t → I t) {t : σ} (h : M.Reach ok init t) :
    I t := by
  obtain ⟨s, hs, hp⟩ := h
  exact hp.invariant hstep (hinit s hs)

theorem path {s t : σ} (h : M.Reach ok init s) (hp : M.Path ok s t) : M.Reach ok init t := by
  obtain ⟨s₀, h₀, hp₀⟩ := h
  exact ⟨s₀, h₀, hp₀.trans hp⟩

/-- A concrete trace from an initial state, to a state with `p`. -/
theorem of_run (M : Machine σ α) (ok : σ → α → Prop) [∀ s a, Decidable (ok s a)] {s : σ}
    (hs : init s) (as : List α) (p : σ → Bool) (h : (M.run ok s as).any p = true) :
    ∃ t, M.Reach ok init t ∧ p t = true := by
  cases hr : M.run ok s as with
  | none => simp [hr] at h
  | some t => exact ⟨t, ⟨s, hs, Path.of_run hr⟩, by simpa [hr] using h⟩

end Reach

end Machine

end KW
