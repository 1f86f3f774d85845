import KodeWork.Framework.Machine

/-!
# Exclusive leases

A registry maps a key to the owner that leased it. Tasks hold leases: what a
task holds is a key and the owner it acts for. Several tasks may act for one
owner, so the registry alone does not tell them apart, and a release by owner
(`release`) is blind to which task calls it.

`Exclusive` says that the registry and the tasks agree: what a task holds is
in the registry, and no key is held by two tasks. The lemmas give what each
use of the registry needs in order to keep that: taking a lease
(`Exclusive.take`), handing it to another task (`Exclusive.pass`), giving it
back (`Exclusive.giveBack`), and a release by a task that holds nothing
(`Exclusive.release_idle`).
-/

namespace KW.Lease

universe u v w

variable {K : Type u} {O : Type v} {T : Type w}

section

variable [DecidableEq K] [DecidableEq O]

/-- The key is freed if it is leased to this owner. -/
def release (leases : K → Option O) (k : K) (o : O) : K → Option O :=
  if leases k = some o then Function.update leases k none else leases

theorem release_of_ne {leases : K → Option O} {k k' : K} (o : O) (h : k' ≠ k) :
    release leases k o k' = leases k' := by
  unfold release
  split
  · exact Function.update_of_ne h _ _
  · rfl

/-- A key leased to another owner is not freed. -/
theorem release_of_owner {leases : K → Option O} {k k' : K} {o o' : O}
    (h : leases k' = some o') (hne : k' = k → o' ≠ o) : release leases k o k' = some o' := by
  by_cases hk : k' = k
  · have hn : leases k ≠ some o := by
      rw [← hk, h]
      exact fun e => hne hk (Option.some.inj e)
    rw [release, if_neg hn, h]
  · rw [release_of_ne o hk, h]

end

/-- The registry and the tasks agree, and no key is held twice. -/
structure Exclusive (leases : K → Option O) (holds : T → Option (K × O)) : Prop where
  owned : ∀ x k o, holds x = some (k, o) → leases k = some o
  unique : ∀ x y k o o', holds x = some (k, o) → holds y = some (k, o') → x = y

namespace Exclusive

variable {leases : K → Option O} {holds : T → Option (K × O)}

/-- A key that is free, or leased to an owner for which no task holds it, is
held by no task. -/
theorem not_held (h : Exclusive leases holds) {k : K} {o : O}
    (hk : leases k = none ∨ leases k = some o ∧ ∀ y, holds y ≠ some (k, o)) (y : T) (o' : O) :
    holds y ≠ some (k, o') := by
  intro hy
  have e := h.owned y k o' hy
  rcases hk with hk | ⟨hk, hn⟩
  · rw [hk] at e
    cases e
  · rw [hk] at e
    exact hn y (Option.some.inj e ▸ hy)

/-- A task takes a lease on a key no task holds. -/
theorem take [DecidableEq K] [DecidableEq T] (h : Exclusive leases holds) {x : T} {k : K} {o : O}
    (hn : ∀ y o', holds y ≠ some (k, o')) :
    Exclusive (Function.update leases k (some o)) (Function.update holds x (some (k, o))) := by
  have cases_of : ∀ y k' o', Function.update holds x (some (k, o)) y = some (k', o') →
      (y = x ∧ k' = k ∧ o' = o) ∨ (y ≠ x ∧ k' ≠ k ∧ holds y = some (k', o')) := by
    intro y k' o' hy
    rcases entry_of_update hy with ⟨hx, ⟨⟩⟩ | ⟨hx, hy⟩
    · exact .inl ⟨hx, rfl, rfl⟩
    · exact .inr ⟨hx, fun e => hn y o' (e ▸ hy), hy⟩
  refine ⟨fun y k' o' hy => ?_, fun y z k' o₁ o₂ hy hz => ?_⟩
  · rcases cases_of y k' o' hy with ⟨-, rfl, rfl⟩ | ⟨-, hk, hy'⟩
    · exact Function.update_self _ _ _
    · rw [Function.update_of_ne hk]
      exact h.owned y k' o' hy'
  · rcases cases_of y k' o₁ hy with ⟨rfl, rfl, -⟩ | ⟨-, hk, hy'⟩ <;>
      rcases cases_of z _ o₂ hz with ⟨rfl, hk', -⟩ | ⟨-, hk', hz'⟩
    · rfl
    · exact absurd rfl hk'
    · exact absurd hk' hk
    · exact h.unique y z k' o₁ o₂ hy' hz'

/-- What a task holds goes to another task. -/
theorem pass [DecidableEq T] (h : Exclusive leases holds) (x y : T) :
    Exclusive leases (Function.update (Function.update holds x none) y (holds x)) := by
  -- the task of the old state whose lease `z` has now
  have old : ∀ z p, Function.update (Function.update holds x none) y (holds x) z = some p →
      (z = y ∧ holds x = some p) ∨ (z ≠ y ∧ z ≠ x ∧ holds z = some p) := by
    intro z p hz
    rcases entry_of_update hz with hz | ⟨hzy, hz⟩
    · exact .inl hz
    · rcases entry_of_update hz with ⟨-, ⟨⟩⟩ | ⟨hzx, hz⟩
      exact .inr ⟨hzy, hzx, hz⟩
  refine ⟨fun z k o hz => ?_, fun z z' k o o' hz hz' => ?_⟩
  · rcases old z _ hz with ⟨-, hx⟩ | ⟨-, -, hz'⟩
    · exact h.owned x k o hx
    · exact h.owned z k o hz'
  · rcases old z _ hz with ⟨e, hx⟩ | ⟨hne, hnx, hz₁⟩ <;>
      rcases old z' _ hz' with ⟨e', hx'⟩ | ⟨hne', hnx', hz₁'⟩
    · rw [e, e']
    · exact absurd (h.unique x z' k o o' hx hz₁').symm hnx'
    · exact absurd (h.unique z x k o o' hz₁ hx') hnx
    · exact h.unique z z' k o o' hz₁ hz₁'

/-- The task that holds a lease gives it back. -/
theorem giveBack [DecidableEq K] [DecidableEq O] [DecidableEq T] (h : Exclusive leases holds) {x : T}
    {k : K} {o : O} (hx : holds x = some (k, o)) :
    Exclusive (release leases k o) (Function.update holds x none) := by
  have old : ∀ y p, Function.update holds x none y = some p → y ≠ x ∧ holds y = some p := by
    intro y p hy
    rcases entry_of_update hy with ⟨-, ⟨⟩⟩ | hy
    exact hy
  refine ⟨fun y k' o' hy => ?_, fun y z k' o₁ o₂ hy hz => ?_⟩
  · obtain ⟨hne, hy'⟩ := old y _ hy
    have hk : k' ≠ k := fun e => hne (h.unique y x k o' o (e ▸ hy') hx)
    rw [release_of_ne o hk]
    exact h.owned y k' o' hy'
  · exact h.unique y z k' o₁ o₂ (old y _ hy).2 (old z _ hz).2

/-- A release for an owner that holds the key in no task. -/
theorem release_idle [DecidableEq K] [DecidableEq O] (h : Exclusive leases holds) {k : K} {o : O}
    (hn : ∀ y, holds y ≠ some (k, o)) : Exclusive (release leases k o) holds := by
  refine ⟨fun y k' o' hy => ?_, h.unique⟩
  refine release_of_owner (h.owned y k' o' hy) fun hk ho => ?_
  exact hn y (hk ▸ ho ▸ hy)

end Exclusive

end KW.Lease
