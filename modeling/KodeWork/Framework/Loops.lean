import Mathlib.Tactic.Common

/-!
# While loops

`Ends c f s t`: the loop that takes its state on by `f` while `c` holds of it ends in `t` when
started in `s`. It ends in one state only (`Ends.unique`). A loop whose rounds make a measure
smaller ends, and a run with as many rounds as the measure says is all of it (`ends_rounds`).
-/

namespace KW.Loops

universe u

variable {σ : Type u} {c : σ → Bool} {f : σ → σ}

/-- `while c s { s = f s }` -/
inductive Ends (c : σ → Bool) (f : σ → σ) : σ → σ → Prop
  | exit {s : σ} : c s = false → Ends c f s s
  | round {s t : σ} : c s = true → Ends c f (f s) t → Ends c f s t

theorem Ends.unique {s t u : σ} (ht : Ends c f s t) (hu : Ends c f s u) : t = u := by
  induction ht with
  | exit hc =>
    cases hu with
    | exit => rfl
    | round hc' => cases hc.symm.trans hc'
  | round hc _ ih =>
    cases hu with
    | exit hc' => cases hc.symm.trans hc'
    | round _ hu => exact ih hu

/-- `n` rounds at most. -/
def rounds (c : σ → Bool) (f : σ → σ) : Nat → σ → σ
  | 0, s => s
  | n + 1, s => if c s then rounds c f n (f s) else s

theorem ends_rounds {m : σ → Nat} (hm : ∀ s, c s = true → m (f s) < m s) {n : Nat} {s : σ} (h : m s ≤ n) :
    Ends c f s (rounds c f n s) := by
  induction n generalizing s with
  | zero =>
    refine .exit (eq_false_of_ne_true fun hc => ?_)
    have hlt := hm s hc
    omega
  | succ n ih =>
    cases hc : c s with
    | false =>
      rw [rounds, hc, if_neg Bool.false_ne_true]
      exact .exit hc
    | true =>
      have hlt := hm s hc
      rw [rounds, hc, if_pos rfl]
      exact .round hc (ih (by omega))

end KW.Loops
