import Mathlib.Tactic.Common

/-!
# The longest suffix with a property

`Longest P l k`: of the suffixes of `l` with the property `P`, `k` is the longest. A window that
slides over a growing list need not look at what it left behind: if what has the property still
has it without its last element, the longest suffix of the list with one more element is that of
the window with one more (`Longest.concat`).
-/

namespace KW

universe u

variable {α : Type u} {P : List α → Prop} {l k : List α} {a : α}

structure Longest (P : List α → Prop) (l k : List α) : Prop where
  suffix : k <:+ l
  holds : P k
  longest : ∀ s, s <:+ l → P s → s <:+ k

theorem Longest.self (h : P l) : Longest P l l := ⟨List.suffix_rfl, h, fun _ hs _ => hs⟩

theorem Longest.cons (hl : ¬ P (a :: l)) (h : Longest P l k) : Longest P (a :: l) k where
  suffix := h.suffix.trans (List.suffix_cons a l)
  holds := h.holds
  longest := by
    intro s hs hp
    rcases List.suffix_cons_iff.mp hs with hs | hs
    · rw [hs] at hp
      exact absurd hp hl
    · exact h.longest s hs hp

theorem Longest.concat {k' : List α} (hP : ∀ s, P (s ++ [a]) → P s) (h : Longest P l k)
    (h' : Longest P (k ++ [a]) k') : Longest P (l ++ [a]) k' where
  suffix := by
    obtain ⟨t, rfl⟩ := h.suffix
    rw [List.append_assoc]
    exact h'.suffix.trans (List.suffix_append t _)
  holds := h'.holds
  longest := by
    intro s hs hp
    rcases List.suffix_concat_iff.mp hs with hs | ⟨t, hs, ht⟩
    · rw [hs]
      exact List.nil_suffix
    · rw [hs] at hp ⊢
      obtain ⟨u, hu⟩ := h.longest t ht (hP t hp)
      refine h'.longest (t ++ [a]) ⟨u, ?_⟩ hp
      rw [← List.append_assoc, hu]

end KW
