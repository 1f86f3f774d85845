import Mathlib.Data.List.Chain
import Mathlib.Data.List.DropRight
import Mathlib.Tactic.Common

/-!
# Lists cut at separators

`pieces sep t` are the non-empty pieces of `t` between its separators. Cutting
at a separator (`pieces_append_cons`) and adding to the end of a list
(`pieces_append`) are all that is needed to compute with them: what is added
without a separator goes to the `leaf`, the piece behind the last separator,
and leaves the pieces before it (`folder`) as they are.

A list that starts with a separator, does not end in one and has no two in a
row is made of its pieces (`cons_intercalate_pieces`).
-/

namespace KW.Pieces

universe u

variable {α : Type u} {sep : α → Bool}

def pieces (sep : α → Bool) (t : List α) : List (List α) :=
  (t.splitOnP sep).filter fun w => !w.isEmpty

/-- What follows the last separator. -/
def leaf (sep : α → Bool) (t : List α) : List α := t.rtakeWhile fun c => !sep c

/-- What is cut off before the leaf. -/
def front (sep : α → Bool) (t : List α) : List (List α) := (t.splitOnP sep).dropLast

/-- The pieces before the leaf. -/
def folder (sep : α → Bool) (t : List α) : List (List α) := (front sep t).filter fun w => !w.isEmpty

/-! ## The end of a list -/

theorem not_sep_of_mem_leaf {t : List α} {c : α} (h : c ∈ leaf sep t) : sep c = false := by
  simpa using List.mem_rtakeWhile_imp h

theorem not_sep_of_all {w : List α} (h : (w.all fun c => !sep c) = true) : ∀ c ∈ w, sep c = false := by
  intro c hc
  simpa using List.all_eq_true.mp h c hc

/-- A list is its leaf, or something, a separator and its leaf. -/
theorem eq_leaf_or (sep : α → Bool) (t : List α) :
    t = leaf sep t ∨ ∃ u c, sep c = true ∧ t = u ++ c :: leaf sep t := by
  have hcat := List.rdropWhile_append_rtakeWhile (p := fun c => !sep c) (l := t)
  rcases List.eq_nil_or_concat (t.rdropWhile fun c => !sep c) with h | ⟨u, c, h⟩
  · left
    rw [h] at hcat
    exact hcat.symm
  · right
    refine ⟨u, c, ?_, ?_⟩
    · have hlast := List.rdropWhile_last_not (fun c => !sep c) t (by rw [h]; simp)
      simp only [h] at hlast
      simpa using hlast
    · rw [h, List.concat_eq_append, List.append_assoc] at hcat
      exact hcat.symm

theorem splitOnP_append (t : List α) {w : List α} (hw : ∀ c ∈ w, sep c = false) :
    (t ++ w).splitOnP sep = front sep t ++ [leaf sep t ++ w] := by
  have hleaf : ∀ c ∈ leaf sep t ++ w, sep c = false := by
    intro c hc
    rcases List.mem_append.mp hc with hc | hc
    · exact not_sep_of_mem_leaf hc
    · exact hw c hc
  have hself : (leaf sep t).splitOnP sep = [leaf sep t] :=
    List.splitOnP_eq_singleton fun c hc => not_sep_of_mem_leaf hc
  rcases eq_leaf_or sep t with h | ⟨u, c, hc, h⟩
  · have hfront : front sep t = [] := by
      rw [front, h, hself]
      rfl
    rw [hfront, List.nil_append, ← List.splitOnP_eq_singleton hleaf]
    exact congrArg (fun x => (x ++ w).splitOnP sep) h
  · have hfront : front sep t = u.splitOnP sep := by
      rw [front, h, List.splitOnP_append_cons _ _ hc, hself, List.dropLast_concat]
    rw [hfront, ← List.splitOnP_eq_singleton hleaf, ← List.splitOnP_append_cons u _ hc]
    exact congrArg (List.splitOnP sep) (by rw [← List.cons_append, ← List.append_assoc, ← h])

theorem splitOnP_eq (t : List α) : t.splitOnP sep = front sep t ++ [leaf sep t] := by
  have hnil : ∀ c ∈ ([] : List α), sep c = false := by simp
  simpa using splitOnP_append t hnil

/-! ## Pieces -/

theorem pieces_append_cons (x y : List α) {c : α} (hc : sep c = true) :
    pieces sep (x ++ c :: y) = pieces sep x ++ pieces sep y := by
  rw [pieces, List.splitOnP_append_cons x y hc, List.filter_append]
  rfl

theorem pieces_cons {c : α} (hc : sep c = true) (t : List α) : pieces sep (c :: t) = pieces sep t :=
  pieces_append_cons [] t hc

theorem pieces_concat {c : α} (hc : sep c = true) (t : List α) :
    pieces sep (t ++ [c]) = pieces sep t := by
  rw [pieces_append_cons t [] hc]
  exact List.append_nil _

/-- Separators at the end do not count. -/
theorem pieces_rdropWhile (t : List α) : pieces sep (t.rdropWhile sep) = pieces sep t := by
  induction t using List.reverseRecOn with
  | nil => rfl
  | append_singleton t c ih =>
    by_cases hc : sep c = true
    · rw [List.rdropWhile_concat_pos _ _ _ hc, ih, pieces_concat hc]
    · rw [List.rdropWhile_concat_neg _ _ _ hc]

/-- What is added to the end without a separator belongs to the leaf. -/
theorem pieces_append (t : List α) {w : List α} (hw : ∀ c ∈ w, sep c = false) (hne : w ≠ []) :
    pieces sep (t ++ w) = folder sep t ++ [leaf sep t ++ w] := by
  rw [pieces, splitOnP_append t hw, List.filter_append]
  simp [folder, hne]

/-- The folder and the leaf say what the pieces are. -/
theorem pieces_eq (t : List α) :
    pieces sep t = folder sep t ++ [leaf sep t].filter fun w => !w.isEmpty := by
  rw [pieces, splitOnP_eq, List.filter_append]
  rfl

/-- What the pieces are made of. -/
theorem flatten_pieces (t : List α) : (pieces sep t).flatten = t.filter fun c => !sep c := by
  have hsplit : (t.splitOnP sep).flatten = t.filter fun c => !sep c := by
    induction t with
    | nil => rfl
    | cons c t ih =>
      rw [List.splitOnP_cons_eq_if_modifyHead, List.filter_cons]
      cases hc : sep c with
      | true => simpa using ih
      | false =>
        obtain ⟨v, vs, hv⟩ := List.exists_cons_of_ne_nil (List.splitOnP_ne_nil sep t)
        rw [hv] at ih ⊢
        simpa using ih
  rw [← hsplit, pieces]
  exact List.flatten_filter_not_isEmpty

theorem not_sep_of_mem_pieces {t w : List α} (hw : w ∈ pieces sep t) : ∀ c ∈ w, sep c = false := by
  intro c hc
  have hmem : c ∈ (pieces sep t).flatten := List.mem_flatten_of_mem hw hc
  rw [flatten_pieces, List.mem_filter] at hmem
  simpa using hmem.2

/-! ## What stands in front and behind -/

/-- A list has no separator, or something without one, and a separator behind it. -/
theorem eq_first_or (sep : α → Bool) (t : List α) :
    (∀ c ∈ t, sep c = false) ∨ ∃ w d rest, (∀ c ∈ w, sep c = false) ∧ sep d = true ∧ t = w ++ d :: rest := by
  induction t with
  | nil => exact .inl (by simp)
  | cons c t ih =>
    cases hc : sep c with
    | true => exact .inr ⟨[], c, t, by simp, hc, rfl⟩
    | false =>
      rcases ih with h | ⟨w, d, rest, hw, hd, rfl⟩
      · exact .inl (List.forall_mem_cons.mpr ⟨hc, h⟩)
      · exact .inr ⟨c :: w, d, rest, List.forall_mem_cons.mpr ⟨hc, hw⟩, hd, rfl⟩

theorem leaf_eq_nil {t : List α} (h : t.getLast?.any sep = true) : leaf sep t = [] := by
  refine List.rtakeWhile_eq_nil_iff.mpr fun hne => ?_
  rw [List.getLast?_eq_some_getLast hne] at h
  simpa using h

theorem pieces_append_of_all {x : List α} (hx : ∀ c ∈ x, sep c = true) (t : List α) :
    pieces sep (x ++ t) = pieces sep t := by
  induction x with
  | nil => rfl
  | cons c x ih =>
    rw [List.cons_append, pieces_cons (hx c List.mem_cons_self)]
    exact ih fun d hd => hx d (List.mem_cons_of_mem c hd)

/-- What is put in front of a list goes before its pieces; if no separator is between
them, the leaf of it goes to the first piece. -/
theorem pieces_append_left {t w : List α} {ws : List (List α)} (ht : pieces sep t = w :: ws) (x : List α) :
    pieces sep (x ++ t) =
      if t.head?.any sep then pieces sep x ++ w :: ws else folder sep x ++ (leaf sep x ++ w) :: ws := by
  rcases eq_first_or sep t with h | ⟨v, d, rest, hv, hd, rfl⟩
  · cases t with
    | nil => cases ht
    | cons c t =>
      have hself : [c :: t] = w :: ws := (pieces_append [] h (List.cons_ne_nil c t)).symm.trans ht
      cases hself
      rw [List.head?_cons, Option.any_some, h c List.mem_cons_self, if_neg Bool.false_ne_true]
      exact pieces_append x h (List.cons_ne_nil c t)
  · cases v with
    | nil =>
      rw [List.nil_append, List.head?_cons, Option.any_some, hd, if_pos rfl, pieces_append_cons x rest hd,
        ← pieces_cons hd rest]
      rw [List.nil_append] at ht
      rw [ht]
    | cons c v =>
      have hcut (y : List α) : pieces sep (y ++ (c :: v ++ d :: rest)) =
          folder sep y ++ [leaf sep y ++ c :: v] ++ pieces sep rest := by
        rw [← List.append_assoc, pieces_append_cons _ rest hd, pieces_append y hv (List.cons_ne_nil c v)]
      have hself : (c :: v) :: pieces sep rest = w :: ws := (hcut []).symm.trans ht
      cases hself
      rw [List.cons_append, List.head?_cons, Option.any_some, hv c List.mem_cons_self, if_neg Bool.false_ne_true,
        ← List.cons_append, hcut x, List.append_assoc]
      rfl

/-- What is put behind a list without a separator goes to its last piece, or is one of its own. -/
theorem pieces_append_word {t w v : List α} {ws : List (List α)} (ht : pieces sep t = ws ++ [w])
    (hv : ∀ c ∈ v, sep c = false) : ∃ v' post, pieces sep (t ++ v) = ws ++ [w ++ v'] ++ post := by
  by_cases hnil : v = []
  · exact ⟨[], [], by rw [hnil, List.append_nil, List.append_nil, List.append_nil, ht]⟩
  · rw [pieces_append t hv hnil]
    rw [pieces_eq] at ht
    cases hleaf : leaf sep t with
    | nil =>
      have hws : folder sep t = ws ++ [w] := by simpa [hleaf] using ht
      exact ⟨[], [v], by rw [hws, List.append_nil, List.nil_append]⟩
    | cons d l =>
      have h : folder sep t ++ [d :: l] = ws ++ [w] := by simpa [hleaf] using ht
      obtain ⟨hws, hw⟩ := List.append_inj' h rfl
      cases hw
      exact ⟨v, [], by rw [hws, List.append_nil]⟩

/-- What is put behind a list goes behind its pieces, or to the last of them. -/
theorem pieces_append_right {t w : List α} {ws : List (List α)} (ht : pieces sep t = ws ++ [w]) (y : List α) :
    ∃ v post, pieces sep (t ++ y) = ws ++ [w ++ v] ++ post := by
  rcases eq_first_or sep y with h | ⟨v, d, rest, hv, hd, rfl⟩
  · exact pieces_append_word ht h
  · obtain ⟨v', post, hword⟩ := pieces_append_word ht hv
    refine ⟨v', post ++ pieces sep rest, ?_⟩
    rw [← List.append_assoc t v, pieces_append_cons _ rest hd, hword, List.append_assoc]

/-! ## Separators in a row -/

section

variable [DecidableEq α] {x : α}

/-- There are no two separators in a row. -/
def Single (x : α) (t : List α) : Prop := t.IsChain fun a b => ¬ (a = x ∧ b = x)

/-- Behind the first piece, a list that does not end in a separator and has no
two in a row has no empty piece. -/
theorem ne_nil_of_mem_tail {t : List α} (h : Single x t) (hl : t.getLast? ≠ some x) :
    ∀ w ∈ (t.splitOn x).tail, w ≠ [] := by
  induction t with
  | nil => simp
  | cons c t ih =>
    have hl' : t.getLast? ≠ some x := by
      cases t with
      | nil => simp
      | cons d t => simpa [List.getLast?_cons_cons] using hl
    have ht := ih h.of_cons hl'
    rw [List.splitOn_cons_eq_if_modifyHead]
    split
    · rename_i hc
      rw [beq_iff_eq] at hc
      subst hc
      cases t with
      | nil => simp at hl
      | cons d t =>
        -- the piece behind a separator starts with something else
        have hd : d ≠ c := fun e => (List.isChain_cons_cons.mp h).1 ⟨rfl, e⟩
        rw [List.tail_cons]
        rw [List.splitOn_cons_eq_if_modifyHead, if_neg (by simpa using hd)] at ht ⊢
        intro w hw
        obtain ⟨v, vs, hv⟩ := List.exists_cons_of_ne_nil (List.splitOn_ne_nil c t)
        rw [hv, List.modifyHead_cons] at hw ht
        rcases List.mem_cons.mp hw with rfl | hw
        · simp
        · exact ht w hw
    · obtain ⟨v, vs, hv⟩ := List.exists_cons_of_ne_nil (List.splitOn_ne_nil x t)
      rw [hv] at ht ⊢
      simpa using ht

/-- A list with a separator in front and no other it does not need is made of
its pieces. -/
theorem cons_intercalate_pieces {t : List α} (h : Single x (x :: t))
    (hl : t ≠ [] → t.getLast? ≠ some x) :
    x :: [x].intercalate (pieces (· == x) t) = x :: t := by
  cases t with
  | nil => rfl
  | cons d t =>
    have hd : d ≠ x := fun e => (List.isChain_cons_cons.mp h).1 ⟨rfl, e⟩
    have ht := ne_nil_of_mem_tail h.of_cons (hl (by simp))
    have hall : ∀ w ∈ (d :: t).splitOn x, (!w.isEmpty) = true := by
      rw [List.splitOn_cons_eq_if_modifyHead, if_neg (by simpa using hd)] at ht ⊢
      obtain ⟨v, vs, hv⟩ := List.exists_cons_of_ne_nil (List.splitOn_ne_nil x t)
      rw [hv, List.modifyHead_cons] at ht ⊢
      intro w hw
      rcases List.mem_cons.mp hw with rfl | hw
      · rfl
      · simpa using ht w hw
    have hp : pieces (· == x) (d :: t) = (d :: t).splitOn x := List.filter_eq_self.mpr hall
    rw [hp, List.intercalate_splitOn]

end

end KW.Pieces
