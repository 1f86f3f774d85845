import Mathlib.Algebra.Order.Ring.Int
import KodeWork.Impl.VirtualWindow

/-!
# No visible row is left out

`calculateVirtualWindow` counts the rows of a viewport that starts with a row
(`ceilDiv_le_of`), so a viewport that starts within one may show one more: the overscan of at
least one row covers it (`calculateVirtualWindow_covers`).
-/

namespace KW.VirtualList

/-- The row intersects the viewport at the scroll position. -/
def Intersects (scrollTop viewportHeight rowHeight row : Int) : Prop :=
  row * rowHeight < scrollTop + max 0 viewportHeight ∧ scrollTop < (row + 1) * rowHeight

theorem le_ceilDiv_mul (a : Int) {b : Int} (hb : 0 < b) : a ≤ ceilDiv a b * b := by
  have hmul := Int.ediv_mul_le (-a) (Int.ne_of_gt hb)
  rw [ceilDiv, Int.neg_mul]
  omega

theorem boundedScrollTop_nonneg (itemCount scrollTop viewportHeight rowHeight : Int) :
    0 ≤ boundedScrollTop itemCount scrollTop viewportHeight rowHeight := by
  rw [boundedScrollTop]
  omega

/-- The row that the viewport starts with is one of the list. -/
theorem firstVisible_bounds {itemCount rowHeight scrollTop : Int} (hcount : 0 < itemCount) (hrow : 0 < rowHeight)
    (hscroll : 0 ≤ scrollTop) :
    0 ≤ min (itemCount - 1) (scrollTop / rowHeight) ∧ min (itemCount - 1) (scrollTop / rowHeight) < itemCount := by
  have hdiv : 0 ≤ scrollTop / rowHeight := Int.ediv_nonneg hscroll (Int.le_of_lt hrow)
  omega

/-- No row before the one that the viewport starts with is seen, and none behind the rows
that are counted and one more. -/
theorem row_bounds {scrollTop viewportHeight rowHeight row : Int} (hrow : 0 < rowHeight)
    (h : Intersects scrollTop viewportHeight rowHeight row) :
    scrollTop / rowHeight ≤ row ∧ row ≤ scrollTop / rowHeight + ceilDiv (max 0 viewportHeight) rowHeight := by
  obtain ⟨htop, hbottom⟩ := h
  have hfirst : scrollTop / rowHeight < row + 1 := Int.ediv_lt_of_lt_mul hrow hbottom
  have hscroll : scrollTop < (scrollTop / rowHeight + 1) * rowHeight := Int.lt_ediv_add_one_mul_self _ hrow
  have hheight := le_ceilDiv_mul (max 0 viewportHeight) hrow
  have hlast : row * rowHeight < (scrollTop / rowHeight + 1 + ceilDiv (max 0 viewportHeight) rowHeight) * rowHeight := by
    calc row * rowHeight
      _ < scrollTop + max 0 viewportHeight := htop
      _ < (scrollTop / rowHeight + 1) * rowHeight + ceilDiv (max 0 viewportHeight) rowHeight * rowHeight :=
        add_lt_add_of_lt_of_le hscroll hheight
      _ = _ := (Int.add_mul _ _ _).symm
  have hlt := lt_of_mul_lt_mul_right hlast (Int.le_of_lt hrow)
  omega

/-- The window is one of the list, and shows every row that the viewport does. -/
theorem calculateVirtualWindow_covers (itemCount scrollTop viewportHeight rowHeight overscan : Int)
    (hcount : 0 ≤ itemCount) (hrow : 0 < rowHeight) (hoverscan : 1 ≤ overscan) :
    let w := calculateVirtualWindow itemCount scrollTop viewportHeight rowHeight overscan
    0 ≤ w.start ∧ w.start ≤ w.endIndex ∧ w.endIndex ≤ itemCount ∧ w.offsetTop = w.start * rowHeight ∧
      ∀ row, 0 ≤ row → row < itemCount →
        Intersects (boundedScrollTop itemCount scrollTop viewportHeight rowHeight) viewportHeight rowHeight row →
        w.start ≤ row ∧ row < w.endIndex := by
  intro w
  by_cases hempty : itemCount = 0
  · have hw : w = ⟨0, 0, 0, 0⟩ := if_pos (.inl (le_of_eq hempty))
    rw [hw, hempty]
    refine ⟨le_refl 0, le_refl 0, le_refl 0, (Int.zero_mul _).symm, fun row hnonneg hlt => ?_⟩
    omega
  · have hw : w = _ := if_neg (show ¬ (itemCount ≤ 0 ∨ rowHeight ≤ 0) by omega)
    have hscroll := boundedScrollTop_nonneg itemCount scrollTop viewportHeight rowHeight
    obtain ⟨hfirst, hbehind⟩ := firstVisible_bounds (by omega : 0 < itemCount) hrow hscroll
    rw [hw]
    dsimp only
    generalize boundedScrollTop itemCount scrollTop viewportHeight rowHeight = bounded at hfirst hbehind ⊢
    refine ⟨by omega, by omega, by omega, rfl, fun row hnonneg hlt hseen => ?_⟩
    obtain ⟨hstart, hend⟩ := row_bounds hrow hseen
    omega

/-- The list of files, scrolled into the middle of a row. -/
theorem windowRange_covers :
    let w := windowRange 100 1000 300
    0 ≤ w.start ∧ w.start ≤ w.endIndex ∧ w.endIndex ≤ 100 ∧ w.offsetTop = w.start * rowHeight ∧
      ∀ row, 0 ≤ row → row < 100 → Intersects (boundedScrollTop 100 1000 300 rowHeight) 300 rowHeight row →
        w.start ≤ row ∧ row < w.endIndex :=
  calculateVirtualWindow_covers 100 1000 300 rowHeight overscan (by decide) (by decide) (by decide)

end KW.VirtualList
