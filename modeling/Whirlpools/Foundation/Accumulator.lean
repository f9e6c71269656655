import Mathlib.Algebra.Group.Basic
import Mathlib.Data.Int.Order.Basic
import Mathlib.Tactic.Abel
import Mathlib.Tactic.Common

/-! # Growth accumulators over a line of marks

A global accumulator grows while a current index moves along the integers. A mark
stores the growth on its far side from the current index, so that crossing the
mark flips what it stores. A mark not in use counts all growth as below it. The
growth inside a range of marks changes exactly by the growth made while the
current index was in the range.
-/

namespace Accumulator

variable {G : Type*} [AddCommGroup G]

/-- The growth below a mark. -/
def below (inUse : Bool) (current mark : ℤ) (outside global : G) : G :=
  if ¬ inUse then global else if current < mark then global - outside else outside

/-- The growth above a mark. -/
def above (inUse : Bool) (current mark : ℤ) (outside global : G) : G :=
  if ¬ inUse then 0 else if current < mark then outside else global - outside

/-- All growth is below or above a mark. -/
theorem sub_below (inUse : Bool) (current mark : ℤ) (outside global : G) :
    global - below inUse current mark outside global = above inUse current mark outside global := by
  cases inUse with
  | false => simp only [below, above, Bool.false_eq_true, not_false_eq_true, ↓reduceIte, sub_self]
  | true =>
      by_cases left : current < mark
      · simp only [below, above, not_true_eq_false, ↓reduceIte, left, sub_sub_cancel]
      · simp only [below, above, not_true_eq_false, ↓reduceIte, left]

/-- The growth inside a range is the growth below its upper mark less that below its lower. -/
theorem inside_eq (lowerInUse upperInUse : Bool) (current lower upper : ℤ)
    (lowerOutside upperOutside global : G) :
    global - below lowerInUse current lower lowerOutside global -
        above upperInUse current upper upperOutside global =
      below upperInUse current upper upperOutside global -
        below lowerInUse current lower lowerOutside global := by
  rw [← sub_below]
  abel

/-- New growth counts as below every mark beyond the current index. -/
theorem below_accrue (current mark : ℤ) (outside global growth : G) :
    below true current mark outside (global + growth) =
      below true current mark outside global + if current < mark then growth else 0 := by
  simp only [below, not_true_eq_false, ↓reduceIte]
  split_ifs
  · abel
  · rw [add_zero]

/-- Moving the current index without passing a mark keeps the growth below it. -/
theorem below_move {current next mark : ℤ} (stays : current < mark ↔ next < mark)
    (inUse : Bool) (outside global : G) :
    below inUse next mark outside global = below inUse current mark outside global := by
  simp only [below, stays]

/-- Crossing a mark and flipping what it stores keeps the growth below it. -/
theorem below_cross {current next mark : ℤ} (crosses : current < mark ↔ ¬ next < mark)
    (outside global : G) :
    below true next mark (global - outside) global = below true current mark outside global := by
  simp only [below, not_true_eq_false, ↓reduceIte, crosses]
  by_cases left : next < mark
  · simp only [left, not_true_eq_false, ↓reduceIte]
    abel
  · simp only [left, not_false_eq_true, ↓reduceIte]

/-- Taking a mark into use under the convention keeps the growth below it. -/
theorem below_use (current mark : ℤ) (global outside : G) :
    below true current mark (if mark ≤ current then global else 0) global =
      below false current mark outside global := by
  simp only [below, not_true_eq_false, ↓reduceIte, Bool.false_eq_true, not_false_eq_true]
  by_cases left : current < mark
  · rw [if_pos left, if_neg (not_le.mpr left), sub_zero]
  · rw [if_neg left, if_pos (not_lt.mp left)]

end Accumulator
