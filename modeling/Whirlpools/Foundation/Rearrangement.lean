import Mathlib.Algebra.Group.End
import Mathlib.Order.Basic
import Mathlib.Tactic.Common

/-! # Rearrangements inside a window

Swapping items of an array rearranges them. A rearrangement inside a window of indices keeps
whatever holds of all items of the window, and every item outside of it.
-/

/-- The sign of a comparison orders the items by a total preorder. -/
structure ComparesPreorder {T : Type} (compare : T → T → ℤ) : Prop where
  opposite : ∀ a b, 0 < compare a b ↔ compare b a < 0
  trans : ∀ a b c, compare a b ≤ 0 → compare b c ≤ 0 → compare a c ≤ 0

namespace ComparesPreorder

variable {T : Type} {compare : T → T → ℤ} {a b : T}

/-- A comparison is not negative when the other way around it is not positive. -/
theorem nonneg_iff (preorder : ComparesPreorder compare) : 0 ≤ compare a b ↔ compare b a ≤ 0 := by
  have forward := preorder.opposite b a
  omega

/-- An item compares as equal with itself. -/
theorem self (preorder : ComparesPreorder compare) (a : T) : compare a a = 0 := by
  have both := preorder.opposite a a
  omega

end ComparesPreorder

section Rearranged

variable {T : Type} {n : ℕ} {left right lower upper : ℤ} {first second third : Fin n → T}

/-- The second array rearranges the items of the first inside a window. -/
def Rearranged (left right : ℤ) (first second : Fin n → T) : Prop :=
  ∃ order : Equiv.Perm (Fin n), second = first ∘ order ∧
    ∀ index : Fin n, ¬ (left ≤ index ∧ index ≤ right) → order index = index

namespace Rearranged

theorem refl (array : Fin n → T) : Rearranged left right array array :=
  ⟨1, rfl, fun _ _ => rfl⟩

theorem trans (earlier : Rearranged left right first second)
    (later : Rearranged left right second third) : Rearranged left right first third := by
  obtain ⟨order, rfl, outside⟩ := earlier
  obtain ⟨order', rfl, outside'⟩ := later
  refine ⟨order * order', rfl, fun index beyond => ?_⟩
  rw [Equiv.Perm.mul_apply, outside' index beyond, outside index beyond]

/-- A rearrangement of a window is one of every wider window. -/
theorem mono (rearranged : Rearranged lower upper first second) (fromLeft : left ≤ lower)
    (toRight : upper ≤ right) : Rearranged left right first second := by
  obtain ⟨order, rfl, outside⟩ := rearranged
  exact ⟨order, rfl, fun index beyond => outside index fun inside =>
    beyond ⟨fromLeft.trans inside.1, inside.2.trans toRight⟩⟩

/-- Swapping two items of the window rearranges it. -/
theorem swap (array : Fin n → T) {i j : Fin n} (first : left ≤ i ∧ i ≤ right)
    (second : left ≤ j ∧ j ≤ right) : Rearranged left right array (array ∘ Equiv.swap i j) := by
  refine ⟨Equiv.swap i j, rfl, fun index beyond => ?_⟩
  refine Equiv.swap_apply_of_ne_of_ne ?_ ?_
  · rintro rfl
    exact beyond first
  · rintro rfl
    exact beyond second

theorem outside (rearranged : Rearranged left right first second) {index : Fin n}
    (beyond : ¬ (left ≤ index ∧ index ≤ right)) : second index = first index := by
  obtain ⟨order, rfl, kept⟩ := rearranged
  rw [Function.comp_apply, kept index beyond]

/-- What holds of all items of the window still does. -/
theorem forall_inside (rearranged : Rearranged left right first second) (holds : T → Prop)
    (every : ∀ index : Fin n, left ≤ index → index ≤ right → holds (first index)) {index : Fin n}
    (above : left ≤ index) (below : index ≤ right) : holds (second index) := by
  obtain ⟨order, rfl, kept⟩ := rearranged
  have inside : left ≤ (order index : ℤ) ∧ (order index : ℤ) ≤ right := by
    by_contra beyond
    have fixed : order index = index := order.injective (kept _ beyond)
    rw [fixed] at beyond
    exact beyond ⟨above, below⟩
  exact every _ inside.1 inside.2

end Rearranged
end Rearranged
