import Mathlib.Algebra.BigOperators.Intervals
import Mathlib.Algebra.Order.BigOperators.Group.Finset
import Mathlib.Algebra.Order.Field.Basic
import Mathlib.Algebra.BigOperators.Ring.Finset
import Mathlib.Order.Interval.Finset.Nat
import Mathlib.Order.Interval.Set.Basic
import Mathlib.Data.Int.ConditionallyCompleteOrder
import Mathlib.Data.Int.Interval
import Mathlib.Order.Monotone.Basic
import Mathlib.Tactic.Ring
import Mathlib.Tactic.Linarith

/-! # Weighted books over a line of knots

Knots divide a line into cells. A book gives every cell a weight, and the area of
the book below a point is the weighted length of the cells below it, where lengths
are measured in a coordinate of the line. Areas are additive in the weights; where
the weight is constant the area changes by the weight times the distance; and two
points with the same area in one coordinate have the same area in every other.
-/

namespace Book

variable {α K : Type*} [LinearOrder α] [Field K]

/-- The point of a range nearest to a point. -/
def clamp (lower upper point : α) : α := max lower (min upper point)

section Clamp

variable {lower middle upper point other : α}

/-- Below the range a point is clamped to its lower end. -/
theorem clamp_of_le (below : point ≤ lower) (ordered : lower ≤ upper) :
    clamp lower upper point = lower := by
  rw [clamp, min_eq_right (below.trans ordered), max_eq_left below]

/-- Above the range a point is clamped to its upper end. -/
theorem clamp_of_ge (above : upper ≤ point) (ordered : lower ≤ upper) :
    clamp lower upper point = upper := by
  rw [clamp, min_eq_left above, max_eq_right ordered]

theorem clamp_of_mem (above : lower ≤ point) (below : point ≤ upper) :
    clamp lower upper point = point := by
  rw [clamp, min_eq_right below, max_eq_right above]

theorem le_clamp : lower ≤ clamp lower upper point := le_max_left _ _

theorem clamp_le (ordered : lower ≤ upper) : clamp lower upper point ≤ upper :=
  max_le ordered (min_le_left _ _)

theorem clamp_mono (below : point ≤ other) : clamp lower upper point ≤ clamp lower upper other :=
  max_le_max le_rfl (min_le_min le_rfl below)

end Clamp

/-- The length of the part of a cell below a point. -/
def cell (knot : ℤ → α) (coordinate : α → K) (index : ℤ) (point : α) : K :=
  coordinate (clamp (knot index) (knot (index + 1)) point) - coordinate (knot index)

/-- The weighted length of the cells from `first` up to `last` below a point. -/
noncomputable def area (knot : ℤ → α) (coordinate : α → K) (first last : ℤ) (weight : ℤ → K)
    (point : α) : K :=
  ∑ index ∈ Finset.Ico first last, weight index * cell knot coordinate index point

variable {knot : ℤ → α} {coordinate : α → K} {first last : ℤ} {weight : ℤ → K} {point other : α}

/-- The cells of a range add up to the length of its part below a point. -/
theorem sum_cell (monotone : Monotone knot) {lower upper : ℤ} (ordered : lower ≤ upper) :
    ∑ index ∈ Finset.Ico lower upper, cell knot coordinate index point =
      coordinate (clamp (knot lower) (knot upper) point) - coordinate (knot lower) := by
  induction upper, ordered using Int.leInduction with
  | base =>
      rw [Finset.Ico_self, Finset.sum_empty]
      have same : clamp (knot lower) (knot lower) point = knot lower :=
        le_antisymm (clamp_le le_rfl) le_clamp
      rw [same, sub_self]
  | succ upper ordered ih =>
      have step : knot upper ≤ knot (upper + 1) := monotone (by omega)
      have below : knot lower ≤ knot upper := monotone ordered
      have split : Finset.Ico lower (upper + 1) = insert upper (Finset.Ico lower upper) := by
        ext index
        simp only [Finset.mem_insert, Finset.mem_Ico]
        omega
      rw [split, Finset.sum_insert (by simp only [Finset.mem_Ico]; omega), ih, cell]
      rcases le_total point (knot upper) with before | beyond
      · rw [clamp_of_le before step]
        have same : clamp (knot lower) (knot (upper + 1)) point =
            clamp (knot lower) (knot upper) point := by
          rw [clamp, clamp, min_eq_right before, min_eq_right (before.trans step)]
        rw [same]
        ring
      · rw [clamp_of_ge beyond below]
        have same : clamp (knot lower) (knot (upper + 1)) point =
            clamp (knot upper) (knot (upper + 1)) point := by
          rw [clamp, clamp, max_eq_right, max_eq_right]
          · exact le_min step beyond
          · exact le_min (below.trans step) (below.trans beyond)
        rw [same]
        ring

/-- A book of one weight on a range. -/
theorem area_range (monotone : Monotone knot) {lower upper : ℤ} (above : first ≤ lower)
    (ordered : lower ≤ upper) (below : upper ≤ last) (amount : K) :
    area knot coordinate first last (fun index => if lower ≤ index ∧ index < upper then amount
      else 0) point =
      amount * (coordinate (clamp (knot lower) (knot upper) point) - coordinate (knot lower)) := by
  have inside : Finset.Ico lower upper ⊆ Finset.Ico first last := Finset.Ico_subset_Ico above below
  rw [area, ← Finset.sum_subset inside, ← sum_cell monotone ordered, Finset.mul_sum]
  · refine Finset.sum_congr rfl fun index member => ?_
    rw [if_pos (Finset.mem_Ico.mp member)]
  · intro index _ outside
    rw [if_neg (fun both => outside (Finset.mem_Ico.mpr both)), zero_mul]

/-- Where the weight is constant the area changes by the weight times the distance. -/
theorem area_sub_of_segment (monotone : Monotone knot) {lower upper : ℤ} (above : first ≤ lower)
    (ordered : lower ≤ upper) (below : upper ≤ last) {amount : K}
    (constant : ∀ index, lower ≤ index → index < upper → weight index = amount)
    (pointAbove : knot lower ≤ point) (pointBelow : point ≤ knot upper)
    (otherAbove : knot lower ≤ other) (otherBelow : other ≤ knot upper) :
    area knot coordinate first last weight other - area knot coordinate first last weight point =
      amount * (coordinate other - coordinate point) := by
  have inside : Finset.Ico lower upper ⊆ Finset.Ico first last := Finset.Ico_subset_Ico above below
  have ordered_knots := monotone ordered
  have whole (place : α) (placeAbove : knot lower ≤ place) (placeBelow : place ≤ knot upper) :
      coordinate place - coordinate (knot lower) =
        ∑ index ∈ Finset.Ico lower upper, cell knot coordinate index place := by
    rw [sum_cell monotone ordered, clamp_of_mem placeAbove placeBelow]
  have lengths : coordinate other - coordinate point =
      ∑ index ∈ Finset.Ico lower upper,
        (cell knot coordinate index other - cell knot coordinate index point) := by
    rw [Finset.sum_sub_distrib, ← whole point pointAbove pointBelow,
      ← whole other otherAbove otherBelow]
    ring
  rw [area, area, ← Finset.sum_sub_distrib, lengths, Finset.mul_sum, ← Finset.sum_subset inside]
  · refine Finset.sum_congr rfl fun index member => ?_
    obtain ⟨after, before⟩ := Finset.mem_Ico.mp member
    rw [constant index after before]
    ring
  · intro index _ outside
    have step : knot index ≤ knot (index + 1) := monotone (by omega)
    have same : clamp (knot index) (knot (index + 1)) other =
        clamp (knot index) (knot (index + 1)) point := by
      by_cases early : index < lower
      · have next : knot (index + 1) ≤ knot lower := monotone (by omega)
        rw [clamp_of_ge (next.trans otherAbove) step, clamp_of_ge (next.trans pointAbove) step]
      · have late : knot upper ≤ knot index := monotone (by
          by_contra inside
          exact outside (Finset.mem_Ico.mpr ⟨by omega, by omega⟩))
        rw [clamp_of_le (otherBelow.trans late) step, clamp_of_le (pointBelow.trans late) step]
    rw [cell, cell, same, sub_self]

/-- Areas are additive in the weights. -/
noncomputable def areaHom (knot : ℤ → α) (coordinate : α → K) (first last : ℤ) (point : α) :
    (ℤ → K) →+ K where
  toFun weight := area knot coordinate first last weight point
  map_zero' := by simp only [area, Pi.zero_apply, zero_mul, Finset.sum_const_zero]
  map_add' one two := by
    simp only [area, Pi.add_apply, add_mul, Finset.sum_add_distrib]

@[simp] theorem areaHom_apply :
    areaHom knot coordinate first last point weight =
      area knot coordinate first last weight point := rfl

/-- Weights that agree on every cell give the same area. -/
theorem area_congr {weight' : ℤ → K}
    (agree : ∀ index, first ≤ index → index < last → weight index = weight' index) :
    area knot coordinate first last weight point =
      area knot coordinate first last weight' point := by
  refine Finset.sum_congr rfl fun index member => ?_
  obtain ⟨above, below⟩ := Finset.mem_Ico.mp member
  rw [agree index above below]

end Book
