import Mathlib.Algebra.Order.Floor.Semifield
import Mathlib.Algebra.Order.Archimedean.Basic
import Mathlib.Tactic.FieldSimp
import Mathlib.Tactic.Linarith
import Mathlib.Tactic.Positivity

/-! # Directed rounding to natural numbers

`roundTo up x` is the ceiling of `x` when rounding up and its floor otherwise. A
quotient computed as floor division, with one added for a nonzero remainder when
rounding up, is the rounded quotient of the field.
-/

namespace Rounding

variable {K : Type*} [Field K] [LinearOrder K] [IsStrictOrderedRing K] [FloorSemiring K]

/-- Round up to the ceiling or down to the floor. -/
def roundTo (up : Bool) (value : K) : ℕ := if up then ⌈value⌉₊ else ⌊value⌋₊

omit [IsStrictOrderedRing K] in
@[simp] theorem roundTo_true (value : K) : roundTo true value = ⌈value⌉₊ := rfl

omit [IsStrictOrderedRing K] in
@[simp] theorem roundTo_false (value : K) : roundTo false value = ⌊value⌋₊ := rfl

@[simp] theorem roundTo_natCast (up : Bool) (value : ℕ) : roundTo up (value : K) = value := by
  cases up with
  | false => exact Nat.floor_natCast value
  | true => exact Nat.ceil_natCast value

@[simp] theorem roundTo_zero (up : Bool) : roundTo up (0 : K) = 0 := by
  simpa only [Nat.cast_zero] using roundTo_natCast (K := K) up 0

theorem roundTo_mono (up : Bool) {first second : K} (below : first ≤ second) :
    roundTo up first ≤ roundTo up second := by
  cases up with
  | false => exact Nat.floor_mono below
  | true => exact Nat.ceil_mono below

/-- A value below a bound on both sides rounds to at most the bound. -/
theorem roundTo_le_of_le (up : Bool) {value : K} {bound : ℕ} (below : value ≤ bound) :
    roundTo up value ≤ bound := by
  have rounded := roundTo_mono up below
  rwa [roundTo_natCast] at rounded

/-- Floor division with the remainder rounded up is the ceiling of the quotient. -/
theorem div_round_eq (up : Bool) {numerator denominator : ℕ} (positive : 0 < denominator) :
    (if up = true ∧ numerator % denominator > 0 then numerator / denominator + 1
      else numerator / denominator) = roundTo up ((numerator : K) / denominator) := by
  have divisor : (0 : K) < denominator := Nat.cast_pos.mpr positive
  have division := Nat.div_add_mod numerator denominator
  cases up with
  | false =>
      simp only [Bool.false_eq_true, false_and, ↓reduceIte, roundTo_false]
      exact (Nat.floor_div_eq_div numerator denominator).symm
  | true =>
      simp only [true_and, roundTo_true]
      by_cases remainder : numerator % denominator > 0
      · rw [if_pos remainder]
        apply le_antisymm
        · apply Nat.succ_le_of_lt
          rw [Nat.lt_ceil, lt_div_iff₀ divisor]
          have strict : numerator / denominator * denominator < numerator := by
            rw [Nat.mul_comm]
            omega
          exact_mod_cast strict
        · rw [Nat.ceil_le, div_le_iff₀ divisor]
          have above : numerator ≤ (numerator / denominator + 1) * denominator := by
            have small := Nat.mod_lt numerator positive
            rw [Nat.add_mul, Nat.one_mul, Nat.mul_comm]
            omega
          exact_mod_cast above
      · rw [if_neg remainder]
        have exact : numerator = numerator / denominator * denominator := by
          rw [Nat.mul_comm]
          omega
        have quotient : (numerator : K) / denominator = ((numerator / denominator : ℕ) : K) := by
          rw [div_eq_iff divisor.ne']
          exact_mod_cast exact
        rw [quotient, Nat.ceil_natCast]

end Rounding
