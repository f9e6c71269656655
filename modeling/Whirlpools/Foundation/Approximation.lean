import Mathlib.Analysis.SpecialFunctions.Log.Basic
import Mathlib.Tactic.Linarith

/-! # Values known by their logarithm

Fixed-point products and squares are truncated at every step. `LogNear` states
how far the logarithm of a computed value is from the exponent it stands for;
products add the errors and truncations add a little more.
-/

namespace Approximation

/-- A positive value whose logarithm is within an error of an exponent. -/
structure LogNear (value exponent error : ℝ) : Prop where
  pos : 0 < value
  near : |Real.log value - exponent| ≤ error

namespace LogNear

variable {value other exponent exponent' error error' : ℝ}

/-- An approximated logarithm is a bound from below. -/
theorem le_log (near : LogNear value exponent error) : exponent - error ≤ Real.log value := by
  linarith [(abs_le.mp near.near).1]

theorem log_le (near : LogNear value exponent error) : Real.log value ≤ exponent + error := by
  linarith [(abs_le.mp near.near).2]

/-- An approximation holds with any larger error. -/
theorem mono (near : LogNear value exponent error) (larger : error ≤ error') :
    LogNear value exponent error' := ⟨near.pos, near.near.trans larger⟩

theorem mul (first : LogNear value exponent error) (second : LogNear other exponent' error') :
    LogNear (value * other) (exponent + exponent') (error + error') := by
  refine ⟨mul_pos first.pos second.pos, ?_⟩
  rw [Real.log_mul first.pos.ne' second.pos.ne', add_sub_add_comm]
  exact (abs_add_le _ _).trans (add_le_add first.near second.near)

/-- A small relative change. -/
theorem of_ratio (near : LogNear value exponent error) (positive : 0 < other)
    (bounds : |Real.log other - Real.log value| ≤ error') :
    LogNear other exponent (error + error') := by
  refine ⟨positive, ?_⟩
  have split : Real.log other - exponent =
      (Real.log other - Real.log value) + (Real.log value - exponent) := by ring
  rw [split, add_comm error]
  exact (abs_add_le _ _).trans (add_le_add bounds near.near)

/-- Truncation of a value above a bound. -/
theorem truncate (bound : ℝ) {scale : ℝ} (near : LogNear (value / scale) exponent error)
    (scaled : 0 < scale) (grounded : 0 < bound) (above : bound ≤ other) (below : other ≤ value)
    (close : value < other + 1) : LogNear (other / scale) exponent (error + 1 / bound) := by
  have otherPos : 0 < other := grounded.trans_le above
  have valuePos : 0 < value := otherPos.trans_le below
  refine near.of_ratio (div_pos otherPos scaled) ?_
  rw [Real.log_div otherPos.ne' scaled.ne', Real.log_div valuePos.ne' scaled.ne',
    sub_sub_sub_cancel_right, abs_sub_comm, ← Real.log_div valuePos.ne' otherPos.ne']
  have nonneg : 0 ≤ Real.log (value / other) :=
    Real.log_nonneg ((one_le_div otherPos).mpr below)
  rw [abs_of_nonneg nonneg]
  calc Real.log (value / other)
      ≤ value / other - 1 := Real.log_le_sub_one_of_pos (div_pos valuePos otherPos)
    _ ≤ 1 / other := by
        rw [div_sub_one otherPos.ne', div_le_div_iff_of_pos_right otherPos]
        linarith
    _ ≤ 1 / bound := one_div_le_one_div_of_le grounded above

/-- Values with separated exponents are ordered. -/
theorem lt (first : LogNear value exponent error) (second : LogNear other exponent' error')
    (separated : exponent + error < exponent' - error') : value < other := by
  rw [← Real.log_lt_log_iff first.pos second.pos]
  linarith [first.log_le, second.le_log]

/-- A value with a bounded exponent is bounded below. -/
theorem exp_le (bound : ℝ) (near : LogNear value exponent error)
    (above : bound ≤ exponent - error) : Real.exp bound ≤ value := by
  rw [← Real.exp_log near.pos]
  exact Real.exp_le_exp.mpr (above.trans near.le_log)

end LogNear

/-- Two values whose quotient is within a half of one have close logarithms. -/
theorem abs_log_sub_le (bound : ℝ) {value other : ℝ} (positive : 0 < value) (otherPos : 0 < other)
    (small : bound ≤ 1 / 2) (lower : (1 - bound) * value ≤ other)
    (upper : other ≤ (1 + bound) * value) :
    |Real.log other - Real.log value| ≤ 2 * bound := by
  have nonneg : 0 ≤ bound := by
    by_contra negative
    nlinarith
  rw [← Real.log_div otherPos.ne' positive.ne', abs_le]
  have ratioLower : 1 - bound ≤ other / value := (le_div_iff₀ positive).mpr lower
  have ratioUpper : other / value ≤ 1 + bound := (div_le_iff₀ positive).mpr upper
  have ratioPos : 0 < other / value := div_pos otherPos positive
  constructor
  · have inverse : (other / value)⁻¹ ≤ 1 + 2 * bound := by
      rw [inv_le_comm₀ ratioPos (by linarith)]
      refine le_trans ?_ ratioLower
      rw [inv_le_iff_one_le_mul₀ (by linarith)]
      nlinarith
    linarith [Real.one_sub_inv_le_log_of_pos ratioPos]
  · linarith [Real.log_le_sub_one_of_pos ratioPos]

end Approximation
