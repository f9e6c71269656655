import Mathlib.Algebra.Order.Floor.Div
import Mathlib.Order.GaloisConnection.Defs

/-! # Amounts at a fixed proportion

What is bought at a fixed price is paid for with the price rounded up, and a payment buys the
amount it pays for, rounded down. The two roundings are adjoint: a payment covers an amount exactly
when it buys as much.
-/

/-- A fraction, the price of one unit. -/
structure Proportion where
  numerator : ℕ
  denominator : ℕ
  denominator_pos : 0 < denominator

namespace Proportion

/-- The price zero. -/
def free : Proportion := ⟨0, 1, Nat.one_pos⟩

variable (price : Proportion)

/-- The cost of an amount, rounded up. -/
def cost (amount : ℕ) : ℕ := (amount * price.numerator) ⌈/⌉ price.denominator

/-- The amount a payment buys, rounded down. Nothing is bought at the price zero. -/
def bought (payment : ℕ) : ℕ := payment * price.denominator / price.numerator

/-- A payment covers the cost of an amount exactly when it buys as much. -/
theorem cost_adjoint (positive : 0 < price.numerator) :
    GaloisConnection price.cost price.bought := by
  intro amount payment
  rw [cost, bought, ceilDiv_le_iff_le_mul price.denominator_pos,
    Nat.le_div_iff_mul_le positive, Nat.mul_comm price.denominator]

theorem bought_zero : price.bought 0 = 0 := by
  rw [bought, Nat.zero_mul, Nat.zero_div]

theorem cost_of_free (zero : price.numerator = 0) (amount : ℕ) : price.cost amount = 0 := by
  rw [cost, zero, Nat.mul_zero, zero_ceilDiv]

/-- At no price nothing is bought, since it would be without end. -/
theorem bought_of_free (zero : price.numerator = 0) (payment : ℕ) : price.bought payment = 0 := by
  rw [bought, zero, Nat.div_zero]

end Proportion
