import Mathlib.Tactic.Linarith
import Mathlib.Tactic.Ring

/-! # Long division in a base

A quotient digit is estimated by dividing the leading part of the numerator by the
leading part of the divisor. The estimate is never too small, and at most one too
large when the divisor is large compared with what its tail leaves out.
-/

namespace LongDivision

section Estimate

variable {base tail numerator divisor estimate : ℕ}

/-- The greatest estimate that the leading parts allow is not less than the digit. -/
theorem digit_le_estimate (positive : 0 < tail) (bounded : numerator < divisor * base)
    (greatest : base ≤ estimate + 1 ∨ numerator / tail < (estimate + 1) * (divisor / tail)) :
    numerator / divisor ≤ estimate := by
  rcases greatest with last | less
  · have small := Nat.div_lt_of_lt_mul bounded
    omega
  · by_contra above
    rw [not_le] at above
    have fits : (estimate + 1) * divisor ≤ numerator :=
      (Nat.mul_le_mul_right divisor above).trans (Nat.div_mul_le_self numerator divisor)
    have leading : (estimate + 1) * (divisor / tail) * tail ≤ numerator :=
      calc (estimate + 1) * (divisor / tail) * tail
          = (estimate + 1) * (divisor / tail * tail) := Nat.mul_assoc _ _ _
        _ ≤ (estimate + 1) * divisor := Nat.mul_le_mul_left _ (Nat.div_mul_le_self divisor tail)
        _ ≤ numerator := fits
    exact absurd ((Nat.le_div_iff_mul_le positive).mpr leading) (not_le.mpr less)

/-- An estimate that the leading parts allow exceeds the numerator by less than a divisor. -/
theorem estimate_mul_le (positive : 0 < tail)
    (fits : estimate * (divisor / tail) ≤ numerator / tail) (small : estimate * tail ≤ divisor) :
    estimate * divisor ≤ numerator + divisor := by
  have split : divisor ≤ divisor / tail * tail + tail := by
    have remainder := Nat.mod_lt divisor positive
    have parts := Nat.div_add_mod' divisor tail
    omega
  calc estimate * divisor
      ≤ estimate * (divisor / tail * tail + tail) := Nat.mul_le_mul_left _ split
    _ = estimate * (divisor / tail) * tail + estimate * tail := by ring
    _ ≤ numerator / tail * tail + divisor :=
        Nat.add_le_add (Nat.mul_le_mul_right tail fits) small
    _ ≤ numerator + divisor := Nat.add_le_add_right (Nat.div_mul_le_self numerator tail) divisor

/-- The digit and an estimate that is never too small agree unless the estimate is one too
large. -/
theorem estimate_eq (never : numerator / divisor ≤ estimate)
    (within : estimate * divisor ≤ numerator + divisor) (positive : 0 < divisor) :
    estimate = numerator / divisor ∨
      estimate = numerator / divisor + 1 ∧ numerator < estimate * divisor := by
  have above : estimate ≤ numerator / divisor + 1 := by
    rw [← Nat.add_div_right numerator positive]
    exact (Nat.le_div_iff_mul_le positive).mpr within
  rcases Nat.lt_or_ge (numerator / divisor) estimate with less | same
  · refine .inr ⟨by omega, ?_⟩
    rw [← Nat.div_lt_iff_lt_mul positive]
    exact less
  · exact .inl (le_antisymm same never)

end Estimate

section Words

variable {total total' start word word' borrow borrow' digit lower next : ℕ}

/-- Subtracting the product of a digit and one more word of the divisor: the word written and
the borrow passed on keep the difference. -/
theorem subtract_word_step (base place weight : ℕ)
    (exchanged : total' + word * (place * weight) = total + word' * (place * weight))
    (invariant : total + digit * lower * place = start + borrow * (place * weight))
    (step : word' + borrow + digit * next = word + borrow' * base) :
    total' + digit * (lower + weight * next) * place =
      start + borrow' * (place * weight * base) := by
  have scaled := congrArg (· * (place * weight)) step
  simp only [Nat.add_mul] at scaled
  linarith

/-- Adding one more word of the divisor: the word written and the carry passed on keep the sum. -/
theorem add_word_step (base place weight : ℕ)
    (exchanged : total' + word * (place * weight) = total + word' * (place * weight))
    (invariant : total + borrow * (place * weight) = start + lower * place)
    (step : word' + borrow' * base = word + next + borrow) :
    total' + borrow' * (place * weight * base) = start + (lower + weight * next) * place := by
  have scaled := congrArg (· * (place * weight)) step
  simp only [Nat.add_mul] at scaled
  linarith

/-- The word above the window takes up the borrow of a subtraction. -/
theorem subtract_head_step (base weight : ℕ) {product : ℕ}
    (exchanged : total' + word * weight = total + word' * weight)
    (invariant : total + product = start + borrow * weight)
    (step : word' + borrow = word + borrow' * base) :
    total' + product = start + borrow' * (weight * base) := by
  have scaled := congrArg (· * weight) step
  simp only [Nat.add_mul] at scaled
  linarith

/-- The word above the window takes up the carry of an addition. -/
theorem add_head_step (base weight : ℕ) {product : ℕ}
    (exchanged : total' + word * weight = total + word' * weight)
    (invariant : total + borrow * weight = start + product)
    (step : word' + borrow' * base = word + borrow) :
    total' + borrow' * (weight * base) = start + product := by
  have scaled := congrArg (· * weight) step
  simp only [Nat.add_mul] at scaled
  linarith

end Words

section Digit

variable {base numerator divisor position : ℕ}

/-- What a digit leaves of the numerator is less than the divisor at its position. -/
theorem rest_lt {rest : ℕ} (positive : 0 < divisor)
    (taken : rest + numerator / divisor * divisor = numerator) : rest < divisor := by
  have remainder := Nat.mod_lt numerator positive
  have parts := Nat.div_add_mod' numerator divisor
  omega

/-- A digit moves its product from the rest to the quotient. -/
theorem sum_of_recorded {total rest quotient quotient' digit : ℕ}
    (taken : rest + digit * (divisor * position) = total)
    (recorded : quotient' = quotient + digit * position) :
    rest + quotient' * divisor = total + quotient * divisor := by
  rw [← taken, recorded]
  ring

/-- The digit at a position is the quotient of the numerator without its lower part. -/
theorem digit_eq (numerator divisor position : ℕ) :
    numerator / (divisor * position) = numerator / position / divisor := by
  rw [Nat.div_div_eq_div_mul, Nat.mul_comm]

/-- A digit whose product can be subtracted, and that is not too small, is the digit. -/
theorem digit_of_subtracted {estimate rest : ℕ} (positive : 0 < divisor)
    (never : numerator / divisor ≤ estimate) (subtracted : rest + estimate * divisor = numerator) :
    estimate = numerator / divisor :=
  le_antisymm ((Nat.le_div_iff_mul_le positive).mpr (by omega)) never

/-- Adding the divisor back after a subtraction that wrapped leaves the rest of the digit. -/
theorem rest_of_added_back {modulus wrapped rest carry : ℕ} (positive : 0 < divisor)
    (small : divisor ≤ modulus)
    (subtracted : wrapped + (numerator / divisor + 1) * divisor = numerator + modulus)
    (added : rest + carry * modulus = wrapped + divisor) (bounded : rest < modulus) :
    rest + numerator / divisor * divisor = numerator := by
  have remainder := Nat.mod_lt numerator positive
  have parts := Nat.div_add_mod' numerator divisor
  rw [Nat.add_mul, Nat.one_mul] at subtracted
  have carried : carry = 1 := by
    rcases Nat.lt_or_ge carry 1 with none | some
    · have zero : carry = 0 := by omega
      rw [zero, Nat.zero_mul] at added
      omega
    · by_contra more
      have twice := Nat.mul_le_mul_right modulus (show 2 ≤ carry by omega)
      omega
  rw [carried, Nat.one_mul] at added
  omega

end Digit

end LongDivision
