import Mathlib.Algebra.Order.Ring.Int
import Mathlib.Tactic.Linarith
import Mathlib.Tactic.Positivity
import Mathlib.Tactic.Ring

/-! # Two's complement on integers of any size

A signed integer is written as a nonnegative one whose bits, to a width, are those of its two's
complement. The width bounds what is written, not the integers themselves: bits above it are kept
where nothing is inverted. Within the range of the width, a shift that passes through the two's
complement is the shift of the signed integer.
-/

namespace TwosComplement

/-- The complement of the lower bits of a nonnegative integer. -/
def notn (n : ℤ) (width : ℕ) : ℤ := 2 ^ width - 1 - n % 2 ^ width

/-- The two's complement of a signed integer. -/
def toTwos (n : ℤ) (width : ℕ) : ℤ := if n < 0 then notn |n| width + 1 else n

/-- The signed integer of a two's complement, by the top bit of the width. -/
def fromTwos (n : ℤ) (width : ℕ) : ℤ :=
  if n / 2 ^ (width - 1) % 2 = 1 then -(notn n width + 1) else n

variable {n value : ℤ} {shiftBy width : ℕ}

theorem two_pow_eq (wide : 0 < width) : (2 : ℤ) ^ width = 2 ^ (width - 1) * 2 := by
  rw [← pow_succ, Nat.sub_add_cancel wide]

/-- A number that is not negative is its own two's complement. -/
theorem toTwos_of_nonneg (nonneg : 0 ≤ n) : toTwos n width = n := if_neg (not_lt.mpr nonneg)

/-- A negative number is stored as its complement. -/
theorem toTwos_of_neg (negative : n < 0) (least : -2 ^ width < n) :
    toTwos n width = 2 ^ width + n := by
  have residue : -n % 2 ^ width = -n := Int.emod_eq_of_lt (by omega) (by linarith)
  rw [toTwos, if_pos negative, notn, abs_of_neg negative, residue]
  ring

/-- A signed integer within the width is read back from any number with its lower bits when it is
negative, and otherwise from itself. -/
theorem fromTwos_eq (wide : 0 < width) (least : -2 ^ (width - 1) ≤ value)
    (greatest : value < 2 ^ (width - 1)) (same : n % 2 ^ width = value % 2 ^ width)
    (exact : 0 ≤ value → n = value) : fromTwos n width = value := by
  have double := two_pow_eq wide
  have halfPos : (0 : ℤ) < 2 ^ (width - 1) := by positivity
  unfold fromTwos notn
  rcases le_or_gt 0 value with nonneg | negative
  · rw [exact nonneg, Int.ediv_eq_zero_of_lt nonneg greatest, if_neg (by decide)]
  · have residue : n % 2 ^ width = value + 2 ^ width := by
      rw [same, ← Int.add_emod_right, Int.emod_eq_of_lt (by linarith) (by linarith)]
    have split := Int.emod_add_mul_ediv n (2 ^ width)
    rw [residue] at split
    generalize n / 2 ^ width = high at split
    have top : n / 2 ^ (width - 1) = 1 + 2 * high := by
      refine ((Int.ediv_emod_unique halfPos (r := value + 2 ^ (width - 1))).mpr
        ⟨?_, by linarith, by linarith⟩).1
      rw [← split, double]
      ring
    rw [top, if_pos (by omega), residue]
    ring

/-- A left shift through the two's complement that does not overflow. -/
theorem fromTwos_shiftLeft (wide : 0 < width) (least : -2 ^ (width - 1) ≤ n * 2 ^ shiftBy)
    (greatest : n * 2 ^ shiftBy < 2 ^ (width - 1)) :
    fromTwos (toTwos n width * 2 ^ shiftBy % 2 ^ (width + 1)) width = n * 2 ^ shiftBy := by
  have double := two_pow_eq wide
  have halfPos : (0 : ℤ) < 2 ^ (width - 1) := by positivity
  have shiftPos : (0 : ℤ) < 2 ^ shiftBy := by positivity
  refine fromTwos_eq wide least greatest ?_ ?_
  · rw [Int.emod_emod_of_dvd _ (pow_dvd_pow 2 (Nat.le_succ width))]
    rcases le_or_gt 0 n with nonneg | negative
    · rw [toTwos_of_nonneg nonneg]
    · rw [toTwos_of_neg negative (by nlinarith), add_mul, Int.mul_add_emod_self_left]
  · intro nonneg
    have positive : 0 ≤ n := nonneg_of_mul_nonneg_left nonneg shiftPos
    rw [toTwos_of_nonneg positive, Int.emod_eq_of_lt nonneg (by rw [pow_succ]; linarith)]

/-- A right shift through the two's complement rounds down. -/
theorem fromTwos_shiftRight (narrower : shiftBy < width) (least : -2 ^ (width - 1) ≤ n)
    (greatest : n < 2 ^ (width - 1)) :
    fromTwos (toTwos n width / 2 ^ shiftBy % 2 ^ (width - shiftBy + 1)) (width - shiftBy) =
      n / 2 ^ shiftBy := by
  have shiftPos : (0 : ℤ) < 2 ^ shiftBy := by positivity
  have split : (2 : ℤ) ^ width = 2 ^ (width - shiftBy) * 2 ^ shiftBy := by
    rw [← pow_add, Nat.sub_add_cancel narrower.le]
  have half : (2 : ℤ) ^ (width - 1) = 2 ^ (width - shiftBy - 1) * 2 ^ shiftBy := by
    rw [← pow_add]
    congr 1
    omega
  have double := two_pow_eq (Nat.sub_pos_of_lt narrower)
  have halfPos : (0 : ℤ) < 2 ^ (width - shiftBy - 1) := by positivity
  rw [half] at least greatest
  have lower : -2 ^ (width - shiftBy - 1) ≤ n / 2 ^ shiftBy := by
    rw [Int.le_ediv_iff_mul_le shiftPos]
    linarith
  have upper : n / 2 ^ shiftBy < 2 ^ (width - shiftBy - 1) :=
    Int.ediv_lt_of_lt_mul shiftPos greatest
  refine fromTwos_eq (Nat.sub_pos_of_lt narrower) lower upper ?_ ?_
  · rw [Int.emod_emod_of_dvd _ (pow_dvd_pow 2 (Nat.le_succ _))]
    rcases le_or_gt 0 n with nonneg | negative
    · rw [toTwos_of_nonneg nonneg]
    · rw [toTwos_of_neg negative (by nlinarith), split, Int.add_comm,
        Int.add_mul_ediv_right _ _ shiftPos.ne', Int.add_emod_right]
  · intro nonneg
    have positive : 0 ≤ n := by
      by_contra negative
      exact absurd nonneg (not_le.mpr (Int.ediv_neg_of_neg_of_pos (not_le.mp negative) shiftPos))
    rw [toTwos_of_nonneg positive, Int.emod_eq_of_lt nonneg (by rw [pow_succ]; linarith)]

end TwosComplement
