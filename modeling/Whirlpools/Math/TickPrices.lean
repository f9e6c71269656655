import Mathlib.Analysis.Complex.ExponentialBounds
import Mathlib.Analysis.SpecialFunctions.Log.Deriv
import Mathlib.Algebra.Order.Floor.Semifield
import Mathlib.Data.Nat.Bitwise
import Mathlib.Tactic.NormNum
import Whirlpools.Foundation.Approximation
import Whirlpools.Math.TickMath

/-! # The prices of ticks are the powers of the square root of 1.0001

Each precomputed factor is the square of the one before, up to its last digits, so
its logarithm is a power of two times that of the base. The price of a tick is a
product of such factors: its logarithm is the tick times the logarithm of the
base, up to an error far below the distance of neighbouring ticks.
-/

namespace Whirlpools

open Approximation

/-- The logarithm of the ratio of neighbouring prices, the square root of 1.0001. -/
noncomputable def logBase : ℝ := Real.log 1.0001 / 2

/-- Bounds on the logarithm of the price ratio of one tick, to the precision that the tables
need. -/
theorem logBase_bounds : 0.0000499975001 < logBase ∧ logBase < 0.0000499975002 := by
  have series := Real.abs_log_sub_add_sum_range_le (x := -0.0001) (by norm_num) 3
  norm_num [Finset.sum_range_succ] at series
  rw [abs_le] at series
  unfold logBase
  constructor <;> norm_num <;> linarith [series.1, series.2]

/-- Whether each factor of a list is the square of the one before, starting from
`last`, up to a relative error that may triple with every bit. -/
def squaresChain (one : ℕ) : ℕ → ℕ → List ℕ → Bool
  | _, _, [] => true
  | bit, last, factor :: factors =>
      (last * last * (2 ^ 61 - 3 ^ bit) ≤ factor * one * 2 ^ 61 ∧
        factor * one * 2 ^ 61 ≤ last * last * (2 ^ 61 + 3 ^ bit)) ∧
      squaresChain one (bit + 1) factor factors

/-- The ratios for positive ticks square to one another up to rounding. -/
theorem squaresChain_positive :
    squaresChain (2 ^ 96) 0 79232123823359799118286999567 positiveTickRatios = true := by decide

/-- The ratios for negative ticks square to one another up to rounding. -/
theorem squaresChain_negative :
    squaresChain (2 ^ 64) 0 18445821805675392311 negativeTickRatios = true := by decide

section Factors

variable {one : ℕ} {exponent exponent' error error' : ℝ}

/-- The error bound of the products stays small over all bits of a tick. -/
private theorem three_pow_le {bit : ℕ} (small : bit ≤ 18) : (3 : ℝ) ^ bit ≤ 2 ^ 30 :=
  (pow_le_pow_right₀ (by norm_num) small).trans (by norm_num)

/-- The next factor of a chain stands for twice the exponent. -/
private theorem factor_near {last factor bit : ℕ} (scaled : 0 < one) (small : bit ≤ 18)
    (near : LogNear ((last : ℝ) / one) exponent error)
    (lower : last * last * (2 ^ 61 - 3 ^ bit) ≤ factor * one * 2 ^ 61)
    (upper : factor * one * 2 ^ 61 ≤ last * last * (2 ^ 61 + 3 ^ bit)) :
    LogNear ((factor : ℝ) / one) (exponent + exponent) (error + error + 3 ^ bit / 2 ^ 60) := by
  have scale : (0 : ℝ) < one := Nat.cast_pos.mpr scaled
  have bounded := three_pow_le small
  have boundedNat : 3 ^ bit ≤ 2 ^ 61 := by
    have : 3 ^ bit ≤ 3 ^ 18 := Nat.pow_le_pow_right (by omega) small
    exact this.trans (by norm_num)
  have square := near.mul near
  have lastPos : (0 : ℝ) < last := by
    have := mul_pos near.pos scale
    rwa [div_mul_cancel₀ _ scale.ne'] at this
  have square_eq : (last : ℝ) / one * (last / one) = last * last / one / one := by
    field_simp
  have lowerReal : (last : ℝ) * last * (2 ^ 61 - 3 ^ bit) ≤ factor * one * 2 ^ 61 := by
    have cast := (Nat.cast_le (α := ℝ)).mpr lower
    rw [Nat.cast_mul, Nat.cast_sub boundedNat] at cast
    norm_num at cast ⊢
    exact cast
  have upperReal : (factor : ℝ) * one * 2 ^ 61 ≤ last * last * (2 ^ 61 + 3 ^ bit) := by
    exact_mod_cast upper
  have factorPos : (0 : ℝ) < factor := by
    have room : (0 : ℝ) < 2 ^ 61 - 3 ^ bit := by
      have : (2 : ℝ) ^ 30 < 2 ^ 61 := by norm_num
      linarith
    have product : (0 : ℝ) < factor * one * 2 ^ 61 :=
      lt_of_lt_of_le (mul_pos (mul_pos lastPos lastPos) room) lowerReal
    by_contra none
    nlinarith [mul_pos scale (show (0 : ℝ) < 2 ^ 61 by norm_num)]
  have bounds := abs_log_sub_le (3 ^ bit / 2 ^ 61) square.pos (div_pos factorPos scale)
    (by rw [div_le_div_iff₀ (by norm_num) (by norm_num)]; norm_num at bounded ⊢; linarith)
    (by rw [square_eq, ← mul_div_assoc, div_le_div_iff_of_pos_right scale, ← mul_div_assoc,
          div_le_iff₀ scale]
        linarith)
    (by rw [square_eq, ← mul_div_assoc, div_le_div_iff_of_pos_right scale, ← mul_div_assoc,
          le_div_iff₀ scale]
        linarith)
  refine (square.of_ratio (div_pos factorPos scale) bounds).mono (le_of_eq ?_)
  ring

/-- One truncated product of a ratio and a factor. -/
private theorem product_near {ratio factor : ℕ} (scaled : 2 ^ 64 ≤ one)
    (first : LogNear ((ratio : ℝ) / one) exponent error)
    (second : LogNear ((factor : ℝ) / one) exponent' error')
    (above : -22.2 ≤ exponent + exponent') (small : error + error' ≤ 0.1) :
    LogNear (((ratio * factor / one : ℕ) : ℝ) / one) (exponent + exponent')
      (error + error' + 1 / 2 ^ 30) := by
  have scale : (2 : ℝ) ^ 64 ≤ one := by exact_mod_cast scaled
  have positive : (0 : ℝ) < one := lt_of_lt_of_le (by norm_num) scale
  have product := first.mul second
  have product_eq : (ratio : ℝ) / one * (factor / one) = ((ratio : ℝ) * factor / one) / one := by
    field_simp
  have grounded := product.exp_le (-22.5) (by linarith)
  have expLower : (2 : ℝ) ^ (-33 : ℤ) ≤ Real.exp (-22.5) := by
    rw [← Real.log_le_iff_le_exp (by positivity), Real.log_zpow]
    have := Real.log_two_gt_d9
    push_cast
    linarith
  have large : (2 : ℝ) ^ 31 ≤ (ratio : ℝ) * factor / one := by
    rw [product_eq, le_div_iff₀ positive] at grounded
    calc (2 : ℝ) ^ 31 = 2 ^ (-33 : ℤ) * 2 ^ 64 := by norm_num
      _ ≤ Real.exp (-22.5) * one := mul_le_mul expLower scale (by norm_num) (Real.exp_pos _).le
      _ ≤ _ := grounded
  have floor_eq : ((ratio * factor / one : ℕ) : ℝ) = ⌊(ratio : ℝ) * factor / one⌋₊ := by
    rw [← Nat.cast_mul, Nat.floor_div_eq_div]
  rw [product_eq] at product
  rw [floor_eq]
  refine product.truncate _ positive (by norm_num) ?_ (Nat.floor_le (by positivity))
    (Nat.lt_floor_add_one _)
  have close := Nat.lt_floor_add_one ((ratio : ℝ) * factor / one)
  have room : (2 : ℝ) ^ 30 ≤ 2 ^ 31 - 1 := by norm_num
  linarith

end Factors

/-- The exponent of the bits of a tick read so far. -/
private theorem exponent_bound {sign : ℝ} (signed : sign = 1 ∨ sign = -1) {tick bits : ℕ}
    (small : tick ≤ 443637) :
    -22.2 ≤ sign * ((tick % 2 ^ bits : ℕ) : ℝ) * logBase := by
  have base := logBase_bounds
  have below : ((tick % 2 ^ bits : ℕ) : ℝ) ≤ 443637 := by
    exact_mod_cast (Nat.mod_le _ _).trans small
  have nonneg : (0 : ℝ) ≤ ((tick % 2 ^ bits : ℕ) : ℝ) := Nat.cast_nonneg _
  have product : ((tick % 2 ^ bits : ℕ) : ℝ) * logBase ≤ 443637 * 0.00005 :=
    mul_le_mul below (by linarith [base.2]) (by linarith [base.1]) (by norm_num)
  have productNonneg : 0 ≤ ((tick % 2 ^ bits : ℕ) : ℝ) * logBase :=
    mul_nonneg nonneg (by linarith [base.1])
  rw [mul_assoc]
  rcases signed with rfl | rfl <;> norm_num at product ⊢ <;> linarith

/-- The logarithm of a product of factors is that of the base times the bits read. -/
private theorem mulTickRatios_near {one : ℕ} {sign : ℝ} (scaled : 2 ^ 64 ≤ one)
    (signed : sign = 1 ∨ sign = -1) {tick : ℕ} (small : tick ≤ 443637) {factors : List ℕ}
    {bit last ratio : ℕ} (chain : squaresChain one bit last factors = true)
    (length : bit + factors.length ≤ 18)
    (lastNear : LogNear ((last : ℝ) / one) (sign * 2 ^ bit * logBase) (3 ^ bit / 2 ^ 60))
    (ratioNear : LogNear ((ratio : ℝ) / one) (sign * ((tick % 2 ^ (bit + 1) : ℕ) : ℝ) * logBase)
      (3 ^ (bit + 1) / 2 ^ 60 + bit / 2 ^ 30)) :
    LogNear (((mulTickRatios (fun n0 n1 => n0 * n1 / one) factors (bit + 1) tick ratio : ℕ) : ℝ) /
        one) (sign * ((tick % 2 ^ (bit + factors.length + 1) : ℕ) : ℝ) * logBase)
      (3 ^ (bit + factors.length + 1) / 2 ^ 60 + (bit + factors.length : ℕ) / 2 ^ 30) := by
  induction factors generalizing bit last ratio with
  | nil => simpa only [mulTickRatios, List.length_nil, add_zero] using ratioNear
  | cons factor factors ih =>
      simp only [squaresChain, Bool.decide_and, Bool.and_eq_true, decide_eq_true_eq] at chain
      obtain ⟨⟨lower, upper⟩, chain⟩ := chain
      simp only [List.length_cons] at length
      have bitSmall : bit + 1 ≤ 18 := by omega
      have factorNear : LogNear ((factor : ℝ) / one) (sign * 2 ^ (bit + 1) * logBase)
          (3 ^ (bit + 1) / 2 ^ 60) := by
        have next := factor_near (lt_of_lt_of_le (by norm_num) scaled) (by omega) lastNear lower
          upper
        have exponent_eq : sign * 2 ^ bit * logBase + sign * 2 ^ bit * logBase =
            sign * 2 ^ (bit + 1) * logBase := by ring
        have error_eq : (3 : ℝ) ^ bit / 2 ^ 60 + 3 ^ bit / 2 ^ 60 + 3 ^ bit / 2 ^ 60 =
            3 ^ (bit + 1) / 2 ^ 60 := by ring
        rwa [exponent_eq, error_eq] at next
      have power : (3 : ℝ) ^ (bit + 1) / 2 ^ 60 ≤ 1 / 2 ^ 30 := by
        rw [div_le_div_iff₀ (by norm_num) (by norm_num)]
        have bounded := three_pow_le bitSmall
        norm_num at bounded ⊢
        linarith
      have bits : (bit : ℝ) / 2 ^ 30 ≤ 18 / 2 ^ 30 := by
        rw [div_le_div_iff_of_pos_right (by norm_num)]
        exact_mod_cast (by omega : bit ≤ 18)
      have nextNear : LogNear (((if tick.testBit (bit + 1) then ratio * factor / one else ratio :
          ℕ) : ℝ) / one) (sign * ((tick % 2 ^ (bit + 1 + 1) : ℕ) : ℝ) * logBase)
          (3 ^ (bit + 1 + 1) / 2 ^ 60 + (bit + 1 : ℕ) / 2 ^ 30) := by
        have remainder := Nat.mod_pow_succ (x := tick) (b := 2) (k := bit + 1)
        rw [← Nat.toNat_testBit] at remainder
        have errors : (3 : ℝ) ^ (bit + 1) / 2 ^ 60 + bit / 2 ^ 30 + 3 ^ (bit + 1) / 2 ^ 60 +
            1 / 2 ^ 30 ≤ 3 ^ (bit + 1 + 1) / 2 ^ 60 + (bit + 1 : ℕ) / 2 ^ 30 := by
          have nonneg : (0 : ℝ) ≤ 3 ^ (bit + 1) / 2 ^ 60 := by positivity
          push_cast
          rw [pow_succ (3 : ℝ) (bit + 1), mul_div_right_comm, add_div]
          linarith
        cases set : tick.testBit (bit + 1) with
        | false =>
            rw [set, Bool.toNat_false, mul_zero, add_zero] at remainder
            rw [remainder, if_neg Bool.false_ne_true]
            refine ratioNear.mono (le_trans ?_ errors)
            have : (0 : ℝ) ≤ 3 ^ (bit + 1) / 2 ^ 60 + 1 / 2 ^ 30 := by positivity
            linarith
        | true =>
            rw [set, Bool.toNat_true, mul_one] at remainder
            have exponent_eq : sign * ((tick % 2 ^ (bit + 1) : ℕ) : ℝ) * logBase +
                sign * 2 ^ (bit + 1) * logBase =
                sign * ((tick % 2 ^ (bit + 1 + 1) : ℕ) : ℝ) * logBase := by
              rw [remainder]
              push_cast
              ring
            rw [if_pos rfl, ← exponent_eq]
            refine (product_near scaled ratioNear factorNear ?_ ?_).mono ?_
            · rw [exponent_eq]
              exact exponent_bound signed small
            · norm_num at power bits ⊢
              linarith
            · linarith
      have rest := ih chain (by omega) factorNear nextNear
      simp only [mulTickRatios, List.length_cons]
      rwa [show bit + 1 + factors.length = bit + (factors.length + 1) by omega] at rest

/-- The first factor is the base. -/
private theorem first_near (numerator denominator : ℕ) {one first : ℕ} {sign : ℝ} (scaled : 0 < one)
    (base : Real.log ((numerator : ℝ) / denominator) = 2 * (sign * logBase))
    (nonzero : 0 < numerator ∧ 0 < denominator ∧ 0 < first)
    (lower : numerator * one * one * (2 ^ 61 - 1) ≤ first * first * denominator * 2 ^ 61)
    (upper : first * first * denominator * 2 ^ 61 ≤ numerator * one * one * (2 ^ 61 + 1)) :
    LogNear ((first : ℝ) / one) (sign * 2 ^ 0 * logBase) (3 ^ 0 / 2 ^ 60) := by
  have scale : (0 : ℝ) < one := Nat.cast_pos.mpr scaled
  have firstPos : (0 : ℝ) < first := Nat.cast_pos.mpr nonzero.2.2
  have denominatorPos : (0 : ℝ) < denominator := Nat.cast_pos.mpr nonzero.2.1
  have ratioPos : (0 : ℝ) < numerator / denominator :=
    div_pos (Nat.cast_pos.mpr nonzero.1) denominatorPos
  have squarePos : (0 : ℝ) < first / one * (first / one) :=
    mul_pos (div_pos firstPos scale) (div_pos firstPos scale)
  have lowerReal : (numerator : ℝ) * one * one * (2 ^ 61 - 1) ≤
      first * first * denominator * 2 ^ 61 := by
    have cast := (Nat.cast_le (α := ℝ)).mpr lower
    push_cast at cast
    norm_num at cast ⊢
    exact cast
  have upperReal : (first : ℝ) * first * denominator * 2 ^ 61 ≤
      numerator * one * one * (2 ^ 61 + 1) := by
    exact_mod_cast upper
  have bounds := abs_log_sub_le (1 / 2 ^ 61) ratioPos squarePos (by norm_num)
    (by rw [div_mul_div_comm, ← mul_div_assoc, div_le_div_iff₀ denominatorPos (mul_pos scale scale)]
        linarith)
    (by rw [div_mul_div_comm, ← mul_div_assoc, div_le_div_iff₀ (mul_pos scale scale) denominatorPos]
        linarith)
  rw [Real.log_mul (div_pos firstPos scale).ne' (div_pos firstPos scale).ne', base, abs_le]
    at bounds
  refine ⟨div_pos firstPos scale, ?_⟩
  rw [abs_le]
  constructor <;> norm_num at bounds ⊢ <;> linarith [bounds.1, bounds.2]

/-- The ratio the products start from stands for the lowest bit. -/
private theorem start_near {one first tick : ℕ} {sign : ℝ} (scaled : 0 < one)
    (near : LogNear ((first : ℝ) / one) (sign * 2 ^ 0 * logBase) (3 ^ 0 / 2 ^ 60)) :
    LogNear (((if tick.testBit 0 then first else one : ℕ) : ℝ) / one)
      (sign * ((tick % 2 ^ (0 + 1) : ℕ) : ℝ) * logBase)
      (3 ^ (0 + 1) / 2 ^ 60 + (0 : ℕ) / 2 ^ 30) := by
  have scale : (0 : ℝ) < one := Nat.cast_pos.mpr scaled
  have bit := Nat.toNat_testBit tick 0
  rw [pow_zero, Nat.div_one] at bit
  rw [zero_add, pow_one, ← bit]
  cases tick.testBit 0 with
  | true =>
      simpa only [↓reduceIte, Bool.toNat_true, Nat.cast_one, pow_zero] using
        near.mono (show _ ≤ (3 ^ (0 + 1) / 2 ^ 60 + (0 : ℕ) / 2 ^ 30 : ℝ) by norm_num)
  | false =>
      simp only [Bool.false_eq_true, ↓reduceIte, Bool.toNat_false, Nat.cast_zero, mul_zero,
        zero_mul]
      refine ⟨by positivity, ?_⟩
      rw [div_self scale.ne', Real.log_one, sub_zero, abs_zero]
      positivity

/-- The price of a positive tick is near the power that it stands for. -/
private theorem getSqrtPricePositiveTick_near (tick : ℕ) (small : tick ≤ 443637) :
    LogNear ((getSqrtPricePositiveTick tick : ℝ) / 2 ^ 64) (tick * logBase) (2 / 10 ^ 8) := by
  have first : LogNear (((79232123823359799118286999567 : ℕ) : ℝ) / (2 ^ 96 : ℕ))
      (1 * 2 ^ 0 * logBase) (3 ^ 0 / 2 ^ 60) := by
    refine first_near 10001 10000 (by norm_num) ?_ (by norm_num)
      (by norm_num) (by norm_num)
    unfold logBase
    norm_num
    ring
  have near := mulTickRatios_near (by norm_num) (.inl rfl) small squaresChain_positive
    (by decide) first (start_near (by norm_num) first)
  have whole : tick % 2 ^ (0 + positiveTickRatios.length + 1) = tick :=
    Nat.mod_eq_of_lt (lt_of_le_of_lt small (by decide))
  rw [whole, one_mul] at near
  have literal : 79228162514264337593543950336 = 2 ^ 96 := by norm_num
  have shift : mulShift96 = fun n0 n1 => n0 * n1 / 2 ^ 96 := rfl
  simp only [getSqrtPricePositiveTick, shift, literal]
  simp only [zero_add] at near ⊢
  generalize mulTickRatios (fun n0 n1 => n0 * n1 / 2 ^ 96) positiveTickRatios 1 tick
    (if tick.testBit 0 then 79232123823359799118286999567 else 2 ^ 96) = ratio at near ⊢
  have rescaled : (ratio : ℝ) / (2 ^ 96 : ℕ) = (ratio : ℝ) / 2 ^ 32 / 2 ^ 64 := by
    push_cast
    ring
  rw [rescaled] at near
  have base := logBase_bounds
  have nonneg : (0 : ℝ) ≤ tick * logBase := mul_nonneg (Nat.cast_nonneg _) (by linarith [base.1])
  have errors : (3 : ℝ) ^ (positiveTickRatios.length + 1) / 2 ^ 60 +
      (positiveTickRatios.length : ℕ) / 2 ^ 30 ≤ 18 / 10 ^ 9 := by
    norm_num [positiveTickRatios]
  have large := near.exp_le (-1) (by norm_num at errors ⊢; linarith)
  have expLower : (2 : ℝ) ^ (-2 : ℤ) ≤ Real.exp (-1) := by
    rw [← Real.log_le_iff_le_exp (by positivity), Real.log_zpow]
    have := Real.log_two_gt_d9
    push_cast
    linarith
  have quotient : (2 : ℝ) ^ 62 ≤ (ratio : ℝ) / 2 ^ 32 := by
    rw [le_div_iff₀ (by norm_num)] at large
    calc (2 : ℝ) ^ 62 = 2 ^ (-2 : ℤ) * 2 ^ 64 := by norm_num
      _ ≤ Real.exp (-1) * 2 ^ 64 := mul_le_mul_of_nonneg_right expLower (by norm_num)
      _ ≤ _ := large
  have floor_eq : ((ratio / 2 ^ 32 : ℕ) : ℝ) = ⌊(ratio : ℝ) / 2 ^ 32⌋₊ := by
    rw [← Nat.floor_div_eq_div (K := ℝ)]
    norm_num
  rw [floor_eq]
  have close := Nat.lt_floor_add_one ((ratio : ℝ) / 2 ^ 32)
  have room : (2 : ℝ) ^ 61 ≤ 2 ^ 62 - 1 := by norm_num
  refine (near.truncate (2 ^ 61) (by norm_num) (by norm_num) (by linarith)
    (Nat.floor_le (by positivity)) close).mono ?_
  norm_num at errors ⊢
  linarith

/-- The price of a negative tick is near the power that it stands for. -/
private theorem getSqrtPriceNegativeTick_near (tick : ℕ) (small : tick ≤ 443637) :
    LogNear ((getSqrtPriceNegativeTick tick : ℝ) / 2 ^ 64) (-tick * logBase) (2 / 10 ^ 8) := by
  have first : LogNear (((18445821805675392311 : ℕ) : ℝ) / (2 ^ 64 : ℕ))
      (-1 * 2 ^ 0 * logBase) (3 ^ 0 / 2 ^ 60) := by
    refine first_near 10000 10001 (by norm_num) ?_ (by norm_num)
      (by norm_num) (by norm_num)
    rw [← inv_div, Real.log_inv]
    unfold logBase
    norm_num
    ring
  have near := mulTickRatios_near (by norm_num) (.inr rfl) small squaresChain_negative
    (by decide) first (start_near (by norm_num) first)
  have whole : tick % 2 ^ (0 + negativeTickRatios.length + 1) = tick :=
    Nat.mod_eq_of_lt (lt_of_le_of_lt small (by decide))
  rw [whole, neg_one_mul] at near
  have literal : 18446744073709551616 = 2 ^ 64 := by norm_num
  have shift : mulShift64 = fun n0 n1 => n0 * n1 / 2 ^ 64 := rfl
  have scale : ((2 ^ 64 : ℕ) : ℝ) = 2 ^ 64 := by norm_num
  simp only [getSqrtPriceNegativeTick, shift, literal]
  rw [← scale]
  simp only [zero_add] at near ⊢
  refine near.mono ?_
  norm_num [negativeTickRatios]

/-- The logarithm of the price of a tick is the tick times that of the base. -/
theorem sqrtPriceFromTickIndex_near (tick : ℤ) (above : -443637 ≤ tick) (below : tick ≤ 443637) :
    LogNear ((sqrtPriceFromTickIndex tick : ℝ) / 2 ^ 64) (tick * logBase) (2 / 10 ^ 8) := by
  unfold sqrtPriceFromTickIndex
  split_ifs with nonneg
  · have near := getSqrtPricePositiveTick_near tick.toNat (by omega)
    have same : ((tick.toNat : ℕ) : ℝ) = tick := by
      exact_mod_cast Int.toNat_of_nonneg nonneg
    rwa [same] at near
  · have near := getSqrtPriceNegativeTick_near tick.natAbs (by omega)
    have same : -((tick.natAbs : ℕ) : ℝ) = tick := by
      have : -((tick.natAbs : ℕ) : ℤ) = tick := by omega
      exact_mod_cast this
    rwa [same] at near

/-- The prices of neighbouring ticks differ by more than one part in `2 ^ 15`. -/
theorem sqrtPriceFromTickIndex_spacing (tick : ℤ) (above : -443637 ≤ tick) (below : tick < 443637) :
    sqrtPriceFromTickIndex tick * (2 ^ 15 + 1) ≤ sqrtPriceFromTickIndex (tick + 1) * 2 ^ 15 := by
  have near := sqrtPriceFromTickIndex_near tick above below.le
  have next := sqrtPriceFromTickIndex_near (tick + 1) (by omega) (by omega)
  have base := logBase_bounds
  have ratio := Real.add_one_le_exp (logBase - 4 / 10 ^ 8)
  have growth : Real.exp (logBase - 4 / 10 ^ 8) *
      ((sqrtPriceFromTickIndex tick : ℝ) / 2 ^ 64) ≤
        (sqrtPriceFromTickIndex (tick + 1) : ℝ) / 2 ^ 64 := by
    rw [← Real.log_le_log_iff (mul_pos (Real.exp_pos _) near.pos) next.pos,
      Real.log_mul (Real.exp_pos _).ne' near.pos.ne', Real.log_exp]
    have upper := near.log_le
    have lower := next.le_log
    push_cast at lower
    linarith
  rw [← mul_div_assoc, div_le_div_iff_of_pos_right (by norm_num)] at growth
  have price : (0 : ℝ) ≤ sqrtPriceFromTickIndex tick := Nat.cast_nonneg _
  have scaled : (sqrtPriceFromTickIndex tick : ℝ) * (2 ^ 15 + 1) ≤
      sqrtPriceFromTickIndex (tick + 1) * 2 ^ 15 := by
    have factor : (1 : ℝ) + 1 / 2 ^ 15 ≤ Real.exp (logBase - 4 / 10 ^ 8) := by
      norm_num at ratio base ⊢
      linarith [base.1]
    have product := mul_le_mul_of_nonneg_right factor price
    norm_num at product ⊢
    linarith
  exact_mod_cast scaled

/-- The least price is that of the least tick. -/
theorem sqrtPriceFromTickIndex_min : sqrtPriceFromTickIndex (-443636) = minSqrtPriceX64 := by decide

/-- The greatest price is that of the greatest tick. -/
theorem sqrtPriceFromTickIndex_max : sqrtPriceFromTickIndex 443636 = maxSqrtPriceX64 := by decide

end Whirlpools
