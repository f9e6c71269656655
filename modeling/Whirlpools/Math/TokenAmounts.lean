import Mathlib.Data.Rat.Floor
import Whirlpools.Foundation.Rounding
import Whirlpools.Math.TokenMath

/-! # Token amounts as rounded rational numbers

Both tokens of a liquidity are linear in a coordinate of the price: `price / 2 ^ 64`
for token B and `- 2 ^ 64 / price` for token A, both increasing. A token amount
between two prices is the liquidity times the distance of their coordinates,
and the program's amounts are these numbers rounded as asked. A price reached
by trading an amount is the farthest, or the nearest, price for which the
amount suffices.
-/

namespace Whirlpools

open Outcome Rounding

/-- The coordinate of a price in which amounts of token A are linear. -/
def coordA (price : ℕ) : ℚ := -(2 ^ 64 / (price : ℚ))

/-- The coordinate of a price in which amounts of token B are linear. -/
def coordB (price : ℕ) : ℚ := (price : ℚ) / 2 ^ 64

theorem coordA_lt {lower upper : ℕ} (positive : 0 < lower) (below : lower < upper) :
    coordA lower < coordA upper := by
  have small : (0 : ℚ) < lower := Nat.cast_pos.mpr positive
  have less : (lower : ℚ) < upper := Nat.cast_lt.mpr below
  unfold coordA
  rw [neg_lt_neg_iff]
  exact div_lt_div_of_pos_left (by norm_num) small less

theorem coordA_le {lower upper : ℕ} (positive : 0 < lower) (below : lower ≤ upper) :
    coordA lower ≤ coordA upper := by
  rcases below.eq_or_lt with same | less
  · rw [same]
  · exact (coordA_lt positive less).le

theorem coordB_lt {lower upper : ℕ} (below : lower < upper) : coordB lower < coordB upper := by
  have less : (lower : ℚ) < upper := Nat.cast_lt.mpr below
  exact div_lt_div_of_pos_right less (by norm_num)

theorem coordB_le {lower upper : ℕ} (below : lower ≤ upper) : coordB lower ≤ coordB upper := by
  rcases below.eq_or_lt with same | less
  · rw [same]
  · exact (coordB_lt less).le

/-- The exact amount of token A between two prices, in either order. -/
def amountA (liquidity price0 price1 : ℕ) : ℚ :=
  liquidity * (coordA (max price0 price1) - coordA (min price0 price1))

/-- The exact amount of token B between two prices, in either order. -/
def amountB (liquidity price0 price1 : ℕ) : ℚ :=
  liquidity * (coordB (max price0 price1) - coordB (min price0 price1))

/-- Over an ordered range the amount of token A is the liquidity times the difference of the
coordinates. -/
theorem amountA_of_le {liquidity lower upper : ℕ} (below : lower ≤ upper) :
    amountA liquidity lower upper = liquidity * (coordA upper - coordA lower) := by
  rw [amountA, max_eq_right below, min_eq_left below]

/-- Over an ordered range the amount of token B is the liquidity times the difference of the
coordinates. -/
theorem amountB_of_le {liquidity lower upper : ℕ} (below : lower ≤ upper) :
    amountB liquidity lower upper = liquidity * (coordB upper - coordB lower) := by
  rw [amountB, max_eq_right below, min_eq_left below]

/-- The order of the prices does not matter for token A. -/
theorem amountA_comm (liquidity price0 price1 : ℕ) :
    amountA liquidity price0 price1 = amountA liquidity price1 price0 := by
  rw [amountA, amountA, max_comm, min_comm]

/-- The order of the prices does not matter for token B. -/
theorem amountB_comm (liquidity price0 price1 : ℕ) :
    amountB liquidity price0 price1 = amountB liquidity price1 price0 := by
  rw [amountB, amountB, max_comm, min_comm]

theorem amountA_nonneg {liquidity price0 price1 : ℕ} (first : 0 < price0) (second : 0 < price1) :
    0 ≤ amountA liquidity price0 price1 :=
  mul_nonneg (Nat.cast_nonneg _) (sub_nonneg.mpr
    (coordA_le (lt_min first second) (min_le_max)))

theorem amountB_nonneg (liquidity price0 price1 : ℕ) : 0 ≤ amountB liquidity price0 price1 :=
  mul_nonneg (Nat.cast_nonneg _) (sub_nonneg.mpr (coordB_le min_le_max))

/-- The amount of token A as the fraction the program computes. -/
theorem amountA_eq_div {liquidity price0 price1 : ℕ} (first : 0 < price0) (second : 0 < price1) :
    amountA liquidity price0 price1 =
      ((liquidity * (max price0 price1 - min price0 price1) * 2 ^ 64 : ℕ) : ℚ) /
        ((max price0 price1 * min price0 price1 : ℕ) : ℚ) := by
  have low : (0 : ℚ) < (min price0 price1 : ℕ) := Nat.cast_pos.mpr (lt_min first second)
  have high : (0 : ℚ) < (max price0 price1 : ℕ) := Nat.cast_pos.mpr (lt_max_of_lt_left first)
  have order : min price0 price1 ≤ max price0 price1 := min_le_max
  unfold amountA coordA
  rw [Nat.cast_mul, Nat.cast_mul, Nat.cast_mul, Nat.cast_sub order]
  push_cast
  field_simp
  ring

/-- The amount of token B as the fraction the program computes. -/
theorem amountB_eq_div (liquidity price0 price1 : ℕ) :
    amountB liquidity price0 price1 =
      ((liquidity * (max price0 price1 - min price0 price1) : ℕ) : ℚ) / ((2 ^ 64 : ℕ) : ℚ) := by
  have order : min price0 price1 ≤ max price0 price1 := min_le_max
  unfold amountB coordB
  rw [Nat.cast_mul, Nat.cast_sub order]
  push_cast
  ring

/-- The program sorts the prices by minimum and maximum. -/
theorem increasingPriceOrder_eq (price0 price1 : ℕ) :
    increasingPriceOrder price0 price1 = (min price0 price1, max price0 price1) := by
  unfold increasingPriceOrder
  split_ifs with order
  · rw [min_eq_right order.le, max_eq_left order.le]
  · rw [not_lt] at order
    rw [min_eq_left order, max_eq_right order]

section Quotients

variable {m : Machine}

/-- The rounded quotient of two four-word integers, as both its users compute it. -/
def roundedQuotient (m : Machine) (numerator denominator : U256Muldiv) (roundUp : Bool) :
    Result ℕ :=
  m.div numerator denominator roundUp >>= fun (quotient, remainder) =>
    if roundUp ∧ ¬ remainder.isZero then (quotient.add (.new 0 1)).tryIntoU128
    else quotient.tryIntoU128

/-- The division of the program is the rounded quotient. -/
theorem divRoundUpIfU256_eq (numerator denominator : U256Muldiv) (roundUp : Bool) :
    divRoundUpIfU256 m numerator denominator roundUp =
      roundedQuotient m numerator denominator roundUp := by
  unfold divRoundUpIfU256 roundedQuotient
  congr 1
  funext result
  obtain ⟨quotient, remainder⟩ := result
  by_cases up : roundUp = true ∧ ¬ remainder.isZero = true
  · simp only [if_pos up]
  · simp only [if_neg up]

/-- The value a division is rounded to. -/
private theorem rounded_words {numerator denominator quotient remainder : U256Muldiv}
    {roundUp : Bool} (nonzero : denominator.toNat ≠ 0)
    (exactQuotient : quotient.toNat = numerator.toNat / denominator.toNat)
    (exactRemainder : roundUp = true →
      remainder.toNat = numerator.toNat % denominator.toNat) :
    (if roundUp ∧ ¬ remainder.isZero then quotient.add (.new 0 1) else quotient).toNat =
      roundTo roundUp ((numerator.toNat : ℚ) / denominator.toNat) := by
  rw [← div_round_eq roundUp (Nat.pos_of_ne_zero nonzero)]
  by_cases up : roundUp = true
  · have condition : (¬ remainder.isZero = true) ↔
        numerator.toNat % denominator.toNat > 0 := by
      rw [U256Muldiv.isZero_iff, exactRemainder up]
      omega
    simp only [up, true_and, condition]
    by_cases inexact : numerator.toNat % denominator.toNat > 0
    · rw [if_pos inexact, if_pos inexact, U256Muldiv.toNat_add,
        U256Muldiv.toNat_new (by omega) (by omega), exactQuotient]
      have divisor : 2 ≤ denominator.toNat := by
        by_contra small
        have unit : denominator.toNat = 1 := by omega
        rw [unit, Nat.mod_one] at inexact
        exact lt_irrefl 0 inexact
      have bound := numerator.toNat_lt
      have half : numerator.toNat / denominator.toNat ≤ numerator.toNat / 2 :=
        Nat.div_le_div_left divisor (by omega)
      exact Nat.mod_eq_of_lt (by omega)
    · rw [if_neg inexact, if_neg inexact, exactQuotient]
  · simp only [up, false_and, Bool.false_eq_true, ↓reduceIte, exactQuotient]

/-- A rounded quotient that is returned is the rounded rational quotient. -/
theorem roundedQuotient_eq_ok {numerator denominator : U256Muldiv} {roundUp : Bool} {value : ℕ}
    (returned : roundedQuotient m numerator denominator roundUp = .ok value) :
    0 < denominator.toNat ∧ value < 2 ^ 128 ∧
      value = roundTo roundUp ((numerator.toNat : ℚ) / denominator.toNat) := by
  obtain ⟨⟨quotient, remainder⟩, divided, returned⟩ := bind_eq_ok.mp returned
  obtain ⟨nonzero, exactQuotient, exactRemainder⟩ := m.div_sound divided
  have rounded := rounded_words nonzero exactQuotient exactRemainder
  refine ⟨Nat.pos_of_ne_zero nonzero, ?_⟩
  rw [← rounded]
  dsimp only at returned
  split_ifs at returned ⊢ with up
  · have small := U256Muldiv.tryIntoU128_eq_ok.mp returned
    exact ⟨small.2 ▸ small.1, small.2⟩
  · have small := U256Muldiv.tryIntoU128_eq_ok.mp returned
    exact ⟨small.2 ▸ small.1, small.2⟩

/-- With exact division, a rounded quotient that fits is returned. -/
theorem roundedQuotient_exact (checks : Bool) {numerator denominator : U256Muldiv}
    {roundUp : Bool} (nonzero : denominator.toNat ≠ 0)
    (fits : roundTo roundUp ((numerator.toNat : ℚ) / denominator.toNat) < 2 ^ 128) :
    roundedQuotient (.exact checks) numerator denominator roundUp =
      .ok (roundTo roundUp ((numerator.toNat : ℚ) / denominator.toNat)) := by
  obtain ⟨⟨quotient, remainder⟩, divided⟩ : ∃ result,
      (Machine.exact checks).div numerator denominator roundUp = .ok result :=
    ⟨_, if_neg nonzero⟩
  obtain ⟨_, exactQuotient, exactRemainder⟩ := (Machine.exact checks).div_sound divided
  have rounded := rounded_words nonzero exactQuotient exactRemainder
  unfold roundedQuotient
  rw [divided, ok_bind]
  dsimp only
  split_ifs at rounded ⊢ with up
  · exact U256Muldiv.tryIntoU128_eq_ok.mpr ⟨rounded ▸ fits, rounded.symm⟩
  · exact U256Muldiv.tryIntoU128_eq_ok.mpr ⟨rounded ▸ fits, rounded.symm⟩

end Quotients

section Amounts

variable {m : Machine} {price0 price1 liquidity : ℕ} {roundUp : Bool}

/-- The amount of token A as the program computes it, with the prices sorted. -/
private theorem getAmountDeltaA_unfold :
    getAmountDeltaA m price0 price1 liquidity roundUp =
      (okOr (mulU256 liquidity
          (max price0 price1 - min price0 price1)).checkedShiftWordLeft
          (.code .multiplicationOverflow) >>= fun numerator =>
        roundedQuotient m numerator (mulU256 (max price0 price1) (min price0 price1)) roundUp
          >>= fun result => if result > u64Max then err .tokenMaxExceeded else .ok result) := by
  unfold getAmountDeltaA roundedQuotient
  rw [increasingPriceOrder_eq]
  simp only [bind_assoc]

/-- An amount of token A that is returned is the rounded exact amount. -/
theorem getAmountDeltaA_eq_ok {value : ℕ} (first : 0 < price0) (second : 0 < price1)
    (bound0 : price0 < 2 ^ 128) (bound1 : price1 < 2 ^ 128) (boundL : liquidity < 2 ^ 128)
    (returned : getAmountDeltaA m price0 price1 liquidity roundUp = .ok value) :
    value = roundTo roundUp (amountA liquidity price0 price1) ∧ value < 2 ^ 64 := by
  rw [getAmountDeltaA_unfold] at returned
  obtain ⟨numerator, shifted, returned⟩ := bind_eq_ok.mp returned
  obtain ⟨result, quotient, returned⟩ := bind_eq_ok.mp returned
  obtain ⟨small, same⟩ := guard_eq_ok.mp returned
  have same := Except.ok.inj same
  have bound : max price0 price1 < 2 ^ 128 := max_lt bound0 bound1
  obtain ⟨_, shiftedValue⟩ := U256Muldiv.checkedShiftWordLeft_eq_some (okOr_eq_ok.mp shifted)
  obtain ⟨_, _, value_eq⟩ := roundedQuotient_eq_ok quotient
  rw [toNat_mulU256 boundL (by omega)] at shiftedValue
  rw [shiftedValue, toNat_mulU256 bound (lt_of_le_of_lt min_le_max bound),
    ← amountA_eq_div first second] at value_eq
  unfold u64Max at small
  exact ⟨same ▸ value_eq, by omega⟩

/-- With exact division, an amount of token A that fits is returned. -/
theorem getAmountDeltaA_exact (checks : Bool) (first : 0 < price0) (second : 0 < price1)
    (bound0 : price0 < 2 ^ 128) (bound1 : price1 < 2 ^ 128) (boundL : liquidity < 2 ^ 128)
    (product : liquidity * (max price0 price1 - min price0 price1) < 2 ^ 192)
    (fits : roundTo roundUp (amountA liquidity price0 price1) < 2 ^ 64) :
    getAmountDeltaA (.exact checks) price0 price1 liquidity roundUp =
      .ok (roundTo roundUp (amountA liquidity price0 price1)) := by
  have bound : max price0 price1 < 2 ^ 128 := max_lt bound0 bound1
  have low : 0 < min price0 price1 := lt_min first second
  have numeratorValue := toNat_mulU256 boundL
    (show max price0 price1 - min price0 price1 < 2 ^ 128 by omega)
  have denominatorValue := toNat_mulU256 bound (lt_of_le_of_lt min_le_max bound)
  obtain ⟨numerator, shifted, shiftedValue⟩ := U256Muldiv.checkedShiftWordLeft_of_lt
    (numeratorValue.symm ▸ product)
  rw [numeratorValue] at shiftedValue
  have quotient : ((numerator.toNat : ℚ) /
      (mulU256 (max price0 price1) (min price0 price1)).toNat) =
      amountA liquidity price0 price1 := by
    rw [shiftedValue, denominatorValue, amountA_eq_div first second]
  rw [getAmountDeltaA_unfold, okOr_eq_ok.mpr shifted, ok_bind,
    roundedQuotient_exact checks _ (quotient.symm ▸ lt_trans fits (by norm_num)), ok_bind,
    quotient]
  · unfold u64Max
    rw [if_neg (by omega)]
  · rw [denominatorValue]
    exact Nat.mul_ne_zero (by omega) low.ne'

/-- Prices in range have a product that leaves room for every amount that fits. -/
theorem product_lt_of_fits (first : 0 < price0) (second : 0 < price1) (bound0 : price0 < 2 ^ 96)
    (bound1 : price1 < 2 ^ 96) (fits : roundTo roundUp (amountA liquidity price0 price1) < 2 ^ 64) :
    liquidity * (max price0 price1 - min price0 price1) < 2 ^ 192 := by
  have below : amountA liquidity price0 price1 < (2 ^ 64 : ℕ) := by
    cases roundUp with
    | false => exact (Nat.floor_lt (amountA_nonneg first second)).mp fits
    | true =>
        exact lt_of_le_of_lt (Nat.le_ceil _) (Nat.cast_lt.mpr fits)
  have denominator : (0 : ℚ) < (max price0 price1 * min price0 price1 : ℕ) :=
    Nat.cast_pos.mpr (Nat.mul_pos (lt_max_of_lt_left first) (lt_min first second))
  rw [amountA_eq_div first second, div_lt_iff₀ denominator, ← Nat.cast_mul, Nat.cast_lt,
    Nat.mul_comm (2 ^ 64)] at below
  calc liquidity * (max price0 price1 - min price0 price1)
      < max price0 price1 * min price0 price1 := Nat.lt_of_mul_lt_mul_right below
    _ < 2 ^ 96 * 2 ^ 96 := Nat.mul_lt_mul'' (max_lt bound0 bound1) (min_lt_of_left_lt bound0)
    _ = 2 ^ 192 := by norm_num

/-- Nothing is needed to stay at a price. -/
theorem getAmountDeltaA_self (first : 0 < price0) (bound0 : price0 < 2 ^ 128)
    (boundL : liquidity < 2 ^ 128) :
    getAmountDeltaA m price0 price0 liquidity roundUp = .ok 0 := by
  have numeratorValue : (mulU256 liquidity (max price0 price0 - min price0 price0)).toNat = 0 := by
    rw [max_self, min_self, Nat.sub_self, toNat_mulU256 boundL (by omega), Nat.mul_zero]
  obtain ⟨numerator, shifted, shiftedValue⟩ := U256Muldiv.checkedShiftWordLeft_of_lt
    (lt_of_eq_of_lt numeratorValue (by norm_num))
  rw [numeratorValue, Nat.zero_mul] at shiftedValue
  have nonzero : (mulU256 (max price0 price0) (min price0 price0)).toNat ≠ 0 := by
    rw [max_self, min_self, toNat_mulU256 bound0 bound0]
    exact Nat.mul_ne_zero first.ne' first.ne'
  obtain ⟨⟨quotient, remainder⟩, divided⟩ := @Machine.div_zero m _ _ roundUp
    shiftedValue nonzero
  obtain ⟨_, exactQuotient, exactRemainder⟩ := m.div_sound divided
  have rounded := rounded_words nonzero exactQuotient exactRemainder
  rw [shiftedValue, Nat.cast_zero, zero_div, roundTo_zero] at rounded
  have converted : roundedQuotient m numerator
      (mulU256 (max price0 price0) (min price0 price0)) roundUp = .ok 0 := by
    unfold roundedQuotient
    rw [divided, ok_bind]
    dsimp only
    split_ifs at rounded ⊢ with up
    · exact U256Muldiv.tryIntoU128_eq_ok.mpr ⟨by rw [rounded]; norm_num, rounded.symm⟩
    · exact U256Muldiv.tryIntoU128_eq_ok.mpr ⟨by rw [rounded]; norm_num, rounded.symm⟩
  rw [getAmountDeltaA_unfold, okOr_eq_ok.mpr shifted, ok_bind, converted, ok_bind]
  exact if_neg (by omega)

/-- An amount of token B that is returned is the rounded exact amount. -/
theorem getAmountDeltaB_eq_ok {value : ℕ}
    (returned : getAmountDeltaB price0 price1 liquidity roundUp = .ok value) :
    value = roundTo roundUp (amountB liquidity price0 price1) ∧ value < 2 ^ 64 := by
  rw [getAmountDeltaB, increasingPriceOrder_eq] at returned
  dsimp only at returned
  rw [amountB_eq_div, ← div_round_eq roundUp (by norm_num)]
  unfold checkedMulShiftRightRoundUpIf at returned
  generalize max price0 price1 - min price0 price1 = difference at returned ⊢
  by_cases zero : liquidity = 0 ∨ difference = 0
  · rw [if_pos zero] at returned
    have product : liquidity * difference = 0 := Nat.mul_eq_zero.mpr zero
    rw [product, ← Except.ok.inj returned]
    simp
  · rw [if_neg zero, guard_eq_ok] at returned
    obtain ⟨small, returned⟩ := returned
    dsimp only at returned
    rw [guard_eq_ok] at returned
    obtain ⟨inside, returned⟩ := returned
    have same := Except.ok.inj returned
    refine ⟨same.symm, ?_⟩
    unfold u64Max at inside
    rw [← same]
    generalize liquidity * difference = product at *
    split_ifs with up
    · have : product / 2 ^ 64 ≠ 2 ^ 64 - 1 := fun full => inside ⟨up, full⟩
      omega
    · omega

/-- An amount of token B that fits is returned. -/
theorem getAmountDeltaB_of_fits
    (product : liquidity * (max price0 price1 - min price0 price1) < 2 ^ 128)
    (fits : roundTo roundUp (amountB liquidity price0 price1) < 2 ^ 64) :
    getAmountDeltaB price0 price1 liquidity roundUp =
      .ok (roundTo roundUp (amountB liquidity price0 price1)) := by
  rw [getAmountDeltaB, increasingPriceOrder_eq]
  dsimp only
  rw [amountB_eq_div, ← div_round_eq roundUp (by norm_num)] at fits ⊢
  unfold checkedMulShiftRightRoundUpIf
  generalize max price0 price1 - min price0 price1 = difference at *
  by_cases zero : liquidity = 0 ∨ difference = 0
  · rw [if_pos zero, Nat.mul_eq_zero.mpr zero]
    simp
  · rw [if_neg zero, if_neg (not_le.mpr product)]
    dsimp only
    rw [if_neg]
    intro full
    rw [if_pos full.1, full.2] at fits
    exact absurd fits (by unfold u64Max; omega)

/-- The amount of token B over an empty range is zero. -/
theorem getAmountDeltaB_self : getAmountDeltaB price0 price0 liquidity roundUp = .ok 0 := by
  rw [getAmountDeltaB, increasingPriceOrder_eq, max_self, min_self]
  dsimp only
  rw [Nat.sub_self]
  exact if_pos (.inr rfl)

end Amounts
end Whirlpools
