import Whirlpools.Math.SwapAmounts
import Whirlpools.Sdk.SwapStep

/-! # Token amounts of the SDK and of the program

On numbers the program's types can hold, the SDK's integers are the program's. Amounts of
token A and price moves agree on every input. Amounts of token B agree when rounded down;
rounded up, they agree exactly for the products that `RoundsAlike` describes.
-/

namespace Whirlpools.Sdk

open Outcome Rounding

/-- The number of the SDK is the number of the program. -/
def SameNumber (value : ℕ) (other : BN) : Prop := other = value

section BitMath

/-- A number is over the limit when it does not fit in that many bits. -/
theorem isOverLimit_iff {n limit : ℕ} : isOverLimit (n : ℤ) limit = true ↔ 2 ^ limit ≤ n := by
  have cast : ((2 ^ limit : ℕ) : ℤ) = (2 : ℤ) ^ limit := by push_cast; rfl
  rw [isOverLimit, decide_eq_true_eq, ← cast, gt_iff_lt, Int.sub_one_lt_iff, Nat.cast_le]

/-- The SDK's product fails when it is over the limit. -/
theorem mul_eq (n0 n1 limit : ℕ) :
    mul n0 n1 limit = if 2 ^ limit ≤ n0 * n1 then
        .error (.whirlpoolsError s!"Mul result higher than u{limit}"
          (.math .multiplicationOverflow))
      else .ok ((n0 * n1 : ℕ) : ℤ) := by
  simp only [mul, ← Nat.cast_mul, isOverLimit_iff]

/-- The library divides natural numbers, rounding down. -/
theorem bnDiv_eq {d : ℕ} (n : ℕ) (nonzero : d ≠ 0) :
    BN.div n d = .ok ((n / d : ℕ) : ℤ) := by
  rw [BN.div, if_neg (Nat.cast_ne_zero.mpr nonzero), Int.ofNat_tdiv]

/-- The library takes remainders of natural numbers. -/
theorem bnMod_eq {d : ℕ} (n : ℕ) (nonzero : d ≠ 0) :
    BN.mod n d = .ok ((n % d : ℕ) : ℤ) := by
  rw [BN.mod, if_neg (Nat.cast_ne_zero.mpr nonzero), Int.ofNat_tmod]

/-- A quotient rounded by its remainder. -/
def divRounded (n d : ℕ) (roundUp : Bool) : ℕ := if roundUp ∧ n % d > 0 then n / d + 1 else n / d

/-- The rounded quotient rounds the exact one. -/
theorem divRounded_eq (n : ℕ) {d : ℕ} (roundUp : Bool) (positive : 0 < d) :
    divRounded n d roundUp = roundTo roundUp ((n : ℚ) / d) := div_round_eq roundUp positive

/-- The SDK adds one for a remainder, as the program does. -/
theorem divRounded_cast (n d : ℕ) (roundUp : Bool) :
    (if roundUp ∧ ((n % d : ℕ) : ℤ) > 0 then ((n / d : ℕ) : ℤ) + 1 else ((n / d : ℕ) : ℤ)) =
      (divRounded n d roundUp : ℤ) := by
  unfold divRounded
  simp only [gt_iff_lt, Nat.cast_pos]
  split_ifs
  · exact (Nat.cast_succ _).symm
  · rfl

/-- The SDK's product and quotient is the rounded one where the product fits. -/
theorem mulDivRoundUpIf_eq {d : ℕ} (n0 n1 : ℕ) (roundUp : Bool) (limit : ℕ) (nonzero : d ≠ 0)
    (fits : n0 * n1 < 2 ^ limit) :
    mulDivRoundUpIf n0 n1 d roundUp limit = .ok (divRounded (n0 * n1) d roundUp : ℤ) := by
  rw [mulDivRoundUpIf, if_neg (Nat.cast_ne_zero.mpr nonzero), mul_eq, if_neg (not_le.mpr fits),
    ok_bind, bnDiv_eq _ nonzero, ok_bind, bnMod_eq _ nonzero, ok_bind, divRounded_cast]

/-- The SDK's division is the rounded one. -/
theorem divRoundUpIf_eq {d : ℕ} (n : ℕ) (roundUp : Bool) (nonzero : d ≠ 0) :
    divRoundUpIf n d roundUp = .ok (divRounded n d roundUp : ℤ) := by
  rw [divRoundUpIf, if_neg (Nat.cast_ne_zero.mpr nonzero), bnDiv_eq _ nonzero, ok_bind,
    bnMod_eq _ nonzero, ok_bind, divRounded_cast]

/-- The program's product and quotient is the same. -/
theorem chainMulDivRoundUpIf_eq {n0 n1 d : ℕ} (roundUp : Bool) (nonzero : d ≠ 0)
    (fits : n0 * n1 < 2 ^ 128) :
    checkedMulDivRoundUpIf n0 n1 d roundUp = .ok (divRounded (n0 * n1) d roundUp) := by
  rw [checkedMulDivRoundUpIf, if_neg nonzero, if_neg (not_le.mpr fits)]
  rfl

theorem chainDivRoundUpIf_eq {n d : ℕ} (roundUp : Bool) (nonzero : d ≠ 0) :
    Whirlpools.divRoundUpIf n d roundUp = .ok (divRounded n d roundUp) := by
  rw [Whirlpools.divRoundUpIf, if_neg nonzero]
  rfl

/-- The program's rounded shift, as a function of the product. -/
theorem chainShiftRight_eq (n0 n1 : ℕ) (roundUp : Bool) :
    Whirlpools.checkedMulShiftRightRoundUpIf n0 n1 roundUp =
      if n0 * n1 ≥ 2 ^ 128 then err .multiplicationShiftRightOverflow
      else if (roundUp ∧ n0 * n1 % 2 ^ 64 > 0) ∧ n0 * n1 / 2 ^ 64 = Whirlpools.u64Max then
        err .multiplicationOverflow
      else .ok (divRounded (n0 * n1) (2 ^ 64) roundUp) := by
  unfold Whirlpools.checkedMulShiftRightRoundUpIf
  by_cases zero : n0 = 0 ∨ n1 = 0
  · have product := Nat.mul_eq_zero.mpr zero
    rw [if_pos zero, product]
    simp [divRounded]
  · rw [if_neg zero]
    rfl

/-- The SDK's rounded shift: it adds one to every result but zero. -/
theorem shiftRight_eq (lib : CommonSdk) (n0 n1 : ℕ) (roundUp : Bool) :
    checkedMulShiftRightRoundUpIf lib n0 n1 roundUp 128 =
      if n0 * n1 ≥ 2 ^ 128 then
        .error (.whirlpoolsError "Mul result higher than u128" (.math .multiplicationOverflow))
      else if (roundUp ∧ n0 * n1 / 2 ^ 64 > 0) ∧ n0 * n1 / 2 ^ 64 = Whirlpools.u64Max then
        .error (.whirlpoolsError "MulShiftRight overflowed u128." (.math .multiplicationOverflow))
      else .ok ((if roundUp ∧ n0 * n1 / 2 ^ 64 > 0 then n0 * n1 / 2 ^ 64 + 1
        else n0 * n1 / 2 ^ 64 : ℕ) : ℤ) := by
  unfold checkedMulShiftRightRoundUpIf
  by_cases zero : n0 = 0 ∨ n1 = 0
  · have product := Nat.mul_eq_zero.mpr zero
    rw [if_pos (by simpa only [Nat.cast_eq_zero] using zero), product]
    simp
  · rw [if_neg (by simpa only [Nat.cast_eq_zero] using zero), mul_eq]
    by_cases big : 2 ^ 128 ≤ n0 * n1
    · rw [if_pos big, if_pos big]
      rfl
    · rw [if_neg big, if_neg big, ok_bind, if_neg (mt isOverLimit_iff.mp big),
        lib.fromX64BN_eq _ (Nat.cast_nonneg _)]
      have shifted : ((n0 * n1 : ℕ) : ℤ) / 2 ^ 64 = ((n0 * n1 / 2 ^ 64 : ℕ) : ℤ) := by
        push_cast
        rfl
      have small : n0 * n1 / 2 ^ 64 < 2 ^ 64 := by
        rw [not_le] at big
        exact Nat.div_lt_of_lt_mul (by rwa [← pow_add])
      have maximum : u64Max = ((Whirlpools.u64Max : ℕ) : ℤ) := rfl
      have masked : n0 * n1 / 2 ^ 64 &&& Whirlpools.u64Max = n0 * n1 / 2 ^ 64 := by
        rw [Whirlpools.u64Max, Nat.and_two_pow_sub_one_eq_mod, Nat.mod_eq_of_lt small]
      simp only [shifted, maximum, Int.toNat_natCast, masked, Nat.cast_inj]
      refine ite_congr rfl (fun _ => rfl) fun _ => ?_
      rw [Nat.cast_ite, Nat.cast_succ]

/-- The products that are rounded up alike: nothing, those of at least one unit with a
fraction to round, and those both reject. -/
def RoundsAlike (product : ℕ) : Prop :=
  product = 0 ∨ (2 ^ 64 ≤ product ∧ product % 2 ^ 64 ≠ 0) ∨ 2 ^ 128 ≤ product

instance (product : ℕ) : Decidable (RoundsAlike product) := by
  unfold RoundsAlike
  infer_instance

/-- Rounding down, the product and shift of both agree. -/
theorem shiftRight_agree (lib : CommonSdk) (n0 n1 : ℕ) :
    Agree SameNumber (Whirlpools.checkedMulShiftRightRoundUpIf n0 n1 false)
      (checkedMulShiftRightRoundUpIf lib n0 n1 false 128) := by
  rw [chainShiftRight_eq, shiftRight_eq]
  refine .guard Iff.rfl fun _ => ?_
  simp only [Bool.false_eq_true, false_and, ↓reduceIte, divRounded]
  exact .ok rfl

/-- Rounding up they agree exactly on the products that both round alike. -/
theorem shiftRight_agree_iff (lib : CommonSdk) (n0 n1 : ℕ) :
    Agree SameNumber (Whirlpools.checkedMulShiftRightRoundUpIf n0 n1 true)
        (checkedMulShiftRightRoundUpIf lib n0 n1 true 128) ↔ RoundsAlike (n0 * n1) := by
  rw [chainShiftRight_eq, shiftRight_eq]
  generalize n0 * n1 = product
  unfold RoundsAlike
  by_cases big : product ≥ 2 ^ 128
  · rw [if_pos big, if_pos big]
    exact ⟨fun _ => .inr (.inr big), fun _ => .error _ _⟩
  · simp only [if_neg big, true_and, divRounded, Whirlpools.u64Max]
    constructor
    · intro agree
      by_contra apart
      rw [not_or, not_or, not_and, not_not] at apart
      obtain ⟨present, whole, -⟩ := apart
      by_cases unit : 2 ^ 64 ≤ product
      · have up : ¬ product % 2 ^ 64 > 0 := by rw [whole unit]; exact lt_irrefl 0
        have up' : product / 2 ^ 64 > 0 := Nat.div_pos unit (by norm_num)
        simp only [up, up', false_and, true_and, ↓reduceIte] at agree
        split_ifs at agree
        · cases agree
        · cases agree with
          | ok related => exact absurd (Nat.cast_injective related) (Nat.succ_ne_self _)
      · have up : product % 2 ^ 64 > 0 := by omega
        have zero : product / 2 ^ 64 = 0 := Nat.div_eq_of_lt (not_le.mp unit)
        simp only [up, zero, gt_iff_lt, lt_irrefl, false_and, true_and, ↓reduceIte] at agree
        rw [if_neg (by norm_num)] at agree
        cases agree with
        | ok related => exact absurd (Nat.cast_injective related) (Nat.succ_ne_self 0).symm
    · rintro (rfl | ⟨unit, fraction⟩ | reject)
      · simp only [Nat.zero_mod, Nat.zero_div, lt_irrefl, false_and, ↓reduceIte]
        exact .ok rfl
      · have up : product % 2 ^ 64 > 0 := Nat.pos_of_ne_zero fraction
        have up' : product / 2 ^ 64 > 0 := Nat.div_pos unit (by norm_num)
        simp only [up, up', true_and, ↓reduceIte]
        exact .guard Iff.rfl fun _ => .ok rfl
      · exact absurd reject big

end BitMath

section TokenMath

variable {price0 price1 price liquidity amount : ℕ} {roundUp isIn : Bool}

/-- The SDK sorts the prices by minimum and maximum. -/
theorem toIncreasingPriceOrder_eq (price0 price1 : ℕ) :
    toIncreasingPriceOrder (price0 : ℤ) price1 =
      (((min price0 price1 : ℕ) : ℤ), ((max price0 price1 : ℕ) : ℤ)) := by
  unfold toIncreasingPriceOrder
  simp only [gt_iff_lt, Nat.cast_lt]
  split_ifs with order
  · rw [min_eq_right order.le, max_eq_left order.le]
  · rw [not_lt] at order
    rw [min_eq_left order, max_eq_right order]

/-- The difference of sorted prices is one of natural numbers. -/
theorem cast_difference (price0 price1 : ℕ) :
    ((max price0 price1 : ℕ) : ℤ) - (min price0 price1 : ℕ) =
      ((max price0 price1 - min price0 price1 : ℕ) : ℤ) :=
  (Nat.cast_sub min_le_max).symm

/-- The SDK's amount of token A is the exact one, rounded, unless it is too large. -/
theorem getAmountDeltaA_eq (first : 0 < price0) (second : 0 < price1) :
    getAmountDeltaA (price0 : ℤ) price1 liquidity roundUp =
      if roundTo roundUp (amountA liquidity price0 price1) > Whirlpools.u64Max then
        .error (.whirlpoolsError "Results larger than U64" (.token .tokenMaxExceeded))
      else .ok (roundTo roundUp (amountA liquidity price0 price1) : ℤ) := by
  have low : 0 < min price0 price1 := lt_min first second
  have denominator : min price0 price1 * max price0 price1 ≠ 0 :=
    Nat.mul_ne_zero low.ne' (lt_max_of_lt_left first).ne'
  have numeratorCast :
      (liquidity : ℤ) * ((max price0 price1 - min price0 price1 : ℕ) : ℤ) * 2 ^ 64 =
        ((liquidity * (max price0 price1 - min price0 price1) * 2 ^ 64 : ℕ) : ℤ) := by
    push_cast
    rfl
  have maximum : u64Max = ((Whirlpools.u64Max : ℕ) : ℤ) := rfl
  unfold getAmountDeltaA
  rw [toIncreasingPriceOrder_eq]
  dsimp only
  rw [cast_difference, numeratorCast, ← Nat.cast_mul, bnDiv_eq _ denominator, ok_bind,
    bnMod_eq _ denominator, ok_bind, maximum]
  have rounded := divRounded_eq (liquidity * (max price0 price1 - min price0 price1) * 2 ^ 64)
    roundUp (Nat.pos_of_ne_zero denominator)
  rw [amountA_eq_div first second, Nat.mul_comm (max price0 price1) (min price0 price1), ← rounded,
    ← divRounded_cast]
  simp only [Nat.cast_eq_zero, gt_iff_lt, Nat.cast_pos, Nat.pos_iff_ne_zero, ne_eq]
  refine ite_congr ?_ (fun _ => rfl) fun _ => rfl
  unfold divRounded
  simp only [gt_iff_lt, Nat.pos_iff_ne_zero, ne_eq, eq_iff_iff]
  split_ifs
  · rw [← Nat.cast_succ, Nat.cast_lt]
  · rw [Nat.cast_lt]

/-- Amounts of token A agree. -/
theorem getAmountDeltaA_agree (checks : Bool) (first : 0 < price0) (second : 0 < price1)
    (bound0 : price0 < 2 ^ 96) (bound1 : price1 < 2 ^ 96) (boundL : liquidity < 2 ^ 128) :
    Agree SameNumber (Whirlpools.getAmountDeltaA (.exact checks) price0 price1 liquidity roundUp)
      (getAmountDeltaA price0 price1 liquidity roundUp) := by
  have wide0 : price0 < 2 ^ 128 := bound0.trans (by norm_num)
  have wide1 : price1 < 2 ^ 128 := bound1.trans (by norm_num)
  rw [getAmountDeltaA_eq first second]
  by_cases fits : roundTo roundUp (amountA liquidity price0 price1) < 2 ^ 64
  · rw [getAmountDeltaA_exact checks first second wide0 wide1 boundL
      (product_lt_of_fits first second bound0 bound1 fits) fits,
      if_neg (by unfold Whirlpools.u64Max; omega)]
    exact .ok rfl
  · rw [if_pos (by unfold Whirlpools.u64Max; omega)]
    cases computed : Whirlpools.getAmountDeltaA (.exact checks) price0 price1 liquidity roundUp with
    | error failure => exact .error _ _
    | ok value =>
        obtain ⟨rfl, small⟩ := getAmountDeltaA_eq_ok first second wide0 wide1 boundL computed
        exact absurd small fits

/-- The SDK's amount of token B is a product and shift. -/
theorem getAmountDeltaB_eq (lib : CommonSdk) (price0 price1 liquidity : ℕ) (roundUp : Bool) :
    getAmountDeltaB lib (price0 : ℤ) price1 liquidity roundUp =
      checkedMulShiftRightRoundUpIf lib liquidity
        ((max price0 price1 - min price0 price1 : ℕ) : ℤ) roundUp 128 := by
  unfold getAmountDeltaB
  rw [toIncreasingPriceOrder_eq]
  dsimp only
  rw [cast_difference]

theorem chainAmountDeltaB_eq (price0 price1 liquidity : ℕ) (roundUp : Bool) :
    Whirlpools.getAmountDeltaB price0 price1 liquidity roundUp =
      Whirlpools.checkedMulShiftRightRoundUpIf liquidity
        (max price0 price1 - min price0 price1) roundUp := by
  rw [Whirlpools.getAmountDeltaB, increasingPriceOrder_eq]

/-- Amounts of token B agree when rounded down. -/
theorem getAmountDeltaB_agree (lib : CommonSdk) (price0 price1 liquidity : ℕ) :
    Agree SameNumber (Whirlpools.getAmountDeltaB price0 price1 liquidity false)
      (getAmountDeltaB lib price0 price1 liquidity false) := by
  rw [getAmountDeltaB_eq, chainAmountDeltaB_eq]
  exact shiftRight_agree lib _ _

/-- Amounts of token B rounded up agree where their product is rounded up alike. -/
theorem getAmountDeltaB_agree_iff (lib : CommonSdk) (price0 price1 liquidity : ℕ) :
    Agree SameNumber (Whirlpools.getAmountDeltaB price0 price1 liquidity true)
        (getAmountDeltaB lib price0 price1 liquidity true) ↔
      RoundsAlike (liquidity * (max price0 price1 - min price0 price1)) := by
  rw [getAmountDeltaB_eq, chainAmountDeltaB_eq]
  exact shiftRight_agree_iff lib _ _

/-- The last part of a price move by token A: the rounded price, inside the range of prices. -/
private theorem boundedPrice_agree (checks : Bool) {numerator denominator : U256Muldiv}
    (nonzero : denominator.toNat ≠ 0) :
    Agree SameNumber
      (divRoundUpIfU256 (.exact checks) numerator denominator true >>= fun price =>
        if price < minSqrtPriceX64 then err .tokenMinSubceeded
        else if price > maxSqrtPriceX64 then err .tokenMaxExceeded
        else .ok price)
      (divRoundUp numerator.toNat denominator.toNat >>= fun price =>
        if price < minSqrtPrice then
          .error (.whirlpoolsError
            "getNextSqrtPriceFromARoundUp - price less than min sqrt price"
            (.token .tokenMinSubceeded))
        else if price > maxSqrtPrice then
          .error (.whirlpoolsError
            "getNextSqrtPriceFromARoundUp - price less than max sqrt price"
            (.token .tokenMaxExceeded))
        else .ok price) := by
  rw [divRoundUpIfU256_eq, divRoundUp, divRoundUpIf_eq _ _ nonzero, ok_bind,
    divRounded_eq _ _ (Nat.pos_of_ne_zero nonzero)]
  have least : minSqrtPrice = ((minSqrtPriceX64 : ℕ) : ℤ) := rfl
  have greatest : maxSqrtPrice = ((maxSqrtPriceX64 : ℕ) : ℤ) := rfl
  rw [least, greatest]
  by_cases fits : roundTo true ((numerator.toNat : ℚ) / denominator.toNat) < 2 ^ 128
  · rw [roundedQuotient_exact checks nonzero fits, ok_bind]
    exact .guard (by rw [Nat.cast_lt]) fun _ => .guard (by rw [gt_iff_lt, gt_iff_lt, Nat.cast_lt])
      fun _ => .ok rfl
  · have large : maxSqrtPriceX64 < roundTo true ((numerator.toNat : ℚ) / denominator.toNat) :=
      lt_of_lt_of_le (by decide) (not_lt.mp fits)
    rw [if_neg (by rw [Nat.cast_lt, not_lt]; exact le_trans (by decide) large.le),
      if_pos (by rw [gt_iff_lt, Nat.cast_lt]; exact large)]
    cases quotient : roundedQuotient (.exact checks) numerator denominator true with
    | error failure => exact .error _ _
    | ok value =>
        obtain ⟨-, small, rfl⟩ := roundedQuotient_eq_ok quotient
        exact absurd small fits

/-- Price moves by an amount of token A agree. -/
theorem getNextSqrtPriceFromARoundUp_agree (checks : Bool) (positive : 0 < price)
    (priceBound : price < 2 ^ 96) (boundL : liquidity < 2 ^ 128) (amountBound : amount < 2 ^ 64) :
    Agree SameNumber
      (Whirlpools.getNextSqrtPriceFromARoundUp (.exact checks) price liquidity amount isIn)
      (getNextSqrtPriceFromARoundUp price liquidity amount isIn) := by
  have priceBound' : price < 2 ^ 128 := priceBound.trans (by norm_num)
  have amountBound' : amount < 2 ^ 128 := amountBound.trans (by norm_num)
  unfold Whirlpools.getNextSqrtPriceFromARoundUp getNextSqrtPriceFromARoundUp
  refine .ite (by rw [Nat.cast_eq_zero]) (fun _ => .ok rfl) fun present => ?_
  have productValue := toNat_mulU256 priceBound' amountBound'
  have volumeValue := toNat_mulU256 boundL priceBound'
  have productBound : price * amount < 2 ^ 160 := by
    calc price * amount < 2 ^ 96 * 2 ^ 64 := Nat.mul_lt_mul'' priceBound amountBound
      _ = 2 ^ 160 := by norm_num
  have volumeBound : liquidity * price < 2 ^ 224 := by
    calc liquidity * price < 2 ^ 128 * 2 ^ 96 := Nat.mul_lt_mul'' boundL priceBound
      _ = 2 ^ 224 := by norm_num
  rw [mul_eq, if_neg (not_le.mpr (productBound.trans (by norm_num))), ok_bind, mul_eq,
    if_neg (not_le.mpr (volumeBound.trans (by norm_num))), ok_bind]
  dsimp only
  have numeratorCast : ((liquidity * price : ℕ) : ℤ) * 2 ^ 64 =
      ((liquidity * price * 2 ^ 64 : ℕ) : ℤ) := by push_cast; rfl
  have shiftCast : (liquidity : ℤ) * 2 ^ 64 = ((liquidity * 2 ^ 64 : ℕ) : ℤ) := by push_cast; rfl
  rw [numeratorCast, shiftCast]
  by_cases fits : liquidity * price < 2 ^ 192
  · obtain ⟨numerator, shifted, numeratorValue⟩ :=
      U256Muldiv.checkedShiftWordLeft_of_lt (volumeValue.symm ▸ fits)
    rw [volumeValue] at numeratorValue
    have shiftValue : (U256Muldiv.new 0 liquidity).shiftWordLeft.toNat = liquidity * 2 ^ 64 := by
      rw [U256Muldiv.toNat_shiftWordLeft, U256Muldiv.toNat_new (by norm_num) boundL, Nat.zero_mul,
        Nat.zero_add, Nat.mod_eq_of_lt (by omega)]
    rw [okOr_eq_ok.mpr shifted, ok_bind,
      if_neg (mt isOverLimit_iff.mp (by generalize liquidity * price = volume at *; omega))]
    refine .guard ?_ fun remains => ?_
    · rw [U256Muldiv.lte_iff, shiftValue, productValue, Nat.cast_le]
    · rw [U256Muldiv.lte_iff, shiftValue, productValue] at remains
      have nonempty : 0 < price * amount := Nat.mul_pos positive (Nat.pos_of_ne_zero present)
      generalize denominator_eq : (if isIn = true then
          (U256Muldiv.new 0 liquidity).shiftWordLeft.add (mulU256 price amount)
        else (U256Muldiv.new 0 liquidity).shiftWordLeft.sub (mulU256 price amount)) = denominator
      have value : ((denominator.toNat : ℕ) : ℤ) =
          (if isIn = true then ((liquidity * 2 ^ 64 : ℕ) : ℤ) + ((price * amount : ℕ) : ℤ)
          else ((liquidity * 2 ^ 64 : ℕ) : ℤ) - ((price * amount : ℕ) : ℤ)) ∧
          denominator.toNat ≠ 0 := by
        rw [← denominator_eq]
        generalize price * amount = product at *
        cases isIn with
        | true =>
            simp only [↓reduceIte, U256Muldiv.toNat_add, shiftValue, productValue]
            omega
        | false =>
            simp only [Bool.false_eq_true, not_false_eq_true, true_and, not_le, ↓reduceIte,
              U256Muldiv.toNat_sub, shiftValue, productValue] at remains ⊢
            omega
      rw [← value.1, ← numeratorValue]
      exact boundedPrice_agree checks value.2
  · have rejected : (mulU256 liquidity price).checkedShiftWordLeft = none := by
      cases shifted : (mulU256 liquidity price).checkedShiftWordLeft with
      | none => rfl
      | some numerator =>
          exact absurd (volumeValue ▸ (U256Muldiv.checkedShiftWordLeft_eq_some shifted).1) fits
    rw [rejected, if_pos
      (isOverLimit_iff.mpr (by generalize liquidity * price = volume at *; omega))]
    exact .error _ _

/-- A move by an amount of token B that a distance covers is at most this distance. -/
theorem divRounded_le {distance : ℕ} (liquid : liquidity ≠ 0)
    (covered : amount * 2 ^ 64 ≤ liquidity * distance) :
    divRounded (amount * 2 ^ 64) liquidity roundUp ≤ distance := by
  rw [divRounded_eq _ _ (Nat.pos_of_ne_zero liquid)]
  refine roundTo_le_of_le _ ?_
  rw [div_le_iff₀ (Nat.cast_pos.mpr (Nat.pos_of_ne_zero liquid)), ← Nat.cast_mul, Nat.cast_le,
    Nat.mul_comm distance]
  exact covered

/-- The price after a move by an amount of token B that stays within a distance. -/
theorem chainNextSqrtPriceFromB_eq {distance : ℕ} (liquid : liquidity ≠ 0)
    (covered : amount * 2 ^ 64 ≤ liquidity * distance)
    (inRange : if isIn then price + distance < 2 ^ 128 else distance ≤ price) :
    Whirlpools.getNextSqrtPriceFromBRoundDown price liquidity amount isIn =
      .ok (if isIn then price + divRounded (amount * 2 ^ 64) liquidity false
        else price - divRounded (amount * 2 ^ 64) liquidity true) := by
  unfold Whirlpools.getNextSqrtPriceFromBRoundDown
  dsimp only
  rw [chainDivRoundUpIf_eq _ liquid, ok_bind]
  cases isIn with
  | true =>
      have moved := @divRounded_le _ _ false _ liquid covered
      rw [Bool.not_true]
      generalize divRounded (amount * 2 ^ 64) liquidity false = delta at moved ⊢
      rw [if_pos rfl] at inRange
      rw [if_pos rfl, if_pos rfl, if_pos (lt_of_le_of_lt (Nat.add_le_add_left moved _) inRange)]
  | false =>
      have moved := @divRounded_le _ _ true _ liquid covered
      rw [Bool.not_false]
      generalize divRounded (amount * 2 ^ 64) liquidity true = delta at moved ⊢
      rw [if_neg Bool.false_ne_true] at inRange
      rw [if_neg Bool.false_ne_true, if_neg Bool.false_ne_true, if_pos (moved.trans inRange)]

/-- Price moves by an amount of token B agree where the price does not move further than a
distance that keeps it in range. -/
theorem getNextSqrtPriceFromBRoundDown_agree {distance : ℕ} (liquid : liquidity ≠ 0)
    (covered : amount * 2 ^ 64 ≤ liquidity * distance)
    (inRange : if isIn then price + distance < 2 ^ 128 else distance ≤ price) :
    Agree SameNumber (Whirlpools.getNextSqrtPriceFromBRoundDown price liquidity amount isIn)
      (getNextSqrtPriceFromBRoundDown price liquidity amount isIn) := by
  rw [chainNextSqrtPriceFromB_eq liquid covered inRange]
  unfold getNextSqrtPriceFromBRoundDown
  have amountCast : (amount : ℤ) * 2 ^ 64 = ((amount * 2 ^ 64 : ℕ) : ℤ) := by push_cast; rfl
  dsimp only
  rw [amountCast, divRoundUpIf_eq _ _ liquid, ok_bind]
  cases isIn with
  | true =>
      rw [Bool.not_true]
      generalize divRounded (amount * 2 ^ 64) liquidity false = delta
      rw [if_pos rfl, if_pos rfl, ← Nat.cast_add]
      exact .ok rfl
  | false =>
      have moved := @divRounded_le _ _ true _ liquid covered
      rw [Bool.not_false]
      generalize divRounded (amount * 2 ^ 64) liquidity true = delta at moved ⊢
      rw [if_neg Bool.false_ne_true] at inRange
      rw [if_neg Bool.false_ne_true, if_neg Bool.false_ne_true,
        ← Nat.cast_sub (moved.trans inRange)]
      exact .ok rfl

end TokenMath

end Whirlpools.Sdk
