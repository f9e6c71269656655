import Whirlpools.Math.TickConversion
import Whirlpools.Sdk.PriceMath

/-! # Agreement of the conversions between ticks and prices

On the ticks and prices in range the SDK converts as the program does. Every number it passes
through a two's complement is within the width of that complement, so its shifts are those of the
signed numbers, and its loop over the bits of the logarithm keeps the variables of the program's.
-/

namespace Whirlpools.Sdk

open Outcome TwosComplement

section Shifts

variable {n : ℤ} {shiftBy bitWidth : ℕ}

/-- Where the product fits, the SDK's signed shift multiplies. -/
theorem signedShiftLeft_eq (wide : 0 < bitWidth) (least : -2 ^ (bitWidth - 1) ≤ n * 2 ^ shiftBy)
    (greatest : n * 2 ^ shiftBy < 2 ^ (bitWidth - 1)) :
    signedShiftLeft n shiftBy bitWidth = n * 2 ^ shiftBy :=
  fromTwos_shiftLeft wide least greatest

/-- Where the value fits, the SDK's signed shift divides, rounding down. -/
theorem signedShiftRight_eq (narrower : shiftBy < bitWidth) (least : -2 ^ (bitWidth - 1) ≤ n)
    (greatest : n < 2 ^ (bitWidth - 1)) : signedShiftRight n shiftBy bitWidth = n / 2 ^ shiftBy :=
  fromTwos_shiftRight narrower least greatest

/-- A right shift of a number of 255 bits. -/
theorem signedShiftRight_natCast {value : ℕ} (narrower : shiftBy < 256) (fits : value < 2 ^ 255) :
    signedShiftRight value shiftBy 256 = (value / 2 ^ shiftBy : ℕ) := by
  rw [signedShiftRight_eq narrower
    ((by decide : -2 ^ (256 - 1) ≤ (0 : ℤ)).trans (Nat.cast_nonneg _)) (by exact_mod_cast fits)]
  push_cast
  rfl

/-- An integer within the safe range converts to itself. -/
theorem toNumber_eq (least : -2 ^ 52 ≤ n) (greatest : n ≤ 2 ^ 52) : BN.toNumber n = .ok n :=
  if_pos (lt_of_le_of_lt (abs_le.mpr ⟨least, greatest⟩) (by decide))

end Shifts

section Ratios

/-- The SDK's ratios for positive ticks are those of the program. -/
theorem positiveRatios_eq : positiveRatios = positiveTickRatios.map (Nat.cast : ℕ → ℤ) := rfl

theorem negativeRatios_eq : negativeRatios = negativeTickRatios.map (Nat.cast : ℕ → ℤ) := rfl

variable {factors : List ℕ} {bit tick ratio : ℕ}

/-- The ratio of a positive tick, while the final ratio fits. -/
theorem mulRatios_positive (large : ∀ factor ∈ factors, 2 ^ 96 ≤ factor)
    (small : ∀ factor ∈ factors, factor < 2 ^ 127)
    (fits : mulTickRatios mulShift96 factors bit tick ratio < 2 ^ 128) :
    mulRatios 96 (factors.map Nat.cast) bit tick ratio =
      (mulTickRatios mulShift96 factors bit tick ratio : ℕ) := by
  induction factors generalizing bit ratio with
  | nil => rfl
  | cons factor factors ih =>
      have rest := fun other inside => large other (List.mem_cons_of_mem factor inside)
      have ratioFits := lt_of_le_of_lt (ratio_le_mulTickRatios large) fits
      have factorFits := small factor (List.mem_cons_self ..)
      have next := ih rest (fun other inside => small other (List.mem_cons_of_mem _ inside)) fits
      have product : ratio * factor < 2 ^ 255 := by
        calc ratio * factor < 2 ^ 128 * 2 ^ 127 := Nat.mul_lt_mul'' ratioFits factorFits
          _ = 2 ^ 255 := by decide
      rw [List.map_cons, mulRatios, mulTickRatios, ← next, ← Nat.cast_mul,
        signedShiftRight_natCast (by decide) product, mulShift96, Nat.cast_ite]

/-- The ratio of a negative tick is at most one. -/
theorem mulRatios_negative (small : ∀ factor ∈ factors, factor < 2 ^ 64) (fits : ratio ≤ 2 ^ 64) :
    mulRatios 64 (factors.map Nat.cast) bit tick ratio =
      (mulTickRatios mulShift64 factors bit tick ratio : ℕ) := by
  induction factors generalizing bit ratio with
  | nil => rfl
  | cons factor factors ih =>
      have factorFits := small factor (List.mem_cons_self ..)
      have rest := fun other inside => small other (List.mem_cons_of_mem factor inside)
      have product : ratio * factor ≤ 2 ^ 64 * 2 ^ 64 := Nat.mul_le_mul fits factorFits.le
      have nextFits : (if tick.testBit bit then mulShift64 ratio factor else ratio) ≤ 2 ^ 64 := by
        split_ifs
        · exact Nat.div_le_of_le_mul product
        · exact fits
      rw [List.map_cons, mulRatios, mulTickRatios, ← ih rest nextFits, ← Nat.cast_mul,
        signedShiftRight_natCast (by decide) (lt_of_le_of_lt product (by decide)), mulShift64,
        Nat.cast_ite]

/-- The SDK prices a tick in range as the program does. Tick zero, which the program takes for a
nonnegative tick and the SDK does not, has the price one on either path. -/
theorem tickIndexToSqrtPriceX64_eq {tick : ℤ} (below : tick ≤ maxTickIndex) :
    PriceMath.tickIndexToSqrtPriceX64 tick = (sqrtPriceFromTickIndex tick : ℕ) := by
  unfold PriceMath.tickIndexToSqrtPriceX64 sqrtPriceFromTickIndex
  rcases lt_trichotomy tick 0 with negative | zero | positive
  · rw [if_neg (not_lt.mpr negative.le), if_neg (not_le.mpr negative)]
    unfold tickIndexToSqrtPriceNegative getSqrtPriceNegativeTick
    dsimp only
    rw [negativeRatios_eq, ← mulRatios_negative (by decide) (by split_ifs <;> decide), Nat.cast_ite]
    rfl
  · rw [zero]
    decide +kernel
  · have fits := mulTickRatios_lt positive.le below
    rw [if_pos positive, if_pos positive.le]
    unfold tickIndexToSqrtPricePositive getSqrtPricePositiveTick
    dsimp only
    rw [positiveRatios_eq, ← signedShiftRight_natCast (by decide) (fits.trans (by decide)),
      ← mulRatios_positive (by decide) (by decide) fits, Nat.cast_ite]
    rfl

end Ratios

section Logarithm

/-- The variables of the program's loop as numbers of the SDK. -/
def ofLog2State (state : Log2State) : LogState :=
  ⟨state.r, state.bit, state.log2pFractionX64⟩

/-- One round of the SDK's logarithm is one of the program's. -/
theorem logStep_eq {state : Log2State} (mantissa : state.r < 2 ^ 64) :
    logStep (ofLog2State state) = .ok (ofLog2State (log2Step state)) := by
  have squared : state.r * state.r < 2 ^ 128 := by
    calc state.r * state.r < 2 ^ 64 * 2 ^ 64 := Nat.mul_lt_mul'' mantissa mantissa
      _ = 2 ^ 128 := by decide
  have more : BN.toNumber ((state.r : ℤ) * state.r / 2 ^ 127) =
      .ok ((state.r * state.r / 2 ^ 127 : ℕ) : ℤ) := by
    rw [← Nat.cast_mul]
    generalize state.r * state.r = square at squared ⊢
    have quotient : (square : ℤ) / 2 ^ 127 = (square / 2 ^ 127 : ℕ) := by
      push_cast
      rfl
    rw [quotient]
    exact toNumber_eq (by omega) (by omega)
  unfold logStep log2Step ofLog2State
  dsimp only
  rw [more, ok_bind]
  have exponent : ((63 : ℤ) + (state.r * state.r / 2 ^ 127 : ℕ)).toNat =
      63 + state.r * state.r / 2 ^ 127 := by omega
  rw [exponent]
  push_cast
  rfl

/-- The SDK's loop is the program's, by induction on the precision. -/
theorem logLoop_eq {precision : ℕ} {state : Log2State} (within : LogInRange precision state) :
    logLoop precision (ofLog2State state) = .ok (ofLog2State (log2Step^[precision] state)) := by
  induction precision generalizing state with
  | zero => rfl
  | succ precision ih =>
      obtain ⟨-, next⟩ := checkedLog2Step_eq within
      have positive : (ofLog2State state).bit > 0 := by
        change state.bit > 0
        rw [within.bit]
        positivity
      rw [logLoop, if_pos positive, logStep_eq within.mantissa, ok_bind,
        Function.iterate_succ_apply]
      exact ih next

/-- The SDK normalizes a price to the mantissa of the program. -/
theorem normalized_eq (price msb : ℕ) :
    (if (msb : ℤ) ≥ 64 then (price : ℤ) / 2 ^ (msb - 63 : ℤ).toNat
      else price * 2 ^ (63 - msb : ℤ).toNat) =
    (if msb ≥ 64 then price / 2 ^ (msb - 63) else price * 2 ^ (63 - msb) : ℕ) := by
  by_cases large : msb ≥ 64
  · have shift : (msb - 63 : ℤ).toNat = msb - 63 := by omega
    rw [if_pos large, if_pos (by omega), shift]
    push_cast
    rfl
  · have shift : (63 - msb : ℤ).toNat = 63 - msb := by omega
    rw [if_neg large, if_neg (by omega), shift]
    push_cast
    rfl

/-- A coordinate that is not far from zero is shifted down to a tick. -/
theorem candidate_eq {place : ℤ} (least : -2 ^ 100 ≤ place) (greatest : place ≤ 2 ^ 100) :
    BN.toNumber (signedShiftRight place 64 128) = .ok (place / 2 ^ 64) := by
  rw [signedShiftRight_eq (by decide) (by omega) (by omega)]
  exact toNumber_eq (by omega) (by omega)

/-- The SDK finds the tick of a price in range that the program finds. -/
theorem sqrtPriceX64ToTickIndex_eq {price : ℕ} (above : minSqrtPriceX64 ≤ price)
    (below : price ≤ maxSqrtPriceX64) :
    PriceMath.sqrtPriceX64ToTickIndex price = .ok (tickIndexFromSqrtPrice price) := by
  have nonzero : price ≠ 0 := (lt_of_lt_of_le minSqrtPrice_pos above).ne'
  have inRange : ¬ ((price : ℤ) > maxSqrtPrice ∨ (price : ℤ) < minSqrtPrice) := by
    have greatest : (price : ℤ) ≤ maxSqrtPrice := Nat.cast_le.mpr below
    have least : minSqrtPrice ≤ (price : ℤ) := Nat.cast_le.mpr above
    exact not_or.mpr ⟨not_lt.mpr greatest, not_lt.mpr least⟩
  obtain ⟨msbBound, -, mantissa⟩ :=
    mantissa_lt nonzero (lt_of_le_of_lt below (maxSqrtPrice_lt.trans (by decide)))
  obtain ⟨tickLow, low_eq⟩ :
      ∃ tick, (log2pX32 price * Whirlpools.logB2X32 - Whirlpools.logBPErrMarginLowerX64) / 2 ^ 64
        = tick := ⟨_, rfl⟩
  obtain ⟨tickHigh, high_eq⟩ :
      ∃ tick, (log2pX32 price * Whirlpools.logB2X32 + Whirlpools.logBPErrMarginUpperX64) / 2 ^ 64
        = tick := ⟨_, rfl⟩
  obtain ⟨order, lowRange, highRange, -⟩ := tickCandidates_spec above below low_eq high_eq
  have msb_eq : (BN.bitLength price - 1 : ℤ) = price.log2 := by
    rw [BN.bitLength, if_neg (Nat.cast_ne_zero.mpr nonzero), Int.toNat_natCast, Nat.cast_succ,
      add_sub_cancel_right]
  unfold PriceMath.sqrtPriceX64ToTickIndex tickIndexFromSqrtPrice
  unfold log2pX32 at low_eq high_eq ⊢
  dsimp only at low_eq high_eq ⊢
  rw [if_neg inRange, msb_eq, normalized_eq]
  generalize price.log2 = msb at *
  have shifted : signedShiftLeft ((msb : ℤ) - 64) 32 128 = ((msb : ℤ) - 64) * 2 ^ 32 :=
    signedShiftLeft_eq (by decide) (by omega) (by omega)
  generalize (if msb ≥ 64 then price / 2 ^ (msb - 63) else price * 2 ^ (63 - msb)) = r at *
  have within : LogInRange bitPrecision ⟨r, 0x8000000000000000, 0⟩ :=
    ⟨mantissa, rfl, le_rfl, by norm_num⟩
  have looped := logLoop_eq within
  obtain ⟨-, final⟩ := checkedLog2Loop_eq within
  rw [shifted, show (⟨r, 0x8000000000000000, 0⟩ : LogState) =
    ofLog2State ⟨r, 0x8000000000000000, 0⟩ from rfl, looped, ok_bind]
  rw [show bitPrecision = Whirlpools.bitPrecision from rfl] at final ⊢
  generalize log2Step^[Whirlpools.bitPrecision] ⟨r, 0x8000000000000000, 0⟩ = state at *
  obtain ⟨least, greatest⟩ := final.log2p_bounds msbBound
  unfold ofLog2State
  dsimp only
  rw [show logB2X32 = Whirlpools.logB2X32 from rfl,
    show logBPErrMarginLowerX64 = Whirlpools.logBPErrMarginLowerX64 from rfl,
    show logBPErrMarginUpperX64 = Whirlpools.logBPErrMarginUpperX64 from rfl]
  generalize ((msb : ℤ) - 64) * 2 ^ 32 + state.log2pFractionX64 / 2 ^ 32 = log2p at *
  unfold Whirlpools.logB2X32 Whirlpools.logBPErrMarginLowerX64 at *
  unfold Whirlpools.logBPErrMarginUpperX64 at *
  rw [candidate_eq (by omega) (by omega), ok_bind, low_eq, candidate_eq (by omega) (by omega),
    ok_bind, high_eq, tickIndexToSqrtPriceX64_eq highRange.2]
  simp only [Nat.cast_le]

end Logarithm

/-- The SDK and the program convert ticks and prices in range identically: the price of every tick
in range and the tick of every price in range are the same, and neither side fails. -/
theorem priceMath_agree :
    (∀ tick, minTickIndex ≤ tick → tick ≤ maxTickIndex →
      ∃ price : ℕ, checkedSqrtPriceFromTickIndex tick = .ok price ∧
        PriceMath.tickIndexToSqrtPriceX64 tick = price) ∧
    ∀ price : ℕ, minSqrtPriceX64 ≤ price → price ≤ maxSqrtPriceX64 →
      ∃ tick, checkedTickIndexFromSqrtPrice price = .ok tick ∧
        PriceMath.sqrtPriceX64ToTickIndex price = .ok tick := by
  constructor
  · intro tick _ below
    exact ⟨_, checkedSqrtPriceFromTickIndex_eq below, tickIndexToSqrtPriceX64_eq below⟩
  · intro price above below
    exact ⟨_, checkedTickIndexFromSqrtPrice_eq above below, sqrtPriceX64ToTickIndex_eq above below⟩

/-- The price just below one has a negative logarithm; the program finds the tick the SDK finds,
and prices it alike. -/
theorem priceMath_agree_negative :
    checkedSqrtPriceFromTickIndex (-1) = .ok 18445821805675392311 ∧
      checkedTickIndexFromSqrtPrice (2 ^ 64 - 1) = .ok (-1) := by
  obtain ⟨price, chainPrice, sdkPrice⟩ := priceMath_agree.1 (-1) (by decide) (by decide)
  obtain ⟨tick, chainTick, sdkTick⟩ := priceMath_agree.2 (2 ^ 64 - 1) (by decide) (by decide)
  have value : PriceMath.tickIndexToSqrtPriceX64 (-1) = 18445821805675392311 := by decide +kernel
  have found : PriceMath.sqrtPriceX64ToTickIndex (2 ^ 64 - 1) = .ok (-1) :=
    eq_of_beq (by decide +kernel)
  constructor
  · rw [chainPrice, Nat.cast_injective (sdkPrice.symm.trans value)]
  · rw [chainTick, Except.ok.inj (sdkTick.symm.trans found)]

end Whirlpools.Sdk
