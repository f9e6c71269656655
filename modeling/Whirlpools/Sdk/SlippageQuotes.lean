import Whirlpools.Accounting.TokenDeltas
import Whirlpools.Sdk.DecreaseLiquidityQuote
import Whirlpools.Sdk.DepositQuote

/-! # Price-slippage quotes are sound

The estimates of the SDK at a price are the rounded exact amounts with the price clamped to the
range, and so are the amounts the program moves while its tick and price fit together. These amounts
are monotone in the price, so that the quotes at both ends of the slippage bound all in between.
-/

namespace Whirlpools.Sdk

open Outcome Rounding Book

section Estimates

variable (math : MathUtil) {lower upper : ℕ}

/-- A quotient rounded up to an integer is the ceiling of the exact one. -/
theorem ceilDiv_eq_ceil (numerator : ℕ) {denominator : ℕ} (positive : 0 < denominator) :
    numerator ⌈/⌉ denominator = ⌈(numerator : ℚ) / denominator⌉₊ := by
  have divisor : (0 : ℚ) < denominator := Nat.cast_pos.mpr positive
  refine eq_of_forall_ge_iff fun bound => ?_
  rw [ceilDiv_le_iff_le_mul positive, Nat.ceil_le, div_le_iff₀ divisor, ← Nat.cast_mul,
    Nat.cast_le, Nat.mul_comm]

/-- The amount of token A of a liquidity is the exact amount, rounded. -/
theorem getTokenAFromLiquidity_rounded (positive : 0 < lower) (ordered : lower < upper)
    (liquidity : ℕ) (roundUp : Bool) :
    getTokenAFromLiquidity math liquidity lower upper roundUp =
      .ok (roundTo roundUp (amountA liquidity lower upper) : ℕ) := by
  have exact := @amountA_eq_div liquidity lower upper positive (positive.trans ordered)
  rw [max_eq_right ordered.le, min_eq_left ordered.le] at exact
  have denominator : 0 < upper * lower := Nat.mul_pos (positive.trans ordered) positive
  have numerator : (liquidity : ℤ) * (upper - lower) * 2 ^ 64 =
      (liquidity * (upper - lower) * 2 ^ 64 : ℕ) := by
    rw [← Nat.cast_sub ordered.le]
    push_cast
    rfl
  unfold getTokenAFromLiquidity orderSqrtPrice
  rw [if_pos (Nat.cast_lt.mpr ordered)]
  dsimp only
  rw [numerator, ← Nat.cast_mul, exact]
  cases roundUp with
  | true =>
      rw [if_pos rfl, math.divRoundUp_eq _ _ (Nat.cast_nonneg _) (Nat.cast_pos.mpr denominator),
        Int.toNat_natCast, Int.toNat_natCast, ceilDiv_eq_ceil _ denominator]
      rfl
  | false =>
      unfold BN.div
      rw [if_neg (by decide), if_neg (Nat.cast_ne_zero.mpr denominator.ne'), ← Int.ofNat_tdiv,
        roundTo_false, Nat.floor_div_eq_div]

/-- The amount of token B of a liquidity is the exact amount, rounded. -/
theorem getTokenBFromLiquidity_rounded (ordered : lower < upper) (liquidity : ℕ) (roundUp : Bool) :
    getTokenBFromLiquidity math liquidity lower upper roundUp =
      (roundTo roundUp (amountB liquidity lower upper) : ℕ) := by
  have exact := amountB_eq_div liquidity lower upper
  rw [max_eq_right ordered.le, min_eq_left ordered.le] at exact
  have result : (liquidity : ℤ) * (upper - lower) = (liquidity * (upper - lower) : ℕ) := by
    rw [← Nat.cast_sub ordered.le, Nat.cast_mul]
  unfold getTokenBFromLiquidity orderSqrtPrice
  rw [if_pos (Nat.cast_lt.mpr ordered)]
  dsimp only
  rw [result, exact]
  cases roundUp with
  | true =>
      rw [if_pos rfl, math.shiftRightRoundUp_eq _ (Nat.cast_nonneg _), Int.toNat_natCast,
        ceilDiv_eq_ceil _ (by norm_num)]
      rfl
  | false =>
      rw [if_neg (by decide), roundTo_false, Nat.floor_div_eq_div]
      push_cast
      rfl

end Estimates

section Range

variable {lower upper : ℕ}

/-- The rounded amount of token A of a liquidity at a price clamped to a range. -/
def roundedA (roundUp : Bool) (liquidity lower upper price : ℕ) : ℕ :=
  roundTo roundUp (amountA liquidity (clamp lower upper price) upper)

/-- The rounded amount of token B of a liquidity at a price clamped to a range. -/
def roundedB (roundUp : Bool) (liquidity lower upper price : ℕ) : ℕ :=
  roundTo roundUp (amountB liquidity lower (clamp lower upper price))

/-- A higher price takes no more of token A. -/
theorem roundedA_anti (roundUp : Bool) (liquidity : ℕ) (positive : 0 < lower)
    (ordered : lower ≤ upper) {price other : ℕ} (below : price ≤ other) :
    roundedA roundUp liquidity lower upper other ≤ roundedA roundUp liquidity lower
      upper price := by
  refine roundTo_mono roundUp ?_
  rw [amountA_of_le (clamp_le ordered), amountA_of_le (clamp_le ordered)]
  have coordinate := coordA_le (lt_of_lt_of_le positive le_clamp)
    (@clamp_mono _ _ lower upper _ _ below)
  exact mul_le_mul_of_nonneg_left (by linarith) (Nat.cast_nonneg _)

/-- A higher price takes no less of token B. -/
theorem roundedB_mono (roundUp : Bool) (liquidity : ℕ) {price other : ℕ} (below : price ≤ other) :
    roundedB roundUp liquidity lower upper price ≤ roundedB roundUp liquidity lower
      upper other := by
  refine roundTo_mono roundUp ?_
  rw [amountB_of_le le_clamp, amountB_of_le le_clamp]
  have coordinate := coordB_le (@clamp_mono _ _ lower upper _ _ below)
  exact mul_le_mul_of_nonneg_left (by linarith) (Nat.cast_nonneg _)

theorem roundedA_of_ge (roundUp : Bool) (liquidity : ℕ) {price : ℕ} (ordered : lower ≤ upper)
    (above : upper ≤ price) : roundedA roundUp liquidity lower upper price = 0 := by
  unfold roundedA
  rw [clamp_of_ge above ordered, amountA_of_le le_rfl, sub_self, mul_zero, roundTo_zero]

theorem roundedB_of_le (roundUp : Bool) (liquidity : ℕ) {price : ℕ} (ordered : lower ≤ upper)
    (below : price ≤ lower) : roundedB roundUp liquidity lower upper price = 0 := by
  unfold roundedB
  rw [clamp_of_le below ordered, amountB_of_le le_rfl, sub_self, mul_zero, roundTo_zero]

end Range

section Quotes

variable (math : MathUtil) (tickLowerIndex tickUpperIndex : ℤ)

/-- A range of ticks that positions can have. -/
structure PositionRange : Prop where
  lower : minTickIndex ≤ tickLowerIndex
  ordered : tickLowerIndex < tickUpperIndex
  upper : tickUpperIndex ≤ maxTickIndex

variable {tickLowerIndex tickUpperIndex}

/-- The bounds of a position have positive prices in order. -/
theorem PositionRange.prices (range : PositionRange tickLowerIndex tickUpperIndex) :
    0 < sqrtPriceFromTickIndex tickLowerIndex ∧
      sqrtPriceFromTickIndex tickLowerIndex < sqrtPriceFromTickIndex tickUpperIndex := by
  refine ⟨?_, sqrtPriceFromTickIndex_lt range.lower range.ordered range.upper⟩
  rw [← tickPrice_of_range range.lower (range.ordered.le.trans range.upper)]
  exact tickPrice_pos _

/-- The amounts that the SDK computes in its three cases are those at the clamped price. -/
theorem strictStatus_amounts (range : PositionRange tickLowerIndex tickUpperIndex)
    (price liquidity : ℕ) (roundUp : Bool) :
    let lower := sqrtPriceFromTickIndex tickLowerIndex
    let upper := sqrtPriceFromTickIndex tickUpperIndex
    let tokenA := roundedA roundUp liquidity lower upper price
    let tokenB := roundedB roundUp liquidity lower upper price
    match PositionUtil.getStrictPositionStatus price tickLowerIndex tickUpperIndex with
    | .belowRange => getTokenAFromLiquidity math liquidity lower upper roundUp = .ok (tokenA : ℤ) ∧
        tokenB = 0
    | .inRange => getTokenAFromLiquidity math liquidity price upper roundUp = .ok (tokenA : ℤ) ∧
        getTokenBFromLiquidity math liquidity lower price roundUp = (tokenB : ℤ)
    | .aboveRange => tokenA = 0 ∧
        getTokenBFromLiquidity math liquidity lower upper roundUp = (tokenB : ℤ) := by
  obtain ⟨positive, ordered⟩ := range.prices
  unfold PositionUtil.getStrictPositionStatus
  rw [tickIndexToSqrtPriceX64_eq (range.ordered.le.trans range.upper),
    tickIndexToSqrtPriceX64_eq range.upper]
  dsimp only
  generalize sqrtPriceFromTickIndex tickLowerIndex = lower at positive ordered ⊢
  generalize sqrtPriceFromTickIndex tickUpperIndex = upper at ordered ⊢
  by_cases below : price ≤ lower
  · rw [if_pos (Nat.cast_le.mpr below)]
    refine ⟨?_, roundedB_of_le roundUp liquidity ordered.le below⟩
    rw [getTokenAFromLiquidity_rounded math positive ordered, roundedA,
      clamp_of_le below ordered.le]
  · rw [if_neg (fun least => below (Nat.cast_le.mp least))]
    by_cases above : upper ≤ price
    · rw [if_pos (Nat.cast_le.mpr above)]
      refine ⟨roundedA_of_ge roundUp liquidity ordered.le above, ?_⟩
      rw [getTokenBFromLiquidity_rounded math ordered, roundedB, clamp_of_ge above ordered.le]
    · rw [if_neg (fun most => above (Nat.cast_le.mp most))]
      rw [not_le] at below above
      refine ⟨?_, ?_⟩
      · rw [getTokenAFromLiquidity_rounded math (positive.trans below) above, roundedA,
          clamp_of_mem below.le above.le]
      · rw [getTokenBFromLiquidity_rounded math below, roundedB, clamp_of_mem below.le above.le]

/-- The estimates of a deposit, rounded up. -/
theorem increaseEstimates_eq {params : IncreaseLiquidityQuoteByLiquidityParam}
    (range : PositionRange params.tickLowerIndex params.tickUpperIndex) {price liquidity : ℕ}
    (priced : params.sqrtPrice = price) (amount : params.liquidity = liquidity)
    (nonzero : liquidity ≠ 0) :
    let lower := sqrtPriceFromTickIndex params.tickLowerIndex
    let upper := sqrtPriceFromTickIndex params.tickUpperIndex
    getTokenEstimatesFromLiquidity math params =
      .ok ⟨(roundedA true liquidity lower upper price : ℕ),
        (roundedB true liquidity lower upper price : ℕ)⟩ := by
  have amounts := strictStatus_amounts math range price liquidity true
  unfold getTokenEstimatesFromLiquidity
  rw [if_neg (amount ▸ Nat.cast_ne_zero.mpr nonzero), priced, amount,
    tickIndexToSqrtPriceX64_eq (range.ordered.le.trans range.upper),
    tickIndexToSqrtPriceX64_eq range.upper]
  cases status : PositionUtil.getStrictPositionStatus price params.tickLowerIndex
    params.tickUpperIndex with
  | belowRange =>
      simp only [status] at amounts ⊢
      rw [amounts.1, amounts.2, ok_bind, Nat.cast_zero]
  | inRange =>
      simp only [status] at amounts ⊢
      rw [amounts.1, amounts.2, ok_bind]
  | aboveRange =>
      simp only [status] at amounts ⊢
      rw [amounts.1, amounts.2, Nat.cast_zero]

/-- The estimates of a withdrawal, rounded down. -/
theorem decreaseEstimates_eq {params : DecreaseLiquidityQuoteParam}
    (range : PositionRange params.tickLowerIndex params.tickUpperIndex) {price liquidity : ℕ}
    (priced : params.sqrtPrice = price) (amount : params.liquidity = liquidity)
    (nonzero : liquidity ≠ 0) :
    let lower := sqrtPriceFromTickIndex params.tickLowerIndex
    let upper := sqrtPriceFromTickIndex params.tickUpperIndex
    params.getTokenEstimatesFromLiquidity math =
      .ok ⟨(roundedA false liquidity lower upper price : ℕ),
        (roundedB false liquidity lower upper price : ℕ)⟩ := by
  have amounts := strictStatus_amounts math range price liquidity false
  unfold DecreaseLiquidityQuoteParam.getTokenEstimatesFromLiquidity
  rw [if_neg (amount ▸ Nat.cast_ne_zero.mpr nonzero), priced, amount,
    tickIndexToSqrtPriceX64_eq (range.ordered.le.trans range.upper),
    tickIndexToSqrtPriceX64_eq range.upper]
  cases status : PositionUtil.getStrictPositionStatus price params.tickLowerIndex
    params.tickUpperIndex with
  | belowRange =>
      simp only [status] at amounts ⊢
      rw [amounts.1, amounts.2, ok_bind, Nat.cast_zero]
  | inRange =>
      simp only [status] at amounts ⊢
      rw [amounts.1, amounts.2, ok_bind]
  | aboveRange =>
      simp only [status] at amounts ⊢
      rw [amounts.1, amounts.2, Nat.cast_zero]

/-- Neither mint of a pool takes a fee of a transfer. -/
def TokenExtensionContextForPool.WithoutTransferFee (context : TokenExtensionContextForPool) :
    Prop :=
  ∀ fee, context.tokenMintWithProgramA = some fee ∨ context.tokenMintWithProgramB = some fee →
    fee.transferFeeBasisPoints = 0

/-- Without a fee, what is sent is what arrives. -/
theorem included_of_free {tokenInfo : Option TransferFee} (amount : BN)
    (free : ∀ fee, tokenInfo = some fee → fee.transferFeeBasisPoints = 0) :
    TokenExtensionUtil.calculateTransferFeeIncludedAmount amount tokenInfo = .ok ⟨amount, 0⟩ := by
  cases tokenInfo with
  | none => rfl
  | some fee => exact if_pos (free fee rfl)

/-- Without a fee, what arrives is what is sent. -/
theorem excluded_of_free (spl : SplToken) {tokenInfo : Option TransferFee} {amount : BN}
    (nonneg : 0 ≤ amount) (free : ∀ fee, tokenInfo = some fee → fee.transferFeeBasisPoints = 0) :
    TokenExtensionUtil.calculateTransferFeeExcludedAmount spl amount tokenInfo = ⟨amount, 0⟩ := by
  cases tokenInfo with
  | none => rfl
  | some fee =>
      have nothing : spl.calculateFee fee amount = 0 := by
        rw [spl.calculateFee_eq fee amount nonneg, free fee rfl, Nat.mul_zero, zero_ceilDiv,
          Nat.zero_min, Nat.cast_zero]
      unfold TokenExtensionUtil.calculateTransferFeeExcludedAmount
        calculateTransferFeeExcludedAmount
      dsimp only
      rw [nothing, sub_zero]

/-- The bounds of a slippage are supported prices. -/
theorem slippageBound_cast {decimal : DecimalMath} {sqrtPrice : BN} {slippage : Percentage}
    {lowest highest : BN × ℤ}
    (bounded : PriceMath.getSlippageBoundForSqrtPrice decimal sqrtPrice slippage =
      .ok (lowest, highest)) : ∃ least most : ℕ, lowest.1 = least ∧ highest.1 = most := by
  have supported (price : BN) : ∃ natural : ℕ,
      min (max price minSqrtPrice) maxSqrtPrice = natural :=
    Int.eq_ofNat_of_zero_le (le_min (le_max_of_le_right (by decide)) (by decide))
  unfold PriceMath.getSlippageBoundForSqrtPrice at bounded
  obtain ⟨lowerTick, -, bounded⟩ := bind_eq_ok.mp bounded
  obtain ⟨upperTick, -, bounded⟩ := bind_eq_ok.mp bounded
  obtain ⟨rfl, rfl⟩ := Prod.mk.inj (Except.ok.inj bounded)
  obtain ⟨least, lower⟩ := supported (decimal.mulSqrtRatio sqrtPrice
    (slippage.denominator - slippage.numerator) slippage.denominator)
  obtain ⟨most, upper⟩ := supported (decimal.mulSqrtRatio sqrtPrice
    (slippage.denominator + slippage.numerator) slippage.denominator)
  exact ⟨least, most, lower, upper⟩

section Quoted

variable {decimal : DecimalMath} {slippage : Percentage} {context : TokenExtensionContextForPool}
  {liquidity price least most : ℕ} {leastTick mostTick quoteTick : ℤ}
  (range : PositionRange tickLowerIndex tickUpperIndex)
  (bounds : PriceMath.getSlippageBoundForSqrtPrice decimal price slippage =
    .ok ((least, leastTick), (most, mostTick)))
  (free : context.WithoutTransferFee) (nonzero : liquidity ≠ 0)
include range bounds free nonzero

/-- The deposit quote holds the estimates, and the largest ones of the three prices. -/
theorem increaseQuote_eq :
    ∃ quote, increaseLiquidityQuoteByLiquidityWithParams math decimal ⟨liquidity, quoteTick, price,
        tickLowerIndex, tickUpperIndex, context, slippage⟩ = .ok quote ∧
      let lower := sqrtPriceFromTickIndex tickLowerIndex
      let upper := sqrtPriceFromTickIndex tickUpperIndex
      quote.tokenEstA = roundedA true liquidity lower upper price ∧
      quote.tokenEstB = roundedB true liquidity lower upper price ∧
      (roundedA true liquidity lower upper least : ℤ) ≤ quote.tokenMaxA ∧
      (roundedB true liquidity lower upper most : ℤ) ≤ quote.tokenMaxB := by
  have freeA := fun fee given => free fee (.inl given)
  have freeB := fun fee given => free fee (.inr given)
  unfold increaseLiquidityQuoteByLiquidityWithParams
  rw [if_neg (Nat.cast_ne_zero.mpr nonzero)]
  rw [increaseEstimates_eq math range rfl rfl nonzero, ok_bind]
  dsimp only
  rw [bounds, ok_bind]
  dsimp only
  rw [@increaseEstimates_eq math ⟨liquidity, leastTick, least, tickLowerIndex, tickUpperIndex,
      context, slippage⟩ range _ _ rfl rfl nonzero, ok_bind,
    @increaseEstimates_eq math ⟨liquidity, mostTick, most, tickLowerIndex, tickUpperIndex,
      context, slippage⟩ range _ _ rfl rfl nonzero, ok_bind]
  dsimp only
  rw [included_of_free _ freeA, ok_bind, included_of_free _ freeA, ok_bind,
    included_of_free _ freeB, ok_bind, included_of_free _ freeB, ok_bind]
  exact ⟨_, rfl, rfl, rfl, le_max_of_le_left (le_max_right _ _), le_max_right _ _⟩

/-- The withdrawal quote holds the estimates, and the smallest ones of the three prices. -/
theorem decreaseQuote_eq (spl : SplToken) :
    ∃ quote, decreaseLiquidityQuoteByLiquidityWithParamsUsingPriceSlippage math spl decimal
        ⟨liquidity, quoteTick, price, tickLowerIndex, tickUpperIndex, context, slippage⟩ =
          .ok quote ∧
      let lower := sqrtPriceFromTickIndex tickLowerIndex
      let upper := sqrtPriceFromTickIndex tickUpperIndex
      quote.tokenEstA = roundedA false liquidity lower upper price ∧
      quote.tokenEstB = roundedB false liquidity lower upper price ∧
      quote.tokenMinA ≤ (roundedA false liquidity lower upper most : ℤ) ∧
      quote.tokenMinB ≤ (roundedB false liquidity lower upper least : ℤ) := by
  have freeA := fun fee given => free fee (.inl given)
  have freeB := fun fee given => free fee (.inr given)
  unfold decreaseLiquidityQuoteByLiquidityWithParamsUsingPriceSlippage
  rw [if_neg (Nat.cast_ne_zero.mpr nonzero)]
  rw [decreaseEstimates_eq math range rfl rfl nonzero, ok_bind]
  dsimp only
  rw [bounds, ok_bind]
  dsimp only
  rw [@decreaseEstimates_eq math ⟨liquidity, leastTick, least, tickLowerIndex, tickUpperIndex,
      context, slippage⟩ range _ _ rfl rfl nonzero, ok_bind,
    @decreaseEstimates_eq math ⟨liquidity, mostTick, most, tickLowerIndex, tickUpperIndex,
      context, slippage⟩ range _ _ rfl rfl nonzero, ok_bind]
  dsimp only
  have minimum (first second third : ℕ) : (0 : ℤ) ≤ min (min (first : ℤ) second) third :=
    le_min (le_min (Nat.cast_nonneg _) (Nat.cast_nonneg _)) (Nat.cast_nonneg _)
  rw [excluded_of_free spl (minimum _ _ _) freeA, excluded_of_free spl (Nat.cast_nonneg _) freeA,
    excluded_of_free spl (minimum _ _ _) freeB, excluded_of_free spl (Nat.cast_nonneg _) freeB]
  exact ⟨_, rfl, rfl, rfl, min_le_right _ _, min_le_of_left_le (min_le_right _ _)⟩

end Quoted

/-- What the program moves is the rounded amount at the clamped price. -/
theorem tokenDeltas_rounded {m : Machine} {position : Position}
    (range : PositionRange position.tickLowerIndex position.tickUpperIndex) {price : ℕ} {tick : ℤ}
    (place : PriceTick price tick) {liquidityDelta : ℤ} (bounded : liquidityDelta.natAbs < 2 ^ 128)
    {deltaA deltaB : ℕ}
    (returned : calculateLiquidityTokenDeltas m tick price position liquidityDelta =
      .ok (deltaA, deltaB)) :
    let lower := sqrtPriceFromTickIndex position.tickLowerIndex
    let upper := sqrtPriceFromTickIndex position.tickUpperIndex
    deltaA = roundedA (liquidityDelta > 0) liquidityDelta.natAbs lower upper price ∧
      deltaB = roundedB (liquidityDelta > 0) liquidityDelta.natAbs lower upper price := by
  have usable {index : ℤ} (above : minTickIndex ≤ index) (below : index ≤ maxTickIndex) :
      Tick.checkIsUsableTick index 1 = true := by
    have inBounds : ¬ Tick.checkIsOutOfBounds index = true := by
      unfold Tick.checkIsOutOfBounds
      rw [decide_eq_true_eq]
      omega
    unfold Tick.checkIsUsableTick
    rw [if_neg inBounds, Nat.cast_one, Int.tmod_one]
    rfl
  have wellFormed :
    position.WellFormed 1 :=
      ⟨usable range.lower (range.ordered.le.trans range.upper),
        usable (range.lower.trans range.ordered.le) range.upper, range.ordered⟩
  rw [calculateLiquidityTokenDeltas_eq place wellFormed bounded] at returned
  have amounts := clampedTokenDeltas_eq_ok wellFormed bounded returned
  exact ⟨amounts true, amounts false⟩

/-- What the program moves at a price between the bounds is bounded by the quotes. -/
theorem slippageQuotes_sound (spl : SplToken) (decimal : DecimalMath) (m : Machine)
    (range : PositionRange tickLowerIndex tickUpperIndex) {slippage : Percentage}
    {context : TokenExtensionContextForPool} (free : context.WithoutTransferFee)
    {quotePrice : BN} {lowest highest : BN × ℤ}
    (bounds : PriceMath.getSlippageBoundForSqrtPrice decimal quotePrice slippage =
      .ok (lowest, highest))
    (quoted : lowest.1 ≤ quotePrice ∧ quotePrice ≤ highest.1) (quoteTick : ℤ) {position : Position}
    (lower : position.tickLowerIndex = tickLowerIndex)
    (upper : position.tickUpperIndex = tickUpperIndex) {price : ℕ} {tick : ℤ}
    (place : PriceTick price tick) (within : lowest.1 ≤ price ∧ price ≤ highest.1) {liquidity : ℕ}
    (bounded : liquidity < 2 ^ 127) {deltaA deltaB : ℕ} :
    (calculateLiquidityTokenDeltas m tick price position liquidity = .ok (deltaA, deltaB) →
      ∃ quote, increaseLiquidityQuoteByLiquidityWithParams math decimal ⟨liquidity, quoteTick,
          quotePrice, tickLowerIndex, tickUpperIndex, context, slippage⟩ = .ok quote ∧
        (deltaA ≤ quote.tokenMaxA ∧ deltaB ≤ quote.tokenMaxB) ∧
        (price = quotePrice → deltaA = quote.tokenEstA ∧ deltaB = quote.tokenEstB)) ∧
    (calculateLiquidityTokenDeltas m tick price position (-liquidity) = .ok (deltaA, deltaB) →
      ∃ quote, decreaseLiquidityQuoteByLiquidityWithParamsUsingPriceSlippage math spl decimal
          ⟨liquidity, quoteTick, quotePrice, tickLowerIndex, tickUpperIndex, context, slippage⟩ =
            .ok quote ∧
        (quote.tokenMinA ≤ deltaA ∧ quote.tokenMinB ≤ deltaB) ∧
        (price = quotePrice → deltaA = quote.tokenEstA ∧ deltaB = quote.tokenEstB)) := by
  obtain ⟨least, most, lowestEq, highestEq⟩ := slippageBound_cast bounds
  obtain ⟨lowest, lowestTick⟩ := lowest
  obtain ⟨highest, highestTick⟩ := highest
  dsimp only at lowestEq highestEq quoted within
  subst lowestEq highestEq lower upper
  obtain ⟨quotedPrice, rfl⟩ := Int.eq_ofNat_of_zero_le ((Nat.cast_nonneg least).trans quoted.1)
  have aboveLeast : least ≤ price := Nat.cast_le.mp within.1
  have belowMost : price ≤ most := Nat.cast_le.mp within.2
  obtain ⟨positive, ordered⟩ := range.prices
  constructor
  · intro returned
    have nonzero : liquidity ≠ 0 := by
      rintro rfl
      exact nomatch (if_pos rfl).symm.trans returned
    have up : decide ((liquidity : ℤ) > 0) = true :=
      decide_eq_true (Nat.cast_pos.mpr (Nat.pos_of_ne_zero nonzero))
    obtain ⟨rfl, rfl⟩ := tokenDeltas_rounded range place (by omega) returned
    rw [up, Int.natAbs_natCast]
    obtain ⟨quote, quoteEq, estA, estB, maxA, maxB⟩ :=
      increaseQuote_eq math range bounds free nonzero
    refine ⟨quote, quoteEq, ⟨?_, ?_⟩, ?_⟩
    · exact le_trans (Nat.cast_le.mpr (roundedA_anti _ _ positive ordered.le aboveLeast)) maxA
    · exact le_trans (Nat.cast_le.mpr (roundedB_mono _ _ belowMost)) maxB
    · intro same
      rw [Nat.cast_inj.mp same]
      exact ⟨estA.symm, estB.symm⟩
  · intro returned
    have nonzero : liquidity ≠ 0 := by
      rintro rfl
      exact nomatch (if_pos rfl).symm.trans returned
    have down : decide (-(liquidity : ℤ) > 0) = false := decide_eq_false (by omega)
    obtain ⟨rfl, rfl⟩ := tokenDeltas_rounded range place (by omega) returned
    rw [down, Int.natAbs_neg, Int.natAbs_natCast]
    obtain ⟨quote, quoteEq, estA, estB, minA, minB⟩ :=
      decreaseQuote_eq math range bounds free nonzero spl
    refine ⟨quote, quoteEq, ⟨?_, ?_⟩, ?_⟩
    · exact le_trans minA (Nat.cast_le.mpr (roundedA_anti _ _ positive ordered.le belowMost))
    · exact le_trans minB (Nat.cast_le.mpr (roundedB_mono _ _ aboveLeast))
    · intro same
      rw [Nat.cast_inj.mp same]
      exact ⟨estA.symm, estB.symm⟩

end Quotes

/-- The movement of a price, computed with integers and rounded down. -/
def DecimalMath.floored : DecimalMath where
  mulSqrtRatio := fun price numerator denominator =>
    Nat.sqrt (price.toNat ^ 2 * numerator.toNat / denominator.toNat)

/-- An empty position around the price one. -/
def positionAroundOne : Position :=
  ⟨0, 0, -128, 128, 0, 0, 0, 0, fun _ => ⟨0, 0⟩⟩

/-- A deposit quoted at the price one with a slippage of 1% pays at the price of the tick 50, whose
tick is still 49. -/
theorem slippageQuotes_sound_fifty : ∃ deltas quote,
    calculateLiquidityTokenDeltas (.exact false) 49 (sqrtPriceFromTickIndex 50) positionAroundOne
      1000000 = .ok deltas ∧
    increaseLiquidityQuoteByLiquidityWithParams .formulas .floored ⟨1000000, 0, 2 ^ 64, -128, 128,
      ⟨none, none⟩, ⟨1, 100⟩⟩ = .ok quote ∧
    (deltas.1 ≤ quote.tokenMaxA ∧ deltas.2 ≤ quote.tokenMaxB) := by
  obtain ⟨deltas, returned, -⟩ := yields_iff.mp
    (by decide +kernel : yields (calculateLiquidityTokenDeltas (.exact false) 49
      (sqrtPriceFromTickIndex 50) positionAroundOne 1000000) (fun _ => true) = true)
  obtain ⟨bounds, bounded, within⟩ := yields_iff.mp
    (by decide +kernel : yields (PriceMath.getSlippageBoundForSqrtPrice .floored (2 ^ 64) ⟨1, 100⟩)
      (fun bounds => decide ((bounds.1.1 ≤ 2 ^ 64 ∧ 2 ^ 64 ≤ bounds.2.1) ∧
        bounds.1.1 ≤ sqrtPriceFromTickIndex 50 ∧ sqrtPriceFromTickIndex 50 ≤ bounds.2.1)) = true)
  obtain ⟨quoted, inside⟩ := of_decide_eq_true within
  have place : PriceTick (sqrtPriceFromTickIndex 50) 49 := ⟨by decide +kernel, by decide +kernel,
    by decide, by decide, fun _ => by decide +kernel, fun _ => by decide +kernel⟩
  have free : (⟨none, none⟩ : TokenExtensionContextForPool).WithoutTransferFee := by
    rintro fee (given | given)
    · exact nomatch given
    · exact nomatch given
  obtain ⟨quote, quoteEq, enough, -⟩ := (slippageQuotes_sound .formulas .formulas .floored
    (.exact false) ⟨by decide, by decide, by decide⟩ free bounded quoted 0
    (rfl : positionAroundOne.tickLowerIndex = -128) (rfl : positionAroundOne.tickUpperIndex = 128)
    place inside (by norm_num : 1000000 < 2 ^ 127)).1 returned
  exact ⟨deltas, quote, returned, quoteEq, enough⟩

end Whirlpools.Sdk
