import Whirlpools.Foundation.Proportion
import Whirlpools.Sdk.IncreaseLiquidityQuote
import Whirlpools.Sdk.PriceAgreement
import Whirlpools.Sdk.TransferFeeAgreement

/-! # Deposit quotes are affordable and maximal

At a price, a position takes a fixed proportion of its liquidity of each token, rounded up. The
quote by an input amount takes away the transfer fee and finds the liquidity that the rest buys,
rounded down. Both steps have an adjoint that leads back, so that the amount pays for exactly the
liquidities up to the one quoted.
-/

namespace Whirlpools.Sdk

open Outcome

section Amounts

variable (math : MathUtil) {lower upper : ℕ}

/-- The proportion of liquidity that is token A between two prices. -/
def tokenAProportion (positive : 0 < lower) (ordered : lower < upper) : Proportion where
  numerator := (upper - lower) * 2 ^ 64
  denominator := upper * lower
  denominator_pos := Nat.mul_pos (positive.trans ordered) positive

private theorem scale_pos : 0 < 2 ^ 64 := by decide

/-- The proportion of liquidity that is token B between two prices. -/
def tokenBProportion (lower upper : ℕ) : Proportion where
  numerator := upper - lower
  denominator := 2 ^ 64
  denominator_pos := scale_pos

theorem orderSqrtPrice_of_lt (ordered : lower < upper) :
    orderSqrtPrice lower upper = (↑lower, ↑upper) := if_pos (Nat.cast_lt.mpr ordered)

/-- The token A for some liquidity is its cost. -/
theorem getTokenAFromLiquidity_eq (positive : 0 < lower) (ordered : lower < upper)
    (liquidity : ℕ) : getTokenAFromLiquidity math liquidity lower upper true =
      .ok ((tokenAProportion positive ordered).cost liquidity : ℕ) := by
  have numerator : (liquidity : ℤ) * (upper - lower) * 2 ^ 64 =
      (liquidity * ((upper - lower) * 2 ^ 64) : ℕ) := by
    rw [← Nat.cast_sub ordered.le, mul_assoc]
    push_cast
    rfl
  have denominator : 0 < upper * lower := Nat.mul_pos (positive.trans ordered) positive
  unfold getTokenAFromLiquidity
  rw [orderSqrtPrice_of_lt ordered]
  dsimp only
  rw [if_pos rfl, numerator, ← Nat.cast_mul, math.divRoundUp_eq _ _ (Nat.cast_nonneg _)
    (Nat.cast_pos.mpr denominator), Int.toNat_natCast, Int.toNat_natCast]
  rfl

/-- The token B for some liquidity is its cost. -/
theorem getTokenBFromLiquidity_eq (ordered : lower < upper) (liquidity : ℕ) :
    getTokenBFromLiquidity math liquidity lower upper true =
      ((tokenBProportion lower upper).cost liquidity : ℕ) := by
  have result : (liquidity : ℤ) * (upper - lower) = (liquidity * (upper - lower) : ℕ) := by
    rw [← Nat.cast_sub ordered.le, Nat.cast_mul]
  unfold getTokenBFromLiquidity
  rw [orderSqrtPrice_of_lt ordered]
  dsimp only
  rw [if_pos rfl, result, math.shiftRightRoundUp_eq _ (Nat.cast_nonneg _), Int.toNat_natCast]
  rfl

/-- The two successive floors are one. -/
theorem getLiquidityFromTokenA_eq (positive : 0 < lower) (ordered : lower < upper) (amount : ℕ) :
    getLiquidityFromTokenA math amount lower upper false =
      .ok ((tokenAProportion positive ordered).bought amount : ℕ) := by
  have width : (upper : ℤ) - lower = (upper - lower : ℕ) := (Nat.cast_sub ordered.le).symm
  have nonzero : ((upper - lower : ℕ) : ℤ) ≠ 0 :=
    Nat.cast_ne_zero.mpr (Nat.sub_pos_of_lt ordered).ne'
  have numerator : (amount : ℤ) * lower * upper = (amount * (upper * lower) : ℕ) := by
    push_cast
    ring
  unfold getLiquidityFromTokenA BN.div
  rw [width, if_neg nonzero, ok_bind, numerator, ← Int.ofNat_tdiv, Proportion.bought]
  change Except.ok (((amount * (upper * lower) / (upper - lower) : ℕ) : ℤ) / 2 ^ 64) =
    Except.ok ((amount * (upper * lower) / ((upper - lower) * 2 ^ 64) : ℕ) : ℤ)
  rw [← Nat.div_div_eq_div_mul]
  push_cast
  rfl

/-- The liquidity for some token B is what it buys. -/
theorem getLiquidityFromTokenB_eq (ordered : lower < upper) (amount : ℕ) :
    getLiquidityFromTokenB math amount lower upper false =
      .ok ((tokenBProportion lower upper).bought amount : ℕ) := by
  have width : (upper : ℤ) - lower = (upper - lower : ℕ) := (Nat.cast_sub ordered.le).symm
  have nonzero : ((upper - lower : ℕ) : ℤ) ≠ 0 :=
    Nat.cast_ne_zero.mpr (Nat.sub_pos_of_lt ordered).ne'
  have numerator : (amount : ℤ) * 2 ^ 64 = (amount * 2 ^ 64 : ℕ) := by
    push_cast
    rfl
  unfold getLiquidityFromTokenB BN.div
  rw [width, numerator]
  dsimp only
  rw [if_neg (by decide), if_neg nonzero, ← Int.ofNat_tdiv]
  rfl

end Amounts

section Quotes

variable (math : MathUtil) (spl : SplToken) (decimal : DecimalMath)
variable {PublicKey : Type} [DecidableEq PublicKey]

namespace IncreaseLiquidityQuoteParam

variable (param : IncreaseLiquidityQuoteParam PublicKey)

/-- The same deposit by a liquidity. -/
def byLiquidity (liquidity : BN) : IncreaseLiquidityQuoteByLiquidityParam where
  liquidity := liquidity
  tickCurrentIndex := param.tickCurrentIndex
  sqrtPrice := param.sqrtPrice
  tickLowerIndex := param.tickLowerIndex
  tickUpperIndex := param.tickUpperIndex
  tokenExtensionCtx := param.tokenExtensionCtx
  slippageTolerance := param.slippageTolerance

/-- What is said of token A or of token B, according to the input token. -/
def ofInput {α : Type} (tokenA tokenB : α) : α :=
  if param.tokenMintA = param.inputTokenMint then tokenA else tokenB

/-- The transfer fee of the input token. -/
def inputMint : Option TransferFee :=
  param.ofInput param.tokenExtensionCtx.tokenMintWithProgramA
    param.tokenExtensionCtx.tokenMintWithProgramB

/-- The estimate of the input token in a quote. -/
def inputEst (quote : IncreaseLiquidityQuote) : BN := param.ofInput quote.tokenEstA quote.tokenEstB

/-- The estimate of the input token for a liquidity, with its transfer fee, on its own. -/
def inputEstimate (liquidity : BN) : Attempt BN :=
  getTokenEstimatesFromLiquidity math (param.byLiquidity liquidity) >>= fun est =>
  TokenExtensionUtil.calculateTransferFeeIncludedAmount
    (param.ofInput est.tokenEstA est.tokenEstB) param.inputMint >>= fun included =>
  .ok included.amount

end IncreaseLiquidityQuoteParam

/-- A liquidity the input amount does not pay for: its estimate exceeds the amount or overflows,
and no quote of this liquidity has a smaller one. -/
structure Unaffordable (param : IncreaseLiquidityQuoteParam PublicKey) (liquidity : BN) :
    Prop where
  estimate : (∃ est, param.inputEstimate math liquidity = .ok est ∧ param.inputTokenAmount < est) ∨
    param.inputEstimate math liquidity = .error totalOverflow
  quote : FailsWithin (· = totalOverflow)
    (increaseLiquidityQuoteByLiquidityWithParams math decimal (param.byLiquidity liquidity))
  quoted : ∀ quote, increaseLiquidityQuoteByLiquidityWithParams math decimal
    (param.byLiquidity liquidity) = .ok quote → param.inputTokenAmount < param.inputEst quote

variable {param : IncreaseLiquidityQuoteParam PublicKey}

/-- The slippage bounds are clamped to the supported prices, so that both have a tick. -/
theorem getSlippageBoundForSqrtPrice_ok (sqrtPriceX64 : BN) (slippage : Percentage) :
    ∃ bounds, PriceMath.getSlippageBoundForSqrtPrice decimal sqrtPriceX64 slippage =
      .ok bounds := by
  have clamped (price : BN) : ∃ tick,
      PriceMath.sqrtPriceX64ToTickIndex (min (max price minSqrtPrice) maxSqrtPrice) = .ok tick := by
    have order : minSqrtPrice ≤ maxSqrtPrice := by decide
    have least : minSqrtPrice ≤ min (max price minSqrtPrice) maxSqrtPrice :=
      le_min (le_max_right _ _) order
    have greatest : min (max price minSqrtPrice) maxSqrtPrice ≤ maxSqrtPrice := min_le_right _ _
    generalize min (max price minSqrtPrice) maxSqrtPrice = bound at least greatest
    obtain ⟨natural, rfl⟩ := Int.eq_ofNat_of_zero_le ((by decide : 0 ≤ minSqrtPrice).trans least)
    exact ⟨_, sqrtPriceX64ToTickIndex_eq (Nat.cast_le.mp least) (Nat.cast_le.mp greatest)⟩
  obtain ⟨lowerTick, lower⟩ := clamped (decimal.mulSqrtRatio sqrtPriceX64
    (slippage.denominator - slippage.numerator) slippage.denominator)
  obtain ⟨upperTick, upper⟩ := clamped (decimal.mulSqrtRatio sqrtPriceX64
    (slippage.denominator + slippage.numerator) slippage.denominator)
  unfold PriceMath.getSlippageBoundForSqrtPrice
  dsimp only
  rw [lower, ok_bind, upper, ok_bind]
  exact ⟨_, rfl⟩

/-- The estimates of a positive liquidity never fail. -/
theorem getTokenEstimatesFromLiquidity_ok {params : IncreaseLiquidityQuoteByLiquidityParam}
    (nonzero : params.liquidity ≠ 0) :
    ∃ est, getTokenEstimatesFromLiquidity math params = .ok est := by
  unfold getTokenEstimatesFromLiquidity
  rw [if_neg nonzero]
  dsimp only
  cases PositionUtil.getStrictPositionStatus params.sqrtPrice params.tickLowerIndex
    params.tickUpperIndex with
  | belowRange => exact ⟨_, rfl⟩
  | inRange => exact ⟨_, rfl⟩
  | aboveRange => exact ⟨_, rfl⟩

/-- Adding a transfer fee fails only when the total overflows. -/
theorem calculateTransferFeeIncludedAmount_fails (amount : BN) (tokenInfo : Option TransferFee) :
    FailsWithin (· = totalOverflow)
      (TokenExtensionUtil.calculateTransferFeeIncludedAmount amount tokenInfo) := by
  cases tokenInfo with
  | none => exact .ok _
  | some fee =>
      refine .ite (fun _ => .ok _) fun _ => .ite (fun _ => .ok _) fun _ => .ite ?_ ?_
      · exact fun _ => .ite (fun _ => .error rfl) fun _ => .ok _
      · intro partly
        refine .bind ?_ fun _ _ => .ite (fun _ => .error rfl) fun _ => .ok _
        exact .ite (fun whole => absurd (sub_eq_zero.mp whole).symm partly) fun _ => .ok _

/-- The quote of a liquidity adds the transfer fees to its estimates, and fails only when an amount
overflows with its fee. -/
theorem quoteByLiquidity_spec {params : IncreaseLiquidityQuoteByLiquidityParam}
    (nonzero : params.liquidity ≠ 0) :
    FailsWithin (· = totalOverflow)
    (increaseLiquidityQuoteByLiquidityWithParams math decimal params) ∧
    ∀ quote, increaseLiquidityQuoteByLiquidityWithParams math decimal params = .ok quote →
      quote.liquidityAmount = params.liquidity ∧
      ∃ est, getTokenEstimatesFromLiquidity math params = .ok est ∧
        TokenExtensionUtil.calculateTransferFeeIncludedAmount est.tokenEstA
          params.tokenExtensionCtx.tokenMintWithProgramA =
            .ok ⟨quote.tokenEstA, quote.transferFee.deductingFromTokenEstA⟩ ∧
        TokenExtensionUtil.calculateTransferFeeIncludedAmount est.tokenEstB
          params.tokenExtensionCtx.tokenMintWithProgramB =
            .ok ⟨quote.tokenEstB, quote.transferFee.deductingFromTokenEstB⟩ := by
  obtain ⟨est, est_eq⟩ := getTokenEstimatesFromLiquidity_ok math nonzero
  obtain ⟨bounds, bounds_eq⟩ :=
    getSlippageBoundForSqrtPrice_ok decimal params.sqrtPrice params.slippageTolerance
  obtain ⟨estLower, lower_eq⟩ := @getTokenEstimatesFromLiquidity_ok math
    { params with sqrtPrice := bounds.1.1, tickCurrentIndex := bounds.1.2 } nonzero
  obtain ⟨estUpper, upper_eq⟩ := @getTokenEstimatesFromLiquidity_ok math
    { params with sqrtPrice := bounds.2.1, tickCurrentIndex := bounds.2.2 } nonzero
  have fails := calculateTransferFeeIncludedAmount_fails
  unfold increaseLiquidityQuoteByLiquidityWithParams
  rw [if_neg nonzero, est_eq, ok_bind, bounds_eq, ok_bind, lower_eq, ok_bind, upper_eq, ok_bind]
  dsimp only
  constructor
  · exact .bind (fails _ _) fun _ _ => .bind (fails _ _) fun _ _ => .bind (fails _ _) fun _ _ =>
      .bind (fails _ _) fun _ _ => .ok _
  · intro quote returned
    obtain ⟨maxA, -, returned⟩ := bind_eq_ok.mp returned
    obtain ⟨estA, estA_eq, returned⟩ := bind_eq_ok.mp returned
    obtain ⟨maxB, -, returned⟩ := bind_eq_ok.mp returned
    obtain ⟨estB, estB_eq, returned⟩ := bind_eq_ok.mp returned
    obtain rfl := Except.ok.inj returned
    exact ⟨rfl, est, rfl, estA_eq, estB_eq⟩

/-- The quote of a liquidity carries the estimate of the input token. -/
theorem inputEst_of_quote {liquidity : BN} (nonzero : liquidity ≠ 0)
    {quote : IncreaseLiquidityQuote}
    (returned : increaseLiquidityQuoteByLiquidityWithParams math decimal
      (param.byLiquidity liquidity) = .ok quote) :
    param.inputEstimate math liquidity = .ok (param.inputEst quote) := by
  obtain ⟨-, est, est_eq, estA, estB⟩ :=
    (@quoteByLiquidity_spec math decimal (param.byLiquidity liquidity) nonzero).2 quote returned
  change TokenExtensionUtil.calculateTransferFeeIncludedAmount est.tokenEstA
    param.tokenExtensionCtx.tokenMintWithProgramA = _ at estA
  change TokenExtensionUtil.calculateTransferFeeIncludedAmount est.tokenEstB
    param.tokenExtensionCtx.tokenMintWithProgramB = _ at estB
  unfold IncreaseLiquidityQuoteParam.inputEstimate IncreaseLiquidityQuoteParam.inputMint
    IncreaseLiquidityQuoteParam.inputEst IncreaseLiquidityQuoteParam.ofInput
  rw [est_eq, ok_bind]
  by_cases isTokenA : param.tokenMintA = param.inputTokenMint
  · rw [if_pos isTokenA, if_pos isTokenA, if_pos isTokenA, estA, ok_bind]
  · rw [if_neg isTokenA, if_neg isTokenA, if_neg isTokenA, estB, ok_bind]

/-- The prices of a deposit: what it takes of each token is at its price, and the liquidity found
for an amount of the input token is what the amount buys after its transfer fee. -/
structure DepositPrices (param : IncreaseLiquidityQuoteParam PublicKey)
    (priceA priceB : Proportion) : Prop where
  estimates : ∀ liquidity : ℕ, 0 < liquidity →
    getTokenEstimatesFromLiquidity math (param.byLiquidity liquidity) =
      .ok ⟨(priceA.cost liquidity : ℕ), (priceB.cost liquidity : ℕ)⟩
  found : ∀ amount : ℕ, param.inputTokenAmount = amount → amount ≠ 0 →
    getLiquidityFromInputToken math spl param =
      .ok ((param.ofInput priceA priceB).bought
        ((TransferFee.ofMint param.inputMint).net amount) : ℕ)

namespace DepositPrices

/-- Nothing is found for nothing. -/
theorem found_eq {priceA priceB : Proportion} (prices : DepositPrices math spl param priceA priceB)
    (ordered : param.tickLowerIndex < param.tickUpperIndex) {amount : ℕ}
    (amount_eq : param.inputTokenAmount = amount) :
    getLiquidityFromInputToken math spl param =
      .ok ((param.ofInput priceA priceB).bought
        ((TransferFee.ofMint param.inputMint).net amount) : ℕ) := by
  by_cases zero : amount = 0
  · rw [zero, TransferFee.net_zero, Proportion.bought_zero]
    unfold getLiquidityFromInputToken invariant
    rw [if_pos (decide_eq_true ordered), ok_bind, amount_eq, zero, if_pos Nat.cast_zero]
    rfl
  · exact prices.found amount amount_eq zero

variable {lower price upper : ℕ}
variable (lower_eq : PriceMath.tickIndexToSqrtPriceX64 param.tickLowerIndex = lower)
variable (upper_eq : PriceMath.tickIndexToSqrtPriceX64 param.tickUpperIndex = upper)
variable (ordered : param.tickLowerIndex < param.tickUpperIndex)

include lower_eq upper_eq ordered

/-- Below its range a position takes token A only. -/
theorem belowRange (positive : 0 < lower) (width : lower < upper)
    (below : param.sqrtPrice ≤ lower) :
    DepositPrices math spl param (tokenAProportion positive width) .free := by
  have status : PositionUtil.getStrictPositionStatus param.sqrtPrice param.tickLowerIndex
      param.tickUpperIndex = .belowRange := by
    unfold PositionUtil.getStrictPositionStatus
    dsimp only
    rw [lower_eq, if_pos below]
  constructor
  · intro liquidity present
    unfold getTokenEstimatesFromLiquidity IncreaseLiquidityQuoteParam.byLiquidity
    dsimp only
    rw [if_neg (Nat.cast_ne_zero.mpr present.ne'), status, lower_eq, upper_eq]
    dsimp only
    rw [getTokenAFromLiquidity_eq math positive width, ok_bind,
      Proportion.free.cost_of_free rfl liquidity]
    rfl
  · intro amount amount_eq nonzero
    unfold getLiquidityFromInputToken invariant IncreaseLiquidityQuoteParam.inputMint
      IncreaseLiquidityQuoteParam.ofInput
    rw [if_pos (decide_eq_true ordered), ok_bind, amount_eq, if_neg (Nat.cast_ne_zero.mpr nonzero),
      status, lower_eq, upper_eq, sdkExcludedOfMint_eq]
    by_cases isTokenA : param.tokenMintA = param.inputTokenMint
    · simp only [isTokenA, decide_true, Bool.not_true, Bool.false_eq_true, if_false, if_true]
      exact getLiquidityFromTokenA_eq math positive width _
    · simp only [isTokenA, decide_false, Bool.not_false, if_true, if_false]
      rw [Proportion.free.bought_of_free rfl]
      rfl

/-- Above its range a position takes token B only. -/
theorem aboveRange (width : lower < upper) (above : ↑upper ≤ param.sqrtPrice) :
    DepositPrices math spl param .free (tokenBProportion lower upper) := by
  have status : PositionUtil.getStrictPositionStatus param.sqrtPrice param.tickLowerIndex
      param.tickUpperIndex = .aboveRange := by
    have beyond : ¬ param.sqrtPrice ≤ lower :=
      not_le.mpr (lt_of_lt_of_le (Nat.cast_lt.mpr width) above)
    unfold PositionUtil.getStrictPositionStatus
    dsimp only
    rw [lower_eq, upper_eq, if_neg beyond, if_pos above]
  constructor
  · intro liquidity present
    unfold getTokenEstimatesFromLiquidity IncreaseLiquidityQuoteParam.byLiquidity
    dsimp only
    rw [if_neg (Nat.cast_ne_zero.mpr present.ne'), status, lower_eq, upper_eq]
    dsimp only
    rw [getTokenBFromLiquidity_eq math width, Proportion.free.cost_of_free rfl liquidity]
    rfl
  · intro amount amount_eq nonzero
    unfold getLiquidityFromInputToken invariant IncreaseLiquidityQuoteParam.inputMint
      IncreaseLiquidityQuoteParam.ofInput
    rw [if_pos (decide_eq_true ordered), ok_bind, amount_eq, if_neg (Nat.cast_ne_zero.mpr nonzero),
      status, lower_eq, upper_eq, sdkExcludedOfMint_eq, sdkExcludedOfMint_eq]
    by_cases isTokenA : param.tokenMintA = param.inputTokenMint
    · simp only [isTokenA, decide_true, if_true]
      rw [Proportion.free.bought_of_free rfl]
      rfl
    · simp only [isTokenA, decide_false, Bool.false_eq_true, if_false]
      exact getLiquidityFromTokenB_eq math width _

/-- Within its range a position takes token A above the price and token B below it. -/
theorem inRange (price_eq : param.sqrtPrice = price) (positive : 0 < price) (above : lower < price)
    (below : price < upper) :
    DepositPrices math spl param (tokenAProportion positive below)
    (tokenBProportion lower price) := by
  have status : PositionUtil.getStrictPositionStatus param.sqrtPrice param.tickLowerIndex
      param.tickUpperIndex = .inRange := by
    unfold PositionUtil.getStrictPositionStatus
    dsimp only
    rw [lower_eq, upper_eq, price_eq, if_neg (not_le.mpr (Nat.cast_lt.mpr above)),
      if_neg (not_le.mpr (Nat.cast_lt.mpr below))]
  constructor
  · intro liquidity present
    unfold getTokenEstimatesFromLiquidity IncreaseLiquidityQuoteParam.byLiquidity
    dsimp only
    rw [if_neg (Nat.cast_ne_zero.mpr present.ne'), status, lower_eq, upper_eq, price_eq]
    dsimp only
    rw [getTokenAFromLiquidity_eq math positive below, ok_bind,
      getTokenBFromLiquidity_eq math above]
  · intro amount amount_eq nonzero
    unfold getLiquidityFromInputToken invariant IncreaseLiquidityQuoteParam.inputMint
      IncreaseLiquidityQuoteParam.ofInput
    rw [if_pos (decide_eq_true ordered), ok_bind, amount_eq, if_neg (Nat.cast_ne_zero.mpr nonzero),
      status, lower_eq, upper_eq, price_eq, sdkExcludedOfMint_eq, sdkExcludedOfMint_eq]
    by_cases isTokenA : param.tokenMintA = param.inputTokenMint
    · simp only [isTokenA, decide_true, if_true]
      exact getLiquidityFromTokenA_eq math positive below _
    · simp only [isTokenA, decide_false, Bool.false_eq_true, if_false]
      exact getLiquidityFromTokenB_eq math above _

end DepositPrices

/-- Every deposit into a range of ticks in bounds has its prices. -/
theorem exists_depositPrices (inLower : TickUtil.checkTickInBounds param.tickLowerIndex = true)
    (inUpper : TickUtil.checkTickInBounds param.tickUpperIndex = true)
    (ordered : param.tickLowerIndex < param.tickUpperIndex) :
    ∃ priceA priceB, DepositPrices math spl param priceA priceB := by
  obtain ⟨lowerTop, lowerBottom⟩ := of_decide_eq_true inLower
  obtain ⟨upperTop, -⟩ := of_decide_eq_true inUpper
  have lower_eq := tickIndexToSqrtPriceX64_eq lowerTop
  have upper_eq := tickIndexToSqrtPriceX64_eq upperTop
  have width := sqrtPriceFromTickIndex_lt lowerBottom ordered upperTop
  have positive := sqrtPriceFromTickIndex_pos param.tickLowerIndex
    ((by decide : -443637 ≤ minTickIndex).trans lowerBottom)
    (lowerTop.trans (by decide : maxTickIndex ≤ 443637))
  rcases le_or_gt param.sqrtPrice (sqrtPriceFromTickIndex param.tickLowerIndex) with below | inside
  · exact ⟨_, _, .belowRange math spl lower_eq upper_eq ordered positive width below⟩
  rcases le_or_gt (sqrtPriceFromTickIndex param.tickUpperIndex : ℤ) param.sqrtPrice
    with above | inside'
  · exact ⟨_, _, .aboveRange math spl lower_eq upper_eq ordered width above⟩
  obtain ⟨price, price_eq⟩ := Int.eq_ofNat_of_zero_le ((Nat.cast_nonneg _).trans inside.le)
  rw [price_eq] at inside inside'
  have more := Nat.cast_lt.mp inside
  exact ⟨_, _, .inRange math spl lower_eq upper_eq ordered price_eq (positive.trans more) more
    (Nat.cast_lt.mp inside')⟩

namespace DepositPrices

variable {priceA priceB : Proportion} (prices : DepositPrices math spl param priceA priceB)
include prices

/-- The estimate of the input token is its cost. -/
theorem estimate_eq {liquidity : ℕ} (positive : 0 < liquidity) :
    param.inputEstimate math liquidity =
      TokenExtensionUtil.calculateTransferFeeIncludedAmount
        ((param.ofInput priceA priceB).cost liquidity : ℕ) param.inputMint >>= fun included =>
      .ok included.amount := by
  unfold IncreaseLiquidityQuoteParam.inputEstimate
  rw [prices.estimates liquidity positive, ok_bind]
  dsimp only
  unfold IncreaseLiquidityQuoteParam.ofInput
  by_cases isTokenA : param.tokenMintA = param.inputTokenMint
  · rw [if_pos isTokenA, if_pos isTokenA]
  · rw [if_neg isTokenA, if_neg isTokenA]

end DepositPrices

/-- The amount with its transfer fee, or an overflow of `u64`. -/
theorem sdkIncludedOfMint_cases (tokenMint : Option TransferFee) (amount : ℕ) :
    (∃ fee, TokenExtensionUtil.calculateTransferFeeIncludedAmount amount tokenMint =
      .ok ⟨((TransferFee.ofMint tokenMint).gross amount : ℕ), fee⟩) ∨
    (2 ^ 64 ≤ (TransferFee.ofMint tokenMint).gross amount ∧
      TokenExtensionUtil.calculateTransferFeeIncludedAmount amount tokenMint =
        .error totalOverflow) := by
  cases tokenMint with
  | none =>
      left
      have free : (TransferFee.ofMint none).gross amount = amount := TransferFee.gross_none _
      rw [free]
      exact ⟨0, rfl⟩
  | some fee =>
      change (∃ withheld, calculateTransferFeeIncludedAmount fee amount =
        .ok ⟨(fee.gross amount : ℕ), withheld⟩) ∨ (2 ^ 64 ≤ fee.gross amount ∧
          calculateTransferFeeIncludedAmount fee amount = .error totalOverflow)
      rw [sdkIncluded_unbounded]
      by_cases fits : fee.gross amount < 2 ^ 64 ∨ fee.transferFeeBasisPoints = 0
      · exact .inl ⟨_, if_pos fits⟩
      · exact .inr ⟨not_lt.mp (not_or.mp fits).1, if_neg fits⟩

/-- A liquidity whose cost with its transfer fee exceeds the amount. -/
theorem unaffordable_of_cost {priceA priceB : Proportion}
    (prices : DepositPrices math spl param priceA priceB) {liquidity amount : ℕ}
    (amount_eq : param.inputTokenAmount = amount) (positive : 0 < liquidity)
    (exceeds : amount < (TransferFee.ofMint param.inputMint).gross
      ((param.ofInput priceA priceB).cost liquidity)) :
    Unaffordable math decimal param liquidity := by
  have nonzero : (liquidity : BN) ≠ 0 := Nat.cast_ne_zero.mpr positive.ne'
  have estimate_eq := prices.estimate_eq math spl positive
  have estimate : (∃ est, param.inputEstimate math liquidity = .ok est ∧
      param.inputTokenAmount < est) ∨
      param.inputEstimate math liquidity = .error totalOverflow := by
    rcases sdkIncludedOfMint_cases param.inputMint
      ((param.ofInput priceA priceB).cost liquidity) with ⟨fee, included⟩ | ⟨-, overflow⟩
    · left
      rw [included, ok_bind] at estimate_eq
      exact ⟨_, estimate_eq, amount_eq ▸ Nat.cast_lt.mpr exceeds⟩
    · right
      rw [overflow] at estimate_eq
      exact estimate_eq
  refine ⟨estimate, (quoteByLiquidity_spec math decimal nonzero).1, fun quote returned => ?_⟩
  have carried := inputEst_of_quote math decimal nonzero returned
  rcases estimate with ⟨est, est_eq, more⟩ | overflow
  · rwa [← Except.ok.inj (est_eq.symm.trans carried)]
  · exact absurd (overflow.symm.trans carried) (by simp only [reduceCtorEq, not_false_eq_true])

/-- A deposit quoted by an input amount is affordable and maximal. Its estimate of the input token,
with the transfer fee, is at most the amount, while one more unit of liquidity is not affordable;
and no liquidity is quoted only where none takes any of the input token or none is affordable. -/
theorem depositQuote_maximal (toBase58 : PublicKey → String)
    (nonneg : 0 ≤ param.inputTokenAmount) {quote : IncreaseLiquidityQuote}
    (returned : increaseLiquidityQuoteByInputTokenWithParamsUsingPriceSlippage math spl decimal
      toBase58 param = .ok quote) :
    0 ≤ quote.liquidityAmount ∧
    (0 < quote.liquidityAmount →
      param.inputEst quote ≤ param.inputTokenAmount ∧
        Unaffordable math decimal param (quote.liquidityAmount + 1)) ∧
    (quote.liquidityAmount = 0 →
      (∀ liquidity, 0 < liquidity → param.inputEstimate math liquidity = .ok 0) ∨
        ∀ liquidity, 0 < liquidity → Unaffordable math decimal param liquidity) := by
  obtain ⟨amount, amount_eq⟩ := Int.eq_ofNat_of_zero_le nonneg
  unfold increaseLiquidityQuoteByInputTokenWithParamsUsingPriceSlippage at returned
  obtain ⟨_, inLower, returned⟩ := bind_eq_ok.mp returned
  obtain ⟨_, inUpper, returned⟩ := bind_eq_ok.mp returned
  obtain ⟨_, -, returned⟩ := bind_eq_ok.mp returned
  obtain ⟨liquidity, found, returned⟩ := bind_eq_ok.mp returned
  have ordered : param.tickLowerIndex < param.tickUpperIndex := by
    unfold getLiquidityFromInputToken at found
    obtain ⟨_, held, -⟩ := bind_eq_ok.mp found
    exact of_decide_eq_true (invariant_eq_ok.mp held)
  obtain ⟨priceA, priceB, prices⟩ := exists_depositPrices math spl (invariant_eq_ok.mp inLower)
    (invariant_eq_ok.mp inUpper) ordered
  obtain rfl := Except.ok.inj (found.symm.trans (prices.found_eq math spl ordered amount_eq))
  by_cases free : (param.ofInput priceA priceB).numerator = 0
  · rw [if_pos (by rw [Proportion.bought_of_free _ free]; rfl)] at returned
    obtain rfl := Except.ok.inj returned
    refine ⟨le_rfl, fun positive => absurd positive (lt_irrefl _), fun _ => .inl ?_⟩
    intro liquidity positive
    obtain ⟨natural, rfl⟩ := Int.eq_ofNat_of_zero_le positive.le
    have estimate_eq := prices.estimate_eq math spl (Nat.cast_pos.mp positive)
    rw [Proportion.cost_of_free _ free] at estimate_eq
    rcases sdkIncludedOfMint_cases param.inputMint 0 with ⟨fee, included⟩ | ⟨overflow, -⟩
    · rw [included, ok_bind, TransferFee.gross_zero] at estimate_eq
      exact estimate_eq
    · rw [TransferFee.gross_zero] at overflow
      exact absurd overflow (by decide)
  have adjoint := ((param.ofInput priceA priceB).cost_adjoint (Nat.pos_of_ne_zero free)).compose
    (TransferFee.ofMint param.inputMint).gross_adjoint
  by_cases zero : (param.ofInput priceA priceB).bought
    ((TransferFee.ofMint param.inputMint).net amount) = 0
  · rw [if_pos (by rw [zero]; rfl)] at returned
    obtain rfl := Except.ok.inj returned
    refine ⟨le_rfl, fun positive => absurd positive (lt_irrefl _), fun _ => .inr ?_⟩
    intro liquidity positive
    obtain ⟨natural, rfl⟩ := Int.eq_ofNat_of_zero_le positive.le
    have present := Nat.cast_pos.mp positive
    exact unaffordable_of_cost math spl decimal prices amount_eq present
      (adjoint.lt_iff_lt.mpr (zero.trans_lt present))
  · rw [if_neg (Nat.cast_ne_zero.mpr zero)] at returned
    have present := Nat.pos_of_ne_zero zero
    obtain ⟨amountQuoted, -⟩ := (quoteByLiquidity_spec math decimal
      (Nat.cast_ne_zero.mpr zero)).2 quote returned
    dsimp only at amountQuoted
    have carried := inputEst_of_quote math decimal (Nat.cast_ne_zero.mpr zero) returned
    rw [prices.estimate_eq math spl present] at carried
    rw [amountQuoted]
    refine ⟨Nat.cast_nonneg _, fun _ => ⟨?_, ?_⟩, fun absent => absurd absent
      (Nat.cast_ne_zero.mpr zero)⟩
    · rcases sdkIncludedOfMint_cases param.inputMint ((param.ofInput priceA priceB).cost _) with
        ⟨fee, included⟩ | ⟨-, overflow⟩
      · rw [included, ok_bind] at carried
        rw [← Except.ok.inj carried, amount_eq]
        exact Nat.cast_le.mpr (adjoint.l_u_le amount)
      · rw [overflow, error_bind] at carried
        exact absurd carried (by simp only [reduceCtorEq, not_false_eq_true])
    · rw [← Nat.cast_succ]
      exact unaffordable_of_cost math spl decimal prices amount_eq (Nat.succ_pos _)
        (adjoint.lt_iff_lt.mpr (Nat.lt_succ_self _))

end Quotes

/-- The functions of the common library, as their formulas. -/
def MathUtil.formulas : MathUtil where
  divRoundUp := fun n d => (n.toNat ⌈/⌉ d.toNat : ℕ)
  divRoundUp_eq := fun _ _ _ _ => rfl
  shiftRightRoundUp := fun n => (n.toNat ⌈/⌉ 2 ^ 64 : ℕ)
  shiftRightRoundUp_eq := fun _ _ => rfl

/-- A deposit of 1000 of token A around the price one, at a fee of 1% and without slippage. -/
def depositOfThousand : IncreaseLiquidityQuoteParam Bool where
  inputTokenAmount := 1000
  inputTokenMint := false
  tokenMintA := false
  tokenMintB := true
  tickCurrentIndex := 0
  sqrtPrice := 2 ^ 64
  tickLowerIndex := -128
  tickUpperIndex := 128
  tokenExtensionCtx := ⟨some ⟨100, 10 ^ 6, by decide, by decide⟩, none⟩
  slippageTolerance := ⟨0, 100⟩

/-- It buys a liquidity, pays for it, and does not pay for one unit more. -/
theorem depositQuote_maximal_thousand : ∃ quote,
    increaseLiquidityQuoteByInputTokenWithParamsUsingPriceSlippage .formulas .formulas
      ⟨fun price _ _ => price⟩ (fun _ => "") depositOfThousand = .ok quote ∧
    quote.tokenEstA ≤ 1000 ∧
    Unaffordable .formulas ⟨fun price _ _ => price⟩ depositOfThousand
      (quote.liquidityAmount + 1) := by
  obtain ⟨quote, returned, positive⟩ := yields_iff.mp
    (by decide +kernel : yields (increaseLiquidityQuoteByInputTokenWithParamsUsingPriceSlippage
      .formulas .formulas ⟨fun price _ _ => price⟩ (fun _ => "") depositOfThousand)
      (fun quote => decide (0 < quote.liquidityAmount)) = true)
  obtain ⟨-, bought, -⟩ := depositQuote_maximal .formulas .formulas ⟨fun price _ _ => price⟩
    (fun _ => "") (by decide) returned
  obtain ⟨affordable, maximal⟩ := bought (of_decide_eq_true positive)
  exact ⟨quote, returned, affordable, maximal⟩

end Whirlpools.Sdk
