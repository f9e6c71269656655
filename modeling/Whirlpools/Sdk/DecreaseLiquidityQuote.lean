import Whirlpools.Sdk.PositionUtil
import Whirlpools.Sdk.TokenExtensionUtil

/-! # Quotes for a withdrawal in the SDK

A withdrawal is quoted by a liquidity. The minimal amounts are those at the prices that the slippage
admits.
-/

namespace Whirlpools.Sdk

open Outcome

structure DecreaseLiquidityQuoteParam where
  liquidity : BN
  tickCurrentIndex : ℤ
  sqrtPrice : BN
  tickLowerIndex : ℤ
  tickUpperIndex : ℤ
  tokenExtensionCtx : TokenExtensionContextForPool
  slippageTolerance : Percentage

/-- The parts of the amounts that are withheld from the transfers. -/
structure DecreaseQuoteTransferFee where
  deductedFromTokenMinA : BN
  deductedFromTokenMinB : BN
  deductedFromTokenEstA : BN
  deductedFromTokenEstB : BN
  deriving DecidableEq

structure DecreaseLiquidityQuote where
  tokenMinA : BN
  tokenMinB : BN
  tokenEstA : BN
  tokenEstB : BN
  liquidityAmount : BN
  transferFee : DecreaseQuoteTransferFee
  deriving DecidableEq

/-- The quote that withdraws nothing. -/
def DecreaseLiquidityQuote.zero : DecreaseLiquidityQuote := ⟨0, 0, 0, 0, 0, ⟨0, 0, 0, 0⟩⟩

namespace DecreaseLiquidityQuoteParam

structure TokenEstimates where
  tokenEstA : BN
  tokenEstB : BN

/-- The tokens of a liquidity at a price, rounded down, without transfer fees. -/
def getTokenEstimatesFromLiquidity (math : MathUtil) (params : DecreaseLiquidityQuoteParam) :
    Attempt TokenEstimates :=
  if params.liquidity = 0 then .error (.error "liquidity must be greater than 0")
  else
    let lowerSqrtPrice := PriceMath.tickIndexToSqrtPriceX64 params.tickLowerIndex
    let upperSqrtPrice := PriceMath.tickIndexToSqrtPriceX64 params.tickUpperIndex
    match PositionUtil.getStrictPositionStatus params.sqrtPrice params.tickLowerIndex
        params.tickUpperIndex with
    | .belowRange =>
        getTokenAFromLiquidity math params.liquidity lowerSqrtPrice upperSqrtPrice false
          >>= fun tokenEstA => .ok ⟨tokenEstA, 0⟩
    | .inRange =>
        getTokenAFromLiquidity math params.liquidity params.sqrtPrice upperSqrtPrice false
          >>= fun tokenEstA =>
        .ok ⟨tokenEstA,
          getTokenBFromLiquidity math params.liquidity lowerSqrtPrice params.sqrtPrice false⟩
    | .aboveRange =>
        .ok ⟨0, getTokenBFromLiquidity math params.liquidity lowerSqrtPrice upperSqrtPrice false⟩

end DecreaseLiquidityQuoteParam

/-- The quote of a liquidity by the movement of the price. -/
def decreaseLiquidityQuoteByLiquidityWithParamsUsingPriceSlippage (math : MathUtil)
    (spl : SplToken) (decimal : DecimalMath) (params : DecreaseLiquidityQuoteParam) :
    Attempt DecreaseLiquidityQuote :=
  if params.liquidity = 0 then .ok .zero
  else
    params.getTokenEstimatesFromLiquidity math >>= fun est =>
    PriceMath.getSlippageBoundForSqrtPrice decimal params.sqrtPrice params.slippageTolerance
      >>= fun bounds =>
    DecreaseLiquidityQuoteParam.getTokenEstimatesFromLiquidity math
      { params with sqrtPrice := bounds.1.1, tickCurrentIndex := bounds.1.2 } >>= fun estLower =>
    DecreaseLiquidityQuoteParam.getTokenEstimatesFromLiquidity math
      { params with sqrtPrice := bounds.2.1, tickCurrentIndex := bounds.2.2 } >>= fun estUpper =>
    let tokenMinA := min (min est.tokenEstA estLower.tokenEstA) estUpper.tokenEstA
    let tokenMinB := min (min est.tokenEstB estLower.tokenEstB) estUpper.tokenEstB
    let mintA := params.tokenExtensionCtx.tokenMintWithProgramA
    let mintB := params.tokenExtensionCtx.tokenMintWithProgramB
    let tokenMinAExcluded :=
      TokenExtensionUtil.calculateTransferFeeExcludedAmount spl tokenMinA mintA
    let tokenEstAExcluded :=
      TokenExtensionUtil.calculateTransferFeeExcludedAmount spl est.tokenEstA mintA
    let tokenMinBExcluded :=
      TokenExtensionUtil.calculateTransferFeeExcludedAmount spl tokenMinB mintB
    let tokenEstBExcluded :=
      TokenExtensionUtil.calculateTransferFeeExcludedAmount spl est.tokenEstB mintB
    .ok {
      tokenMinA := tokenMinAExcluded.amount
      tokenMinB := tokenMinBExcluded.amount
      tokenEstA := tokenEstAExcluded.amount
      tokenEstB := tokenEstBExcluded.amount
      liquidityAmount := params.liquidity
      transferFee := {
        deductedFromTokenMinA := tokenMinAExcluded.fee
        deductedFromTokenMinB := tokenMinBExcluded.fee
        deductedFromTokenEstA := tokenEstAExcluded.fee
        deductedFromTokenEstB := tokenEstBExcluded.fee } }

end Whirlpools.Sdk
