import Whirlpools.Sdk.PositionUtil
import Whirlpools.Sdk.TickUtil
import Whirlpools.Sdk.TokenExtensionUtil

/-! # Quotes for a deposit in the SDK

A deposit is quoted by an amount of one of the two tokens, or by a liquidity. The quote by an
amount finds the liquidity it provides, and then quotes that liquidity.
-/

namespace Whirlpools.Sdk

open Outcome

/-- A pool, a position and an amount of one of the tokens of the pool. -/
structure IncreaseLiquidityQuoteParam (PublicKey : Type) where
  inputTokenAmount : BN
  inputTokenMint : PublicKey
  tokenMintA : PublicKey
  tokenMintB : PublicKey
  tickCurrentIndex : ℤ
  sqrtPrice : BN
  tickLowerIndex : ℤ
  tickUpperIndex : ℤ
  tokenExtensionCtx : TokenExtensionContextForPool
  slippageTolerance : Percentage

structure IncreaseLiquidityQuoteByLiquidityParam where
  liquidity : BN
  tickCurrentIndex : ℤ
  sqrtPrice : BN
  tickLowerIndex : ℤ
  tickUpperIndex : ℤ
  tokenExtensionCtx : TokenExtensionContextForPool
  slippageTolerance : Percentage

/-- The parts of the amounts that are withheld from the transfers. -/
structure QuoteTransferFee where
  deductingFromTokenMaxA : BN
  deductingFromTokenMaxB : BN
  deductingFromTokenEstA : BN
  deductingFromTokenEstB : BN
  deriving DecidableEq

structure IncreaseLiquidityQuote where
  liquidityAmount : BN
  tokenMaxA : BN
  tokenMaxB : BN
  tokenEstA : BN
  tokenEstB : BN
  transferFee : QuoteTransferFee
  deriving DecidableEq

/-- The quote that deposits nothing. -/
def IncreaseLiquidityQuote.zero : IncreaseLiquidityQuote := ⟨0, 0, 0, 0, 0, ⟨0, 0, 0, 0⟩⟩

structure TokenEstimates where
  tokenEstA : BN
  tokenEstB : BN

section Quotes

variable (math : MathUtil) (spl : SplToken) (decimal : DecimalMath)

/-- The tokens of a liquidity at a price, without transfer fees. -/
def getTokenEstimatesFromLiquidity (params : IncreaseLiquidityQuoteByLiquidityParam) :
    Attempt TokenEstimates :=
  if params.liquidity = 0 then .error (.error "liquidity must be greater than 0")
  else
    let lowerSqrtPrice := PriceMath.tickIndexToSqrtPriceX64 params.tickLowerIndex
    let upperSqrtPrice := PriceMath.tickIndexToSqrtPriceX64 params.tickUpperIndex
    match PositionUtil.getStrictPositionStatus params.sqrtPrice params.tickLowerIndex
        params.tickUpperIndex with
    | .belowRange =>
        getTokenAFromLiquidity math params.liquidity lowerSqrtPrice upperSqrtPrice true
          >>= fun tokenEstA => .ok ⟨tokenEstA, 0⟩
    | .inRange =>
        getTokenAFromLiquidity math params.liquidity params.sqrtPrice upperSqrtPrice true
          >>= fun tokenEstA =>
        .ok ⟨tokenEstA,
          getTokenBFromLiquidity math params.liquidity lowerSqrtPrice params.sqrtPrice true⟩
    | .aboveRange =>
        .ok ⟨0, getTokenBFromLiquidity math params.liquidity lowerSqrtPrice upperSqrtPrice true⟩

/-- The quote of a liquidity. The maximal amounts are those at the prices the slippage admits. -/
def increaseLiquidityQuoteByLiquidityWithParams (params : IncreaseLiquidityQuoteByLiquidityParam) :
    Attempt IncreaseLiquidityQuote :=
  if params.liquidity = 0 then .ok .zero
  else
    getTokenEstimatesFromLiquidity math params >>= fun est =>
    PriceMath.getSlippageBoundForSqrtPrice decimal params.sqrtPrice params.slippageTolerance
      >>= fun bounds =>
    getTokenEstimatesFromLiquidity math
      { params with sqrtPrice := bounds.1.1, tickCurrentIndex := bounds.1.2 } >>= fun estLower =>
    getTokenEstimatesFromLiquidity math
      { params with sqrtPrice := bounds.2.1, tickCurrentIndex := bounds.2.2 } >>= fun estUpper =>
    let tokenMaxA := max (max est.tokenEstA estLower.tokenEstA) estUpper.tokenEstA
    let tokenMaxB := max (max est.tokenEstB estLower.tokenEstB) estUpper.tokenEstB
    let mintA := params.tokenExtensionCtx.tokenMintWithProgramA
    let mintB := params.tokenExtensionCtx.tokenMintWithProgramB
    TokenExtensionUtil.calculateTransferFeeIncludedAmount tokenMaxA mintA
      >>= fun tokenMaxAIncluded =>
    TokenExtensionUtil.calculateTransferFeeIncludedAmount est.tokenEstA mintA
      >>= fun tokenEstAIncluded =>
    TokenExtensionUtil.calculateTransferFeeIncludedAmount tokenMaxB mintB
      >>= fun tokenMaxBIncluded =>
    TokenExtensionUtil.calculateTransferFeeIncludedAmount est.tokenEstB mintB
      >>= fun tokenEstBIncluded =>
    .ok {
      liquidityAmount := params.liquidity
      tokenMaxA := tokenMaxAIncluded.amount
      tokenMaxB := tokenMaxBIncluded.amount
      tokenEstA := tokenEstAIncluded.amount
      tokenEstB := tokenEstBIncluded.amount
      transferFee := {
        deductingFromTokenMaxA := tokenMaxAIncluded.fee
        deductingFromTokenMaxB := tokenMaxBIncluded.fee
        deductingFromTokenEstA := tokenEstAIncluded.fee
        deductingFromTokenEstB := tokenEstBIncluded.fee } }

variable {PublicKey : Type} [DecidableEq PublicKey]

/-- The liquidity that an amount of the input token provides, rounded down. -/
def getLiquidityFromInputToken (params : IncreaseLiquidityQuoteParam PublicKey) : Attempt BN :=
  invariant (params.tickLowerIndex < params.tickUpperIndex)
    (s!"tickLowerIndex({params.tickLowerIndex}) must be less than " ++
      s!"tickUpperIndex({params.tickUpperIndex})")
    >>= fun _ =>
  if params.inputTokenAmount = 0 then .ok 0
  else
    let isTokenA : Bool := params.tokenMintA = params.inputTokenMint
    let sqrtPriceLowerX64 := PriceMath.tickIndexToSqrtPriceX64 params.tickLowerIndex
    let sqrtPriceUpperX64 := PriceMath.tickIndexToSqrtPriceX64 params.tickUpperIndex
    let excludedA := TokenExtensionUtil.calculateTransferFeeExcludedAmount spl
      params.inputTokenAmount params.tokenExtensionCtx.tokenMintWithProgramA
    let excludedB := TokenExtensionUtil.calculateTransferFeeExcludedAmount spl
      params.inputTokenAmount params.tokenExtensionCtx.tokenMintWithProgramB
    match PositionUtil.getStrictPositionStatus params.sqrtPrice params.tickLowerIndex
        params.tickUpperIndex with
    | .belowRange =>
        if !isTokenA then .ok 0
        else getLiquidityFromTokenA math excludedA.amount sqrtPriceLowerX64 sqrtPriceUpperX64 false
    | .aboveRange =>
        if isTokenA then .ok 0
        else getLiquidityFromTokenB math excludedB.amount sqrtPriceLowerX64 sqrtPriceUpperX64 false
    | .inRange =>
        if isTokenA then
          getLiquidityFromTokenA math excludedA.amount params.sqrtPrice sqrtPriceUpperX64 false
        else getLiquidityFromTokenB math excludedB.amount sqrtPriceLowerX64 params.sqrtPrice false

/-- The quote of an amount of one of the tokens. -/
def increaseLiquidityQuoteByInputTokenWithParamsUsingPriceSlippage
    (toBase58 : PublicKey → String) (param : IncreaseLiquidityQuoteParam PublicKey) :
    Attempt IncreaseLiquidityQuote :=
  invariant (TickUtil.checkTickInBounds param.tickLowerIndex) "tickLowerIndex is out of bounds."
    >>= fun _ =>
  invariant (TickUtil.checkTickInBounds param.tickUpperIndex) "tickUpperIndex is out of bounds."
    >>= fun _ =>
  invariant (param.inputTokenMint = param.tokenMintA ∨ param.inputTokenMint = param.tokenMintB)
    (s!"input token mint {toBase58 param.inputTokenMint} does not match any tokens in the " ++
      "provided pool.")
    >>= fun _ =>
  getLiquidityFromInputToken math spl param >>= fun liquidity =>
  if liquidity = 0 then .ok .zero
  else
    increaseLiquidityQuoteByLiquidityWithParams math decimal {
      liquidity := liquidity
      tickCurrentIndex := param.tickCurrentIndex
      sqrtPrice := param.sqrtPrice
      tickLowerIndex := param.tickLowerIndex
      tickUpperIndex := param.tickUpperIndex
      tokenExtensionCtx := param.tokenExtensionCtx
      slippageTolerance := param.slippageTolerance }

end Quotes
end Whirlpools.Sdk
