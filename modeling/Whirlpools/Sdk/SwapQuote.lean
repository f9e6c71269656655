import Whirlpools.Sdk.SwapManager
import Whirlpools.Sdk.TickUtil
import Whirlpools.Sdk.TokenExtensionUtil

/-! # Swap quotes

A quote runs the swap loop with what the transfer fees of the two mints leave, reports what the
trader pays and receives, and names the tick arrays for the instruction. A slippage tolerance
turns the estimates into the threshold of the instruction.
-/

namespace Whirlpools.Sdk

open Outcome
open SwapManager (SwapResult)

/-- The codes of the errors that a quote throws itself. -/
inductive QuoteErrorCode where
  | invalidSqrtPriceLimitDirection
  | sqrtPriceOutOfBounds
  | zeroTradableAmount
  | amountOutBelowMinimum
  | amountInAboveMaximum
  | tickArrayCrossingAboveMax
  | tickArraySequenceInvalid
  deriving DecidableEq

/-- What a quote throws: an error of its own, or one of a computation it runs. -/
inductive QuoteThrown where
  | whirlpoolsError (message : String) (errorCode : QuoteErrorCode)
  | thrown (failure : Thrown)
  deriving DecidableEq

/-- A computation of a quote. -/
def Attempt.inQuote {α : Type} (attempt : Attempt α) : Except QuoteThrown α :=
  attempt.mapError QuoteThrown.thrown

structure SwapQuoteParam (Address : Type) where
  whirlpoolData : Whirlpool
  tokenAmount : BN
  otherAmountThreshold : BN
  sqrtPriceLimit : BN
  aToB : Bool
  amountSpecifiedIsInput : Bool
  tickArrays : List (Address × Option TickArray)
  tokenExtensionCtx : TokenExtensionContextForPool

namespace SwapQuoteParam

variable {Address : Type} (params : SwapQuoteParam Address)

def inputTokenMint : Option TransferFee :=
  if params.aToB then params.tokenExtensionCtx.tokenMintWithProgramA
  else params.tokenExtensionCtx.tokenMintWithProgramB

def outputTokenMint : Option TransferFee :=
  if params.aToB then params.tokenExtensionCtx.tokenMintWithProgramB
  else params.tokenExtensionCtx.tokenMintWithProgramA

end SwapQuoteParam

/-- A quote: the estimates, and the arguments of the instruction. -/
structure SwapQuote (Address : Type) where
  estimatedAmountIn : BN
  estimatedAmountOut : BN
  estimatedEndTickIndex : ℤ
  estimatedEndSqrtPrice : BN
  estimatedFeeAmount : BN
  deductingFromEstimatedAmountIn : BN
  deductedFromEstimatedAmountOut : BN
  amount : BN
  amountSpecifiedIsInput : Bool
  aToB : Bool
  otherAmountThreshold : BN
  sqrtPriceLimit : BN
  tickArray0 : Option Address
  tickArray1 : Option Address
  tickArray2 : Option Address

section Simulate

variable {Address : Type}

/-- The amounts of the input and of the output of a swap. -/
def inputAndOutput (swapResults : SwapResult) (aToB : Bool) : BN × BN :=
  if aToB then (swapResults.amountA, swapResults.amountB)
  else (swapResults.amountB, swapResults.amountA)

/-- The quote of a simulated swap, unless it needs more tick arrays than a swap can have. -/
def quoteOf (params : SwapQuoteParam Address) (swapResults : SwapResult)
    (tickSequence : TickArraySequence Address) (transferFeeIncludedIn : TransferFeeIncludedAmount)
    (transferFeeExcludedOut : TransferFeeExcludedAmount) :
    Except QuoteThrown (SwapQuote Address) :=
  let numOfTickCrossings := tickSequence.getNumOfTouchedArrays
  if numOfTickCrossings > maxSwapTickArrays then
    .error (.whirlpoolsError
      ("Input amount causes the quote to traverse more than the allowable amount of tick-arrays " ++
        s!"{numOfTickCrossings}") .tickArrayCrossingAboveMax)
  else
    let touchedArrays := tickSequence.getTouchedArrays maxSwapTickArrays
    .ok {
      estimatedAmountIn := transferFeeIncludedIn.amount
      estimatedAmountOut := transferFeeExcludedOut.amount
      estimatedEndTickIndex := swapResults.nextTickIndex
      estimatedEndSqrtPrice := swapResults.nextSqrtPrice
      estimatedFeeAmount := swapResults.totalFeeAmount
      deductingFromEstimatedAmountIn := transferFeeIncludedIn.fee
      deductedFromEstimatedAmountOut := transferFeeExcludedOut.fee
      amount := params.tokenAmount
      amountSpecifiedIsInput := params.amountSpecifiedIsInput
      aToB := params.aToB
      otherAmountThreshold := params.otherAmountThreshold
      sqrtPriceLimit := params.sqrtPriceLimit
      tickArray0 := touchedArrays[0]?
      tickArray1 := touchedArrays[1]?
      tickArray2 := touchedArrays[2]? }

/-- The loop of a quote, for the amount that the pool is to take or to give. -/
def quotedSwap (lib : CommonSdk) (params : SwapQuoteParam Address)
    (tickSequence : TickArraySequence Address) (amount : BN) :
    Except QuoteThrown (SwapResult × TickArraySequence Address) :=
  (SwapManager.computeSwap lib params.whirlpoolData tickSequence amount params.sqrtPriceLimit
    params.amountSpecifiedIsInput params.aToB).inQuote

/-- A swap of an exact input; its fee is added again only to what the loop has used. -/
def simulateExactIn (lib : CommonSdk) (spl : SplToken) (params : SwapQuoteParam Address)
    (tickSequence : TickArraySequence Address) : Except QuoteThrown (SwapQuote Address) :=
  let transferFeeExcludedIn := TokenExtensionUtil.calculateTransferFeeExcludedAmount spl
    params.tokenAmount params.inputTokenMint
  if transferFeeExcludedIn.amount = 0 then
    .error (.whirlpoolsError "Provided tokenAmount is virtually zero due to transfer fee."
      .zeroTradableAmount)
  else
    quotedSwap lib params tickSequence transferFeeExcludedIn.amount
      >>= fun (swapResults, tickSequence) =>
    let (amountIn, amountOut) := inputAndOutput swapResults params.aToB
    let transferFeeExcludedOut := TokenExtensionUtil.calculateTransferFeeExcludedAmount
      spl amountOut
      params.outputTokenMint
    if transferFeeExcludedOut.amount < params.otherAmountThreshold then
      .error (.whirlpoolsError
        "Quoted amount for the other token is below the otherAmountThreshold."
        .amountOutBelowMinimum)
    else
      (if amountIn = transferFeeExcludedIn.amount then
          .ok ⟨params.tokenAmount, transferFeeExcludedIn.fee⟩
        else (TokenExtensionUtil.calculateTransferFeeIncludedAmount amountIn
          params.inputTokenMint).inQuote) >>= fun transferFeeIncludedIn =>
      quoteOf params swapResults tickSequence transferFeeIncludedIn transferFeeExcludedOut

/-- A swap of an exact output. -/
def simulateExactOut (lib : CommonSdk) (spl : SplToken) (params : SwapQuoteParam Address)
    (tickSequence : TickArraySequence Address) : Except QuoteThrown (SwapQuote Address) :=
  (TokenExtensionUtil.calculateTransferFeeIncludedAmount params.tokenAmount
    params.outputTokenMint).inQuote >>= fun transferFeeIncludedOut =>
  quotedSwap lib params tickSequence transferFeeIncludedOut.amount
    >>= fun (swapResults, tickSequence) =>
  let (amountIn, amountOut) := inputAndOutput swapResults params.aToB
  (TokenExtensionUtil.calculateTransferFeeIncludedAmount amountIn
    params.inputTokenMint).inQuote >>= fun transferFeeIncludedIn =>
  if transferFeeIncludedIn.amount > params.otherAmountThreshold then
    .error (.whirlpoolsError "Quoted amount for the other token is above the otherAmountThreshold."
      .amountInAboveMaximum)
  else
    let transferFeeExcludedOut := TokenExtensionUtil.calculateTransferFeeExcludedAmount
      spl amountOut
      params.outputTokenMint
    quoteOf params swapResults tickSequence transferFeeIncludedIn transferFeeExcludedOut

/-- Simulate a swap. -/
def simulateSwap (lib : CommonSdk) (spl : SplToken) (params : SwapQuoteParam Address) :
    Except QuoteThrown (SwapQuote Address) :=
  if params.sqrtPriceLimit > maxSqrtPrice ∨ params.sqrtPriceLimit < minSqrtPrice then
    .error (.whirlpoolsError "Provided SqrtPriceLimit is out of bounds." .sqrtPriceOutOfBounds)
  else if (params.aToB ∧ params.sqrtPriceLimit > params.whirlpoolData.sqrtPrice) ∨
      (¬ params.aToB ∧ params.sqrtPriceLimit < params.whirlpoolData.sqrtPrice) then
    .error (.whirlpoolsError
      "Provided SqrtPriceLimit is in the opposite direction of the trade."
      .invalidSqrtPriceLimitDirection)
  else if params.tokenAmount = 0 then
    .error (.whirlpoolsError "Provided tokenAmount is zero." .zeroTradableAmount)
  else
    (TickArraySequence.new params.tickArrays params.whirlpoolData.tickSpacing params.aToB).inQuote
      >>= fun tickSequence =>
    if ¬ tickSequence.isValidTickArray0 params.whirlpoolData.tickCurrentIndex then
      .error (.whirlpoolsError
        "TickArray at index 0 does not contain the Whirlpool current tick index."
        .tickArraySequenceInvalid)
    else if params.amountSpecifiedIsInput then simulateExactIn lib spl params tickSequence
    else simulateExactOut lib spl params tickSequence

/-- An amount with a slippage added to it, or removed from it. -/
def adjustForSlippage (n : BN) (slippageTolerance : Percentage) (adjustUp : Bool) : Attempt BN :=
  if adjustUp then
    BN.div (n * (slippageTolerance.denominator + slippageTolerance.numerator))
      slippageTolerance.denominator
  else
    BN.div (n * slippageTolerance.denominator)
      (slippageTolerance.denominator + slippageTolerance.numerator)

/-- The limit and the threshold that refuse nothing. -/
def getDefaultSqrtPriceLimit (aToB : Bool) : BN := if aToB then minSqrtPrice else maxSqrtPrice

def getDefaultOtherAmountThreshold (amountSpecifiedIsInput : Bool) : BN :=
  if amountSpecifiedIsInput then 0 else u64Max

/-- The threshold of the instruction for the estimates of a quote. -/
def calculateSwapAmountsFromQuote (estAmountIn estAmountOut : BN) (slippageTolerance : Percentage)
    (amountSpecifiedIsInput : Bool) : Attempt BN :=
  if amountSpecifiedIsInput then adjustForSlippage estAmountOut slippageTolerance false
  else adjustForSlippage estAmountIn slippageTolerance true

/-- A quote with the threshold that a slippage leaves. -/
def swapQuoteWithParams (lib : CommonSdk) (spl : SplToken) (params : SwapQuoteParam Address)
    (slippageTolerance : Percentage) : Except QuoteThrown (SwapQuote Address) :=
  simulateSwap lib spl params >>= fun quote =>
  (calculateSwapAmountsFromQuote quote.estimatedAmountIn quote.estimatedAmountOut slippageTolerance
    quote.amountSpecifiedIsInput).inQuote >>= fun otherAmountThreshold =>
  .ok { quote with otherAmountThreshold := otherAmountThreshold }

/-- The parameters of a quote by one token: the defaults, and the tick arrays that a swap from the
current tick may traverse, as fetched. -/
def swapQuoteByToken (getTickArray : ℤ → Address) (fetch : Address → Option TickArray)
    (whirlpoolData : Whirlpool) (tokenAmount : BN) (amountSpecifiedIsInput aToB : Bool)
    (tokenExtensionCtx : TokenExtensionContextForPool) : SwapQuoteParam Address where
  whirlpoolData := whirlpoolData
  tokenAmount := tokenAmount
  otherAmountThreshold := getDefaultOtherAmountThreshold amountSpecifiedIsInput
  sqrtPriceLimit := getDefaultSqrtPriceLimit aToB
  aToB := aToB
  amountSpecifiedIsInput := amountSpecifiedIsInput
  tickArrays := (SwapUtils.getTickArrayPublicKeys getTickArray whirlpoolData.tickCurrentIndex
    whirlpoolData.tickSpacing aToB).map fun address => (address, fetch address)
  tokenExtensionCtx := tokenExtensionCtx

end Simulate
end Whirlpools.Sdk
