import Whirlpools.Sdk.PriceMath
import Whirlpools.Sdk.TickArraySequence
import Whirlpools.State.Whirlpool

/-! # The swap loop of the SDK

A quote runs the swap loop on fetched accounts. The loop has no cursor into the tick arrays, sets
the tick from the price after every step that stops short of a tick, and keeps the fees only to
report their sum. The tick arrays it reads are marked in its sequence.
-/

namespace Whirlpools.Sdk.SwapManager

open Outcome

def protocolFeeRateMulValue : BN := 10000

structure SwapResult where
  amountA : BN
  amountB : BN
  nextTickIndex : ℤ
  nextSqrtPrice : BN
  totalFeeAmount : BN
  deriving DecidableEq

/-- The variables of the loop. -/
structure LoopState (Address : Type) where
  amountRemaining : BN
  amountCalculated : BN
  currSqrtPrice : BN
  currLiquidity : BN
  currTickIndex : ℤ
  totalFeeAmount : BN
  currProtocolFee : BN
  currFeeGrowthGlobalInput : BN
  tickSequence : TickArraySequence Address

/-- The price of the next tick, and that price bounded by the limit. -/
def getNextSqrtPrices (nextTick : ℤ) (sqrtPriceLimit : BN) (aToB : Bool) : BN × BN :=
  let nextTickPrice := PriceMath.tickIndexToSqrtPriceX64 nextTick
  (nextTickPrice, if aToB then max sqrtPriceLimit nextTickPrice else min sqrtPriceLimit
    nextTickPrice)

/-- The protocol's share of a fee; the rate is divided before it is multiplied. -/
def calculateProtocolFee (globalFee : BN) (protocolFeeRate : ℕ) : Attempt BN :=
  BN.div protocolFeeRate protocolFeeRateMulValue >>= fun rate => .ok (globalFee * rate)

/-- The protocol fee and the global growth after a fee; the share is not added to the fee. -/
def calculateFees (feeAmount : BN) (protocolFeeRate : ℕ)
    (currLiquidity currProtocolFee currFeeGrowthGlobalInput : BN) : Attempt (BN × BN) :=
  (if protocolFeeRate > 0 then
      calculateProtocolFee feeAmount protocolFeeRate >>= fun delta =>
      .ok (feeAmount - delta, currProtocolFee + currProtocolFee)
    else .ok (feeAmount, currProtocolFee)) >>= fun (globalFee, nextProtocolFee) =>
  (if currLiquidity > 0 then
      BN.div (globalFee * 2 ^ 64) currLiquidity >>= fun globalFeeIncrement =>
      .ok (currFeeGrowthGlobalInput + globalFeeIncrement)
    else .ok currFeeGrowthGlobalInput) >>= fun nextFeeGrowthGlobalInput =>
  .ok (nextProtocolFee, nextFeeGrowthGlobalInput)

def calculateNextLiquidity (tickNetLiquidity currLiquidity : BN) (aToB : Bool) : BN :=
  if aToB then currLiquidity - tickNetLiquidity else currLiquidity + tickNetLiquidity

/-- The amounts of both tokens after the loop. -/
def calculateEstTokens (amount amountRemaining amountCalculated : BN)
    (aToB amountSpecifiedIsInput : Bool) : BN × BN :=
  if aToB = amountSpecifiedIsInput then (amount - amountRemaining, amountCalculated)
  else (amountCalculated, amount - amountRemaining)

/-- The amounts remaining and calculated after a step. -/
def accountAmounts (amountSpecifiedIsInput : Bool) (amountRemaining amountCalculated : BN)
    (swapComputation : SwapStep) : BN × BN :=
  if amountSpecifiedIsInput then
    (amountRemaining - swapComputation.amountIn - swapComputation.feeAmount,
      amountCalculated + swapComputation.amountOut)
  else
    (amountRemaining - swapComputation.amountOut,
      amountCalculated + swapComputation.amountIn + swapComputation.feeAmount)

section Loop

variable {Address : Type}

/-- The liquidity, the tick and the sequence after a step to a price: at the next tick it is read,
and crossed if it is initialized. -/
def moveTick (nextPrice nextTickPrice currLiquidity : BN) (nextTickIndex : ℤ) (aToB : Bool)
    (tickSequence : TickArraySequence Address) :
    Attempt (BN × ℤ × TickArraySequence Address) :=
  if nextPrice = nextTickPrice then
    tickSequence.getTick nextTickIndex >>= fun (nextTick, touched) =>
    .ok (if nextTick.initialized then
        calculateNextLiquidity nextTick.liquidityNet currLiquidity aToB else currLiquidity,
      if aToB then nextTickIndex - 1 else nextTickIndex, touched)
  else
    PriceMath.sqrtPriceX64ToTickIndex nextPrice >>= fun currTickIndex =>
    .ok (currLiquidity, currTickIndex, tickSequence)

/-- One iteration of the loop, with the step it computed. -/
def iteration (lib : CommonSdk) (whirlpoolData : Whirlpool) (sqrtPriceLimit : BN)
    (amountSpecifiedIsInput aToB : Bool) (state : LoopState Address) :
    Attempt (LoopState Address × SwapStep) :=
  state.tickSequence.findNextInitializedTickIndex state.currTickIndex
    >>= fun (nextTickIndex, _, searched) =>
  let (nextTickPrice, targetSqrtPrice) := getNextSqrtPrices nextTickIndex sqrtPriceLimit aToB
  computeSwapStep lib state.amountRemaining whirlpoolData.feeRate state.currLiquidity
    state.currSqrtPrice targetSqrtPrice amountSpecifiedIsInput aToB >>= fun swapComputation =>
  let (amountRemaining, amountCalculated) := accountAmounts amountSpecifiedIsInput
    state.amountRemaining state.amountCalculated swapComputation
  calculateFees swapComputation.feeAmount whirlpoolData.protocolFeeRate state.currLiquidity
    state.currProtocolFee state.currFeeGrowthGlobalInput
    >>= fun (nextProtocolFee, nextFeeGrowthGlobalInput) =>
  moveTick swapComputation.nextPrice nextTickPrice state.currLiquidity nextTickIndex aToB searched
    >>= fun (currLiquidity, currTickIndex, tickSequence) =>
  .ok ({
    amountRemaining := amountRemaining
    amountCalculated := amountCalculated
    currSqrtPrice := swapComputation.nextPrice
    currLiquidity := currLiquidity
    currTickIndex := currTickIndex
    totalFeeAmount := state.totalFeeAmount + swapComputation.feeAmount
    currProtocolFee := nextProtocolFee
    currFeeGrowthGlobalInput := nextFeeGrowthGlobalInput
    tickSequence := tickSequence }, swapComputation)

/-- Whether the loop goes on. -/
def continues (sqrtPriceLimit : BN) (state : LoopState Address) : Bool :=
  state.amountRemaining > 0 ∧ ¬ sqrtPriceLimit = state.currSqrtPrice

/-- The variables before the first iteration. -/
def initialState (whirlpoolData : Whirlpool) (tickSequence : TickArraySequence Address)
    (tokenAmount : BN) (aToB : Bool) : LoopState Address where
  amountRemaining := tokenAmount
  amountCalculated := 0
  currSqrtPrice := whirlpoolData.sqrtPrice
  currLiquidity := whirlpoolData.liquidity
  currTickIndex := whirlpoolData.tickCurrentIndex
  totalFeeAmount := 0
  currProtocolFee := 0
  currFeeGrowthGlobalInput :=
    if aToB then whirlpoolData.feeGrowthGlobalA else whirlpoolData.feeGrowthGlobalB
  tickSequence := tickSequence

/-- The result of a swap, and the sequence with the arrays it has touched. -/
def computeSwap (lib : CommonSdk) (whirlpoolData : Whirlpool)
    (tickSequence : TickArraySequence Address) (tokenAmount sqrtPriceLimit : BN)
    (amountSpecifiedIsInput aToB : Bool) : Attempt (SwapResult × TickArraySequence Address) :=
  whileLogged (continues sqrtPriceLimit)
    (iteration lib whirlpoolData sqrtPriceLimit amountSpecifiedIsInput aToB) .outOfFuel
    (88 * tickSequence.sequence.length + 3)
    (initialState whirlpoolData tickSequence tokenAmount aToB) >>= fun (final, _) =>
  let (amountA, amountB) := calculateEstTokens tokenAmount final.amountRemaining
    final.amountCalculated aToB amountSpecifiedIsInput
  .ok ({
    amountA := amountA
    amountB := amountB
    nextTickIndex := final.currTickIndex
    nextSqrtPrice := final.currSqrtPrice
    totalFeeAmount := final.totalFeeAmount }, final.tickSequence)

end Loop
end Whirlpools.Sdk.SwapManager
