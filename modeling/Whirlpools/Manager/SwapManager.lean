import Whirlpools.Manager.WhirlpoolManager
import Whirlpools.Math.SwapMath
import Whirlpools.Util.SwapTickSequence

/-! # The swap loop -/

namespace Whirlpools

open Outcome

/-- What a swap changes in the pool. -/
structure PostSwapUpdate where
  amountA : ℕ
  amountB : ℕ
  nextLiquidity : ℕ
  nextTickIndex : ℤ
  nextSqrtPrice : ℕ
  nextFeeGrowthGlobal : ℕ
  nextRewardInfos : Fin numRewards → WhirlpoolRewardInfo
  nextProtocolFee : ℕ

/-- The amounts of the input and of the output. -/
def PostSwapUpdate.inputAndOutput (update : PostSwapUpdate) (aToB : Bool) : ℕ × ℕ :=
  if aToB then (update.amountA, update.amountB) else (update.amountB, update.amountA)

/-- The arguments of a swap that stay fixed in its loop, and the pool it reads. -/
structure SwapContext where
  whirlpool : Whirlpool
  sqrtPriceLimit : ℕ
  amountSpecifiedIsInput : Bool
  aToB : Bool
  nextRewardInfos : Fin numRewards → WhirlpoolRewardInfo

/-- The variables of the swap loop. -/
structure SwapState where
  amountRemaining : ℕ
  amountCalculated : ℕ
  currSqrtPrice : ℕ
  currTickIndex : ℤ
  currLiquidity : ℕ
  currProtocolFee : ℕ
  currArrayIndex : ℕ
  currFeeGrowthGlobalInput : ℕ
  swapTickSequence : SwapTickSequence

/-- What one iteration of the swap loop did; the program keeps no such record. -/
structure SwapIteration where
  /-- The tick, the liquidity and the price the iteration started with. -/
  tickIndex : ℤ
  liquidity : ℕ
  sqrtPrice : ℕ
  /-- The tick the search returned, and the step computed towards it. -/
  nextTickIndex : ℤ
  computation : SwapStepComputation
  /-- The share of the fee taken for the protocol, and the global growth of the input
  token before the iteration and its increment. -/
  protocolFee : ℕ
  feeGrowthGlobal : ℕ
  feeGrowthDelta : ℕ
  /-- The tick updated by the iteration. -/
  crossed : Option ℤ

/-- The protocol's share of a fee; `unwrap` panics where it exceeds `u64`. -/
def calculateProtocolFee (globalFee protocolFeeRate : ℕ) : Result ℕ :=
  let share := globalFee * protocolFeeRate / protocolFeeRateMulValue
  if share < 2 ^ 64 then .ok share else .error .panic

/-- The growth of an in-range unit of liquidity by a fee; none without liquidity. -/
def feeGrowthDelta (globalFee currLiquidity : ℕ) : ℕ :=
  if currLiquidity > 0 then globalFee * 2 ^ 64 / currLiquidity else 0

/-- The two shares of a fee: the protocol's, and the rest for the liquidity in range. -/
def splitFee (m : Machine) (feeAmount protocolFeeRate : ℕ) : Result (ℕ × ℕ) :=
  if protocolFeeRate > 0 then
    calculateProtocolFee feeAmount protocolFeeRate >>= fun delta =>
    m.plainSub 64 feeAmount delta >>= fun globalFee => .ok (delta, globalFee)
  else .ok (0, feeAmount)

/-- The protocol fee and the global growth after a fee, with the shares of the fee. -/
def calculateFees (m : Machine) (feeAmount protocolFeeRate currLiquidity currProtocolFee
    currFeeGrowthGlobalInput : ℕ) : Result (ℕ × ℕ × ℕ × ℕ) :=
  splitFee m feeAmount protocolFeeRate >>= fun (delta, globalFee) =>
  let growth := feeGrowthDelta globalFee currLiquidity
  .ok (wrappingAdd 64 currProtocolFee delta, wrappingAdd 128 currFeeGrowthGlobalInput growth,
    delta, growth)

/-- Cross an initialized tick: its update and the liquidity beyond it. -/
def calculateUpdate (m : Machine) (tick : Tick) (aToB : Bool) (liquidity feeGrowthGlobalA
    feeGrowthGlobalB : ℕ) (rewardInfos : Fin numRewards → WhirlpoolRewardInfo) :
    Result (TickUpdate × ℕ) :=
  (if aToB then m.plainNeg tick.liquidityNet else .ok tick.liquidityNet)
    >>= fun signedLiquidityNet =>
  let update := nextTickCrossUpdate tick feeGrowthGlobalA feeGrowthGlobalB rewardInfos
  addLiquidityDelta m liquidity signedLiquidityNet >>= fun nextLiquidity =>
  .ok (update, nextLiquidity)

/-- The price of the next tick, and that price bounded by the limit. -/
def getNextSqrtPrices (nextTickIndex : ℤ) (sqrtPriceLimit : ℕ) (aToB : Bool) : ℕ × ℕ :=
  let nextTickPrice := sqrtPriceFromTickIndex nextTickIndex
  (nextTickPrice,
    if aToB then max sqrtPriceLimit nextTickPrice else min sqrtPriceLimit nextTickPrice)

/-- The amounts remaining and calculated after a step. -/
def accountAmounts (amountSpecifiedIsInput : Bool) (amountRemaining amountCalculated : ℕ)
    (computation : SwapStepComputation) : Result (ℕ × ℕ) :=
  if amountSpecifiedIsInput then
    if computation.amountIn > amountRemaining then err .amountRemainingOverflow
    else if computation.feeAmount > amountRemaining - computation.amountIn then
      err .amountRemainingOverflow
    else if amountCalculated + computation.amountOut ≥ 2 ^ 64 then err .amountCalcOverflow
    else .ok (amountRemaining - computation.amountIn - computation.feeAmount,
      amountCalculated + computation.amountOut)
  else
    if computation.amountOut > amountRemaining then err .amountRemainingOverflow
    else if amountCalculated + computation.amountIn ≥ 2 ^ 64 then err .amountCalcOverflow
    else if amountCalculated + computation.amountIn + computation.feeAmount ≥ 2 ^ 64 then
      err .amountCalcOverflow
    else .ok (amountRemaining - computation.amountOut,
      amountCalculated + computation.amountIn + computation.feeAmount)

/-- The global fee growths seen while crossing: that of the input token is the current one. -/
def crossingFeeGrowths (context : SwapContext) (currFeeGrowthGlobalInput : ℕ) : ℕ × ℕ :=
  if context.aToB then (currFeeGrowthGlobalInput, context.whirlpool.feeGrowthGlobalB)
  else (context.whirlpool.feeGrowthGlobalA, currFeeGrowthGlobalInput)

/-- Cross the next tick if it is initialized: the liquidity, the ticks, and the tick updated. -/
def crossTick (m : Machine) (context : SwapContext) (state : SwapState) (nextArrayIndex : ℕ)
    (nextTickIndex : ℤ) (currFeeGrowthGlobalInput : ℕ) :
    Result (ℕ × SwapTickSequence × Option ℤ) :=
  match state.swapTickSequence.getTick nextArrayIndex nextTickIndex
      context.whirlpool.tickSpacing with
  | .error _ => .ok (state.currLiquidity, state.swapTickSequence, none)
  | .ok nextTick =>
      if nextTick.initialized then
        let growths := crossingFeeGrowths context currFeeGrowthGlobalInput
        calculateUpdate m nextTick context.aToB state.currLiquidity growths.1 growths.2
          context.nextRewardInfos >>= fun (update, nextLiquidity) =>
        state.swapTickSequence.updateTick nextArrayIndex nextTickIndex
          context.whirlpool.tickSpacing update >>= fun sequence =>
        .ok (nextLiquidity, sequence, some nextTickIndex)
      else .ok (state.currLiquidity, state.swapTickSequence, none)

/-- One iteration of the swap loop. -/
def swapIteration (m : Machine) (context : SwapContext) (state : SwapState) :
    Result (SwapState × SwapIteration) :=
  let whirlpool := context.whirlpool
  state.swapTickSequence.getNextInitializedTickIndex state.currTickIndex whirlpool.tickSpacing
    context.aToB state.currArrayIndex >>= fun (nextArrayIndex, nextTickIndex) =>
  let (nextTickSqrtPrice, sqrtPriceTarget) :=
    getNextSqrtPrices nextTickIndex context.sqrtPriceLimit context.aToB
  computeSwap m state.amountRemaining whirlpool.feeRate state.currLiquidity state.currSqrtPrice
    sqrtPriceTarget context.amountSpecifiedIsInput context.aToB >>= fun computation =>
  accountAmounts context.amountSpecifiedIsInput state.amountRemaining state.amountCalculated
    computation >>= fun (amountRemaining, amountCalculated) =>
  calculateFees m computation.feeAmount whirlpool.protocolFeeRate state.currLiquidity
    state.currProtocolFee state.currFeeGrowthGlobalInput
    >>= fun (currProtocolFee, currFeeGrowthGlobalInput, protocolFee, growthDelta) =>
  let entry : Option ℤ → SwapIteration := fun crossed => {
    tickIndex := state.currTickIndex
    liquidity := state.currLiquidity
    sqrtPrice := state.currSqrtPrice
    nextTickIndex := nextTickIndex
    computation := computation
    protocolFee := protocolFee
    feeGrowthGlobal := state.currFeeGrowthGlobalInput
    feeGrowthDelta := growthDelta
    crossed := crossed }
  let advanced : SwapState := { state with
    amountRemaining := amountRemaining
    amountCalculated := amountCalculated
    currSqrtPrice := computation.nextPrice
    currProtocolFee := currProtocolFee
    currFeeGrowthGlobalInput := currFeeGrowthGlobalInput }
  if computation.nextPrice = nextTickSqrtPrice then
    crossTick m context state nextArrayIndex nextTickIndex currFeeGrowthGlobalInput
      >>= fun (currLiquidity, sequence, crossed) =>
    sequence.getTickOffset nextArrayIndex nextTickIndex whirlpool.tickSpacing
      >>= fun tickOffset =>
    -- The next search starts in the next array when this one is used up.
    let currArrayIndex :=
      if (context.aToB ∧ tickOffset = 0) ∨ (¬ context.aToB ∧ tickOffset = tickArraySize - 1) then
        nextArrayIndex + 1
      else nextArrayIndex
    .ok ({ advanced with
        currLiquidity := currLiquidity
        swapTickSequence := sequence
        currArrayIndex := currArrayIndex
        -- The search to the left includes its start, so it restarts one tick further.
        currTickIndex := if context.aToB then nextTickIndex - 1 else nextTickIndex },
      entry crossed)
  else if computation.nextPrice ≠ state.currSqrtPrice then
    .ok ({ advanced with currTickIndex := tickIndexFromSqrtPrice computation.nextPrice },
      entry none)
  else .ok (advanced, entry none)

/-- Whether the swap loop goes on. -/
def swapContinues (context : SwapContext) (state : SwapState) : Bool :=
  state.amountRemaining > 0 ∧ context.sqrtPriceLimit ≠ state.currSqrtPrice

/-- The loop variables before the first iteration. -/
def SwapContext.initialState (context : SwapContext) (sequence : SwapTickSequence) (amount : ℕ) :
    SwapState where
  amountRemaining := amount
  amountCalculated := 0
  currSqrtPrice := context.whirlpool.sqrtPrice
  currTickIndex := context.whirlpool.tickCurrentIndex
  currLiquidity := context.whirlpool.liquidity
  currProtocolFee := 0
  currArrayIndex := 0
  currFeeGrowthGlobalInput :=
    if context.aToB then context.whirlpool.feeGrowthGlobalA else context.whirlpool.feeGrowthGlobalB
  swapTickSequence := sequence

/-- The result of a finished loop; the growth of the swap is only logged, but its
plain subtraction can overflow. -/
def SwapContext.postSwapUpdate (m : Machine) (context : SwapContext) (amount : ℕ)
    (state : SwapState) : Result PostSwapUpdate :=
  m.plainSub 64 amount state.amountRemaining >>= fun amountUsed =>
  m.plainSub 128 state.currFeeGrowthGlobalInput
    (if context.aToB then context.whirlpool.feeGrowthGlobalA
      else context.whirlpool.feeGrowthGlobalB) >>= fun _ =>
  let aIsSpecified := context.aToB = context.amountSpecifiedIsInput
  .ok {
    amountA := if aIsSpecified then amountUsed else state.amountCalculated
    amountB := if aIsSpecified then state.amountCalculated else amountUsed
    nextLiquidity := state.currLiquidity
    nextTickIndex := state.currTickIndex
    nextSqrtPrice := state.currSqrtPrice
    nextFeeGrowthGlobal := state.currFeeGrowthGlobalInput
    nextRewardInfos := context.nextRewardInfos
    nextProtocolFee := state.currProtocolFee }

/-- More iterations than a sequence of tick arrays allows. -/
def swapFuel (sequence : SwapTickSequence) : ℕ := 88 * sequence.arrays.length + 3

/-- What a swap returns: the changes of the pool, the updated tick arrays, and the
record of its iterations. -/
structure SwapOutcome where
  update : PostSwapUpdate
  sequence : SwapTickSequence
  iterations : List SwapIteration

/-- Swap against a pool and the supplied tick arrays. -/
def swap (m : Machine) (whirlpool : Whirlpool) (sequence : SwapTickSequence) (amount : ℕ)
    (sqrtPriceLimit : ℕ) (amountSpecifiedIsInput aToB : Bool) (timestamp : ℕ) :
    Result SwapOutcome :=
  if sqrtPriceLimit < minSqrtPriceX64 ∨ sqrtPriceLimit > maxSqrtPriceX64 then
    err .sqrtPriceOutOfBounds
  else if (aToB ∧ sqrtPriceLimit > whirlpool.sqrtPrice) ∨
      (¬ aToB ∧ sqrtPriceLimit < whirlpool.sqrtPrice) then
    err .invalidSqrtPriceLimitDirection
  else if amount = 0 then err .zeroTradableAmount
  else
    nextWhirlpoolRewardInfos whirlpool timestamp >>= fun nextRewardInfos =>
    let context : SwapContext := {
      whirlpool := whirlpool
      sqrtPriceLimit := sqrtPriceLimit
      amountSpecifiedIsInput := amountSpecifiedIsInput
      aToB := aToB
      nextRewardInfos := nextRewardInfos }
    whileLogged (swapContinues context) (swapIteration m context) .outOfFuel (swapFuel sequence)
      (context.initialState sequence amount) >>= fun (final, iterations) =>
    context.postSwapUpdate m amount final >>= fun update =>
    .ok { update := update, sequence := final.swapTickSequence, iterations := iterations }

end Whirlpools
