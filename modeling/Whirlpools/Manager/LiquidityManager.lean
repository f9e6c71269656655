import Whirlpools.Manager.PositionManager

/-! # Changing the liquidity of a position -/

namespace Whirlpools

open Outcome

/-- Everything that changes with the liquidity of a position. -/
structure ModifyLiquidityUpdate where
  whirlpoolLiquidity : ℕ
  tickLowerUpdate : TickUpdate
  tickUpperUpdate : TickUpdate
  rewardInfos : Fin numRewards → WhirlpoolRewardInfo
  positionUpdate : PositionUpdate

/-- The changes made by a liquidity delta, given the two bounds of the position
(`_calculate_modify_liquidity`). -/
def calculateModifyLiquidityOfTicks (m : Machine) (whirlpool : Whirlpool) (position : Position)
    (tickLower tickUpper : Tick) (tickLowerIndex tickUpperIndex : ℤ) (liquidityDelta : ℤ)
    (timestamp : ℕ) : Result ModifyLiquidityUpdate :=
  if liquidityDelta = 0 ∧ position.liquidity = 0 then err .liquidityZero
  else
    nextWhirlpoolRewardInfos whirlpool timestamp >>= fun nextRewardInfos =>
    nextWhirlpoolLiquidity m whirlpool position.tickUpperIndex position.tickLowerIndex
      liquidityDelta >>= fun nextGlobalLiquidity =>
    nextTickModifyLiquidityUpdate m tickLower tickLowerIndex whirlpool.tickCurrentIndex
      whirlpool.feeGrowthGlobalA whirlpool.feeGrowthGlobalB nextRewardInfos liquidityDelta
      false >>= fun tickLowerUpdate =>
    nextTickModifyLiquidityUpdate m tickUpper tickUpperIndex whirlpool.tickCurrentIndex
      whirlpool.feeGrowthGlobalA whirlpool.feeGrowthGlobalB nextRewardInfos liquidityDelta
      true >>= fun tickUpperUpdate =>
    let feeGrowthsInside := nextFeeGrowthsInside whirlpool.tickCurrentIndex tickLower
      tickLowerIndex tickUpper tickUpperIndex whirlpool.feeGrowthGlobalA
      whirlpool.feeGrowthGlobalB
    let rewardGrowthsInside := nextRewardGrowthsInside whirlpool.tickCurrentIndex tickLower
      tickLowerIndex tickUpper tickUpperIndex nextRewardInfos
    nextPositionModifyLiquidityUpdate m position liquidityDelta feeGrowthsInside.1
      feeGrowthsInside.2 rewardGrowthsInside >>= fun positionUpdate =>
    .ok {
      whirlpoolLiquidity := nextGlobalLiquidity
      rewardInfos := nextRewardInfos
      positionUpdate := positionUpdate
      tickLowerUpdate := tickLowerUpdate
      tickUpperUpdate := tickUpperUpdate }

/-- The changes made by a liquidity delta, reading the bounds from their tick arrays. -/
def calculateModifyLiquidity (m : Machine) (whirlpool : Whirlpool) (position : Position)
    (tickArrayLower tickArrayUpper : TickArray) (liquidityDelta : ℤ) (timestamp : ℕ) :
    Result ModifyLiquidityUpdate :=
  tickArrayLower.getTick position.tickLowerIndex whirlpool.tickSpacing >>= fun tickLower =>
  tickArrayUpper.getTick position.tickUpperIndex whirlpool.tickSpacing >>= fun tickUpper =>
  calculateModifyLiquidityOfTicks m whirlpool position tickLower tickUpper
    position.tickLowerIndex position.tickUpperIndex liquidityDelta timestamp

/-- The fees and rewards of a position brought up to date. -/
def calculateFeeAndRewardGrowths (m : Machine) (whirlpool : Whirlpool) (position : Position)
    (tickArrayLower tickArrayUpper : TickArray) (timestamp : ℕ) :
    Result (PositionUpdate × (Fin numRewards → WhirlpoolRewardInfo)) :=
  calculateModifyLiquidity m whirlpool position tickArrayLower tickArrayUpper 0 timestamp
    >>= fun update => .ok (update.positionUpdate, update.rewardInfos)

/-- The token amounts of a liquidity delta, by the place of the current tick
relative to the range. Deposits round up, withdrawals round down. -/
def calculateLiquidityTokenDeltas (m : Machine) (currentTickIndex : ℤ) (sqrtPrice : ℕ)
    (position : Position) (liquidityDelta : ℤ) : Result (ℕ × ℕ) :=
  if liquidityDelta = 0 then err .liquidityZero
  else
    m.plainAbs liquidityDelta >>= fun liquidity =>
    let roundUp : Bool := liquidityDelta > 0
    let lowerPrice := sqrtPriceFromTickIndex position.tickLowerIndex
    let upperPrice := sqrtPriceFromTickIndex position.tickUpperIndex
    if currentTickIndex < position.tickLowerIndex then
      getAmountDeltaA m lowerPrice upperPrice liquidity roundUp >>= fun deltaA => .ok (deltaA, 0)
    else if currentTickIndex < position.tickUpperIndex then
      getAmountDeltaA m sqrtPrice upperPrice liquidity roundUp >>= fun deltaA =>
      getAmountDeltaB lowerPrice sqrtPrice liquidity roundUp >>= fun deltaB => .ok (deltaA, deltaB)
    else
      getAmountDeltaB lowerPrice upperPrice liquidity roundUp >>= fun deltaB => .ok (0, deltaB)

end Whirlpools
