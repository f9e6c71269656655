import Whirlpools.Manager.WhirlpoolManager

/-! # Fees and rewards owed to a position -/

namespace Whirlpools

open Outcome

/-- What a position earns from a growth delta; zero where the product overflows. -/
def amountOwedDelta (liquidity growthDelta : ℕ) : ℕ :=
  unwrapOrZero (checkedMulShiftRight liquidity growthDelta)

/-- Credit a position with the growth inside its range since its checkpoints and
change its liquidity. The amounts owed wrap. -/
def nextPositionModifyLiquidityUpdate (m : Machine) (position : Position) (liquidityDelta : ℤ)
    (feeGrowthInsideA feeGrowthInsideB : ℕ) (rewardGrowthsInside : Fin numRewards → ℕ) :
    Result PositionUpdate :=
  let growthDeltaA := wrappingSub feeGrowthInsideA position.feeGrowthCheckpointA
  let feeDeltaA := amountOwedDelta position.liquidity growthDeltaA
  let growthDeltaB := wrappingSub feeGrowthInsideB position.feeGrowthCheckpointB
  let feeDeltaB := amountOwedDelta position.liquidity growthDeltaB
  let rewardInfos := fun index =>
    let currRewardInfo := position.rewardInfos index
    let rewardGrowthDelta :=
      wrappingSub (rewardGrowthsInside index) currRewardInfo.growthInsideCheckpoint
    { growthInsideCheckpoint := rewardGrowthsInside index
      amountOwed := wrappingAdd 64 currRewardInfo.amountOwed
        (amountOwedDelta position.liquidity rewardGrowthDelta) : PositionRewardInfo }
  addLiquidityDelta m position.liquidity liquidityDelta >>= fun liquidity =>
  .ok {
    liquidity := liquidity
    feeGrowthCheckpointA := feeGrowthInsideA
    feeOwedA := wrappingAdd 64 position.feeOwedA feeDeltaA
    feeGrowthCheckpointB := feeGrowthInsideB
    feeOwedB := wrappingAdd 64 position.feeOwedB feeDeltaB
    rewardInfos := rewardInfos }

end Whirlpools
