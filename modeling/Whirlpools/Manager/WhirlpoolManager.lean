import Whirlpools.Manager.TickManager
import Whirlpools.State.Position

/-! # Global rewards and liquidity of a pool -/

namespace Whirlpools

open Outcome

/-- The value of a fallible computation, or zero where it fails (`unwrap_or(0)`). -/
def unwrapOrZero (computed : Result ℕ) : ℕ :=
  match computed with
  | .ok value => value
  | .error _ => 0

/-- The growth of a reward per unit of liquidity over a time span; zero where it overflows. -/
def rewardGrowthDelta (timeDelta emissionsPerSecondX64 liquidity : ℕ) : ℕ :=
  unwrapOrZero (checkedMulDiv timeDelta emissionsPerSecondX64 liquidity)

/-- The rewards of a pool accrued up to a timestamp. -/
def nextWhirlpoolRewardInfos (whirlpool : Whirlpool) (nextTimestamp : ℕ) :
    Result (Fin numRewards → WhirlpoolRewardInfo) :=
  let currTimestamp := whirlpool.rewardLastUpdatedTimestamp
  if nextTimestamp < currTimestamp then err .invalidTimestamp
  else if whirlpool.liquidity = 0 ∨ nextTimestamp = currTimestamp then .ok whirlpool.rewardInfos
  else
    let timeDelta := nextTimestamp - currTimestamp
    .ok fun index =>
      let info := whirlpool.rewardInfos index
      if ¬ info.initialized then info
      else { info with
        growthGlobalX64 := wrappingAdd 128 info.growthGlobalX64
          (rewardGrowthDelta timeDelta info.emissionsPerSecondX64 whirlpool.liquidity) }

/-- The pool's liquidity after a position's changes: affected when it is in range. -/
def nextWhirlpoolLiquidity (m : Machine) (whirlpool : Whirlpool)
    (tickUpperIndex tickLowerIndex liquidityDelta : ℤ) : Result ℕ :=
  if whirlpool.tickCurrentIndex < tickUpperIndex ∧
      whirlpool.tickCurrentIndex ≥ tickLowerIndex then
    addLiquidityDelta m whirlpool.liquidity liquidityDelta
  else .ok whirlpool.liquidity

end Whirlpools
