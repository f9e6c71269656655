import Whirlpools.Math.LiquidityMath
import Whirlpools.State.Tick

/-! # Growth outside and inside of ticks -/

namespace Whirlpools

open Outcome

/-- Flip the growth outside a tick as the price crosses it. -/
def nextTickCrossUpdate (tick : Tick) (feeGrowthGlobalA feeGrowthGlobalB : ℕ)
    (rewardInfos : Fin numRewards → WhirlpoolRewardInfo) : TickUpdate :=
  { tick with
    feeGrowthOutsideA := wrappingSub feeGrowthGlobalA tick.feeGrowthOutsideA
    feeGrowthOutsideB := wrappingSub feeGrowthGlobalB tick.feeGrowthOutsideB
    rewardGrowthsOutside := fun index =>
      if (rewardInfos index).initialized then
        wrappingSub (rewardInfos index).growthGlobalX64 (tick.rewardGrowthsOutside index)
      else tick.rewardGrowthsOutside index }

/-- `checked_add` and `checked_sub` on `i128`. -/
def checkedI128 (value : ℤ) : Result ℤ :=
  if -2 ^ 127 ≤ value ∧ value < 2 ^ 127 then .ok value else err .liquidityNetError

/-- A bound of a position after its liquidity changes. -/
def nextTickModifyLiquidityUpdate (m : Machine) (tick : Tick) (tickIndex tickCurrentIndex : ℤ)
    (feeGrowthGlobalA feeGrowthGlobalB : ℕ) (rewardInfos : Fin numRewards → WhirlpoolRewardInfo)
    (liquidityDelta : ℤ) (isUpperTick : Bool) : Result TickUpdate :=
  if liquidityDelta = 0 then .ok tick
  else
    addLiquidityDelta m tick.liquidityGross liquidityDelta >>= fun liquidityGross =>
    if liquidityGross = 0 then .ok Tick.default
    else
      -- By convention all growth before a tick is initialized happened below it.
      let (feeGrowthOutsideA, feeGrowthOutsideB, rewardGrowthsOutside) :=
        if tick.liquidityGross = 0 then
          if tickCurrentIndex ≥ tickIndex then
            (feeGrowthGlobalA, feeGrowthGlobalB, WhirlpoolRewardInfo.toRewardGrowths rewardInfos)
          else (0, 0, fun _ => 0)
        else (tick.feeGrowthOutsideA, tick.feeGrowthOutsideB, tick.rewardGrowthsOutside)
      checkedI128 (if isUpperTick then tick.liquidityNet - liquidityDelta
        else tick.liquidityNet + liquidityDelta) >>= fun liquidityNet =>
      .ok {
        initialized := true
        liquidityNet := liquidityNet
        liquidityGross := liquidityGross
        feeGrowthOutsideA := feeGrowthOutsideA
        feeGrowthOutsideB := feeGrowthOutsideB
        rewardGrowthsOutside := rewardGrowthsOutside }

/-- The growth below a lower bound: the global one when the bound is uninitialized. -/
def growthBelow (tickCurrentIndex : ℤ) (tickLower : Tick) (tickLowerIndex : ℤ)
    (growthGlobal growthOutside : ℕ) : ℕ :=
  if ¬ tickLower.initialized then growthGlobal
  else if tickCurrentIndex < tickLowerIndex then wrappingSub growthGlobal growthOutside
  else growthOutside

/-- The growth above an upper bound: zero when the bound is uninitialized. -/
def growthAbove (tickCurrentIndex : ℤ) (tickUpper : Tick) (tickUpperIndex : ℤ)
    (growthGlobal growthOutside : ℕ) : ℕ :=
  if ¬ tickUpper.initialized then 0
  else if tickCurrentIndex < tickUpperIndex then growthOutside
  else wrappingSub growthGlobal growthOutside

/-- The fee growths inside a range, for tokens A and B. -/
def nextFeeGrowthsInside (tickCurrentIndex : ℤ) (tickLower : Tick) (tickLowerIndex : ℤ)
    (tickUpper : Tick) (tickUpperIndex : ℤ) (feeGrowthGlobalA feeGrowthGlobalB : ℕ) : ℕ × ℕ :=
  let feeGrowthBelowA := growthBelow tickCurrentIndex tickLower tickLowerIndex feeGrowthGlobalA
    tickLower.feeGrowthOutsideA
  let feeGrowthBelowB := growthBelow tickCurrentIndex tickLower tickLowerIndex feeGrowthGlobalB
    tickLower.feeGrowthOutsideB
  let feeGrowthAboveA := growthAbove tickCurrentIndex tickUpper tickUpperIndex feeGrowthGlobalA
    tickUpper.feeGrowthOutsideA
  let feeGrowthAboveB := growthAbove tickCurrentIndex tickUpper tickUpperIndex feeGrowthGlobalB
    tickUpper.feeGrowthOutsideB
  (wrappingSub (wrappingSub feeGrowthGlobalA feeGrowthBelowA) feeGrowthAboveA,
    wrappingSub (wrappingSub feeGrowthGlobalB feeGrowthBelowB) feeGrowthAboveB)

/-- The reward growths inside a range; zero for uninitialized rewards. -/
def nextRewardGrowthsInside (tickCurrentIndex : ℤ) (tickLower : Tick) (tickLowerIndex : ℤ)
    (tickUpper : Tick) (tickUpperIndex : ℤ) (rewardInfos : Fin numRewards → WhirlpoolRewardInfo) :
    Fin numRewards → ℕ := fun index =>
  if ¬ (rewardInfos index).initialized then 0
  else
    let growthGlobal := (rewardInfos index).growthGlobalX64
    let rewardGrowthsBelow := growthBelow tickCurrentIndex tickLower tickLowerIndex growthGlobal
      (tickLower.rewardGrowthsOutside index)
    let rewardGrowthsAbove := growthAbove tickCurrentIndex tickUpper tickUpperIndex growthGlobal
      (tickUpper.rewardGrowthsOutside index)
    wrappingSub (wrappingSub growthGlobal rewardGrowthsBelow) rewardGrowthsAbove

end Whirlpools
