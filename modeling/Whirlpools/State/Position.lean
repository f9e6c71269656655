import Whirlpools.State.Tick

/-! # Positions -/

namespace Whirlpools

open Outcome

/-- The reward state kept by a position. -/
structure PositionRewardInfo where
  growthInsideCheckpoint : ℕ
  amountOwed : ℕ
  deriving DecidableEq

/-- A position of the pool. -/
structure Position where
  positionMint : Pubkey
  liquidity : ℕ
  tickLowerIndex : ℤ
  tickUpperIndex : ℤ
  feeGrowthCheckpointA : ℕ
  feeOwedA : ℕ
  feeGrowthCheckpointB : ℕ
  feeOwedB : ℕ
  rewardInfos : Fin numRewards → PositionRewardInfo

/-- The fields of a position that change with its liquidity. -/
structure PositionUpdate where
  liquidity : ℕ
  feeGrowthCheckpointA : ℕ
  feeOwedA : ℕ
  feeGrowthCheckpointB : ℕ
  feeOwedB : ℕ
  rewardInfos : Fin numRewards → PositionRewardInfo

namespace Position

/-- Whether nothing is left in a position or owed to it. -/
def isPositionEmpty (position : Position) : Bool :=
  let feesNotOwed := position.feeOwedA = 0 ∧ position.feeOwedB = 0
  let rewardsNotOwed := ∀ index, (position.rewardInfos index).amountOwed = 0
  position.liquidity = 0 ∧ feesNotOwed ∧ rewardsNotOwed

def update (position : Position) (update : PositionUpdate) : Position :=
  { position with
    liquidity := update.liquidity
    feeGrowthCheckpointA := update.feeGrowthCheckpointA
    feeGrowthCheckpointB := update.feeGrowthCheckpointB
    feeOwedA := update.feeOwedA
    feeOwedB := update.feeOwedB
    rewardInfos := update.rewardInfos }

/-- Open a position over a range of usable ticks. The remainder by a zero spacing panics. -/
def openPosition (whirlpool : Whirlpool) (positionMint : Pubkey)
    (tickLowerIndex tickUpperIndex : ℤ) : Result Position :=
  if whirlpool.tickSpacing = 0 then .error .panic
  else if ¬ Tick.checkIsUsableTick tickLowerIndex whirlpool.tickSpacing ∨
      ¬ Tick.checkIsUsableTick tickUpperIndex whirlpool.tickSpacing ∨
      tickLowerIndex ≥ tickUpperIndex then err .invalidTickIndex
  else .ok {
    positionMint := positionMint
    liquidity := 0
    tickLowerIndex := tickLowerIndex
    tickUpperIndex := tickUpperIndex
    feeGrowthCheckpointA := 0
    feeOwedA := 0
    feeGrowthCheckpointB := 0
    feeOwedB := 0
    rewardInfos := fun _ => ⟨0, 0⟩ }

def resetFeesOwed (position : Position) : Position :=
  { position with feeOwedA := 0, feeOwedB := 0 }

def updateRewardOwed (position : Position) (index : Fin numRewards) (amountOwed : ℕ) : Position :=
  { position with
    rewardInfos := Function.update position.rewardInfos index
      { position.rewardInfos index with amountOwed := amountOwed } }

end Position
end Whirlpools
