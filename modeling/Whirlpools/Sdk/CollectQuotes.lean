import Whirlpools.Sdk.TokenExtensionUtil
import Whirlpools.State.Position
import Whirlpools.State.Tick

/-! # Quotes for collecting fees and rewards

The quotes bring the fees and rewards of a position up to date on integers of any size. Differences
of growth accumulators wrap; the amounts do not.
-/

namespace Whirlpools.Sdk

open Outcome

/-- The magnitude of a number shifted to the right. -/
def BN.shrn (n : BN) (bits : ℕ) : BN := n.tdiv (2 ^ bits)

def BN.shln (n : BN) (bits : ℕ) : BN := n * 2 ^ bits

/-- The three amounts of a growth accumulator that a range is computed from. -/
structure GrowthData where
  growthGlobalX64 : BN
  tickLowerGrowthOutsideX64 : BN
  tickUpperGrowthOutsideX64 : BN

section Fees

structure CollectFeesQuoteParam where
  whirlpool : Whirlpool
  position : Position
  tickLower : Tick
  tickUpper : Tick
  tokenExtensionCtx : TokenExtensionContextForPool

structure CollectFeesQuote where
  feeOwedA : BN
  feeOwedB : BN
  deductedFromFeeOwedA : BN
  deductedFromFeeOwedB : BN

/-- The growth of the fees of one token inside a range. -/
def feeGrowthInsideX64 (lib : CommonSdk) (tickCurrentIndex tickLowerIndex tickUpperIndex : ℤ)
    (growth : GrowthData) : BN :=
  let feeGrowthBelowX64 :=
    if tickCurrentIndex < tickLowerIndex then
      lib.subUnderflowU128 growth.growthGlobalX64 growth.tickLowerGrowthOutsideX64
    else growth.tickLowerGrowthOutsideX64
  let feeGrowthAboveX64 :=
    if tickCurrentIndex < tickUpperIndex then growth.tickUpperGrowthOutsideX64
    else lib.subUnderflowU128 growth.growthGlobalX64 growth.tickUpperGrowthOutsideX64
  lib.subUnderflowU128 (lib.subUnderflowU128 growth.growthGlobalX64 feeGrowthBelowX64)
    feeGrowthAboveX64

/-- The fees of one token owed after an update. -/
def updatedFeeOwed (lib : CommonSdk) (feeOwed feeGrowthInsideX64 feeGrowthCheckpointX64
    liquidity : BN) : BN :=
  let feeOwedDelta :=
    BN.shrn (lib.subUnderflowU128 feeGrowthInsideX64 feeGrowthCheckpointX64 * liquidity) 64
  feeOwed + feeOwedDelta

def collectFeesQuote (lib : CommonSdk) (spl : SplToken) (param : CollectFeesQuoteParam) :
    CollectFeesQuote :=
  let whirlpool := param.whirlpool
  let position := param.position
  let inside := feeGrowthInsideX64 lib whirlpool.tickCurrentIndex position.tickLowerIndex
    position.tickUpperIndex
  let feeGrowthInsideAX64 := inside ⟨whirlpool.feeGrowthGlobalA, param.tickLower.feeGrowthOutsideA,
    param.tickUpper.feeGrowthOutsideA⟩
  let feeGrowthInsideBX64 := inside ⟨whirlpool.feeGrowthGlobalB, param.tickLower.feeGrowthOutsideB,
    param.tickUpper.feeGrowthOutsideB⟩
  let updatedFeeOwedA := updatedFeeOwed lib position.feeOwedA feeGrowthInsideAX64
    position.feeGrowthCheckpointA position.liquidity
  let transferFeeExcludedAmountA := TokenExtensionUtil.calculateTransferFeeExcludedAmount spl
    updatedFeeOwedA param.tokenExtensionCtx.tokenMintWithProgramA
  let updatedFeeOwedB := updatedFeeOwed lib position.feeOwedB feeGrowthInsideBX64
    position.feeGrowthCheckpointB position.liquidity
  let transferFeeExcludedAmountB := TokenExtensionUtil.calculateTransferFeeExcludedAmount spl
    updatedFeeOwedB param.tokenExtensionCtx.tokenMintWithProgramB
  { feeOwedA := transferFeeExcludedAmountA.amount
    feeOwedB := transferFeeExcludedAmountB.amount
    deductedFromFeeOwedA := transferFeeExcludedAmountA.fee
    deductedFromFeeOwedB := transferFeeExcludedAmountB.fee }

end Fees

section Rewards

/-- The transfer fees of the reward mints in the current epoch. -/
structure TokenExtensionContextForReward where
  rewardTokenMintsWithProgram : Fin numRewards → Option TransferFee

structure CollectRewardsQuoteParam where
  whirlpool : Whirlpool
  position : Position
  tickLower : Tick
  tickUpper : Tick
  tokenExtensionCtx : TokenExtensionContextForReward
  timeStampInSeconds : BN

/-- What is quoted for each reward that is set up. -/
structure CollectRewardsQuote where
  rewardOwed : List (Option BN)
  deductedFromRewardOwed : List (Option BN)

namespace PoolUtil

/-- A reward is set up once it has a mint and a vault. -/
def isRewardInitialized (rewardInfo : WhirlpoolRewardInfo) : Bool :=
  rewardInfo.mint ≠ 0 ∧ rewardInfo.vault ≠ 0

end PoolUtil

/-- The global growth of a reward up to the timestamp. -/
def adjustedRewardGrowthGlobalX64 (whirlpool : Whirlpool) (rewardInfo : WhirlpoolRewardInfo)
    (timestampDelta : BN) : Attempt BN :=
  if (whirlpool.liquidity : BN) ≠ 0 then
    mulDiv timestampDelta rewardInfo.emissionsPerSecondX64 whirlpool.liquidity 128
      >>= fun rewardGrowthDelta => .ok (rewardInfo.growthGlobalX64 + rewardGrowthDelta)
  else .ok rewardInfo.growthGlobalX64

/-- The growth of a reward inside a range. -/
def rewardGrowthInsideX64 (lib : CommonSdk) (tickCurrentIndex tickLowerIndex tickUpperIndex : ℤ)
    (tickLower tickUpper : Tick) (growth : GrowthData) : BN :=
  let rewardGrowthsBelowX64 :=
    if tickLower.initialized then
      if tickCurrentIndex < tickLowerIndex then
        lib.subUnderflowU128 growth.growthGlobalX64 growth.tickLowerGrowthOutsideX64
      else growth.tickLowerGrowthOutsideX64
    else growth.growthGlobalX64
  let rewardGrowthsAboveX64 :=
    if tickUpper.initialized then
      if tickCurrentIndex < tickUpperIndex then growth.tickUpperGrowthOutsideX64
      else lib.subUnderflowU128 growth.growthGlobalX64 growth.tickUpperGrowthOutsideX64
    else 0
  lib.subUnderflowU128 (lib.subUnderflowU128 growth.growthGlobalX64 rewardGrowthsBelowX64)
    rewardGrowthsAboveX64

/-- The quote of one reward; nothing where it is not set up. -/
def rewardQuote (lib : CommonSdk) (spl : SplToken) (param : CollectRewardsQuoteParam)
    (i : Fin numRewards) : Attempt (Option TransferFeeExcludedAmount) :=
  let whirlpool := param.whirlpool
  let position := param.position
  let timestampDelta := param.timeStampInSeconds - whirlpool.rewardLastUpdatedTimestamp
  let rewardInfo := whirlpool.rewardInfos i
  let positionRewardInfo := position.rewardInfos i
  if ¬ PoolUtil.isRewardInitialized rewardInfo then .ok none
  else
    adjustedRewardGrowthGlobalX64 whirlpool rewardInfo timestampDelta >>= fun growthGlobalX64 =>
    let rewardGrowthInsideX64 := rewardGrowthInsideX64 lib whirlpool.tickCurrentIndex
      position.tickLowerIndex position.tickUpperIndex param.tickLower param.tickUpper
      ⟨growthGlobalX64, param.tickLower.rewardGrowthsOutside i,
        param.tickUpper.rewardGrowthsOutside i⟩
    let amountOwedX64 := BN.shln positionRewardInfo.amountOwed 64
    let amountOwed := BN.shrn (amountOwedX64 +
      lib.subUnderflowU128 rewardGrowthInsideX64 positionRewardInfo.growthInsideCheckpoint *
        position.liquidity) 64
    .ok (some (TokenExtensionUtil.calculateTransferFeeExcludedAmount spl amountOwed
      (param.tokenExtensionCtx.rewardTokenMintsWithProgram i)))

def collectRewardsQuote (lib : CommonSdk) (spl : SplToken) (param : CollectRewardsQuoteParam) :
    Attempt CollectRewardsQuote :=
  (List.finRange numRewards).mapM (rewardQuote lib spl param) >>= fun quotes =>
  .ok {
    rewardOwed := quotes.map (Option.map TransferFeeExcludedAmount.amount)
    deductedFromRewardOwed := quotes.map (Option.map TransferFeeExcludedAmount.fee) }

end Rewards

end Whirlpools.Sdk
