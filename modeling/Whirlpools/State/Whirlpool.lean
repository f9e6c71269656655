import Whirlpools.Math.TokenMath

/-! # The pool account -/

namespace Whirlpools

open Outcome

/-- Account addresses; `0` is the default key. -/
abbrev Pubkey := ℕ

/-- The number of rewards of a pool. -/
def numRewards : ℕ := 3

/-- The reward state kept by the pool. -/
structure WhirlpoolRewardInfo where
  mint : Pubkey
  vault : Pubkey
  authority : Pubkey
  /-- Q64.64 tokens emitted per second. -/
  emissionsPerSecondX64 : ℕ
  /-- Q64.64 tokens earned per unit of liquidity so far. -/
  growthGlobalX64 : ℕ
  deriving DecidableEq

namespace WhirlpoolRewardInfo

/-- A reward with its authority and nothing else set. -/
def new (authority : Pubkey) : WhirlpoolRewardInfo := ⟨0, 0, authority, 0, 0⟩

/-- A reward is initialized once it has a mint. -/
def initialized (info : WhirlpoolRewardInfo) : Bool := info.mint ≠ 0

/-- The growth accumulators of all rewards. -/
def toRewardGrowths (rewardInfos : Fin numRewards → WhirlpoolRewardInfo) : Fin numRewards → ℕ :=
  fun index => (rewardInfos index).growthGlobalX64

end WhirlpoolRewardInfo

/-- The pool account. -/
structure Whirlpool where
  tickSpacing : ℕ
  feeRate : ℕ
  protocolFeeRate : ℕ
  liquidity : ℕ
  sqrtPrice : ℕ
  tickCurrentIndex : ℤ
  protocolFeeOwedA : ℕ
  protocolFeeOwedB : ℕ
  tokenMintA : Pubkey
  tokenVaultA : Pubkey
  feeGrowthGlobalA : ℕ
  tokenMintB : Pubkey
  tokenVaultB : Pubkey
  feeGrowthGlobalB : ℕ
  rewardLastUpdatedTimestamp : ℕ
  rewardInfos : Fin numRewards → WhirlpoolRewardInfo

/-- The fields of the configuration account that a new pool reads. -/
structure WhirlpoolsConfig where
  defaultProtocolFeeRate : ℕ
  rewardEmissionsSuperAuthority : Pubkey

namespace Whirlpool

def inputTokenMint (whirlpool : Whirlpool) (aToB : Bool) : Pubkey :=
  if aToB then whirlpool.tokenMintA else whirlpool.tokenMintB

def outputTokenMint (whirlpool : Whirlpool) (aToB : Bool) : Pubkey :=
  if aToB then whirlpool.tokenMintB else whirlpool.tokenMintA

def updateFeeRate (whirlpool : Whirlpool) (feeRate : ℕ) : Result Whirlpool :=
  if feeRate > maxFeeRate then err .feeRateMaxExceeded
  else .ok { whirlpool with feeRate := feeRate }

def updateProtocolFeeRate (whirlpool : Whirlpool) (protocolFeeRate : ℕ) : Result Whirlpool :=
  if protocolFeeRate > maxProtocolFeeRate then err .protocolFeeRateMaxExceeded
  else .ok { whirlpool with protocolFeeRate := protocolFeeRate }

/-- The freshly allocated, zeroed account. -/
def zeroed : Whirlpool where
  tickSpacing := 0
  feeRate := 0
  protocolFeeRate := 0
  liquidity := 0
  sqrtPrice := 0
  tickCurrentIndex := 0
  protocolFeeOwedA := 0
  protocolFeeOwedB := 0
  tokenMintA := 0
  tokenVaultA := 0
  feeGrowthGlobalA := 0
  tokenMintB := 0
  tokenVaultB := 0
  feeGrowthGlobalB := 0
  rewardLastUpdatedTimestamp := 0
  rewardInfos := fun _ => ⟨0, 0, 0, 0, 0⟩

/-- Set up a new pool at an accepted price. -/
def initializeWhirlpool (config : WhirlpoolsConfig) (tickSpacing sqrtPrice defaultFeeRate : ℕ)
    (tokenMintA tokenVaultA tokenMintB tokenVaultB : Pubkey) : Result Whirlpool :=
  if tokenMintA ≥ tokenMintB then err .invalidTokenMintOrder
  else if sqrtPrice < minSqrtPriceX64 ∨ sqrtPrice > maxSqrtPriceX64 then
    err .sqrtPriceOutOfBounds
  else
    { zeroed with tickSpacing := tickSpacing }.updateFeeRate defaultFeeRate >>= fun withFee =>
    withFee.updateProtocolFeeRate config.defaultProtocolFeeRate >>= fun withRates =>
    .ok { withRates with
      liquidity := 0
      sqrtPrice := sqrtPrice
      tickCurrentIndex := tickIndexFromSqrtPrice sqrtPrice
      protocolFeeOwedA := 0
      protocolFeeOwedB := 0
      tokenMintA := tokenMintA
      tokenVaultA := tokenVaultA
      feeGrowthGlobalA := 0
      tokenMintB := tokenMintB
      tokenVaultB := tokenVaultB
      feeGrowthGlobalB := 0
      rewardInfos := fun _ => .new config.rewardEmissionsSuperAuthority }

def updateRewards (whirlpool : Whirlpool) (rewardInfos : Fin numRewards → WhirlpoolRewardInfo)
    (rewardLastUpdatedTimestamp : ℕ) : Whirlpool :=
  { whirlpool with
    rewardLastUpdatedTimestamp := rewardLastUpdatedTimestamp
    rewardInfos := rewardInfos }

def updateRewardsAndLiquidity (whirlpool : Whirlpool)
    (rewardInfos : Fin numRewards → WhirlpoolRewardInfo) (liquidity : ℕ)
    (rewardLastUpdatedTimestamp : ℕ) : Whirlpool :=
  { whirlpool.updateRewards rewardInfos rewardLastUpdatedTimestamp with liquidity := liquidity }

/-- Set the emission rate of a reward after accruing it at the old rate. -/
def updateEmissions (whirlpool : Whirlpool) (index : ℕ)
    (rewardInfos : Fin numRewards → WhirlpoolRewardInfo) (timestamp emissionsPerSecondX64 : ℕ) :
    Result Whirlpool :=
  if index ≥ numRewards then err .invalidRewardIndex
  else
    let updated := whirlpool.updateRewards rewardInfos timestamp
    .ok { updated with
      rewardInfos := fun position =>
        if position.val = index then
          { updated.rewardInfos position with emissionsPerSecondX64 := emissionsPerSecondX64 }
        else updated.rewardInfos position }

/-- The position of the first uninitialized reward. -/
def lowestUninitializedReward (whirlpool : Whirlpool) : Option (Fin numRewards) :=
  (List.finRange numRewards).find? fun index => !(whirlpool.rewardInfos index).initialized

/-- Give the next reward its mint and vault. -/
def initializeReward (whirlpool : Whirlpool) (index : ℕ) (mint vault : Pubkey) :
    Result Whirlpool :=
  if index ≥ numRewards then err .invalidRewardIndex
  else match whirlpool.lowestUninitializedReward with
    | none => err .invalidRewardIndex
    | some lowestIndex =>
        if lowestIndex.val ≠ index then err .invalidRewardIndex
        else .ok { whirlpool with
          rewardInfos := fun position =>
            if position.val = index then
              { whirlpool.rewardInfos position with mint := mint, vault := vault }
            else whirlpool.rewardInfos position }

/-- Record the outcome of a swap. The protocol fee is added with plain `+=`. -/
def updateAfterSwap (m : Machine) (whirlpool : Whirlpool) (liquidity : ℕ) (tickIndex : ℤ)
    (sqrtPrice feeGrowthGlobal : ℕ) (rewardInfos : Fin numRewards → WhirlpoolRewardInfo)
    (protocolFee : ℕ) (isTokenFeeInA : Bool) (rewardLastUpdatedTimestamp : ℕ) :
    Result Whirlpool :=
  let updated := { whirlpool with
    tickCurrentIndex := tickIndex
    sqrtPrice := sqrtPrice
    liquidity := liquidity
    rewardInfos := rewardInfos
    rewardLastUpdatedTimestamp := rewardLastUpdatedTimestamp }
  if isTokenFeeInA then
    m.plainAdd 64 whirlpool.protocolFeeOwedA protocolFee >>= fun owed =>
    .ok { updated with feeGrowthGlobalA := feeGrowthGlobal, protocolFeeOwedA := owed }
  else
    m.plainAdd 64 whirlpool.protocolFeeOwedB protocolFee >>= fun owed =>
    .ok { updated with feeGrowthGlobalB := feeGrowthGlobal, protocolFeeOwedB := owed }

def resetProtocolFeesOwed (whirlpool : Whirlpool) : Whirlpool :=
  { whirlpool with protocolFeeOwedA := 0, protocolFeeOwedB := 0 }

end Whirlpool
end Whirlpools
