import Whirlpools.Accounting.SwapSteps
import Whirlpools.Accounting.TokenDeltas
import Whirlpools.Instructions.Writes

/-! # What an instruction can do to a pool

Every successful instruction has one of a few effects on the market, the positions
and the funds of a pool. The invariants of pools are proved from these effects.
-/

namespace Whirlpools

open Outcome Ledger Rounding

/-- The amount of a token moved by a swap. -/
def PostSwapUpdate.amount (update : PostSwapUpdate) (isTokenA : Bool) : ℕ :=
  if isTokenA then update.amountA else update.amountB

namespace Pool

/-- What stays of the account data. -/
structure Kept (pool pool' : Pool) : Prop where
  filed : pool'.ArraysFiled
  spacing : pool'.whirlpool.tickSpacing = pool.whirlpool.tickSpacing
  rate : pool.whirlpool.protocolFeeRate ≤ maxProtocolFeeRate →
    pool'.whirlpool.protocolFeeRate ≤ maxProtocolFeeRate
  fits : (∀ isTokenA, pool.vault isTokenA < 2 ^ 64) → ∀ isTokenA, pool'.vault isTokenA < 2 ^ 64

/-- The effect of a successful instruction. -/
inductive Effect (m : Machine) (pool : Pool) (receipt : Receipt) (pool' : Pool) : Prop
  /-- Only data outside of the books changes. -/
  | still (receipt_eq : receipt = .quiet) (market_eq : pool'.market = pool.market)
      (positions_eq : pool'.positions = pool.positions)
      (owed_eq : pool'.protocolFeeOwed = pool.protocolFeeOwed) (vault_eq : pool'.vault = pool.vault)
  /-- A reward is set up. -/
  | setsUp {infos : Fin numRewards → WhirlpoolRewardInfo} (receipt_eq : receipt = .quiet)
      (growth_eq : ∀ index, (infos index).growthGlobalX64 =
        (pool.whirlpool.rewardInfos index).growthGlobalX64)
      (initialized : ∀ index, (pool.whirlpool.rewardInfos index).initialized = true →
        (infos index).initialized = true)
      (market_eq : pool'.market = pool.market.accrue infos)
      (positions_eq : pool'.positions = pool.positions)
      (owed_eq : pool'.protocolFeeOwed = pool.protocolFeeOwed) (vault_eq : pool'.vault = pool.vault)
  /-- A reward gets a new emission rate, after the rewards accrued. -/
  | emits {timestamp : ℕ} {infos infos' : Fin numRewards → WhirlpoolRewardInfo}
      (receipt_eq : receipt = .emissions pool timestamp)
      (accrued : nextWhirlpoolRewardInfos pool.whirlpool timestamp = .ok infos)
      (growth_eq : ∀ index, (infos' index).growthGlobalX64 = (infos index).growthGlobalX64)
      (initialized : ∀ index, (infos' index).initialized = (infos index).initialized)
      (market_eq : pool'.market = pool.market.accrue infos')
      (positions_eq : pool'.positions = pool.positions)
      (owed_eq : pool'.protocolFeeOwed = pool.protocolFeeOwed) (vault_eq : pool'.vault = pool.vault)
  /-- An empty position is opened. -/
  | opens {positionMint : Pubkey} {position : Position} (receipt_eq : receipt = .quiet)
      (fresh : pool.positions.lookup positionMint = none)
      (wellFormed : position.WellFormed pool.whirlpool.tickSpacing)
      (empty : position.liquidity = 0) (nothing : ∀ channel, position.owed channel = 0)
      (market_eq : pool'.market = pool.market)
      (positions_eq : pool'.positions = pool.positions.insert positionMint position)
      (owed_eq : pool'.protocolFeeOwed = pool.protocolFeeOwed) (vault_eq : pool'.vault = pool.vault)
  /-- An empty position is closed. -/
  | closes {positionMint : Pubkey} {position : Position} (receipt_eq : receipt = .quiet)
      (found : pool.positions.lookup positionMint = some position)
      (empty : position.liquidity = 0) (nothing : ∀ channel, position.owed channel = 0)
      (market_eq : pool'.market = pool.market)
      (positions_eq : pool'.positions = pool.positions.erase positionMint)
      (owed_eq : pool'.protocolFeeOwed = pool.protocolFeeOwed) (vault_eq : pool'.vault = pool.vault)
  /-- A position is paid fees out of the vaults, or a reward. -/
  | pays {positionMint : Pubkey} {position position' : Position} (receipt_eq : receipt = .quiet)
      (found : pool.positions.lookup positionMint = some position)
      (liquidity_eq : position'.liquidity = position.liquidity)
      (range_eq : position'.tickLowerIndex = position.tickLowerIndex ∧
        position'.tickUpperIndex = position.tickUpperIndex)
      (checkpoint_eq : position'.growthCheckpoint = position.growthCheckpoint)
      (paid : ∀ isTokenA, position'.owed (.fee isTokenA) + pool.vault isTokenA =
        position.owed (.fee isTokenA) + pool'.vault isTokenA)
      (market_eq : pool'.market = pool.market)
      (positions_eq : pool'.positions = pool.positions.insert positionMint position')
      (owed_eq : pool'.protocolFeeOwed = pool.protocolFeeOwed)
  /-- The protocol fees are paid out. -/
  | paysProtocol (receipt_eq : receipt = .protocolFees pool)
    (market_eq : pool'.market = pool.market)
      (positions_eq : pool'.positions = pool.positions)
      (owed_eq : ∀ isTokenA, pool'.protocolFeeOwed isTokenA = 0)
      (vault_eq : ∀ isTokenA, pool.vault isTokenA =
        pool'.vault isTokenA + pool.protocolFeeOwed isTokenA)
  /-- A position is credited and its liquidity changed, after the rewards accrued. -/
  | credits {timestamp : ℕ} {positionMint : Pubkey} {position : Position} {liquidityDelta : ℤ}
      {update : ModifyLiquidityUpdate}
      (receipt_eq : receipt = .credit pool timestamp position update.positionUpdate)
      (found : pool.positions.lookup positionMint = some position)
      (accrued : nextWhirlpoolRewardInfos pool.whirlpool timestamp = .ok update.rewardInfos)
      (modifies : Modifies m (pool.market.accrue update.rewardInfos) position liquidityDelta update)
      (inUse : liquidityDelta = 0 → 0 < position.liquidity)
      (market_eq : pool'.market = (pool.market.accrue update.rewardInfos).modify position update)
      (positions_eq : pool'.positions =
        pool.positions.insert positionMint (position.update update.positionUpdate))
      (owed_eq : pool'.protocolFeeOwed = pool.protocolFeeOwed)
      (covered : ∀ isTokenA, (pool.vault isTokenA : ℚ) + liquidityDelta *
        position.tokensOf 1 isTokenA pool.whirlpool.sqrtPrice ≤ pool'.vault isTokenA)
  /-- A swap runs, after the rewards accrued. -/
  | swaps {timestamp amount : ℕ} {context : SwapContext} {sequence : SwapTickSequence}
      {outcome : SwapOutcome} {last : TickTable} {final : SwapState}
      (receipt_eq : receipt = .swap pool timestamp context.aToB outcome.iterations)
      (whirlpool_eq : context.whirlpool = pool.whirlpool)
      (accrued : nextWhirlpoolRewardInfos pool.whirlpool timestamp = .ok context.nextRewardInfos)
      (traded : Traded m context pool.tickAt sequence amount outcome last final)
      (market_eq : pool'.market = final.market context last)
      (positions_eq : pool'.positions = pool.positions)
      (owed_eq : ∀ isTokenA, if isTokenA = context.aToB then
          m.plainAdd 64 (pool.protocolFeeOwed isTokenA) final.currProtocolFee =
            .ok (pool'.protocolFeeOwed isTokenA)
        else pool'.protocolFeeOwed isTokenA = pool.protocolFeeOwed isTokenA)
      (vault_eq : ∀ isTokenA, if isTokenA = context.aToB then
          pool'.vault isTokenA = pool.vault isTokenA + outcome.update.amount isTokenA
        else pool.vault isTokenA = pool'.vault isTokenA + outcome.update.amount isTokenA)

/-- What an instruction needs to find in order to have its effect. -/
structure Ready (pool : Pool) : Prop where
  filed : pool.ArraysFiled
  booked : Booked pool.whirlpool.tickSpacing pool.market pool.positions
  place : PriceTick pool.whirlpool.sqrtPrice pool.whirlpool.tickCurrentIndex
  liquidity : pool.whirlpool.liquidity < 2 ^ 128

end Pool
end Whirlpools
