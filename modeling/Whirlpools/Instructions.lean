import Whirlpools.Foundation.Ledger
import Whirlpools.Manager.LiquidityManager
import Whirlpools.Manager.SwapManager

/-! # The instructions of the program on one pool

A pool is its account, its positions, its tick arrays and the balances of its
two vaults. Signers, the traders' token accounts and the reward vaults belong to
the environment: an instruction refused for their sake leaves the pool as it is,
and the balance of a reward vault is an argument. A successful instruction also
returns a receipt of what it accounted for, which the program does not keep.
-/

namespace Whirlpools

open Outcome Ledger

/-- A pool with everything stored for it. Tick arrays are found by their start index,
positions by their mint. -/
structure Pool where
  whirlpool : Whirlpool
  positions : Records Pubkey Position
  tickArrays : ℤ → Option TickArray
  vaultA : ℕ
  vaultB : ℕ

/-- What a successful instruction accounted for, with the pool it started from. -/
inductive Receipt where
  /-- Nothing but the stored data changed. -/
  | quiet
  /-- The rewards accrued, and the emissions changed. -/
  | emissions (pool : Pool) (timestamp : ℕ)
  /-- The rewards accrued, and a position was credited. -/
  | credit (pool : Pool) (timestamp : ℕ) (position : Position) (update : PositionUpdate)
  /-- The rewards accrued, and a swap ran. -/
  | swap (pool : Pool) (timestamp : ℕ) (aToB : Bool) (iterations : List SwapIteration)
  /-- The protocol fees owed were paid out. -/
  | protocolFees (pool : Pool)

/-- The arguments of `increase_liquidity` and `decrease_liquidity`, without the token bounds. -/
structure ModifyLiquidityArgs where
  positionMint : Pubkey
  tickArrayLower : ℤ
  tickArrayUpper : ℤ
  liquidityAmount : ℕ
  unixTimestamp : ℤ

/-- The arguments of `swap`. -/
structure SwapArgs where
  amount : UInt64
  otherAmountThreshold : ℕ
  sqrtPriceLimit : ℕ
  amountSpecifiedIsInput : Bool
  aToB : Bool
  tickArray0 : ℤ
  tickArray1 : ℤ
  tickArray2 : ℤ
  unixTimestamp : ℤ

/-- The instructions on one pool. -/
inductive Instruction where
  | initializePool (config : WhirlpoolsConfig) (tickSpacing defaultFeeRate sqrtPrice : ℕ)
      (tokenMintA tokenVaultA tokenMintB tokenVaultB : Pubkey)
  | initializeTickArray (startTickIndex : ℤ)
  | openPosition (positionMint : Pubkey) (tickLowerIndex tickUpperIndex : ℤ)
  | closePosition (positionMint : Pubkey)
  | increaseLiquidity (args : ModifyLiquidityArgs) (tokenMaxA tokenMaxB : ℕ)
  | decreaseLiquidity (args : ModifyLiquidityArgs) (tokenMinA tokenMinB : ℕ)
  | swap (args : SwapArgs)
  | updateFeesAndRewards (positionMint : Pubkey) (tickArrayLower tickArrayUpper : ℤ)
      (unixTimestamp : ℤ)
  | collectFees (positionMint : Pubkey)
  | collectProtocolFees
  | initializeReward (rewardIndex : ℕ) (mint vault : Pubkey)
  | setRewardEmissions (rewardIndex emissionsPerSecondX64 rewardVaultAmount : ℕ)
      (unixTimestamp : ℤ)
  | collectReward (positionMint : Pubkey) (rewardIndex rewardVaultAmount : ℕ)
  | setFeeRate (feeRate : ℕ)
  | setProtocolFeeRate (protocolFeeRate : ℕ)

/-- A clock reading as a `u64`. -/
def toTimestampU64 (t : ℤ) : Result ℕ :=
  if t < 0 then err .invalidTimestampConversion else .ok t.toNat

/-- The balance of a vault after a transfer into it. -/
def transferFromOwnerToVault (vault amount : ℕ) : Result ℕ :=
  if vault + amount < 2 ^ 64 then .ok (vault + amount) else .error .tokenOverflow

/-- The balance of a vault after a transfer out of it. -/
def transferFromVaultToOwner (vault amount : ℕ) : Result ℕ :=
  if amount ≤ vault then .ok (vault - amount) else .error .insufficientFunds

namespace Pool

/-- The account of a position. -/
def position (pool : Pool) (positionMint : Pubkey) : Result Position :=
  okOr (pool.positions.lookup positionMint) .account

/-- The account of a tick array. -/
def tickArray (pool : Pool) (startTickIndex : ℤ) : Result TickArray :=
  okOr (pool.tickArrays startTickIndex) .account

/-- Write a position back. -/
def setPosition (pool : Pool) (positionMint : Pubkey) (position : Position) : Pool :=
  { pool with positions := pool.positions.insert positionMint position }

/-- Move both amounts into the vaults. -/
def deposit (pool : Pool) (amountA amountB : ℕ) : Result Pool :=
  transferFromOwnerToVault pool.vaultA amountA >>= fun vaultA =>
  transferFromOwnerToVault pool.vaultB amountB >>= fun vaultB =>
  .ok { pool with vaultA := vaultA, vaultB := vaultB }

/-- Move both amounts out of the vaults. -/
def withdraw (pool : Pool) (amountA amountB : ℕ) : Result Pool :=
  transferFromVaultToOwner pool.vaultA amountA >>= fun vaultA =>
  transferFromVaultToOwner pool.vaultB amountB >>= fun vaultB =>
  .ok { pool with vaultA := vaultA, vaultB := vaultB }

/-- Update one tick in its array. -/
def updateTick (pool : Pool) (startTickIndex tickIndex : ℤ) (update : TickUpdate) : Result Pool :=
  pool.tickArray startTickIndex >>= fun array =>
  array.updateTick tickIndex pool.whirlpool.tickSpacing update >>= fun updated =>
  .ok { pool with tickArrays := Function.update pool.tickArrays startTickIndex (some updated) }

/-- The update computed for a change of a position's liquidity. -/
def calculateModifyLiquidity (m : Machine) (pool : Pool) (args : ModifyLiquidityArgs)
    (liquidityDelta : ℤ) (timestamp : ℕ) : Result (Position × ModifyLiquidityUpdate) :=
  pool.position args.positionMint >>= fun position =>
  pool.tickArray args.tickArrayLower >>= fun tickArrayLower =>
  pool.tickArray args.tickArrayUpper >>= fun tickArrayUpper =>
  Whirlpools.calculateModifyLiquidity m pool.whirlpool position tickArrayLower tickArrayUpper
    liquidityDelta timestamp >>= fun update => .ok (position, update)

/-- Write the update of a position, its bounds and the pool. -/
def syncModifyLiquidityValues (pool : Pool) (args : ModifyLiquidityArgs) (position : Position)
    (update : ModifyLiquidityUpdate) (timestamp : ℕ) : Result Pool :=
  (pool.setPosition args.positionMint (position.update update.positionUpdate)).updateTick
    args.tickArrayLower position.tickLowerIndex update.tickLowerUpdate >>= fun pool =>
  pool.updateTick args.tickArrayUpper position.tickUpperIndex update.tickUpperUpdate
    >>= fun pool =>
  .ok { pool with
    whirlpool := pool.whirlpool.updateRewardsAndLiquidity update.rewardInfos
      update.whirlpoolLiquidity timestamp }

/-- The part common to increasing and decreasing liquidity: compute and write the
update, and the token amounts to be moved. -/
def modifyLiquidity (m : Machine) (pool : Pool) (args : ModifyLiquidityArgs) (positive : Bool) :
    Result (Pool × ℕ × ℕ × Receipt) :=
  if args.liquidityAmount = 0 then err .liquidityZero
  else
    convertToLiquidityDelta args.liquidityAmount positive >>= fun liquidityDelta =>
    toTimestampU64 args.unixTimestamp >>= fun timestamp =>
    pool.calculateModifyLiquidity m args liquidityDelta timestamp >>= fun (position, update) =>
    pool.syncModifyLiquidityValues args position update timestamp >>= fun synced =>
    calculateLiquidityTokenDeltas m synced.whirlpool.tickCurrentIndex synced.whirlpool.sqrtPrice
      position liquidityDelta >>= fun (deltaA, deltaB) =>
    .ok (synced, deltaA, deltaB, .credit pool timestamp position update.positionUpdate)

def increaseLiquidity (m : Machine) (pool : Pool) (args : ModifyLiquidityArgs)
    (tokenMaxA tokenMaxB : ℕ) : Result (Pool × Receipt) :=
  pool.modifyLiquidity m args true >>= fun (synced, deltaA, deltaB, receipt) =>
  if deltaA > tokenMaxA then err .tokenMaxExceeded
  else if deltaB > tokenMaxB then err .tokenMaxExceeded
  else synced.deposit deltaA deltaB >>= fun final => .ok (final, receipt)

def decreaseLiquidity (m : Machine) (pool : Pool) (args : ModifyLiquidityArgs)
    (tokenMinA tokenMinB : ℕ) : Result (Pool × Receipt) :=
  pool.modifyLiquidity m args false >>= fun (synced, deltaA, deltaB, receipt) =>
  if deltaA < tokenMinA then err .tokenMinSubceeded
  else if deltaB < tokenMinB then err .tokenMinSubceeded
  else synced.withdraw deltaA deltaB >>= fun final => .ok (final, receipt)

/-- The tick arrays named by a swap; an array named twice can be borrowed only once. -/
def swapTickSequence (pool : Pool) (tickArray0 tickArray1 tickArray2 : ℤ) :
    Result SwapTickSequence :=
  pool.tickArray tickArray0 >>= fun ta0 =>
  pool.tickArray tickArray1 >>= fun ta1 =>
  pool.tickArray tickArray2 >>= fun ta2 =>
  .ok (.new ta0 (if tickArray1 = tickArray0 then none else some ta1)
    (if tickArray2 = tickArray0 ∨ tickArray2 = tickArray1 then none else some ta2))

/-- Write the tick arrays of a swap back. -/
def setTickArrays (pool : Pool) (sequence : SwapTickSequence) : Pool :=
  { pool with
    tickArrays := sequence.arrays.foldl (fun arrays array =>
      Function.update arrays array.startTickIndex (some array)) pool.tickArrays }

/-- The computation of a swap on the pool's account and tick arrays. -/
def computeSwap (m : Machine) (pool : Pool) (args : SwapArgs) : Result (ℕ × SwapOutcome) :=
  toTimestampU64 args.unixTimestamp >>= fun timestamp =>
  pool.swapTickSequence args.tickArray0 args.tickArray1 args.tickArray2 >>= fun sequence =>
  Whirlpools.swap m pool.whirlpool sequence args.amount.toNat args.sqrtPriceLimit
    args.amountSpecifiedIsInput args.aToB timestamp >>= fun outcome => .ok (timestamp, outcome)

/-- The pool after a swap, before its tokens move. -/
def updateAfterSwap (m : Machine) (pool : Pool) (outcome : SwapOutcome) (aToB : Bool)
    (timestamp : ℕ) : Result Pool :=
  pool.whirlpool.updateAfterSwap m outcome.update.nextLiquidity outcome.update.nextTickIndex
    outcome.update.nextSqrtPrice outcome.update.nextFeeGrowthGlobal
    outcome.update.nextRewardInfos outcome.update.nextProtocolFee aToB timestamp
    >>= fun whirlpool => .ok { pool.setTickArrays outcome.sequence with whirlpool := whirlpool }

/-- Move the tokens of a swap: the input first, then the output. -/
def performSwap (pool : Pool) (amountA amountB : ℕ) (aToB : Bool) : Result Pool :=
  if aToB then
    transferFromOwnerToVault pool.vaultA amountA >>= fun vaultA =>
    transferFromVaultToOwner pool.vaultB amountB >>= fun vaultB =>
    .ok { pool with vaultA := vaultA, vaultB := vaultB }
  else
    transferFromOwnerToVault pool.vaultB amountB >>= fun vaultB =>
    transferFromVaultToOwner pool.vaultA amountA >>= fun vaultA =>
    .ok { pool with vaultA := vaultA, vaultB := vaultB }

/-- Whether the other amount of a swap misses the trader's threshold. -/
def checkThreshold (update : PostSwapUpdate) (args : SwapArgs) : Result Unit :=
  if args.amountSpecifiedIsInput then
    if (args.aToB ∧ args.otherAmountThreshold > update.amountB) ∨
        (¬ args.aToB ∧ args.otherAmountThreshold > update.amountA) then err .amountOutBelowMinimum
    else .ok ()
  else
    if (args.aToB ∧ args.otherAmountThreshold < update.amountA) ∨
        (¬ args.aToB ∧ args.otherAmountThreshold < update.amountB) then err .amountInAboveMaximum
    else .ok ()

def swap (m : Machine) (pool : Pool) (args : SwapArgs) : Result (Pool × Receipt) :=
  pool.computeSwap m args >>= fun (timestamp, outcome) =>
  checkThreshold outcome.update args >>= fun _ =>
  pool.updateAfterSwap m outcome args.aToB timestamp >>= fun updated =>
  updated.performSwap outcome.update.amountA outcome.update.amountB args.aToB >>= fun final =>
  .ok (final, .swap pool timestamp args.aToB outcome.iterations)

def updateFeesAndRewards (m : Machine) (pool : Pool) (positionMint : Pubkey)
    (tickArrayLower tickArrayUpper unixTimestamp : ℤ) : Result (Pool × Receipt) :=
  toTimestampU64 unixTimestamp >>= fun timestamp =>
  pool.position positionMint >>= fun position =>
  pool.tickArray tickArrayLower >>= fun tickArrayLower =>
  pool.tickArray tickArrayUpper >>= fun tickArrayUpper =>
  calculateFeeAndRewardGrowths m pool.whirlpool position tickArrayLower tickArrayUpper timestamp
    >>= fun (positionUpdate, rewardInfos) =>
  .ok ({ pool with whirlpool := pool.whirlpool.updateRewards rewardInfos timestamp }.setPosition
      positionMint (position.update positionUpdate),
    .credit pool timestamp position positionUpdate)

def collectFees (pool : Pool) (positionMint : Pubkey) : Result (Pool × Receipt) :=
  pool.position positionMint >>= fun position =>
  (pool.setPosition positionMint position.resetFeesOwed).withdraw position.feeOwedA
    position.feeOwedB >>= fun final => .ok (final, .quiet)

def collectProtocolFees (pool : Pool) : Result (Pool × Receipt) :=
  pool.withdraw pool.whirlpool.protocolFeeOwedA pool.whirlpool.protocolFeeOwedB >>= fun final =>
  .ok ({ final with whirlpool := final.whirlpool.resetProtocolFeesOwed }, .protocolFees pool)

/-- The accounts of a reward exist once it is initialized. -/
def setRewardEmissions (pool : Pool) (rewardIndex emissionsPerSecondX64 rewardVaultAmount : ℕ)
    (unixTimestamp : ℤ) : Result (Pool × Receipt) :=
  if inside : rewardIndex < numRewards then
    if ¬ (pool.whirlpool.rewardInfos ⟨rewardIndex, inside⟩).initialized then .error .account
    else
      checkedMulShiftRight (60 * 60 * 24) emissionsPerSecondX64 >>= fun emissionsPerDay =>
      if rewardVaultAmount < emissionsPerDay then err .rewardVaultAmountInsufficient
      else
        toTimestampU64 unixTimestamp >>= fun timestamp =>
        nextWhirlpoolRewardInfos pool.whirlpool timestamp >>= fun nextRewardInfos =>
        pool.whirlpool.updateEmissions rewardIndex nextRewardInfos timestamp
          emissionsPerSecondX64 >>= fun whirlpool =>
        .ok ({ pool with whirlpool := whirlpool }, .emissions pool timestamp)
  else .error .panic

/-- What is paid of a reward owed, and what stays owed, given the balance of its vault. -/
def calculateCollectReward (amountOwed vaultAmount : ℕ) : ℕ × ℕ :=
  if amountOwed > vaultAmount then (vaultAmount, amountOwed - vaultAmount) else (amountOwed, 0)

def collectReward (pool : Pool) (positionMint : Pubkey) (rewardIndex rewardVaultAmount : ℕ) :
    Result (Pool × Receipt) :=
  pool.position positionMint >>= fun position =>
  if inside : rewardIndex < numRewards then
    if ¬ (pool.whirlpool.rewardInfos ⟨rewardIndex, inside⟩).initialized then .error .account
    else
      let amounts := calculateCollectReward
        (position.rewardInfos ⟨rewardIndex, inside⟩).amountOwed rewardVaultAmount
      .ok (pool.setPosition positionMint
        (position.updateRewardOwed ⟨rewardIndex, inside⟩ amounts.2), .quiet)
  else .error .panic

/-- Execute an instruction on an existing pool. -/
def execute (m : Machine) (pool : Pool) : Instruction → Result (Pool × Receipt)
  | .initializePool .. => .error .account
  | .initializeTickArray startTickIndex =>
      match pool.tickArrays startTickIndex with
      | some _ => .error .account
      | none =>
          TickArray.initializeTickArray startTickIndex pool.whirlpool.tickSpacing
            >>= fun array =>
          .ok ({ pool with
            tickArrays := Function.update pool.tickArrays startTickIndex (some array) }, .quiet)
  | .openPosition positionMint tickLowerIndex tickUpperIndex =>
      match pool.positions.lookup positionMint with
      | some _ => .error .account
      | none =>
          Position.openPosition pool.whirlpool positionMint tickLowerIndex tickUpperIndex
            >>= fun position => .ok (pool.setPosition positionMint position, .quiet)
  | .closePosition positionMint =>
      pool.position positionMint >>= fun position =>
      if ¬ position.isPositionEmpty then err .closePositionNotEmpty
      else .ok ({ pool with positions := pool.positions.erase positionMint }, .quiet)
  | .increaseLiquidity args tokenMaxA tokenMaxB => pool.increaseLiquidity m args tokenMaxA tokenMaxB
  | .decreaseLiquidity args tokenMinA tokenMinB => pool.decreaseLiquidity m args tokenMinA tokenMinB
  | .swap args => pool.swap m args
  | .updateFeesAndRewards positionMint tickArrayLower tickArrayUpper unixTimestamp =>
      pool.updateFeesAndRewards m positionMint tickArrayLower tickArrayUpper unixTimestamp
  | .collectFees positionMint => pool.collectFees positionMint
  | .collectProtocolFees => pool.collectProtocolFees
  | .initializeReward rewardIndex mint vault =>
      if mint = 0 then .error .account
      else
        pool.whirlpool.initializeReward rewardIndex mint vault >>= fun whirlpool =>
        .ok ({ pool with whirlpool := whirlpool }, .quiet)
  | .setRewardEmissions rewardIndex emissionsPerSecondX64 rewardVaultAmount unixTimestamp =>
      pool.setRewardEmissions rewardIndex emissionsPerSecondX64 rewardVaultAmount unixTimestamp
  | .collectReward positionMint rewardIndex rewardVaultAmount =>
      pool.collectReward positionMint rewardIndex rewardVaultAmount
  | .setFeeRate feeRate =>
      pool.whirlpool.updateFeeRate feeRate >>= fun whirlpool =>
      .ok ({ pool with whirlpool := whirlpool }, .quiet)
  | .setProtocolFeeRate protocolFeeRate =>
      pool.whirlpool.updateProtocolFeeRate protocolFeeRate >>= fun whirlpool =>
      .ok ({ pool with whirlpool := whirlpool }, .quiet)

/-- A new pool: no positions, no tick arrays, empty vaults. -/
def create (config : WhirlpoolsConfig) (tickSpacing defaultFeeRate sqrtPrice : ℕ)
    (tokenMintA tokenVaultA tokenMintB tokenVaultB : Pubkey) : Result Pool :=
  Whirlpool.initializeWhirlpool config tickSpacing sqrtPrice defaultFeeRate tokenMintA tokenVaultA
    tokenMintB tokenVaultB >>= fun whirlpool =>
  .ok {
    whirlpool := whirlpool
    positions := ∅
    tickArrays := fun _ => none
    vaultA := 0
    vaultB := 0 }

end Pool

/-- Execute an instruction when the pool may not exist yet. -/
def execute (m : Machine) (state : Option Pool) (instruction : Instruction) :
    Result (Option Pool × Receipt) :=
  match state, instruction with
  | none, .initializePool config tickSpacing defaultFeeRate sqrtPrice tokenMintA tokenVaultA
      tokenMintB tokenVaultB =>
      Pool.create config tickSpacing defaultFeeRate sqrtPrice tokenMintA tokenVaultA tokenMintB
        tokenVaultB >>= fun pool => .ok (some pool, .quiet)
  | none, _ => .error .account
  | some pool, instruction =>
      pool.execute m instruction >>= fun outcome => .ok (some outcome.1, outcome.2)

/-- The pools some run of instructions leads to. -/
def Reachable (m : Machine) (pool : Pool) : Prop :=
  ∃ instructions, (Ledger.run (execute m) none instructions).1 = some pool

end Whirlpools
