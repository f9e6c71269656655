import Whirlpools.Foundation.Ledger
import Whirlpools.Instructions

/-! # What an instruction writes

`Writes` says once, for each instruction, what a success writes and which guards it passed. What
holds of every instruction, and of every reachable pool, is proved from it by cases.
-/

namespace Whirlpools

open Outcome Ledger

namespace Pool

/-- The balance of a vault. -/
def vault (pool : Pool) (isTokenA : Bool) : ℕ := if isTokenA then pool.vaultA else pool.vaultB

/-- The protocol fees of a token not collected yet. -/
def protocolFeeOwed (pool : Pool) (isTokenA : Bool) : ℕ :=
  if isTokenA then pool.whirlpool.protocolFeeOwedA else pool.whirlpool.protocolFeeOwedB

/-- What a successful instruction writes, with the guards it passed. -/
inductive Writes (m : Machine) (pool : Pool) : Instruction → Pool → Receipt → Prop
  | initializeTickArray {startTickIndex : ℤ} {array : TickArray}
      (fresh : pool.tickArrays startTickIndex = none)
      (created : TickArray.initializeTickArray startTickIndex pool.whirlpool.tickSpacing =
        .ok array) :
      Writes m pool (.initializeTickArray startTickIndex)
        { pool with tickArrays := Function.update pool.tickArrays startTickIndex (some array) }
        .quiet
  | openPosition {positionMint : Pubkey} {tickLowerIndex tickUpperIndex : ℤ} {position : Position}
      (fresh : pool.positions.lookup positionMint = none)
      (opened : Position.openPosition pool.whirlpool positionMint tickLowerIndex tickUpperIndex =
        .ok position) :
      Writes m pool (.openPosition positionMint tickLowerIndex tickUpperIndex)
        (pool.setPosition positionMint position) .quiet
  | closePosition {positionMint : Pubkey} {position : Position}
      (found : pool.positions.lookup positionMint = some position)
      (empty : position.isPositionEmpty = true) :
      Writes m pool (.closePosition positionMint)
        { pool with positions := pool.positions.erase positionMint } .quiet
  | increaseLiquidity {args : ModifyLiquidityArgs} {tokenMaxA tokenMaxB deltaA deltaB : ℕ}
      {synced final : Pool} {receipt : Receipt}
      (modified : pool.modifyLiquidity m args true = .ok (synced, deltaA, deltaB, receipt))
      (boundA : deltaA ≤ tokenMaxA) (boundB : deltaB ≤ tokenMaxB)
      (deposited : synced.deposit deltaA deltaB = .ok final) :
      Writes m pool (.increaseLiquidity args tokenMaxA tokenMaxB) final receipt
  | decreaseLiquidity {args : ModifyLiquidityArgs} {tokenMinA tokenMinB deltaA deltaB : ℕ}
      {synced final : Pool} {receipt : Receipt}
      (modified : pool.modifyLiquidity m args false = .ok (synced, deltaA, deltaB, receipt))
      (boundA : tokenMinA ≤ deltaA) (boundB : tokenMinB ≤ deltaB)
      (withdrawn : synced.withdraw deltaA deltaB = .ok final) :
      Writes m pool (.decreaseLiquidity args tokenMinA tokenMinB) final receipt
  | swap {args : SwapArgs} {timestamp : ℕ} {outcome : SwapOutcome} {updated final : Pool}
      (computed : pool.computeSwap m args = .ok (timestamp, outcome))
      (met : checkThreshold outcome.update args = .ok ())
      (written : pool.updateAfterSwap m outcome args.aToB timestamp = .ok updated)
      (moved : updated.performSwap outcome.update.amountA outcome.update.amountB args.aToB =
        .ok final) :
      Writes m pool (.swap args) final (.swap pool timestamp args.aToB outcome.iterations)
  | updateFeesAndRewards {positionMint : Pubkey} {startLower startUpper unixTimestamp : ℤ}
      {timestamp : ℕ} {position : Position} {tickArrayLower tickArrayUpper : TickArray}
      {update : ModifyLiquidityUpdate} (clock : toTimestampU64 unixTimestamp = .ok timestamp)
      (found : pool.positions.lookup positionMint = some position)
      (storedLower : pool.tickArrays startLower = some tickArrayLower)
      (storedUpper : pool.tickArrays startUpper = some tickArrayUpper)
      (computed : Whirlpools.calculateModifyLiquidity m pool.whirlpool position tickArrayLower
        tickArrayUpper 0 timestamp = .ok update) :
      Writes m pool (.updateFeesAndRewards positionMint startLower startUpper unixTimestamp)
        ({ pool with whirlpool := pool.whirlpool.updateRewards update.rewardInfos timestamp
          }.setPosition positionMint (position.update update.positionUpdate))
        (.credit pool timestamp position update.positionUpdate)
  | collectFees {positionMint : Pubkey} {position : Position} {final : Pool}
      (found : pool.positions.lookup positionMint = some position)
      (withdrawn : (pool.setPosition positionMint position.resetFeesOwed).withdraw
        position.feeOwedA position.feeOwedB = .ok final) :
      Writes m pool (.collectFees positionMint) final .quiet
  | collectProtocolFees {final : Pool}
      (withdrawn : pool.withdraw pool.whirlpool.protocolFeeOwedA pool.whirlpool.protocolFeeOwedB =
        .ok final) :
      Writes m pool .collectProtocolFees
        { final with whirlpool := final.whirlpool.resetProtocolFeesOwed } (.protocolFees pool)
  | initializeReward {index : Fin numRewards} {mint vault : Pubkey} (named : mint ≠ 0)
      (lowest : pool.whirlpool.lowestUninitializedReward = some index) :
      Writes m pool (.initializeReward index mint vault)
        { pool with
          whirlpool := { pool.whirlpool with
            rewardInfos := fun position =>
              if position = index then
                { pool.whirlpool.rewardInfos position with mint := mint, vault := vault }
              else pool.whirlpool.rewardInfos position } } .quiet
  | setRewardEmissions {index : Fin numRewards}
      {emissionsPerSecondX64 rewardVaultAmount emissionsPerDay timestamp : ℕ} {unixTimestamp : ℤ}
      {rewardInfos : Fin numRewards → WhirlpoolRewardInfo}
      (initialized : (pool.whirlpool.rewardInfos index).initialized = true)
      (daily : checkedMulShiftRight (60 * 60 * 24) emissionsPerSecondX64 = .ok emissionsPerDay)
      (covered : emissionsPerDay ≤ rewardVaultAmount)
      (clock : toTimestampU64 unixTimestamp = .ok timestamp)
      (accrued : nextWhirlpoolRewardInfos pool.whirlpool timestamp = .ok rewardInfos) :
      Writes m pool
        (.setRewardEmissions index emissionsPerSecondX64 rewardVaultAmount unixTimestamp)
        { pool with
          whirlpool := pool.whirlpool.updateRewards (fun position =>
            if position = index then
              { rewardInfos position with emissionsPerSecondX64 := emissionsPerSecondX64 }
            else rewardInfos position) timestamp } (.emissions pool timestamp)
  | collectReward {positionMint : Pubkey} {index : Fin numRewards} {rewardVaultAmount : ℕ}
      {position : Position} (found : pool.positions.lookup positionMint = some position)
      (initialized : (pool.whirlpool.rewardInfos index).initialized = true) :
      Writes m pool (.collectReward positionMint index rewardVaultAmount)
        (pool.setPosition positionMint (position.updateRewardOwed index
          (calculateCollectReward (position.rewardInfos index).amountOwed rewardVaultAmount).2))
        .quiet
  | setFeeRate {feeRate : ℕ} (bounded : feeRate ≤ maxFeeRate) :
      Writes m pool (.setFeeRate feeRate)
        { pool with whirlpool := { pool.whirlpool with feeRate := feeRate } } .quiet
  | setProtocolFeeRate {protocolFeeRate : ℕ} (bounded : protocolFeeRate ≤ maxProtocolFeeRate) :
      Writes m pool (.setProtocolFeeRate protocolFeeRate)
        { pool with whirlpool := { pool.whirlpool with protocolFeeRate := protocolFeeRate } } .quiet

variable {m : Machine} {pool pool' : Pool} {receipt : Receipt}

theorem position_eq_ok {positionMint : Pubkey} {position : Position} :
    pool.position positionMint = .ok position ↔
      pool.positions.lookup positionMint = some position := okOr_eq_ok

/-- A tick array is found when it is stored. -/
theorem tickArray_eq_ok {start : ℤ} {array : TickArray} :
    pool.tickArray start = .ok array ↔ pool.tickArrays start = some array := okOr_eq_ok

/-- A reward is set up at the lowest index that is free, and only its mint and vault are written. -/
theorem initializeReward_iff {whirlpool whirlpool' : Whirlpool} {rewardIndex : ℕ}
    {mint vault : Pubkey} :
    whirlpool.initializeReward rewardIndex mint vault = .ok whirlpool' ↔
      ∃ index : Fin numRewards, index.val = rewardIndex ∧
        whirlpool.lowestUninitializedReward = some index ∧
        { whirlpool with
          rewardInfos := fun position =>
            if position = index then
              { whirlpool.rewardInfos position with mint := mint, vault := vault }
            else whirlpool.rewardInfos position } = whirlpool' := by
  simp only [Whirlpool.initializeReward, guard_eq_ok]
  cases lowest : whirlpool.lowestUninitializedReward with
  | none => simp only [err, reduceCtorEq, and_false, false_and, exists_false]
  | some index =>
      simp only [guard_eq_ok, not_not, Except.ok.injEq, Option.some.injEq]
      constructor
      · rintro ⟨-, rfl, rfl⟩
        refine ⟨index, rfl, rfl, ?_⟩
        simp only [Fin.val_inj]
      · rintro ⟨_, rfl, rfl, rfl⟩
        refine ⟨not_le.mpr index.isLt, rfl, ?_⟩
        simp only [Fin.val_inj]

/-- An instruction succeeds exactly with what it writes. -/
theorem execute_eq_ok {instruction : Instruction} :
    pool.execute m instruction = .ok (pool', receipt) ↔
      pool.Writes m instruction pool' receipt := by
  constructor
  · intro returned
    cases instruction with
    | initializePool => simp only [execute, reduceCtorEq] at returned
    | initializeTickArray start =>
        unfold execute at returned
        cases stored : pool.tickArrays start with
        | some array => simp only [stored, reduceCtorEq] at returned
        | none =>
            simp only [stored, bind_eq_ok, Except.ok.injEq, Prod.mk.injEq] at returned
            obtain ⟨array, created, rfl, rfl⟩ := returned
            exact .initializeTickArray stored created
    | openPosition positionMint tickLowerIndex tickUpperIndex =>
        unfold execute at returned
        cases held : pool.positions.lookup positionMint with
        | some position => simp only [held, reduceCtorEq] at returned
        | none =>
            simp only [held, bind_eq_ok, Except.ok.injEq, Prod.mk.injEq] at returned
            obtain ⟨position, opened, rfl, rfl⟩ := returned
            exact .openPosition held opened
    | closePosition positionMint =>
        simp only [execute, bind_eq_ok, position_eq_ok, guard_eq_ok, not_not, Except.ok.injEq,
          Prod.mk.injEq] at returned
        obtain ⟨position, found, empty, rfl, rfl⟩ := returned
        exact .closePosition found empty
    | increaseLiquidity args tokenMaxA tokenMaxB =>
        simp only [execute, increaseLiquidity, bind_eq_ok, guard_eq_ok, gt_iff_lt, not_lt,
          Except.ok.injEq, Prod.mk.injEq] at returned
        obtain ⟨⟨synced, _, _, _⟩, modified, boundA, boundB, final, deposited, rfl, rfl⟩ := returned
        exact .increaseLiquidity modified boundA boundB deposited
    | decreaseLiquidity args tokenMinA tokenMinB =>
        simp only [execute, decreaseLiquidity, bind_eq_ok, guard_eq_ok, not_lt, Except.ok.injEq,
          Prod.mk.injEq] at returned
        obtain ⟨⟨synced, _, _, _⟩, modified, boundA, boundB, final, withdrawn, rfl, rfl⟩ := returned
        exact .decreaseLiquidity modified boundA boundB withdrawn
    | swap args =>
        simp only [execute, swap, bind_eq_ok, Except.ok.injEq, Prod.mk.injEq] at returned
        obtain ⟨⟨_, _⟩, computed, _, met, updated, written, final, moved, rfl, rfl⟩ := returned
        exact .swap computed met written moved
    | updateFeesAndRewards positionMint startLower startUpper unixTimestamp =>
        simp only [execute, updateFeesAndRewards, calculateFeeAndRewardGrowths, bind_eq_ok,
          position_eq_ok, tickArray_eq_ok, Except.ok.injEq, Prod.mk.injEq] at returned
        obtain ⟨timestamp, clock, position, found, _, storedLower, _, storedUpper, ⟨_, _⟩,
          ⟨update, computed, rfl, rfl⟩, rfl, rfl⟩ := returned
        exact .updateFeesAndRewards clock found storedLower storedUpper computed
    | collectFees positionMint =>
        simp only [execute, collectFees, bind_eq_ok, position_eq_ok, Except.ok.injEq,
          Prod.mk.injEq] at returned
        obtain ⟨position, found, final, withdrawn, rfl, rfl⟩ := returned
        exact .collectFees found withdrawn
    | collectProtocolFees =>
        simp only [execute, collectProtocolFees, bind_eq_ok, Except.ok.injEq, Prod.mk.injEq]
          at returned
        obtain ⟨final, withdrawn, rfl, rfl⟩ := returned
        exact .collectProtocolFees withdrawn
    | initializeReward rewardIndex mint vault =>
        simp only [execute, bind_eq_ok, guard_eq_ok, initializeReward_iff, Except.ok.injEq,
          Prod.mk.injEq] at returned
        obtain ⟨named, _, ⟨index, rfl, lowest, rfl⟩, rfl, rfl⟩ := returned
        exact .initializeReward named lowest
    | setRewardEmissions rewardIndex emissions vaultAmount unixTimestamp =>
        simp only [execute, setRewardEmissions] at returned
        split_ifs at returned with inside off
        simp only [guard_eq_ok, bind_eq_ok, not_lt, Except.ok.injEq, Prod.mk.injEq,
          Whirlpool.updateEmissions] at returned
        obtain ⟨_, daily, covered, timestamp, clock, infos, accrued, _, ⟨-, rfl⟩, rfl, rfl⟩ :=
          returned
        have writes := @Writes.setRewardEmissions m pool ⟨rewardIndex, inside⟩ _ _ _ _ _ _
          off daily covered clock accrued
        simp only [Fin.ext_iff] at writes
        exact writes
    | collectReward positionMint rewardIndex vaultAmount =>
        simp only [execute, collectReward, bind_eq_ok, position_eq_ok] at returned
        obtain ⟨position, found, returned⟩ := returned
        split_ifs at returned with inside off
        simp only [Except.ok.injEq, Prod.mk.injEq] at returned
        obtain ⟨rfl, rfl⟩ := returned
        exact @Writes.collectReward m pool positionMint ⟨rewardIndex, inside⟩ vaultAmount position
          found off
    | setFeeRate feeRate =>
        simp only [execute, bind_eq_ok, Whirlpool.updateFeeRate, guard_eq_ok, gt_iff_lt, not_lt,
          Except.ok.injEq, Prod.mk.injEq] at returned
        obtain ⟨_, ⟨bounded, rfl⟩, rfl, rfl⟩ := returned
        exact .setFeeRate bounded
    | setProtocolFeeRate protocolFeeRate =>
        simp only [execute, bind_eq_ok, Whirlpool.updateProtocolFeeRate, guard_eq_ok, gt_iff_lt,
          not_lt, Except.ok.injEq, Prod.mk.injEq] at returned
        obtain ⟨_, ⟨bounded, rfl⟩, rfl, rfl⟩ := returned
        exact .setProtocolFeeRate bounded
  · intro writes
    cases writes with
    | initializeTickArray fresh created =>
        simp only [execute, fresh, created, ok_bind]
    | openPosition fresh opened => simp only [execute, fresh, opened, ok_bind]
    | closePosition found empty =>
        simp only [execute, position_eq_ok.mpr found, ok_bind, empty, not_true_eq_false, if_false]
    | increaseLiquidity modified boundA boundB deposited =>
        simp only [execute, increaseLiquidity, modified, ok_bind, not_lt.mpr boundA,
          not_lt.mpr boundB, gt_iff_lt, if_false, deposited]
    | decreaseLiquidity modified boundA boundB withdrawn =>
        simp only [execute, decreaseLiquidity, modified, ok_bind, not_lt.mpr boundA,
          not_lt.mpr boundB, if_false, withdrawn]
    | swap computed met written moved =>
        simp only [execute, swap, computed, met, written, moved, ok_bind]
    | updateFeesAndRewards clock found storedLower storedUpper computed =>
        simp only [execute, updateFeesAndRewards, calculateFeeAndRewardGrowths, clock,
          position_eq_ok.mpr found, tickArray_eq_ok.mpr storedLower,
          tickArray_eq_ok.mpr storedUpper, computed, ok_bind]
    | collectFees found withdrawn =>
        simp only [execute, collectFees, position_eq_ok.mpr found, withdrawn, ok_bind]
    | collectProtocolFees withdrawn =>
        simp only [execute, collectProtocolFees, withdrawn, ok_bind]
    | initializeReward named lowest =>
        simp only [execute, named, if_false, initializeReward_iff.mpr ⟨_, rfl, lowest, rfl⟩,
          ok_bind]
    | setRewardEmissions initialized daily covered clock accrued =>
        simp only [execute, setRewardEmissions, Fin.is_lt, ↓reduceDIte, Fin.eta, initialized,
          not_true_eq_false, if_false, daily, ok_bind, not_lt.mpr covered, clock, accrued,
          Whirlpool.updateEmissions, not_le.mpr (Fin.is_lt _), Fin.val_inj]
        rfl
    | collectReward found initialized =>
        simp only [execute, collectReward, position_eq_ok.mpr found, ok_bind, Fin.is_lt,
          ↓reduceDIte, Fin.eta, initialized, not_true_eq_false, if_false]
    | setFeeRate bounded =>
        simp only [execute, Whirlpool.updateFeeRate, gt_iff_lt, not_lt.mpr bounded, if_false,
          ok_bind]
    | setProtocolFeeRate bounded =>
        simp only [execute, Whirlpool.updateProtocolFeeRate, gt_iff_lt, not_lt.mpr bounded,
          if_false, ok_bind]

section Parts

variable {amountA amountB : ℕ}

/-- A deposit adds its amount to the vault, which still fits. -/
theorem transferFromOwnerToVault_eq_ok {vault amount vault' : ℕ}
    (returned : transferFromOwnerToVault vault amount = .ok vault') :
    vault' = vault + amount ∧ vault' < 2 ^ 64 := by
  unfold transferFromOwnerToVault at returned
  split_ifs at returned with fits
  obtain rfl := Except.ok.inj returned
  exact ⟨rfl, fits⟩

/-- A payment takes its amount out of the vault, which holds it. -/
theorem transferFromVaultToOwner_eq_ok {vault amount vault' : ℕ}
    (returned : transferFromVaultToOwner vault amount = .ok vault') :
    vault = vault' + amount := by
  unfold transferFromVaultToOwner at returned
  split_ifs at returned with enough
  have := Except.ok.inj returned
  omega

/-- A deposit writes the vaults. -/
theorem deposit_eq_ok (returned : pool.deposit amountA amountB = .ok pool') :
    pool' = { pool with vaultA := pool'.vaultA, vaultB := pool'.vaultB } ∧
      ∀ isTokenA, pool'.vault isTokenA =
        pool.vault isTokenA + (if isTokenA then amountA else amountB) ∧
        pool'.vault isTokenA < 2 ^ 64 := by
  simp only [deposit, bind_eq_ok, Except.ok.injEq] at returned
  obtain ⟨vaultA, movedA, vaultB, movedB, rfl⟩ := returned
  refine ⟨rfl, ?_⟩
  rintro (_ | _)
  · exact transferFromOwnerToVault_eq_ok movedB
  · exact transferFromOwnerToVault_eq_ok movedA

/-- A withdrawal writes the vaults. -/
theorem withdraw_eq_ok (returned : pool.withdraw amountA amountB = .ok pool') :
    pool' = { pool with vaultA := pool'.vaultA, vaultB := pool'.vaultB } ∧
      ∀ isTokenA, pool.vault isTokenA =
        pool'.vault isTokenA + if isTokenA then amountA else amountB := by
  simp only [withdraw, bind_eq_ok, Except.ok.injEq] at returned
  obtain ⟨vaultA, movedA, vaultB, movedB, rfl⟩ := returned
  refine ⟨rfl, ?_⟩
  rintro (_ | _)
  · exact transferFromVaultToOwner_eq_ok movedB
  · exact transferFromVaultToOwner_eq_ok movedA

/-- The token transfers of a swap write the vaults. -/
theorem performSwap_eq_ok {aToB : Bool}
    (returned : pool.performSwap amountA amountB aToB = .ok pool') :
    pool' = { pool with vaultA := pool'.vaultA, vaultB := pool'.vaultB } ∧
      ∀ isTokenA, if isTokenA = aToB then
        pool'.vault isTokenA = pool.vault isTokenA + (if isTokenA then amountA else amountB) ∧
          pool'.vault isTokenA < 2 ^ 64
      else pool.vault isTokenA = pool'.vault isTokenA + if isTokenA then amountA else amountB := by
  unfold performSwap at returned
  cases aToB <;>
    simp only [Bool.false_eq_true, ↓reduceIte, bind_eq_ok, Except.ok.injEq] at returned
  · obtain ⟨vaultB, movedB, vaultA, movedA, rfl⟩ := returned
    refine ⟨rfl, ?_⟩
    rintro (_ | _)
    · exact transferFromOwnerToVault_eq_ok movedB
    · exact transferFromVaultToOwner_eq_ok movedA
  · obtain ⟨vaultA, movedA, vaultB, movedB, rfl⟩ := returned
    refine ⟨rfl, ?_⟩
    rintro (_ | _)
    · exact transferFromVaultToOwner_eq_ok movedB
    · exact transferFromOwnerToVault_eq_ok movedA

/-- A tick is updated in its array. -/
theorem updateTick_writes {startTickIndex tickIndex : ℤ} {update : TickUpdate}
    (returned : pool.updateTick startTickIndex tickIndex update = .ok pool') :
    pool' = { pool with tickArrays := pool'.tickArrays } := by
  simp only [updateTick, bind_eq_ok, Except.ok.injEq] at returned
  obtain ⟨_, -, _, -, rfl⟩ := returned
  rfl

/-- A change of a position's liquidity writes the position, its ticks, and of the account the
rewards and the liquidity. -/
theorem syncModifyLiquidityValues_writes {args : ModifyLiquidityArgs} {position : Position}
    {update : ModifyLiquidityUpdate} {timestamp : ℕ}
    (returned : pool.syncModifyLiquidityValues args position update timestamp = .ok pool') :
    pool' = { pool with
      whirlpool := pool.whirlpool.updateRewardsAndLiquidity update.rewardInfos
        update.whirlpoolLiquidity timestamp
      positions := pool.positions.insert args.positionMint (position.update update.positionUpdate)
      tickArrays := pool'.tickArrays } := by
  simp only [syncModifyLiquidityValues, bind_eq_ok, Except.ok.injEq] at returned
  obtain ⟨first, wroteLower, second, wroteUpper, rfl⟩ := returned
  rw [updateTick_writes wroteUpper, updateTick_writes wroteLower]
  rfl

/-- The rewards in the update of a position are the accrued ones. -/
theorem calculateModifyLiquidity_rewardInfos {whirlpool : Whirlpool} {position : Position}
    {tickArrayLower tickArrayUpper : TickArray} {liquidityDelta : ℤ} {timestamp : ℕ}
    {update : ModifyLiquidityUpdate}
    (returned : Whirlpools.calculateModifyLiquidity m whirlpool position tickArrayLower
      tickArrayUpper liquidityDelta timestamp = .ok update) :
    nextWhirlpoolRewardInfos whirlpool timestamp = .ok update.rewardInfos := by
  simp only [Whirlpools.calculateModifyLiquidity, calculateModifyLiquidityOfTicks, bind_eq_ok,
    guard_eq_ok, Except.ok.injEq] at returned
  obtain ⟨_, -, _, -, -, rewardInfos, accrued, _, -, _, -, _, -, _, -, rfl⟩ := returned
  exact accrued

/-- What the common part of increasing and decreasing liquidity writes. -/
theorem modifyLiquidity_writes {args : ModifyLiquidityArgs} {positive : Bool} {deltaA deltaB : ℕ}
    (returned : pool.modifyLiquidity m args positive = .ok (pool', deltaA, deltaB, receipt)) :
    ∃ (timestamp : ℕ) (position : Position) (update : ModifyLiquidityUpdate),
      nextWhirlpoolRewardInfos pool.whirlpool timestamp = .ok update.rewardInfos ∧
      pool' = { pool with
        whirlpool := pool.whirlpool.updateRewardsAndLiquidity update.rewardInfos
          update.whirlpoolLiquidity timestamp
        positions := pool.positions.insert args.positionMint
          (position.update update.positionUpdate)
        tickArrays := pool'.tickArrays } := by
  simp only [modifyLiquidity, calculateModifyLiquidity, guard_eq_ok, bind_eq_ok, Except.ok.injEq,
    Prod.mk.injEq] at returned
  obtain ⟨_, _, -, timestamp, -, ⟨position, update⟩, ⟨_, -, _, -, _, -, _, computed, rfl, rfl⟩, _,
    synced, ⟨_, _⟩, -, rfl, -⟩ := returned
  exact ⟨timestamp, position, update, calculateModifyLiquidity_rewardInfos computed,
    syncModifyLiquidityValues_writes synced⟩

/-- A swap writes the tick arrays of its sequence and, of the account, the market and the protocol
fee of the input. -/
theorem updateAfterSwap_eq_ok {outcome : SwapOutcome} {aToB : Bool} {timestamp : ℕ}
    (returned : pool.updateAfterSwap m outcome aToB timestamp = .ok pool') :
    pool' = { pool.setTickArrays outcome.sequence with whirlpool := pool'.whirlpool } ∧
      pool'.whirlpool = { pool.whirlpool with
        tickCurrentIndex := outcome.update.nextTickIndex
        sqrtPrice := outcome.update.nextSqrtPrice
        liquidity := outcome.update.nextLiquidity
        rewardInfos := outcome.update.nextRewardInfos
        rewardLastUpdatedTimestamp := timestamp
        feeGrowthGlobalA := if aToB then outcome.update.nextFeeGrowthGlobal
          else pool.whirlpool.feeGrowthGlobalA
        feeGrowthGlobalB := if aToB then pool.whirlpool.feeGrowthGlobalB
          else outcome.update.nextFeeGrowthGlobal
        protocolFeeOwedA := pool'.whirlpool.protocolFeeOwedA
        protocolFeeOwedB := pool'.whirlpool.protocolFeeOwedB } ∧
      ∀ isTokenA, if isTokenA = aToB then
          m.plainAdd 64 (pool.protocolFeeOwed isTokenA) outcome.update.nextProtocolFee =
            .ok (pool'.protocolFeeOwed isTokenA)
        else pool'.protocolFeeOwed isTokenA = pool.protocolFeeOwed isTokenA := by
  simp only [updateAfterSwap, Whirlpool.updateAfterSwap, bind_eq_ok, Except.ok.injEq] at returned
  obtain ⟨whirlpool, updated, rfl⟩ := returned
  cases aToB <;>
    simp only [Bool.false_eq_true, ↓reduceIte, bind_eq_ok, Except.ok.injEq] at updated <;>
    obtain ⟨owed, added, rfl⟩ := updated <;> refine ⟨rfl, rfl, ?_⟩
  · rintro (_ | _)
    · exact added
    · rfl
  · rintro (_ | _)
    · rfl
    · exact added

/-- The rewards of a swap are the accrued ones. -/
theorem computeSwap_rewardInfos {args : SwapArgs} {timestamp : ℕ} {outcome : SwapOutcome}
    (returned : pool.computeSwap m args = .ok (timestamp, outcome)) :
    nextWhirlpoolRewardInfos pool.whirlpool timestamp = .ok outcome.update.nextRewardInfos := by
  simp only [computeSwap, Whirlpools.swap, SwapContext.postSwapUpdate, bind_eq_ok, guard_eq_ok,
    Except.ok.injEq, Prod.mk.injEq] at returned
  obtain ⟨_, -, _, -, _, ⟨-, -, -, rewardInfos, accrued, ⟨_, _⟩, -, _, ⟨_, -, _, -, rfl⟩, rfl⟩,
    rfl, rfl⟩ := returned
  exact accrued

end Parts

/-- An instruction that succeeds on a pool succeeds in a run that has reached it. -/
theorem execute_some {instruction : Instruction}
    (executed : pool.execute m instruction = .ok (pool', receipt)) :
    Whirlpools.execute m (some pool) instruction = .ok (some pool', receipt) := by
  change pool.execute m instruction >>= _ = _
  rw [executed, ok_bind]

end Pool

namespace Reachable

variable {m : Machine} {pool pool' : Pool}

theorem created {config : WhirlpoolsConfig} {tickSpacing defaultFeeRate sqrtPrice : ℕ}
    {tokenMintA tokenVaultA tokenMintB tokenVaultB : Pubkey}
    (returned : Pool.create config tickSpacing defaultFeeRate sqrtPrice tokenMintA tokenVaultA
      tokenMintB tokenVaultB = .ok pool) : Reachable m pool := by
  have executed : Whirlpools.execute m none (.initializePool config tickSpacing defaultFeeRate
      sqrtPrice tokenMintA tokenVaultA tokenMintB tokenVaultB) = .ok (some pool, .quiet) := by
    simp only [Whirlpools.execute, returned, ok_bind]
  exact ⟨[.initializePool config tickSpacing defaultFeeRate sqrtPrice tokenMintA tokenVaultA
    tokenMintB tokenVaultB], run_cons_of_ok executed []⟩

/-- A reachable pool stays reachable under every instruction that succeeds on it. -/
theorem executes (reachable : Reachable m pool) {instruction : Instruction} {receipt : Receipt}
    (returned : pool.execute m instruction = .ok (pool', receipt)) : Reachable m pool' := by
  obtain ⟨instructions, reached⟩ := reachable
  refine ⟨instructions ++ [instruction], ?_⟩
  rw [run_append, reached, run_cons_of_ok (Pool.execute_some returned)]
  rfl

/-- The rule for invariants of reachable pools: a new pool has them, and every instruction on a
reachable pool keeps them. -/
theorem invariant {holds : Pool → Prop} (reachable : Reachable m pool)
    (initially : ∀ {config : WhirlpoolsConfig} {tickSpacing defaultFeeRate sqrtPrice : ℕ}
      {tokenMintA tokenVaultA tokenMintB tokenVaultB : Pubkey} {pool : Pool},
      Pool.create config tickSpacing defaultFeeRate sqrtPrice tokenMintA tokenVaultA tokenMintB
        tokenVaultB = .ok pool → holds pool)
    (preserved : ∀ {pool pool' : Pool} {instruction : Instruction} {receipt : Receipt},
      Reachable m pool → holds pool → pool.execute m instruction = .ok (pool', receipt) →
        holds pool') : holds pool := by
  obtain ⟨instructions, reached⟩ := reachable
  have runs := runs_run (Whirlpools.execute m) none instructions
  rw [reached] at runs
  refine (runs.invariant (fun state => ∀ pool, state = some pool → Reachable m pool ∧ holds pool)
    (fun state instruction next entry before executed pool' reached => ?_)
    (fun pool absent => absurd absent (Option.some_ne_none pool).symm) pool rfl).2
  subst reached
  cases state with
  | none =>
      cases instruction <;>
        simp only [Whirlpools.execute, reduceCtorEq, bind_eq_ok, Except.ok.injEq, Prod.mk.injEq,
          Option.some.injEq] at executed
      obtain ⟨pool, returned, rfl, -⟩ := executed
      exact ⟨created returned, initially returned⟩
  | some pool =>
      simp only [Whirlpools.execute, bind_eq_ok, Except.ok.injEq, Prod.mk.injEq,
        Option.some.injEq] at executed
      obtain ⟨⟨final, receipt⟩, executed, rfl, -⟩ := executed
      obtain ⟨reachable, held⟩ := before pool rfl
      exact ⟨reachable.executes executed, preserved reachable held executed⟩

end Reachable
end Whirlpools
