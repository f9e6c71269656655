import Whirlpools.Pools.Rights

/-! # The authorities over rewards do not matter to a pool

No instruction on a pool reads the authority of a reward. So a pool does the same with other
authorities, and a handover of a reward leaves it a pool that some run leads to, up to the
authorities.
-/

namespace Whirlpools

open Outcome Ledger

/-- Rewards with other authorities. -/
def withAuthorities (rewardInfos : Fin numRewards → WhirlpoolRewardInfo)
    (authorities : Fin numRewards → Pubkey) : Fin numRewards → WhirlpoolRewardInfo := fun index =>
  { rewardInfos index with authority := authorities index }

def Whirlpool.withAuthorities (whirlpool : Whirlpool) (authorities : Fin numRewards → Pubkey) :
    Whirlpool :=
  { whirlpool with rewardInfos := Whirlpools.withAuthorities whirlpool.rewardInfos authorities }

def Pool.withAuthorities (pool : Pool) (authorities : Fin numRewards → Pubkey) : Pool :=
  { pool with whirlpool := pool.whirlpool.withAuthorities authorities }

variable {m : Machine} {whirlpool : Whirlpool} {timestamp : ℕ}
  (authorities : Fin numRewards → Pubkey)

/-- Rewards accrue the same whoever holds their authorities. -/
theorem nextWhirlpoolRewardInfos_withAuthorities
    {rewardInfos : Fin numRewards → WhirlpoolRewardInfo}
    (accrued : nextWhirlpoolRewardInfos whirlpool timestamp = .ok rewardInfos) :
    nextWhirlpoolRewardInfos (whirlpool.withAuthorities authorities) timestamp =
      .ok (withAuthorities rewardInfos authorities) := by
  simp only [nextWhirlpoolRewardInfos, guard_eq_ok] at accrued ⊢
  obtain ⟨onward, accrued⟩ := accrued
  refine ⟨onward, ?_⟩
  by_cases idle : whirlpool.liquidity = 0 ∨ timestamp = whirlpool.rewardLastUpdatedTimestamp
  · rw [if_pos idle] at accrued
    obtain rfl := Except.ok.inj accrued
    exact if_pos idle
  · rw [if_neg idle] at accrued
    obtain rfl := Except.ok.inj accrued
    refine (if_neg idle).trans (congrArg Except.ok (funext fun index => ?_))
    let named (info : WhirlpoolRewardInfo) : WhirlpoolRewardInfo :=
      { info with authority := authorities index }
    by_cases unset : ¬ (whirlpool.rewardInfos index).initialized
    · exact (if_pos unset).trans (congrArg named (if_pos unset).symm)
    · refine (if_neg unset).trans (Eq.symm ((congrArg named (if_neg unset)).trans ?_))
      rfl

theorem calculateModifyLiquidityOfTicks_withAuthorities {position : Position}
    {tickLower tickUpper : Tick} {tickLowerIndex tickUpperIndex liquidityDelta : ℤ}
    {update : ModifyLiquidityUpdate}
    (returned : calculateModifyLiquidityOfTicks m whirlpool position tickLower tickUpper
      tickLowerIndex tickUpperIndex liquidityDelta timestamp = .ok update) :
    calculateModifyLiquidityOfTicks m (whirlpool.withAuthorities authorities) position tickLower
      tickUpper tickLowerIndex tickUpperIndex liquidityDelta timestamp =
        .ok { update with rewardInfos := withAuthorities update.rewardInfos authorities } := by
  simp only [calculateModifyLiquidityOfTicks, bind_eq_ok, guard_eq_ok, Except.ok.injEq]
    at returned ⊢
  obtain ⟨present, rewardInfos, accrued, liquidity, inRange, lower, lowered, upper, raised, credit,
    credited, rfl⟩ := returned
  exact ⟨present, _, nextWhirlpoolRewardInfos_withAuthorities authorities accrued,
    liquidity, inRange, lower, lowered, upper, raised, credit, credited, rfl⟩

theorem calculateModifyLiquidity_withAuthorities {position : Position}
    {tickArrayLower tickArrayUpper : TickArray} {liquidityDelta : ℤ}
    {update : ModifyLiquidityUpdate}
    (returned : calculateModifyLiquidity m whirlpool position tickArrayLower tickArrayUpper
      liquidityDelta timestamp = .ok update) :
    calculateModifyLiquidity m (whirlpool.withAuthorities authorities) position tickArrayLower
      tickArrayUpper liquidityDelta timestamp =
        .ok { update with rewardInfos := withAuthorities update.rewardInfos authorities } := by
  simp only [calculateModifyLiquidity, bind_eq_ok] at returned ⊢
  obtain ⟨lower, foundLower, upper, foundUpper, computed⟩ := returned
  exact ⟨lower, foundLower, upper, foundUpper,
    calculateModifyLiquidityOfTicks_withAuthorities authorities computed⟩

theorem swap_withAuthorities {sequence : SwapTickSequence} {amount sqrtPriceLimit : ℕ}
    {amountSpecifiedIsInput aToB : Bool} {outcome : SwapOutcome}
    (returned : swap m whirlpool sequence amount sqrtPriceLimit amountSpecifiedIsInput aToB
      timestamp = .ok outcome) :
    swap m (whirlpool.withAuthorities authorities) sequence amount sqrtPriceLimit
      amountSpecifiedIsInput aToB timestamp =
        .ok { outcome with
          update := { outcome.update with
            nextRewardInfos := withAuthorities outcome.update.nextRewardInfos authorities } } := by
  simp only [swap, SwapContext.postSwapUpdate, bind_eq_ok, guard_eq_ok, Except.ok.injEq]
    at returned ⊢
  obtain ⟨bounded, directed, present, rewardInfos, accrued, ⟨final, iterations⟩, looped, _,
    ⟨used, counted, grown, logged, rfl⟩, rfl⟩ := returned
  refine ⟨bounded, directed, present, _, nextWhirlpoolRewardInfos_withAuthorities
    authorities accrued, ⟨final, iterations⟩, ?_, _, ⟨used, counted, grown, logged, rfl⟩, rfl⟩
  -- no iteration reads an authority, so the loop is the same one
  exact looped

namespace Pool

variable {pool pool' : Pool} {receipt : Receipt}

theorem deposit_withAuthorities {amountA amountB : ℕ}
    (returned : pool.deposit amountA amountB = .ok pool') :
    (pool.withAuthorities authorities).deposit amountA amountB =
      .ok (pool'.withAuthorities authorities) := by
  simp only [deposit, bind_eq_ok, Except.ok.injEq] at returned ⊢
  obtain ⟨vaultA, movedA, vaultB, movedB, rfl⟩ := returned
  exact ⟨vaultA, movedA, vaultB, movedB, rfl⟩

theorem withdraw_withAuthorities {amountA amountB : ℕ}
    (returned : pool.withdraw amountA amountB = .ok pool') :
    (pool.withAuthorities authorities).withdraw amountA amountB =
      .ok (pool'.withAuthorities authorities) := by
  simp only [withdraw, bind_eq_ok, Except.ok.injEq] at returned ⊢
  obtain ⟨vaultA, movedA, vaultB, movedB, rfl⟩ := returned
  exact ⟨vaultA, movedA, vaultB, movedB, rfl⟩

theorem performSwap_withAuthorities {amountA amountB : ℕ} {aToB : Bool}
    (returned : pool.performSwap amountA amountB aToB = .ok pool') :
    (pool.withAuthorities authorities).performSwap amountA amountB aToB =
      .ok (pool'.withAuthorities authorities) := by
  cases aToB <;>
    simp only [performSwap, Bool.false_eq_true, ↓reduceIte, bind_eq_ok, Except.ok.injEq]
      at returned ⊢ <;>
    obtain ⟨first, movedFirst, second, movedSecond, rfl⟩ := returned <;>
    exact ⟨first, movedFirst, second, movedSecond, rfl⟩

theorem updateTick_withAuthorities {startTickIndex tickIndex : ℤ} {update : TickUpdate}
    (returned : pool.updateTick startTickIndex tickIndex update = .ok pool') :
    (pool.withAuthorities authorities).updateTick startTickIndex tickIndex update =
      .ok (pool'.withAuthorities authorities) := by
  simp only [updateTick, bind_eq_ok, Except.ok.injEq] at returned ⊢
  obtain ⟨array, found, updated, written, rfl⟩ := returned
  exact ⟨array, found, updated, written, rfl⟩

/-- Liquidity is changed the same, with a receipt of its own. -/
theorem modifyLiquidity_withAuthorities {args : ModifyLiquidityArgs} {positive : Bool}
    {deltaA deltaB : ℕ}
    (returned : pool.modifyLiquidity m args positive = .ok (pool', deltaA, deltaB, receipt)) :
    ∃ receipt', (pool.withAuthorities authorities).modifyLiquidity m args positive =
      .ok (pool'.withAuthorities authorities, deltaA, deltaB, receipt') := by
  simp only [modifyLiquidity, syncModifyLiquidityValues, Pool.calculateModifyLiquidity, guard_eq_ok,
    bind_eq_ok, Except.ok.injEq, Prod.mk.injEq] at returned ⊢
  obtain ⟨present, delta, converted, timestamp, clock, ⟨position, update⟩,
    ⟨_, held, lowerArray, foundLower, upperArray, foundUpper, _, computed, rfl, rfl⟩, _,
    ⟨lower, lowered, upper, raised, rfl⟩, ⟨_, _⟩, moved, rfl, rfl, rfl, rfl⟩ := returned
  exact ⟨_, present, delta, converted, timestamp, clock,
    ⟨position, { update with
      rewardInfos := Whirlpools.withAuthorities update.rewardInfos authorities }⟩,
    ⟨_, held, lowerArray, foundLower, upperArray, foundUpper, _,
      calculateModifyLiquidity_withAuthorities authorities computed, rfl⟩, _,
    ⟨_, updateTick_withAuthorities authorities lowered, _,
      updateTick_withAuthorities authorities raised, rfl⟩, ⟨_, _⟩, moved, rfl, rfl, rfl, rfl⟩

theorem updateAfterSwap_withAuthorities {outcome : SwapOutcome} {aToB : Bool}
    (returned : pool.updateAfterSwap m outcome aToB timestamp = .ok pool') :
    (pool.withAuthorities authorities).updateAfterSwap m { outcome with
      update := { outcome.update with
        nextRewardInfos := Whirlpools.withAuthorities outcome.update.nextRewardInfos authorities } }
      aToB timestamp = .ok (pool'.withAuthorities authorities) := by
  simp only [updateAfterSwap, bind_eq_ok, Except.ok.injEq] at returned ⊢
  obtain ⟨whirlpool, updated, rfl⟩ := returned
  refine ⟨whirlpool.withAuthorities authorities, ?_, rfl⟩
  unfold Whirlpool.updateAfterSwap at updated ⊢
  cases aToB <;>
    simp only [Bool.false_eq_true, ↓reduceIte, bind_eq_ok, Except.ok.injEq] at updated ⊢ <;>
    obtain ⟨owed, added, rfl⟩ := updated <;>
    exact ⟨owed, added, rfl⟩

/-- The swap of an instruction computes the same. -/
theorem computeSwap_withAuthorities {args : SwapArgs} {outcome : SwapOutcome}
    (returned : pool.computeSwap m args = .ok (timestamp, outcome)) :
    (pool.withAuthorities authorities).computeSwap m args =
      .ok (timestamp, { outcome with
        update := { outcome.update with
          nextRewardInfos :=
            Whirlpools.withAuthorities outcome.update.nextRewardInfos authorities } }) := by
  simp only [computeSwap, bind_eq_ok, Except.ok.injEq, Prod.mk.injEq] at returned ⊢
  obtain ⟨_, clock, sequence, sequenced, _, swapped, rfl, rfl⟩ := returned
  exact ⟨_, clock, sequence, sequenced, _, swap_withAuthorities authorities swapped, rfl, rfl⟩

/-- What an instruction writes to a pool, it writes to the pool with other authorities. -/
theorem Writes.withAuthorities {instruction : Instruction}
    (writes : pool.Writes m instruction pool' receipt) :
    ∃ receipt', (pool.withAuthorities authorities).Writes m instruction
      (pool'.withAuthorities authorities) receipt' := by
  cases writes with
  | initializeTickArray fresh created => exact ⟨_, .initializeTickArray fresh created⟩
  | openPosition fresh opened => exact ⟨_, .openPosition fresh opened⟩
  | closePosition found empty => exact ⟨_, .closePosition found empty⟩
  | increaseLiquidity modified boundA boundB deposited =>
      obtain ⟨receipt', modified'⟩ := modifyLiquidity_withAuthorities authorities modified
      exact ⟨receipt', .increaseLiquidity modified' boundA boundB
        (deposit_withAuthorities authorities deposited)⟩
  | decreaseLiquidity modified boundA boundB withdrawn =>
      obtain ⟨receipt', modified'⟩ := modifyLiquidity_withAuthorities authorities modified
      exact ⟨receipt', .decreaseLiquidity modified' boundA boundB
        (withdraw_withAuthorities authorities withdrawn)⟩
  | swap computed met written moved =>
      exact ⟨_, .swap (computeSwap_withAuthorities authorities computed) met
        (updateAfterSwap_withAuthorities authorities written)
        (performSwap_withAuthorities authorities moved)⟩
  | updateFeesAndRewards clock found storedLower storedUpper computed =>
      have computed' := calculateModifyLiquidity_withAuthorities authorities computed
      exact ⟨_, @Writes.updateFeesAndRewards m (pool.withAuthorities authorities) _ _ _ _ _ _ _ _ _
        clock found storedLower storedUpper computed'⟩
  | collectFees found withdrawn =>
      exact ⟨_, .collectFees found (withdraw_withAuthorities authorities withdrawn)⟩
  | collectProtocolFees withdrawn =>
      exact ⟨_, .collectProtocolFees (withdraw_withAuthorities authorities withdrawn)⟩
  | @initializeReward index mint vault named lowest =>
      have writes := @Writes.initializeReward m (pool.withAuthorities authorities) index mint vault
        named lowest
      refine ⟨_, cast (congrArg₂ (Writes m _ _) ?_ rfl) writes⟩
      simp only [Pool.withAuthorities, Whirlpool.withAuthorities, Pool.mk.injEq,
        Whirlpool.mk.injEq, true_and, and_true]
      funext position
      simp only [Whirlpools.withAuthorities]
      split_ifs <;> rfl
  | @setRewardEmissions index _ _ _ _ _ _ initialized daily covered clock accrued =>
      have writes := @Writes.setRewardEmissions m (pool.withAuthorities authorities) index _ _ _ _ _
        _ initialized daily covered clock
        (nextWhirlpoolRewardInfos_withAuthorities authorities accrued)
      refine ⟨_, cast (congrArg₂ (Writes m _ _) ?_ rfl) writes⟩
      simp only [Pool.withAuthorities, Whirlpool.withAuthorities, Whirlpool.updateRewards,
        Pool.mk.injEq, Whirlpool.mk.injEq, true_and, and_true]
      funext position
      simp only [Whirlpools.withAuthorities]
      split_ifs <;> rfl
  | collectReward found initialized => exact ⟨_, .collectReward found initialized⟩
  | setFeeRate bounded => exact ⟨_, .setFeeRate bounded⟩
  | setProtocolFeeRate bounded => exact ⟨_, .setProtocolFeeRate bounded⟩

/-- A pool with other authorities executes the same instructions to the same effect. -/
theorem execute_withAuthorities {instruction : Instruction}
    (returned : pool.execute m instruction = .ok (pool', receipt)) :
    ∃ receipt', (pool.withAuthorities authorities).execute m instruction =
      .ok (pool'.withAuthorities authorities, receipt') := by
  obtain ⟨receipt', writes⟩ := (execute_eq_ok.mp returned).withAuthorities authorities
  exact ⟨receipt', execute_eq_ok.mpr writes⟩

end Pool
end Whirlpools
