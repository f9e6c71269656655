import Whirlpools.Accounting.Earnings
import Whirlpools.Pools.Solvency

/-! # The budget of rewards

Rewards accrue from one update of the pool to the next, at the emission rate in force between them
and only while there is liquidity. All that positions are ever credited, with what is pending for
them, stays within these emissions: the growth inside the ranges of all positions is made once for
each unit of liquidity in range.
-/

namespace Whirlpools

open Outcome Ledger

/-- The emissions of a reward from the last update of a pool to a timestamp, while there is
liquidity. -/
def Whirlpool.emitted (whirlpool : Whirlpool) (timestamp : ℕ) (index : Fin numRewards) : ℚ :=
  if 0 < whirlpool.liquidity then
    (whirlpool.rewardInfos index).emissionsPerSecondX64 *
      (timestamp - whirlpool.rewardLastUpdatedTimestamp : ℕ) / 2 ^ 64
  else 0

/-- The emissions of the interval that a receipt closes. -/
def Receipt.emitted (index : Fin numRewards) : Receipt → ℚ
  | .emissions pool timestamp => pool.whirlpool.emitted timestamp index
  | .credit pool timestamp _ _ => pool.whirlpool.emitted timestamp index
  | .swap pool timestamp _ _ => pool.whirlpool.emitted timestamp index
  | .quiet => 0
  | .protocolFees _ => 0

/-- The exact reward a position has earned since its checkpoint, by the growth inside its range that
the program computes. -/
def Pool.pendingReward (pool : Pool) (index : Fin numRewards) (position : Position) : ℚ :=
  let inside := nextRewardGrowthsInside pool.whirlpool.tickCurrentIndex
    (pool.tickAt position.tickLowerIndex) position.tickLowerIndex
    (pool.tickAt position.tickUpperIndex) position.tickUpperIndex pool.whirlpool.rewardInfos index
  position.liquidity *
    wrappingSub inside (position.rewardInfos index).growthInsideCheckpoint / 2 ^ 64

/-- The reward pending to a position is the one of the books. -/
theorem Pool.pendingReward_eq {pool : Pool} (idle : pool.market.RewardsIdle)
    (index : Fin numRewards) (position : Position) :
    pool.pendingReward index position = pool.market.pending (.reward index) position := by
  have inside := nextRewardGrowthsInside_cast pool.market position.tickLowerIndex
    position.tickUpperIndex idle index
  unfold pendingReward Market.pending Market.growthSince
  dsimp only
  rw [wrappingSub_eq_val, ← inside]
  rfl

namespace Pool

variable {m : Machine} {pool pool' : Pool} {receipt : Receipt}

/-- Accruing rewards makes at most the emissions of the interval pending. -/
theorem accrue_emitted (consistent : pool.Consistent) {timestamp : ℕ}
    {infos : Fin numRewards → WhirlpoolRewardInfo}
    (accrued : nextWhirlpoolRewardInfos pool.whirlpool timestamp = .ok infos)
    (index : Fin numRewards) :
    (pool.market.accrue infos).totalPending (.reward index) pool.positions ≤
      pool.market.totalPending (.reward index) pool.positions +
        pool.whirlpool.emitted timestamp index := by
  refine ((accrue_grows accrued (.reward index)).totalPending_le consistent.booked).trans ?_
  refine add_le_add_right ?_ _
  have shared := rewardAccrual_le pool.whirlpool timestamp index
  change (pool.whirlpool.liquidity * rewardAccrual pool.whirlpool timestamp index : ℚ) / 2 ^ 64 ≤ _
  unfold Whirlpool.emitted
  split_ifs at shared ⊢
  · refine div_le_div_of_nonneg_right ?_ (by norm_num)
    rw [mul_comm (((pool.whirlpool.rewardInfos index).emissionsPerSecondX64 : ℕ) : ℚ)]
    exact_mod_cast shared
  · have nonpos : (pool.whirlpool.liquidity * rewardAccrual pool.whirlpool timestamp index : ℚ) ≤
      0 := by
      exact_mod_cast shared
    exact div_nonpos_of_nonpos_of_nonneg nonpos (by norm_num)

/-- Every instruction credits and leaves pending at most what was pending and is emitted. -/
theorem Effect.budgeted (effect : pool.Effect m receipt pool') (consistent : pool.Consistent)
    (index : Fin numRewards) :
    receipt.credited (.reward index) + pool'.market.totalPending (.reward index) pool'.positions ≤
      pool.market.totalPending (.reward index) pool.positions + receipt.emitted index := by
  have nothing : ((Receipt.quiet.credited (.reward index) : ℕ) : ℚ) = 0 := Nat.cast_zero
  cases effect with
  | still receipt_eq market_eq positions_eq =>
      rw [receipt_eq, market_eq, positions_eq, nothing, zero_add]
      exact le_of_eq (add_zero _).symm
  | @setsUp infos receipt_eq growth_eq _ market_eq positions_eq =>
      rw [receipt_eq, market_eq, positions_eq, nothing, zero_add,
        pool.market.totalPending_accrue_congr (.reward index) growth_eq]
      exact le_of_eq (add_zero _).symm
  | @emits timestamp infos infos' receipt_eq accrued growth_eq _ market_eq positions_eq =>
      rw [receipt_eq, market_eq, positions_eq,
        pool.market.totalPending_accrue_congr (.reward index) growth_eq]
      change ((0 : ℕ) : ℚ) + _ ≤ _
      rw [Nat.cast_zero, zero_add]
      exact accrue_emitted consistent accrued index
  | opens receipt_eq fresh _ empty _ market_eq positions_eq =>
      rw [receipt_eq, market_eq, positions_eq, nothing, zero_add,
        Market.totalPending_opens fresh empty]
      exact le_of_eq (add_zero _).symm
  | closes receipt_eq found empty _ market_eq positions_eq =>
      rw [receipt_eq, market_eq, positions_eq, nothing, zero_add,
        Market.totalPending_closes found empty]
      exact le_of_eq (add_zero _).symm
  | pays receipt_eq found liquidity_eq range_eq checkpoint_eq _ market_eq positions_eq =>
      rw [receipt_eq, market_eq, positions_eq, nothing, zero_add,
        Market.totalPending_pays found liquidity_eq range_eq checkpoint_eq]
      exact le_of_eq (add_zero _).symm
  | paysProtocol receipt_eq market_eq positions_eq =>
      rw [receipt_eq, market_eq, positions_eq]
      change ((0 : ℕ) : ℚ) + _ ≤ _ + 0
      rw [Nat.cast_zero, zero_add, add_zero]
  | @credits timestamp _ position _ update receipt_eq found accrued modifies _ market_eq
      positions_eq =>
      have accrues := accrue_emitted consistent accrued index
      have moved := modifies.totalPending_eq (consistent.booked.accrue accrued) found
        (.reward index)
      have earned := (pool.market.accrue update.rewardInfos).credit_le_pending (.reward index)
        position
      rw [receipt_eq, market_eq, positions_eq, modifies.credited_eq]
      change _ ≤ _ + pool.whirlpool.emitted timestamp index
      linarith
  | @swaps timestamp amount context sequence _ _ _ receipt_eq whirlpool_eq accrued traded market_eq
      positions_eq =>
      have start := initial_market sequence amount whirlpool_eq
      have same := traded.traversal.totalPending_of_ne consistent.bounded
        (start ▸ consistent.booked.accrue accrued)
        (show Channel.reward index ≠ .fee context.aToB by simp only [ne_eq, reduceCtorEq,
          not_false_eq_true])
      rw [receipt_eq, market_eq, positions_eq, same, start]
      change ((0 : ℕ) : ℚ) + _ ≤ _ + pool.whirlpool.emitted timestamp index
      rw [Nat.cast_zero, zero_add]
      exact accrue_emitted consistent accrued index

end Pool

/-- In every run, what all positions were credited of a reward and what is pending for them is at
most what was emitted while there was liquidity, each interval at the rate in force during it. -/
theorem rewards_budgeted {m : Machine} {instructions : List Instruction} {pool : Pool}
    (reached : (run (execute m) none instructions).1 = some pool) (index : Fin numRewards) :
    (((run (execute m) none instructions).2.map (Receipt.credited (.reward index))).sum : ℚ) +
        total (pool.pendingReward index) pool.positions ≤
      ((run (execute m) none instructions).2.map (Receipt.emitted index)).sum := by
  have invariant := Pool.run_invariant (m := m)
    (fun pool receipts => ((receipts.map (Receipt.credited (.reward index))).sum : ℚ) +
      pool.market.totalPending (.reward index) pool.positions ≤
        (receipts.map (Receipt.emitted index)).sum)
    (fun pool empty _ _ => ?_) (fun pool pool' receipts receipt consistent _ before effect => ?_)
    reached
  · obtain ⟨consistent, budgeted⟩ := invariant
    rw [total_congr fun position _ => Pool.pendingReward_eq consistent.booked.idle index position]
    exact budgeted
  · rw [empty]
    exact le_of_eq (by norm_num [Receipt.credited, Receipt.emitted, Market.totalPending])
  · have step := effect.budgeted consistent index
    rw [List.map_append, List.map_append, List.sum_append, List.sum_append, Nat.cast_add]
    simp only [List.map_cons, List.map_nil, List.sum_cons, List.sum_nil, add_zero]
    linarith

/-- The first reward of a pool. -/
def firstReward : Fin numRewards := ⟨0, Nat.zero_lt_succ 2⟩

/-- The sample run, and a reward whose rate changes between two updates of a position. -/
def rewardRun : List Instruction := sampleRun ++ [
  .initializeReward 0 3 13,
  .setRewardEmissions 0 (5 * 2 ^ 64) (10 ^ 9) 50,
  .updateFeesAndRewards 7 (-5632) 0 80,
  .setRewardEmissions 0 (2 ^ 64) (10 ^ 9) 90,
  .updateFeesAndRewards 7 (-5632) 0 100]

/-- Of 30 and 10 seconds at 5 tokens and 10 seconds at 1 token, 208 tokens are credited. -/
theorem rewards_budgeted_rewardRun : ∃ pool,
    (run (execute (.exact false)) none rewardRun).1 = some pool ∧
    ((run (execute (.exact false)) none rewardRun).2.map
      (Receipt.credited (.reward firstReward))).sum = 208 ∧
    (((run (execute (.exact false)) none rewardRun).2.map
        (Receipt.credited (.reward firstReward))).sum : ℚ) +
        total (pool.pendingReward firstReward) pool.positions ≤
      ((run (execute (.exact false)) none rewardRun).2.map (Receipt.emitted firstReward)).sum := by
  have ran : (run (execute (.exact false)) none rewardRun).1.any (fun _ =>
      decide (((run (execute (.exact false)) none rewardRun).2.map
        (Receipt.credited (.reward firstReward))).sum = 208)) = true := by decide +kernel
  obtain ⟨pool, reached, credited⟩ := (Option.any_eq_true _ _).mp ran
  exact ⟨pool, reached, of_decide_eq_true credited, rewards_budgeted reached firstReward⟩

end Whirlpools
