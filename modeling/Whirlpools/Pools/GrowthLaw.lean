import Whirlpools.Accounting.Earnings
import Whirlpools.Pools.RewardBudget

/-! # The growth inside a range of ticks

Over any run along which two ticks stay in use, the growth inside their range that the program
computes changes by exactly the growth made while the current tick was in the range: of the fees by
the iterations of swaps that started there, of the rewards by the updates that found the pool there.
Crossing a tick, and taking other ticks into use and out of it, changes nothing.
-/

namespace Whirlpools

open Outcome Ledger

/-- Whether a tick is in a range. -/
def InRange (lower upper tick : ℤ) : Prop := lower ≤ tick ∧ tick < upper

instance (lower upper tick : ℤ) : Decidable (InRange lower upper tick) := by
  unfold InRange
  infer_instance

/-- The growth inside a range that the program computes from a pool. -/
def Pool.nextGrowthInside (pool : Pool) (channel : Channel) (lower upper : ℤ) : ℕ :=
  let feeGrowths := nextFeeGrowthsInside pool.whirlpool.tickCurrentIndex (pool.tickAt lower) lower
    (pool.tickAt upper) upper pool.whirlpool.feeGrowthGlobalA pool.whirlpool.feeGrowthGlobalB
  match channel with
  | .fee true => feeGrowths.1
  | .fee false => feeGrowths.2
  | .reward index => nextRewardGrowthsInside pool.whirlpool.tickCurrentIndex (pool.tickAt lower)
      lower (pool.tickAt upper) upper pool.whirlpool.rewardInfos index

/-- The program's growth inside a range is the one of the books. -/
theorem Pool.nextGrowthInside_cast {pool : Pool} (idle : pool.market.RewardsIdle)
    (channel : Channel) (lower upper : ℤ) :
    ((pool.nextGrowthInside channel lower upper : ℕ) : Growth) =
      pool.market.growthInside channel lower upper := by
  obtain ⟨insideA, insideB⟩ := nextFeeGrowthsInside_cast pool.market lower upper
  rcases channel with (_ | _) | index
  · exact insideB
  · exact insideA
  · exact nextRewardGrowthsInside_cast pool.market lower upper idle index

section Receipts

/-- The growth of a channel made by accruing the rewards of a pool in a range. -/
def Pool.accruedInside (pool : Pool) (timestamp : ℕ) (channel : Channel) (lower upper : ℤ) : ℕ :=
  if InRange lower upper pool.whirlpool.tickCurrentIndex then
    accrual pool.whirlpool timestamp channel else 0

/-- The growth of a channel made by an iteration that started in a range. -/
def SwapIteration.grownInside (entry : SwapIteration) (aToB : Bool) (channel : Channel)
    (lower upper : ℤ) : ℕ :=
  if InRange lower upper entry.tickIndex then entry.growth aToB channel else 0

/-- The growth of a channel that a receipt makes in a range. -/
def Receipt.grownInside (channel : Channel) (lower upper : ℤ) : Receipt → ℕ
  | .quiet => 0
  | .emissions pool timestamp => pool.accruedInside timestamp channel lower upper
  | .credit pool timestamp _ _ => pool.accruedInside timestamp channel lower upper
  | .swap pool timestamp aToB iterations => pool.accruedInside timestamp channel lower upper +
      (iterations.map fun entry => entry.grownInside aToB channel lower upper).sum
  | .protocolFees _ => 0

end Receipts

/-- Both bounds of a range are in use. -/
def TickTable.InUse (ticks : TickTable) (lower upper : ℤ) : Prop :=
  (ticks lower).initialized = true ∧ (ticks upper).initialized = true

section Step

variable {m : Machine} {channel : Channel} {lower upper : ℤ}

/-- A swap grows the inside of a range by its iterations that started there. -/
theorem Traversal.growthInside_eq {context : SwapContext} {table last : TickTable}
    {state final : SwapState} {entries : List SwapIteration}
    (traversal : Traversal m context table state entries last final) (ordered : lower < upper)
    (idle : (state.market context table).RewardsIdle) (inUse : table.InUse lower upper) :
    (final.market context last).growthInside channel lower upper =
      (state.market context table).growthInside channel lower upper +
        ((entries.map fun entry => entry.grownInside context.aToB channel lower upper).sum :
        ℕ) := by
  induction traversal with
  | done => simp only [List.map_nil, List.sum_nil, Nat.cast_zero, add_zero]
  | @step table table' last state state' final entry entries _ traverses _ _ ih =>
      have inUse' : table'.InUse lower upper :=
        ⟨(traverses.initialized_eq lower).trans inUse.1,
          (traverses.initialized_eq upper).trans inUse.2⟩
      have first := (traverses.grows idle channel).inside ordered inUse.1 inUse.2
      have here : (entry.grownInside context.aToB channel lower upper : Growth) =
          if lower ≤ state.currTickIndex ∧ state.currTickIndex < upper then
            (entry.growth context.aToB channel : Growth) else 0 := by
        rw [SwapIteration.grownInside, traverses.tick, Nat.cast_ite, Nat.cast_zero]
        rfl
      rw [ih (traverses.idle idle) inUse', first, List.map_cons, List.sum_cons, Nat.cast_add, here,
        add_assoc]
      rfl

namespace Pool

variable {pool pool' : Pool} {receipt : Receipt}

/-- Accruing rewards grows the inside of the ranges around the current tick. -/
theorem accrue_growthInside {timestamp : ℕ} {infos : Fin numRewards → WhirlpoolRewardInfo}
    (accrued : nextWhirlpoolRewardInfos pool.whirlpool timestamp = .ok infos)
    (ordered : lower < upper)
    (inUse : pool.tickAt.InUse lower upper) :
    (pool.market.accrue infos).growthInside channel lower upper =
      pool.market.growthInside channel lower upper +
        (pool.accruedInside timestamp channel lower upper : ℕ) := by
  rw [(accrue_grows accrued channel).inside ordered inUse.1 inUse.2, accruedInside, Nat.cast_ite,
    Nat.cast_zero]
  rfl

/-- Every instruction grows the inside of a range whose bounds stay in use by what its receipt made
there. -/
theorem Effect.growthInside_eq (effect : pool.Effect m receipt pool') (consistent : pool.Consistent)
    (channel : Channel) (ordered : lower < upper) (inUse : pool.tickAt.InUse lower upper)
    (inUse' : pool'.tickAt.InUse lower upper) :
    pool'.market.growthInside channel lower upper = pool.market.growthInside channel lower upper +
      (receipt.grownInside channel lower upper : ℕ) := by
  have quiet : ((Receipt.quiet.grownInside channel lower upper : ℕ) : Growth) = 0 := Nat.cast_zero
  change pool'.market.ticks.InUse lower upper at inUse'
  cases effect with
  | still receipt_eq market_eq => rw [receipt_eq, market_eq, quiet, add_zero]
  | setsUp receipt_eq growth_eq _ market_eq =>
      rw [receipt_eq, market_eq, pool.market.growthInside_accrue_congr channel growth_eq, quiet,
        add_zero]
      rfl
  | emits receipt_eq accrued growth_eq _ market_eq =>
      rw [receipt_eq, market_eq, pool.market.growthInside_accrue_congr channel growth_eq,
        accrue_growthInside accrued ordered inUse]
      rfl
  | opens receipt_eq _ _ _ _ market_eq => rw [receipt_eq, market_eq, quiet, add_zero]
  | closes receipt_eq _ _ _ market_eq => rw [receipt_eq, market_eq, quiet, add_zero]
  | pays receipt_eq _ _ _ _ _ market_eq => rw [receipt_eq, market_eq, quiet, add_zero]
  | paysProtocol receipt_eq market_eq =>
      rw [receipt_eq, market_eq]
      exact (add_eq_left.mpr Nat.cast_zero).symm
  | credits receipt_eq found accrued modifies _ market_eq =>
      rw [market_eq] at inUse'
      rw [receipt_eq, market_eq, modifies.growthInside_eq (consistent.booked.accrue accrued) channel
        inUse'.1 inUse'.2, accrue_growthInside accrued ordered inUse]
      rfl
  | @swaps timestamp amount context sequence outcome last final receipt_eq whirlpool_eq accrued
      traded market_eq =>
      have start := initial_market sequence amount whirlpool_eq
      have idle := (consistent.booked.accrue accrued).idle
      rw [← start] at idle
      rw [receipt_eq, market_eq, traded.traversal.growthInside_eq ordered idle inUse, start,
        accrue_growthInside accrued ordered inUse, add_assoc, ← Nat.cast_add]
      rfl

/-- Over a run that keeps both bounds of a range in use, its inside grows by what all receipts made
there. -/
theorem Consistent.growthInside_run (consistent : pool.Consistent) (channel : Channel)
    (ordered : lower < upper)
    {instructions : List Instruction}
    (inUse : ∀ count middle, (run (Whirlpools.execute m) (some pool)
      (instructions.take count)).1 = some middle → middle.tickAt.InUse lower upper)
    (reached : (run (Whirlpools.execute m) (some pool) instructions).1 = some pool') :
    pool'.Consistent ∧ pool'.market.growthInside channel lower upper =
      pool.market.growthInside channel lower upper +
        (((run (Whirlpools.execute m) (some pool) instructions).2.map
          (Receipt.grownInside channel lower upper)).sum : ℕ) := by
  induction instructions generalizing pool with
  | nil =>
      obtain rfl := Option.some.inj reached
      exact ⟨consistent, (add_eq_left.mpr Nat.cast_zero).symm⟩
  | cons instruction instructions ih =>
      cases executed : pool.execute m instruction with
      | error failure =>
          have failed : Whirlpools.execute m (some pool) instruction = .error failure := by
            change pool.execute m instruction >>= _ = _
            rw [executed, error_bind]
          have same : run (Whirlpools.execute m) (some pool) (instruction :: instructions) =
              run (Whirlpools.execute m) (some pool) instructions := by
            simp only [run, attempt, failed, List.nil_append]
          rw [same] at reached ⊢
          refine ih consistent (fun count middle passed => inUse (count + 1) middle ?_) reached
          rw [List.take_succ_cons, run_cons_of_error failed, passed]
      | ok outcome =>
          obtain ⟨next, receipt⟩ := outcome
          have ran : Whirlpools.execute m (some pool) instruction = .ok (some next, receipt) := by
            change pool.execute m instruction >>= _ = _
            rw [executed, ok_bind]
          have split : run (Whirlpools.execute m) (some pool) (instruction :: instructions) =
              ((run (Whirlpools.execute m) (some next) instructions).1,
                receipt :: (run (Whirlpools.execute m) (some next) instructions).2) := by
            simp only [run, attempt, ran, List.singleton_append]
          rw [split] at reached ⊢
          have passes (count : ℕ) (middle : Pool) (passed : (run (Whirlpools.execute m) (some next)
              (instructions.take count)).1 = some middle) : middle.tickAt.InUse lower upper := by
            refine inUse (count + 1) middle ?_
            rw [List.take_succ_cons, run_cons_of_ok ran, passed]
          have step := (execute_effect consistent.ready executed).1.growthInside_eq consistent
            channel ordered (inUse 0 pool rfl) (passes 0 next rfl)
          obtain ⟨consistent', rest⟩ := ih (consistent.execute executed) passes reached
          refine ⟨consistent', ?_⟩
          rw [rest, step, List.map_cons, List.sum_cons, Nat.cast_add, add_assoc]

end Pool
end Step

/-- Over any run from a reachable pool along which both bounds of a range stay in use, the growth
inside the range that the program computes changes, modulo `2 ^ 128`, by the growth of all
iterations of swaps that started in the range, and of all updates of the rewards that found the
current tick in it. -/
theorem growthInside_accrues {m : Machine} {pool pool' : Pool} (reachable : Reachable m pool)
    {lower upper : ℤ} (ordered : lower < upper) {instructions : List Instruction}
    (inUse : ∀ count middle, (run (execute m) (some pool) (instructions.take count)).1 =
      some middle → middle.tickAt.InUse lower upper)
    (reached : (run (execute m) (some pool) instructions).1 = some pool') (channel : Channel) :
    pool'.nextGrowthInside channel lower upper ≡ pool.nextGrowthInside channel lower upper +
      ((run (execute m) (some pool) instructions).2.map
        (Receipt.grownInside channel lower upper)).sum [MOD 2 ^ 128] := by
  have consistent := Pool.Consistent.of_reachable reachable
  obtain ⟨consistent', grown⟩ := consistent.growthInside_run channel ordered inUse reached
  rw [← ZMod.natCast_eq_natCast_iff, Nat.cast_add, Pool.nextGrowthInside_cast
    consistent.booked.idle, Pool.nextGrowthInside_cast consistent'.booked.idle, grown]

/-- A trade up into a range, a withdrawal, and a trade down out of it. -/
def tradesAround : List Instruction := [
  .swap ⟨3000000, 0, maxSqrtPriceX64, true, false, -5632, 0, 0, 60⟩,
  .decreaseLiquidity ⟨8, -5632, 0, 10 ^ 7, 70⟩ 0 0,
  .swap ⟨4000000, 0, minSqrtPriceX64, true, true, -5632, -5632, -5632, 80⟩]

/-- After the sample run the trades cross a tick both ways, and some of the fees of token A are made
inside. -/
theorem growthInside_accrues_sampleRun : ∃ pool pool', Reachable (.exact false) pool ∧
    (run (execute (.exact false)) (some pool) tradesAround).1 = some pool' ∧
    pool.whirlpool.tickCurrentIndex = -74 ∧ pool'.whirlpool.tickCurrentIndex = -94 ∧
    0 < ((run (execute (.exact false)) (some pool) tradesAround).2.map
      (Receipt.grownInside (.fee true) (-64) 128)).sum ∧
    pool'.nextGrowthInside (.fee true) (-64) 128 ≡ pool.nextGrowthInside (.fee true) (-64) 128 +
      ((run (execute (.exact false)) (some pool) tradesAround).2.map
        (Receipt.grownInside (.fee true) (-64) 128)).sum [MOD 2 ^ 128] := by
  have ran : (run (execute (.exact false)) none sampleRun).1.any (fun pool =>
      decide (pool.whirlpool.tickCurrentIndex = -74 ∧
        0 < ((run (execute (.exact false)) (some pool) tradesAround).2.map
          (Receipt.grownInside (.fee true) (-64) 128)).sum) &&
      (run (execute (.exact false)) (some pool) tradesAround).1.any (fun pool' =>
        decide (pool'.whirlpool.tickCurrentIndex = -94)) &&
      (List.range 4).all fun count =>
        (run (execute (.exact false)) (some pool) (tradesAround.take count)).1.all fun middle =>
          (middle.tickAt (-64)).initialized && (middle.tickAt 128).initialized) = true := by
    decide +kernel
  obtain ⟨pool, reached, checked⟩ := (Option.any_eq_true _ _).mp ran
  obtain ⟨traded, kept⟩ := Bool.and_eq_true_iff.mp checked
  obtain ⟨started, ended⟩ := Bool.and_eq_true_iff.mp traded
  obtain ⟨current, grown⟩ := of_decide_eq_true started
  obtain ⟨pool', reached', current'⟩ := (Option.any_eq_true _ _).mp ended
  have inUse (count : ℕ) (middle : Pool) (passed : (run (execute (.exact false)) (some pool)
      (tradesAround.take count)).1 = some middle) : middle.tickAt.InUse (-64) 128 := by
    have whole : tradesAround.take count = tradesAround.take (min count 3) := by
      rw [← List.take_take]
      rfl
    rw [whole] at passed
    have each := List.all_eq_true.mp kept (min count 3) (List.mem_range.mpr (by omega))
    rw [passed] at each
    exact Bool.and_eq_true_iff.mp each
  exact ⟨pool, pool', ⟨sampleRun, reached⟩, reached', current, of_decide_eq_true current', grown,
    growthInside_accrues ⟨sampleRun, reached⟩ (by norm_num) inUse reached' (.fee true)⟩

/-- When an instruction brings a position up to date, also as it takes bounds into use or out of it,
the growth inside every range in use afterwards is what the program computed before from the accrued
rewards, and a position with liquidity has nothing pending. -/
theorem credited_pendingNothing {m : Machine} {pool pool' before : Pool}
    (reachable : Reachable m pool) {instruction : Instruction} {timestamp : ℕ} {position : Position}
    {update : PositionUpdate} (executed : pool.execute m instruction =
      .ok (pool', .credit before timestamp position update)) :
    ∃ infos, nextWhirlpoolRewardInfos pool.whirlpool timestamp = .ok infos ∧
      (∀ lower upper, pool'.tickAt.InUse lower upper → ∀ channel,
        pool'.nextGrowthInside channel lower upper ≡
          { pool with whirlpool := pool.whirlpool.updateRewards infos timestamp }.nextGrowthInside
            channel lower upper [MOD 2 ^ 128]) ∧
      (0 < update.liquidity → ∀ channel, wrappingSub
        (pool'.nextGrowthInside channel position.tickLowerIndex position.tickUpperIndex)
        ((position.update update).growthCheckpoint channel) = 0) := by
  have consistent := Pool.Consistent.of_reachable reachable
  have idle' := (consistent.execute executed).booked.idle
  cases (Pool.execute_effect consistent.ready executed).1 with
  | @credits _ positionMint _ liquidityDelta modified receipt_eq found accrued modifies
    _ market_eq =>
      simp only [Receipt.credit.injEq] at receipt_eq
      obtain ⟨rfl, rfl, rfl, rfl⟩ := receipt_eq
      have booked := consistent.booked.accrue accrued
      have inside (lower upper : ℤ) (inUse : pool'.tickAt.InUse lower upper) (channel : Channel) :
          pool'.market.growthInside channel lower upper =
            (before.market.accrue modified.rewardInfos).growthInside channel lower upper := by
        change pool'.market.ticks.InUse lower upper at inUse
        rw [market_eq] at inUse ⊢
        exact modifies.growthInside_eq booked channel inUse.1 inUse.2
      refine ⟨modified.rewardInfos, accrued, fun lower upper inUse channel => ?_,
        fun liquid channel => ?_⟩
      · have accruedInside := @Pool.nextGrowthInside_cast { before with
          whirlpool := before.whirlpool.updateRewards modified.rewardInfos timestamp } booked.idle
          channel lower upper
        rw [← ZMod.natCast_eq_natCast_iff, Pool.nextGrowthInside_cast idle', accruedInside]
        exact inside lower upper inUse channel
      · have booked' := modifies.booked booked found
        have held : Holds (before.positions.insert positionMint
          (position.update modified.positionUpdate)) (position.update modified.positionUpdate) :=
            ⟨positionMint, AList.lookup_insert _⟩
        have inUse : pool'.tickAt.InUse position.tickLowerIndex position.tickUpperIndex := by
          change pool'.market.ticks.InUse _ _
          rw [market_eq]
          exact @Booked.bounds_initialized _ _ _ booked'
            (position.update modified.positionUpdate) held liquid
        rw [wrappingSub_eq_val, Pool.nextGrowthInside_cast idle', modifies.checkpoint,
          inside _ _ inUse, sub_self, ZMod.val_zero]
  | still receipt_eq => simp only [reduceCtorEq] at receipt_eq
  | setsUp receipt_eq => simp only [reduceCtorEq] at receipt_eq
  | emits receipt_eq => simp only [reduceCtorEq] at receipt_eq
  | opens receipt_eq => simp only [reduceCtorEq] at receipt_eq
  | closes receipt_eq => simp only [reduceCtorEq] at receipt_eq
  | pays receipt_eq => simp only [reduceCtorEq] at receipt_eq
  | paysProtocol receipt_eq => simp only [reduceCtorEq] at receipt_eq
  | swaps receipt_eq => simp only [reduceCtorEq] at receipt_eq

/-- Whether a receipt is of a position that is left with liquidity. -/
def Receipt.leavesLiquidity : Receipt → Bool
  | .credit _ _ _ update => 0 < update.liquidity
  | _ => false

/-- Deposit into a new position with an upper bound that no position used before. -/
def opensBound : Instruction := .increaseLiquidity ⟨9, -5632, 0, 10 ^ 6, 120⟩ (10 ^ 9) (10 ^ 9)

/-- After the run with a reward, a deposit takes a tick into use that was not. -/
theorem credited_pendingNothing_opensBound : ∃ pool pool' before position timestamp update infos,
    Reachable (.exact false) pool ∧
    pool.execute (.exact false) opensBound =
      .ok (pool', .credit before timestamp position update) ∧
    (pool.tickAt 192).initialized = false ∧ 0 < update.liquidity ∧
    nextWhirlpoolRewardInfos pool.whirlpool timestamp = .ok infos ∧
    (∀ lower upper, pool'.tickAt.InUse lower upper → ∀ channel,
      pool'.nextGrowthInside channel lower upper ≡
        { pool with whirlpool := pool.whirlpool.updateRewards infos timestamp }.nextGrowthInside
          channel lower upper [MOD 2 ^ 128]) ∧
    ∀ channel, wrappingSub
      (pool'.nextGrowthInside channel position.tickLowerIndex position.tickUpperIndex)
      ((position.update update).growthCheckpoint channel) = 0 := by
  have ran : (run (execute (.exact false)) none
      (rewardRun ++ [.openPosition 9 (-64) 192])).1.any (fun pool =>
        decide ((pool.tickAt 192).initialized = false) &&
        yields (pool.execute (.exact false) opensBound) fun outcome => outcome.2.leavesLiquidity) =
      true := by
    decide +kernel
  obtain ⟨pool, reached, checked⟩ := (Option.any_eq_true _ _).mp ran
  obtain ⟨unused, deposits⟩ := Bool.and_eq_true_iff.mp checked
  obtain ⟨⟨pool', receipt⟩, executed, met⟩ := yields_iff.mp deposits
  cases receipt with
  | credit before timestamp position update =>
      obtain ⟨infos, accrued, inside, pending⟩ :=
        credited_pendingNothing (m := .exact false) ⟨_, reached⟩ executed
      exact ⟨pool, pool', before, position, timestamp, update, infos, ⟨_, reached⟩, executed,
        of_decide_eq_true unused, of_decide_eq_true met, accrued, inside,
        pending (of_decide_eq_true met)⟩
  | _ => simp only [Receipt.leavesLiquidity, Bool.false_eq_true] at met

end Whirlpools
