import Whirlpools.Pools.Solvency

/-! # Liquidity bookkeeping

In every reachable state the gross and net liquidity of the ticks and the liquidity
of the pool are those of the positions, and no swap finds liquidity that it cannot
add or take away at a tick.
-/

namespace Whirlpools

open Outcome Ledger

/-- A failure other than an over- or underflow of liquidity. -/
def LiquidityFits (failure : Failure) : Prop :=
  failure ≠ .code .liquidityUnderflow ∧ failure ≠ .code .liquidityOverflow

/-- The common failures are not about liquidity. -/
theorem Common.liquidityFits (failure : Failure) (common : Common failure) :
    LiquidityFits failure := ⟨common.2.1, common.2.2.1⟩

section Crossing

variable {m : Machine} {tickSpacing : ℕ} {context : SwapContext} {table : TickTable}
  {state : SwapState} {positions : Records Pubkey Position}

/-- The liquidity beyond the next tick of a search is that of the positions there. -/
theorem Booked.activeAt_next (booked : Booked tickSpacing (state.market context table) positions)
    {next : ℤ} (segment : if context.aToB then
        next ≤ state.currTickIndex ∧ table.Clear next state.currTickIndex
      else state.currTickIndex < next ∧ table.Clear state.currTickIndex (next - 1)) :
    (activeAt positions (if context.aToB then next - 1 else next) : ℤ) =
      state.currLiquidity + crossingSign context.aToB * (table next).liquidityNet := by
  have passing := booked.activeAt_sub next
  have here : state.currLiquidity = activeAt positions state.currTickIndex := booked.liquidity
  change _ = _ + (table next).liquidityNet at passing
  unfold crossingSign
  cases aToB : context.aToB <;>
    simp only [aToB, Bool.false_eq_true, ↓reduceIte] at segment ⊢
  · rw [passing, booked.activeAt_of_clear (by omega) segment.2, here, one_mul]
  · rw [← booked.activeAt_of_clear segment.1 segment.2, ← here] at passing
    linarith

/-- Crossing a tick over to the liquidity of the positions there succeeds. -/
theorem calculateUpdate_of_booked
    (booked : Booked tickSpacing (state.market context table) positions)
    (bounded : totalLiquidity positions < 2 ^ 127) {next : ℤ}
    (segment : if context.aToB then
        next ≤ state.currTickIndex ∧ table.Clear next state.currTickIndex
      else state.currTickIndex < next ∧ table.Clear state.currTickIndex (next - 1))
    (growthA growthB : ℕ) (infos : Fin numRewards → WhirlpoolRewardInfo) :
    ∃ result, calculateUpdate m (table next) context.aToB state.currLiquidity growthA
      growthB infos = .ok result := by
  have beyond := booked.activeAt_next segment
  have active := activeAt_le positions (if context.aToB then next - 1 else next)
  have net := booked.abs_net_le next
  change |(table next).liquidityNet| ≤ _ at net
  rw [abs_le] at net
  unfold calculateUpdate
  unfold crossingSign at beyond
  cases aToB : context.aToB <;> simp only [aToB, Bool.false_eq_true, ↓reduceIte] at beyond active ⊢
  · rw [ok_bind, addLiquidityDelta_of_fits m (by omega) (by omega) (by omega), ok_bind]
    exact ⟨_, rfl⟩
  · rw [m.plainNeg_of_ne (by omega), ok_bind, addLiquidityDelta_of_fits m (by omega) (by omega)
      (by omega), ok_bind]
    exact ⟨_, rfl⟩

end Crossing

namespace Pool

variable {m : Machine} {pool : Pool}

/-- No swap on a consistent pool over- or underflows its liquidity. -/
theorem Consistent.swap_fits (consistent : pool.Consistent) (args : SwapArgs) :
    FailsWithin LiquidityFits (pool.swap m args) := by
  have common := Common.liquidityFits
  have stored (start : ℤ) : FailsWithin LiquidityFits (pool.tickArray start) :=
    .okOr (common _ (by decide))
  have moved (pool : Pool) (amountA amountB : ℕ) :
      FailsWithin LiquidityFits (pool.performSwap amountA amountB args.aToB) := by
    have paidIn (vault amount : ℕ) :
        FailsWithin LiquidityFits (transferFromOwnerToVault vault amount) :=
      .ite (fun _ => .ok _) fun _ => .error (by unfold LiquidityFits; decide)
    have paidOut (vault amount : ℕ) :
        FailsWithin LiquidityFits (transferFromVaultToOwner vault amount) :=
      .ite (fun _ => .ok _) fun _ => .error (by unfold LiquidityFits; decide)
    exact .ite (fun _ => .bind (paidIn _ _) fun _ _ => .bind (paidOut _ _) fun _ _ => .ok _)
      fun _ => .bind (paidIn _ _) fun _ _ => .bind (paidOut _ _) fun _ _ => .ok _
  refine .bind (.bind (.ite (fun _ => .error (common _ (by decide))) fun _ => .ok _)
    fun timestamp _ => .bind (.bind (stored _) fun _ _ => .bind (stored _) fun _ _ =>
      .bind (stored _) fun _ _ => .ok _) fun sequence supplied => .bind ?_ fun _ _ => .ok _)
    fun result computed =>
    .bind (.ite (fun _ => .ite (fun _ => .error (common _ (by decide))) fun _ => .ok _)
      fun _ => .ite (fun _ => .error (common _ (by decide))) fun _ => .ok _) fun _ _ =>
    .bind (.bind (.ite (fun _ => .bind ((plainAdd_common m _ _ _).mono common) fun _ _ => .ok _)
      fun _ => .bind ((plainAdd_common m _ _ _).mono common) fun _ _ => .ok _) fun _ _ => .ok _)
    fun _ _ => .bind (moved _ _ _) fun _ _ => .ok _
  obtain ⟨carried, positive, -⟩ := swapTickSequence_eq_ok consistent.filed supplied
  refine swap_failsWithin m common fun rewardInfos accrued above below direction context context_eq
    middle entries iterations runs => swapIteration_failsWithin m common
      (fun _ _ _ _ _ => accountAmounts_failsWithin common _
        fun _ => by unfold LiquidityFits; decide)
      fun arrayIndex next tick growthA growthB searched read full => ?_
  subst context_eq
  let context : SwapContext := ⟨pool.whirlpool, args.sqrtPriceLimit, args.amountSpecifiedIsInput,
    args.aToB, rewardInfos⟩
  have starts := LoopInvariant.initial context _ sequence
    ⟨positive, consistent.booked.usableOnly, consistent.place, consistent.ready.liquidity, carried⟩
    args.amount.toNat_lt direction
  obtain ⟨last, traversal, ends⟩ := iterations_traversal ⟨positive, above, below⟩ iterations starts
  have start := Effect.initial_market sequence args.amount.toNat
    (show context.whirlpool = pool.whirlpool from rfl)
  obtain ⟨booked, -, -⟩ := traversal.covered consistent.rate consistent.bounded
    (start ▸ consistent.booked.accrue accrued)
  obtain ⟨result, segment⟩ := search_spec ⟨positive, above, below⟩ ends runs searched
  obtain ⟨array, found, -⟩ := result.inside
  have carriedHere := ends.carried.arrays array (List.mem_of_getElem? found)
  rw [SwapTickSequence.getTick, SwapTickSequence.getArray_eq_ok.mpr found, ok_bind] at read
  obtain rfl := carriedHere.getTick_eq_ok positive read
  obtain ⟨update, crossed⟩ := calculateUpdate_of_booked (m := m) booked consistent.bounded segment
    growthA growthB rewardInfos
  exact .of_ok crossed

end Pool

section Sum

variable {tickSpacing : ℕ} {market : Market} {positions : Records Pubkey Position}

/-- No position is in range before the first tick. -/
theorem Booked.activeAt_before (booked : Booked tickSpacing market positions) :
    activeAt positions (minTickIndex - 1) = 0 := by
  have zero : activeAt positions (minTickIndex - 1) = total (fun _ => 0) positions := by
    refine total_congr fun position held => ?_
    have range := (booked.ranges position held).range
    unfold Position.weight
    rw [if_neg (by omega)]
  rw [zero]
  unfold total
  rw [List.map_const', List.sum_replicate, smul_zero]

/-- The liquidity in range at a tick is the net liquidity of the ticks up to it. -/
theorem Booked.activeAt_eq_sum (booked : Booked tickSpacing market positions) {tick : ℤ}
    (above : minTickIndex - 1 ≤ tick) : (activeAt positions tick : ℤ) =
      ∑ index ∈ Finset.Icc minTickIndex tick, (market.ticks index).liquidityNet := by
  induction tick, above using Int.leInduction with
  | base =>
      rw [booked.activeAt_before, Finset.Icc_eq_empty (by omega), Finset.sum_empty]
      rfl
  | succ tick above ih =>
      have split : Finset.Icc minTickIndex (tick + 1) =
          insert (tick + 1) (Finset.Icc minTickIndex tick) := by
        ext index
        simp only [Finset.mem_insert, Finset.mem_Icc]
        omega
      have step := booked.activeAt_sub (tick + 1)
      rw [add_sub_cancel_right, ih] at step
      rw [split, Finset.sum_insert (by simp only [Finset.mem_Icc]; omega), step, add_comm]

end Sum

/-- In every reachable pool each tick has the gross and net liquidity of the positions it
bounds, and is initialized exactly when it bounds liquidity; the liquidity of the pool is
that of the positions in range, and the net liquidity of all ticks up to the current
one; and no swap over- or underflows its liquidity. -/
theorem reachable_bookkeeping {m : Machine} {pool : Pool} (reachable : Reachable m pool) :
    (∀ tick,
      (pool.tickAt tick).liquidityGross =
        total (fun position => position.grossAt tick) pool.positions ∧
      (pool.tickAt tick).liquidityNet =
        total (fun position => position.netAt tick) pool.positions ∧
      ((pool.tickAt tick).initialized = true ↔ 0 < (pool.tickAt tick).liquidityGross)) ∧
    pool.whirlpool.liquidity = activeAt pool.positions pool.whirlpool.tickCurrentIndex ∧
    (pool.whirlpool.liquidity : ℤ) = ∑ tick ∈ Finset.Icc minTickIndex
      pool.whirlpool.tickCurrentIndex, (pool.tickAt tick).liquidityNet ∧
    ∀ args, pool.execute m (.swap args) ≠ .error (.code .liquidityUnderflow) ∧
      pool.execute m (.swap args) ≠ .error (.code .liquidityOverflow) := by
  have consistent := Pool.Consistent.of_reachable reachable
  have booked := consistent.booked
  have active : pool.whirlpool.liquidity =
      activeAt pool.positions pool.whirlpool.tickCurrentIndex := booked.liquidity
  refine ⟨fun tick => ⟨booked.gross tick, booked.net tick, booked.initialized tick⟩, active, ?_,
    fun args => ⟨fun failed => (consistent.swap_fits args _ failed).1 rfl,
      fun failed => (consistent.swap_fits args _ failed).2 rfl⟩⟩
  rw [active]
  exact booked.activeAt_eq_sum consistent.place.tickAbove

/-- In the pool of the sample run the tick at -64 bounds one of the positions. -/
theorem reachable_bookkeeping_sampleRun : ∃ pool, Reachable (.exact false) pool ∧
    pool.whirlpool.tickCurrentIndex = -74 ∧ (pool.tickAt (-64)).liquidityNet = 10 ^ 8 ∧
    (pool.tickAt (-64)).liquidityNet =
      total (fun position => position.netAt (-64)) pool.positions ∧
    (pool.whirlpool.liquidity : ℤ) = ∑ tick ∈ Finset.Icc minTickIndex
      pool.whirlpool.tickCurrentIndex, (pool.tickAt tick).liquidityNet ∧
    ∀ args, pool.execute (.exact false) (.swap args) ≠ .error (.code .liquidityUnderflow) := by
  have ran : (Ledger.run (execute (.exact false)) none sampleRun).1.any (fun pool =>
      decide (pool.whirlpool.tickCurrentIndex = -74 ∧
        (pool.tickAt (-64)).liquidityNet = 10 ^ 8)) = true := by decide +kernel
  obtain ⟨pool, reached, traded⟩ := (Option.any_eq_true _ _).mp ran
  obtain ⟨current, net⟩ := of_decide_eq_true traded
  obtain ⟨ticks, -, liquidity, fits⟩ := reachable_bookkeeping (m := .exact false)
    ⟨sampleRun, reached⟩
  exact ⟨pool, ⟨sampleRun, reached⟩, current, net, (ticks (-64)).2.1, liquidity,
    fun args => (fits args).1⟩

end Whirlpools
