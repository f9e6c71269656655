import Whirlpools.Accounting.Invariant

/-! # Growth accumulators fit their fields

The program stores the growth of every channel in 128 bits: what a pool and its ticks store of it,
and the checkpoints of the positions that have liquidity, stay below `2 ^ 128` in every run.
-/

namespace Whirlpools

open Outcome Ledger

/-- The growth of every channel fits, and so does what is stored of it outside the ticks. -/
structure Market.GrowthsFit (market : Market) : Prop where
  global : ∀ channel, market.growthGlobal channel < 2 ^ 128
  outside : ∀ tick channel, (market.ticks tick).growthOutside channel < 2 ^ 128

section Market

variable {m : Machine} {market : Market} {position : Position} {index liquidityDelta : ℤ}

/-- A bound of a position stores no more than there was. -/
theorem BoundUpdate.outside_lt {isUpperTick : Bool} {update : TickUpdate}
    (bound : BoundUpdate market index liquidityDelta isUpperTick update) (fit : market.GrowthsFit)
    (channel : Channel) : update.growthOutside channel < 2 ^ 128 := by
  by_cases still : liquidityDelta = 0
  · rw [bound.still still]
    exact fit.outside index channel
  · by_cases empty : update.liquidityGross = 0
    · rw [bound.empty still empty]
      rcases channel with (_ | _) | _ <;> exact Nat.two_pow_pos 128
    · rw [bound.outside still empty]
      split_ifs
      · exact fit.global channel
      · exact Nat.two_pow_pos 128
      · exact fit.outside index channel

/-- A change of liquidity keeps what the ticks store within its field. -/
theorem Modifies.growthsFit {update : ModifyLiquidityUpdate}
    (modifies : Modifies m market position liquidityDelta update) (fit : market.GrowthsFit) :
    (market.modify position update).GrowthsFit where
  global := fit.global
  outside tick channel := by
    change (Function.update (Function.update market.ticks position.tickLowerIndex _)
      position.tickUpperIndex _ tick).growthOutside channel < 2 ^ 128
    by_cases upper : tick = position.tickUpperIndex
    · rw [upper, Function.update_self]
      exact modifies.upper.outside_lt fit channel
    · rw [Function.update_of_ne upper]
      by_cases lower : tick = position.tickLowerIndex
      · rw [lower, Function.update_self]
        exact modifies.lower.outside_lt fit channel
      · rw [Function.update_of_ne lower]
        exact fit.outside tick channel

end Market

section Swap

variable {m : Machine} {context : SwapContext} {table table' : TickTable} {state state' : SwapState}

/-- The growth of the fees of the input token wraps, and a crossed tick stores a difference that
wraps, or what it stored before. -/
theorem Traverses.growthsFit {entry : SwapIteration}
    (step : Traverses m context table state entry table' state')
    (fit : (state.market context table).GrowthsFit) :
    (state'.market context table').GrowthsFit := by
  have input : state'.currFeeGrowthGlobalInput < 2 ^ 128 := by
    have fees := step.fees
    simp only [calculateFees, bind_eq_ok, Except.ok.injEq, Prod.mk.injEq] at fees
    obtain ⟨_, -, -, grown, -⟩ := fees
    rw [← grown]
    exact Nat.mod_lt _ (Nat.two_pow_pos 128)
  constructor
  · intro channel
    have before := fit.global channel
    unfold Market.growthGlobal SwapState.market crossingFeeGrowths at before ⊢
    rcases channel with (_ | _) | index
    · cases aToB : context.aToB <;>
        simp only [aToB, Bool.false_eq_true, ↓reduceIte] at before ⊢ <;> assumption
    · cases aToB : context.aToB <;>
        simp only [aToB, Bool.false_eq_true, ↓reduceIte] at before ⊢ <;> assumption
    · exact before
  · intro tick channel
    change (table' tick).growthOutside channel < 2 ^ 128
    by_cases crossed : entry.crossed = some tick
    · rw [step.flipped crossed]
      rcases channel with (_ | _) | index
      · exact wrappingSub_lt _ _
      · exact wrappingSub_lt _ _
      · change (if (context.nextRewardInfos index).initialized then wrappingSub _ _
          else (table tick).rewardGrowthsOutside index) < 2 ^ 128
        split_ifs
        · exact wrappingSub_lt _ _
        · exact fit.outside tick (.reward index)
    · rw [step.unchanged crossed]
      exact fit.outside tick channel

/-- A whole swap keeps the growths within their fields. -/
theorem Traversal.growthsFit {entries : List SwapIteration}
    (traversal : Traversal m context table state entries table' state')
    (fit : (state.market context table).GrowthsFit) :
    (state'.market context table').GrowthsFit := by
  induction traversal with
  | done => exact fit
  | step _ traverses _ _ ih => exact ih (traverses.growthsFit fit)

end Swap

namespace Pool

/-- All growths that a pool stores fit, also the checkpoints of the positions with liquidity. -/
structure GrowthsFit (pool : Pool) : Prop where
  market : pool.market.GrowthsFit
  checkpoint : ∀ position, Holds pool.positions position → 0 < position.liquidity → ∀ channel,
    position.growthCheckpoint channel < 2 ^ 128

variable {m : Machine} {pool pool' : Pool}

theorem create_growthsFit {config : WhirlpoolsConfig} {tickSpacing defaultFeeRate sqrtPrice : ℕ}
    {tokenMintA tokenVaultA tokenMintB tokenVaultB : Pubkey}
    (returned : create config tickSpacing defaultFeeRate sqrtPrice tokenMintA tokenVaultA tokenMintB
      tokenVaultB = .ok pool) : pool.GrowthsFit := by
  simp only [create, Whirlpool.initializeWhirlpool, Whirlpool.updateFeeRate,
    Whirlpool.updateProtocolFeeRate, bind_eq_ok, guard_eq_ok, Except.ok.injEq] at returned
  obtain ⟨whirlpool, ⟨-, -, _, ⟨-, rfl⟩, _, ⟨-, rfl⟩, rfl⟩, rfl⟩ := returned
  refine ⟨⟨?_, fun tick => ?_⟩, ?_⟩
  · rintro ((_ | _) | index) <;> exact Nat.two_pow_pos 128
  · rintro ((_ | _) | index) <;> exact Nat.two_pow_pos 128
  · rintro position ⟨key, held⟩
    exact absurd held (by simp only [AList.lookup_empty, reduceCtorEq, not_false_eq_true])

/-- Accruing rewards keeps the growths of a pool within their fields. -/
theorem GrowthsFit.accrue (fit : pool.GrowthsFit) {infos : Fin numRewards → WhirlpoolRewardInfo}
    (rewards : ∀ index, (infos index).growthGlobalX64 < 2 ^ 128) :
    (pool.market.accrue infos).GrowthsFit where
  global := by
    rintro ((_ | _) | index)
    · exact fit.market.global (.fee false)
    · exact fit.market.global (.fee true)
    · exact rewards index
  outside := fit.market.outside

/-- The growths that the program accrues fit as well. -/
theorem GrowthsFit.accrue_next (fit : pool.GrowthsFit) {timestamp : ℕ}
    {infos : Fin numRewards → WhirlpoolRewardInfo}
    (accrued : nextWhirlpoolRewardInfos pool.whirlpool timestamp = .ok infos) :
    (pool.market.accrue infos).GrowthsFit :=
  fit.accrue (nextWhirlpoolRewardInfos_lt accrued fun index => fit.market.global (.reward index))

/-- Every instruction keeps the growths within their fields. -/
theorem Effect.growthsFit {receipt : Receipt} (effect : pool.Effect m receipt pool')
    (fit : pool.GrowthsFit) : pool'.GrowthsFit := by
  have inserted {positionMint : Pubkey} {position : Position}
      (checkpoint : 0 < position.liquidity → ∀ channel,
        position.growthCheckpoint channel < 2 ^ 128) (other : Position)
      (held : Holds (pool.positions.insert positionMint position) other)
      (liquid : 0 < other.liquidity) (channel : Channel) :
      other.growthCheckpoint channel < 2 ^ 128 := by
    obtain rfl | ⟨key, -, found⟩ := held.of_insert
    · exact checkpoint liquid channel
    · exact fit.checkpoint other ⟨key, found⟩ liquid channel
  cases effect with
  | still _ market_eq positions_eq =>
      exact ⟨market_eq ▸ fit.market, positions_eq ▸ fit.checkpoint⟩
  | @setsUp infos _ growth_eq _ market_eq positions_eq =>
      refine ⟨market_eq ▸ fit.accrue fun index => ?_, positions_eq ▸ fit.checkpoint⟩
      rw [growth_eq]
      exact fit.market.global (.reward index)
  | @emits timestamp infos infos' _ accrued growth_eq _ market_eq positions_eq =>
      refine ⟨market_eq ▸ fit.accrue fun index => ?_, positions_eq ▸ fit.checkpoint⟩
      rw [growth_eq]
      exact (fit.accrue_next accrued).global (.reward index)
  | opens _ _ _ empty _ market_eq positions_eq =>
      refine ⟨market_eq ▸ fit.market, positions_eq ▸ inserted fun liquid => ?_⟩
      omega
  | closes _ _ _ _ market_eq positions_eq =>
      refine ⟨market_eq ▸ fit.market, positions_eq ▸ fun other held => ?_⟩
      exact fit.checkpoint other held.of_erase
  | pays _ found liquidity_eq _ checkpoint_eq _ market_eq positions_eq =>
      refine ⟨market_eq ▸ fit.market, positions_eq ▸ inserted fun liquid => ?_⟩
      rw [checkpoint_eq]
      exact fit.checkpoint _ ⟨_, found⟩ (liquidity_eq ▸ liquid)
  | paysProtocol _ market_eq positions_eq =>
      exact ⟨market_eq ▸ fit.market, positions_eq ▸ fit.checkpoint⟩
  | credits _ _ accrued modifies _ market_eq positions_eq =>
      exact ⟨market_eq ▸ modifies.growthsFit (fit.accrue_next accrued),
        positions_eq ▸ inserted fun _ => modifies.checkpointFits⟩
  | @swaps timestamp amount context sequence _ _ _ _ whirlpool_eq accrued traded market_eq
      positions_eq =>
      have start := initial_market sequence amount whirlpool_eq
      exact ⟨market_eq ▸ traded.traversal.growthsFit (start ▸ fit.accrue_next accrued),
        positions_eq ▸ fit.checkpoint⟩

/-- In every reachable pool all growths fit their fields. -/
theorem GrowthsFit.of_reachable (reachable : Reachable m pool) : pool.GrowthsFit := by
  have both : pool.Consistent ∧ pool.GrowthsFit := by
    refine @Reachable.invariant m pool (fun pool => pool.Consistent ∧ pool.GrowthsFit) reachable
      (fun returned => ⟨create_consistent returned, create_growthsFit returned⟩)
      fun _ before executed => ⟨before.1.execute executed, ?_⟩
    exact (execute_effect before.1.ready executed).1.growthsFit before.2
  exact both.2

end Pool
end Whirlpools
