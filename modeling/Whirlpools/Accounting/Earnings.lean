import Whirlpools.Accounting.Invariant

/-! # How the pending credits change over a run

Positions come and go without liquidity, so they take no pending credit along. A swap grows the
fees of its input token only. An invariant that also reads the receipts holds of a whole run when
it holds of a new pool and every instruction keeps it.
-/

namespace Whirlpools

open Outcome Ledger

namespace Market

variable {market : Market} {channel : Channel} {positions : Records Pubkey Position}
  {positionMint : Pubkey} {position position' : Position}

/-- Nothing is pending for a position without liquidity. -/
theorem pending_of_empty (market : Market) (channel : Channel) (empty : position.liquidity = 0) :
    market.pending channel position = 0 := by
  unfold pending
  rw [empty, Nat.cast_zero, zero_mul, zero_div]

/-- Opening an empty position makes nothing pending. -/
theorem totalPending_opens (fresh : positions.lookup positionMint = none)
    (empty : position.liquidity = 0) :
    market.totalPending channel (positions.insert positionMint position) =
      market.totalPending channel positions := by
  unfold totalPending
  rw [total_insert_new _ position fresh, pending_of_empty market channel empty, zero_add]

/-- Closing an empty position takes nothing pending away. -/
theorem totalPending_closes (found : positions.lookup positionMint = some position)
    (empty : position.liquidity = 0) :
    market.totalPending channel (positions.erase positionMint) =
      market.totalPending channel positions := by
  unfold totalPending
  rw [total_erase (market.pending channel) found, pending_of_empty market channel empty, zero_add]

/-- Paying a position out changes nothing of what it earned since its checkpoint. -/
theorem totalPending_pays (found : positions.lookup positionMint = some position)
    (liquidity_eq : position'.liquidity = position.liquidity)
    (range_eq : position'.tickLowerIndex = position.tickLowerIndex ∧
      position'.tickUpperIndex = position.tickUpperIndex)
    (checkpoint_eq : position'.growthCheckpoint = position.growthCheckpoint) :
    market.totalPending channel (positions.insert positionMint position') =
      market.totalPending channel positions := by
  refine total_insert_same (market.pending channel) position' found ?_
  unfold pending growthSince
  rw [liquidity_eq, range_eq.1, range_eq.2, checkpoint_eq]

/-- The pending credits read the global growth of the rewards, and nothing else of them. -/
theorem growthInside_accrue_congr (market : Market) (channel : Channel)
    {infos infos' : Fin numRewards → WhirlpoolRewardInfo}
    (growth_eq : ∀ index, (infos' index).growthGlobalX64 = (infos index).growthGlobalX64)
    (lower upper : ℤ) :
    (market.accrue infos').growthInside channel lower upper =
      (market.accrue infos).growthInside channel lower upper := by
  have same : (market.accrue infos').growthGlobal channel =
      (market.accrue infos).growthGlobal channel := by
    rcases channel with (_ | _) | index
    · rfl
    · rfl
    · exact growth_eq index
  unfold growthInside growthBelow
  rw [same]
  rfl

/-- What is pending depends on the rewards through their growth alone. -/
theorem totalPending_accrue_congr (market : Market) (channel : Channel)
    {infos infos' : Fin numRewards → WhirlpoolRewardInfo}
    (growth_eq : ∀ index, (infos' index).growthGlobalX64 = (infos index).growthGlobalX64)
    (positions : Records Pubkey Position) :
    (market.accrue infos').totalPending channel positions =
      (market.accrue infos).totalPending channel positions := by
  unfold totalPending pending growthSince
  simp only [market.growthInside_accrue_congr channel growth_eq]

end Market

/-- What a receipt adds to the amount owed to a position in a channel, before it wraps. -/
def Receipt.credited (channel : Channel) : Receipt → ℕ
  | .credit _ _ position update => amountOwedDelta position.liquidity
      (wrappingSub ((position.update update).growthCheckpoint channel)
        (position.growthCheckpoint channel))
  | _ => 0

/-- A position that is brought up to date is credited its growth since its checkpoint. -/
theorem Modifies.credited_eq {m : Machine} {market : Market} {position : Position}
    {liquidityDelta : ℤ} {update : ModifyLiquidityUpdate}
    (modifies : Modifies m market position liquidityDelta update) (pool : Pool) (timestamp : ℕ)
    (channel : Channel) :
    (Receipt.credit pool timestamp position update.positionUpdate).credited channel =
      market.credit channel position := by
  change amountOwedDelta position.liquidity (wrappingSub _ _) = _
  unfold Market.credit Market.growthSince
  rw [wrappingSub_eq_val, modifies.checkpoint]

section Swap

variable {m : Machine} {context : SwapContext} {table last : TickTable}
  {state final : SwapState} {entries : List SwapIteration} {tickSpacing : ℕ}
  {positions : Records Pubkey Position}

/-- A swap keeps the books. -/
theorem Traversal.booked (traversal : Traversal m context table state entries last final)
    (bounded : totalLiquidity positions < 2 ^ 127)
    (booked : Booked tickSpacing (state.market context table) positions) :
    Booked tickSpacing (final.market context last) positions := by
  induction traversal with
  | done => exact booked
  | step _ traverses _ _ ih => exact ih (traverses.booked booked bounded)

/-- A swap earns nothing but fees of its input token. -/
theorem Traversal.totalPending_of_ne
    (traversal : Traversal m context table state entries last final)
    (bounded : totalLiquidity positions < 2 ^ 127)
    (booked : Booked tickSpacing (state.market context table) positions) {channel : Channel}
    (other : channel ≠ .fee context.aToB) :
    (final.market context last).totalPending channel positions =
      (state.market context table).totalPending channel positions := by
  induction traversal with
  | done => rfl
  | step _ traverses _ _ ih =>
      have zero (entry : SwapIteration) : entry.growth context.aToB channel = 0 := if_neg other
      have step := (traverses.grows booked.idle channel).totalPending_eq booked
        fun position _ _ => by
          rw [zero, add_zero]
          exact ZMod.val_lt _
      rw [ih (traverses.booked booked bounded), step, zero, Nat.cast_zero, mul_zero, zero_div,
        add_zero]

end Swap

namespace Pool

/-- The rule for invariants of a pool and its receipts: a new pool has them, and every instruction
on a consistent pool keeps them. -/
theorem run_invariant {m : Machine} (holds : Pool → List Receipt → Prop)
    (created : ∀ pool, pool.positions = ∅ → (∀ isTokenA, pool.protocolFeeOwed isTokenA = 0) →
      (∀ channel, pool.market.growthGlobal channel = 0) → holds pool [.quiet])
    (preserved : ∀ (pool pool' : Pool) (receipts : List Receipt) (receipt : Receipt),
      pool.Consistent → pool'.Consistent → holds pool receipts → pool.Effect m receipt pool' →
      holds pool' (receipts ++ [receipt]))
    {instructions : List Instruction} {pool : Pool}
    (reached : (run (Whirlpools.execute m) none instructions).1 = some pool) :
    pool.Consistent ∧ holds pool (run (Whirlpools.execute m) none instructions).2 := by
  have runs := runs_run (Whirlpools.execute m) none instructions
  generalize (run (Whirlpools.execute m) none instructions).2 = receipts at runs ⊢
  rw [reached] at runs
  have invariant := runs.invariant_log
    (fun state receipts => match state with
      | none => receipts = []
      | some pool => pool.Consistent ∧ holds pool receipts)
    (fun state instruction next receipt receipts before executed => ?_) rfl
  · exact invariant
  · cases state with
    | none =>
        cases instruction <;>
          simp only [Whirlpools.execute, reduceCtorEq, bind_eq_ok, Except.ok.injEq,
            Prod.mk.injEq] at executed
        obtain ⟨pool, returned, rfl, rfl⟩ := executed
        obtain rfl : receipts = [] := before
        refine ⟨create_consistent returned, ?_⟩
        simp only [create, Whirlpool.initializeWhirlpool, Whirlpool.updateFeeRate,
          Whirlpool.updateProtocolFeeRate, bind_eq_ok, guard_eq_ok, Except.ok.injEq] at returned
        obtain ⟨whirlpool, ⟨-, -, _, ⟨-, rfl⟩, _, ⟨-, rfl⟩, rfl⟩, rfl⟩ := returned
        refine created _ rfl (fun isTokenA => ?_) fun channel => ?_
        · cases isTokenA <;> rfl
        · rcases channel with (_ | _) | index <;> rfl
    | some pool =>
        simp only [Whirlpools.execute, bind_eq_ok, Except.ok.injEq, Prod.mk.injEq] at executed
        obtain ⟨⟨final, receipt⟩, executed, rfl, rfl⟩ := executed
        have consistent' := before.1.execute executed
        exact ⟨consistent', preserved pool final receipts receipt before.1 consistent' before.2
          (execute_effect before.1.ready executed).1⟩

end Pool
end Whirlpools
