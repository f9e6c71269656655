import Whirlpools.Accounting.Earnings
import Whirlpools.Pools.Solvency

/-! # Conservation of fees

Every fee charged by a swap is owed to the protocol, or was credited to a position, or is pending
for one, up to what rounding loses: less than the liquidity in range of the growth for every charge,
and less than a token for every credit. This holds as long as the growth does not wrap and no credit
overflows.
-/

namespace Whirlpools

open Outcome Ledger

/-- What rounding the growth down can lose of the fee of an iteration. -/
def SwapIteration.rounding (entry : SwapIteration) : ℚ :=
  if 0 < entry.computation.feeAmount then entry.liquidity / 2 ^ 64 else 0

namespace Receipt

/-- The fees a receipt charges in a token. -/
def feesCharged (isTokenA : Bool) : Receipt → ℕ
  | .swap _ _ aToB iterations =>
      if aToB = isTokenA then (iterations.map fun entry => entry.computation.feeAmount).sum else 0
  | _ => 0

/-- The protocol fees of a token that a receipt pays out. -/
def protocolCollected (isTokenA : Bool) : Receipt → ℕ
  | .protocolFees pool => pool.protocolFeeOwed isTokenA
  | _ => 0

/-- What rounding can lose: of the fees charged in a token, and less than one of a credit. -/
def rounding (isTokenA : Bool) : Receipt → ℚ
  | .swap _ _ aToB iterations =>
      if aToB = isTokenA then (iterations.map SwapIteration.rounding).sum else 0
  | .credit .. => 1
  | _ => 0

/-- No growth wraps, and no credit overflows. -/
def Exact (isTokenA : Bool) : Receipt → Prop
  | .swap _ _ aToB iterations => aToB = isTokenA → ∀ entry ∈ iterations,
      entry.feeGrowthGlobal + entry.feeGrowthDelta < 2 ^ 128
  | .credit _ _ position update => position.liquidity *
      wrappingSub ((position.update update).growthCheckpoint (.fee isTokenA))
        (position.growthCheckpoint (.fee isTokenA)) < 2 ^ 128
  | _ => True

/-- A swap charges nothing where there is no liquidity. -/
def FreeOfEmpty : Receipt → Prop
  | .swap _ _ _ iterations =>
      ∀ entry ∈ iterations, entry.liquidity = 0 → entry.computation.feeAmount = 0
  | _ => True

end Receipt

/-- The positions with liquidity have earned at most the growth there ever was. -/
def Market.Unwrapped (market : Market) (channel : Channel) (positions : Records Pubkey Position) :
    Prop :=
  ∀ position, Holds positions position → 0 < position.liquidity →
    market.growthSince channel position ≤ market.growthGlobal channel

section Swap

variable {m : Machine} {context : SwapContext} {table last : TickTable}
  {state final : SwapState} {entries : List SwapIteration} {tickSpacing : ℕ}
  {positions : Records Pubkey Position}

/-- A growth that fits keeps the counters unwrapped. -/
theorem Market.Grows.unwrapped {market market' : Market} {channel : Channel} {growth : ℕ}
    (grows : market.Grows market' channel growth) (booked : Booked tickSpacing market positions)
    (grown : market'.growthGlobal channel = market.growthGlobal channel + growth)
    (unwrapped : market.Unwrapped channel positions) : market'.Unwrapped channel positions := by
  intro position held liquid
  have before := unwrapped position held liquid
  rw [grows.since booked held liquid, grown]
  refine (ZMod.val_add_le _ _).trans (Nat.add_le_add ?_ ?_)
  · rw [ZMod.val_natCast]
    exact (Nat.mod_le _ _).trans before
  · split_ifs
    · rw [ZMod.val_natCast]
      exact Nat.mod_le _ _
    · rw [ZMod.val_zero]
      exact Nat.zero_le _

/-- The global growth of the input token of a running swap. -/
theorem SwapState.growthGlobal_input (state : SwapState) (context : SwapContext)
    (table : TickTable) : (state.market context table).growthGlobal (.fee context.aToB) =
      state.currFeeGrowthGlobalInput := by
  unfold Market.growthGlobal SwapState.market crossingFeeGrowths
  cases context.aToB <;> rfl

/-- The protocol fees of a running swap are part of what it has taken. -/
def SwapState.ProtocolFits (amount : ℕ) (isIn : Bool) (state : SwapState) : Prop :=
  if isIn then state.currProtocolFee + state.amountRemaining ≤ amount
  else state.currProtocolFee ≤ state.amountCalculated

/-- The protocol's share of a fee is added without wrapping. -/
theorem Traverses.protocolFee_eq {table' : TickTable} {state' : SwapState} {entry : SwapIteration}
    (step : Traverses m context table state entry table' state')
    (rate : context.whirlpool.protocolFeeRate ≤ maxProtocolFeeRate) {amount : ℕ}
    (small : amount < 2 ^ 64) (fits : state.ProtocolFits amount context.amountSpecifiedIsInput) :
    state'.currProtocolFee = state.currProtocolFee + entry.protocolFee ∧
      state'.ProtocolFits amount context.amountSpecifiedIsInput := by
  have fees := step.charged rate
  have share := fees.share_le
  have amounts := accountAmounts_eq_ok step.amounts
  have bounded : state.currProtocolFee + entry.protocolFee < 2 ^ 64 := by
    unfold SwapState.ProtocolFits at fits
    cases isIn : context.amountSpecifiedIsInput <;>
      simp only [isIn, Bool.false_eq_true, ↓reduceIte] at fits amounts <;> omega
  have added := fees.protocolFee_eq
  rw [wrappingAdd_of_lt bounded] at added
  refine ⟨added, ?_⟩
  unfold SwapState.ProtocolFits at fits ⊢
  cases isIn : context.amountSpecifiedIsInput <;>
    simp only [isIn, Bool.false_eq_true, ↓reduceIte] at fits amounts ⊢ <;> omega

/-- The fee of an iteration is the protocol's share and the growth, up to rounding. -/
theorem Traverses.fee_split {table' : TickTable} {state' : SwapState} {entry : SwapIteration}
    (step : Traverses m context table state entry table' state')
    (rate : context.whirlpool.protocolFeeRate ≤ maxProtocolFeeRate) :
    (entry.protocolFee : ℚ) + state.currLiquidity * entry.feeGrowthDelta / 2 ^ 64 ≤
        entry.computation.feeAmount ∧
      (entry.computation.feeAmount : ℚ) ≤ entry.protocolFee +
        state.currLiquidity * entry.feeGrowthDelta / 2 ^ 64 + entry.rounding := by
  have fees := step.charged rate
  have share := fees.share_le
  have part : (entry.computation.feeAmount : ℚ) = entry.protocolFee +
      (entry.computation.feeAmount - entry.protocolFee : ℕ) := by
    rw [Nat.cast_sub share]
    ring
  have down := feeGrowthDelta_mul_le (entry.computation.feeAmount - entry.protocolFee)
    state.currLiquidity
  rw [← fees.delta_eq] at down
  have downCast : (state.currLiquidity * entry.feeGrowthDelta : ℚ) / 2 ^ 64 ≤
      (entry.computation.feeAmount - entry.protocolFee : ℕ) := by
    rw [div_le_iff₀ (by norm_num)]
    exact_mod_cast down
  refine ⟨by linarith, ?_⟩
  unfold SwapIteration.rounding
  rw [step.liquidity]
  split_ifs with charged
  · have liquid : 0 < state.currLiquidity := by
      by_contra zero
      have free := (step.free_of_empty (Nat.eq_zero_of_not_pos zero)).2.2
      omega
    have up := @lt_feeGrowthDelta_mul (entry.computation.feeAmount - entry.protocolFee) _ liquid
    rw [← fees.delta_eq] at up
    have upCast : ((entry.computation.feeAmount - entry.protocolFee : ℕ) : ℚ) ≤
        (state.currLiquidity * entry.feeGrowthDelta + state.currLiquidity : ℚ) / 2 ^ 64 := by
      rw [le_div_iff₀ (by norm_num)]
      exact_mod_cast up.le
    rw [add_div] at upCast
    linarith
  · have zero : (entry.computation.feeAmount : ℚ) = 0 := by
      rw [Nat.eq_zero_of_not_pos charged, Nat.cast_zero]
    have protocol : (0 : ℚ) ≤ entry.protocolFee := Nat.cast_nonneg _
    have growth : (0 : ℚ) ≤ state.currLiquidity * entry.feeGrowthDelta / 2 ^ 64 := by positivity
    linarith

/-- An iteration turns its fee into protocol fees and pending credits, up to rounding. -/
theorem Traverses.fees_accounted {table' : TickTable} {state' : SwapState} {entry : SwapIteration}
    (step : Traverses m context table state entry table' state')
    (rate : context.whirlpool.protocolFeeRate ≤ maxProtocolFeeRate)
    (booked : Booked tickSpacing (state.market context table) positions) {amount : ℕ}
    (small : amount < 2 ^ 64) (fits : state.ProtocolFits amount context.amountSpecifiedIsInput)
    (unwrapped : (state.market context table).Unwrapped (.fee context.aToB) positions)
    (exact : entry.feeGrowthGlobal + entry.feeGrowthDelta < 2 ^ 128) :
    (state'.market context table').Unwrapped (.fee context.aToB) positions ∧
      (state'.currProtocolFee : ℚ) +
          (state'.market context table').totalPending (.fee context.aToB) positions ≤
        state.currProtocolFee +
          (state.market context table).totalPending (.fee context.aToB) positions +
          entry.computation.feeAmount ∧
      (state.currProtocolFee : ℚ) +
          (state.market context table).totalPending (.fee context.aToB) positions +
          entry.computation.feeAmount ≤
        state'.currProtocolFee +
          (state'.market context table').totalPending (.fee context.aToB) positions +
          entry.rounding := by
  have growth : entry.growth context.aToB (.fee context.aToB) = entry.feeGrowthDelta := if_pos rfl
  have grows := step.grows booked.idle (.fee context.aToB)
  rw [growth] at grows
  rw [step.growth] at exact
  have grown : (state'.market context table').growthGlobal (.fee context.aToB) =
      (state.market context table).growthGlobal (.fee context.aToB) + entry.feeGrowthDelta := by
    rw [state'.growthGlobal_input, state.growthGlobal_input, (step.charged rate).growth_eq,
      wrappingAdd_of_lt exact]
  have pending := grows.totalPending_eq booked fun position held liquid => by
    have since := unwrapped position held liquid
    rw [state.growthGlobal_input] at since
    omega
  change _ = _ + (state.currLiquidity * entry.feeGrowthDelta : ℚ) / 2 ^ 64 at pending
  obtain ⟨atMost, atLeast⟩ := step.fee_split rate
  rw [(step.protocolFee_eq rate small fits).1, pending, Nat.cast_add]
  exact ⟨grows.unwrapped booked grown unwrapped, by linarith, by linarith⟩

/-- A swap turns its fees into protocol fees and pending credits, up to rounding. -/
theorem Traversal.fees_accounted
    (traversal : Traversal m context table state entries last final)
    (rate : context.whirlpool.protocolFeeRate ≤ maxProtocolFeeRate)
    (bounded : totalLiquidity positions < 2 ^ 127)
    (booked : Booked tickSpacing (state.market context table) positions) {amount : ℕ}
    (small : amount < 2 ^ 64) (fits : state.ProtocolFits amount context.amountSpecifiedIsInput)
    (unwrapped : (state.market context table).Unwrapped (.fee context.aToB) positions)
    (exact : ∀ entry ∈ entries, entry.feeGrowthGlobal + entry.feeGrowthDelta < 2 ^ 128) :
    (final.market context last).Unwrapped (.fee context.aToB) positions ∧
      final.ProtocolFits amount context.amountSpecifiedIsInput ∧
      (final.currProtocolFee : ℚ) +
          (final.market context last).totalPending (.fee context.aToB) positions ≤
        state.currProtocolFee +
          (state.market context table).totalPending (.fee context.aToB) positions +
          ((entries.map fun entry => entry.computation.feeAmount).sum : ℕ) ∧
      (state.currProtocolFee : ℚ) +
          (state.market context table).totalPending (.fee context.aToB) positions +
          ((entries.map fun entry => entry.computation.feeAmount).sum : ℕ) ≤
        final.currProtocolFee +
          (final.market context last).totalPending (.fee context.aToB) positions +
          (entries.map SwapIteration.rounding).sum := by
  induction traversal with
  | done =>
      simp only [List.map_nil, List.sum_nil, Nat.cast_zero, add_zero]
      exact ⟨unwrapped, fits, le_rfl, le_rfl⟩
  | step _ traverses _ _ ih =>
      obtain ⟨first, others⟩ := List.forall_mem_cons.mp exact
      obtain ⟨unwrapped', atMost, atLeast⟩ := traverses.fees_accounted rate booked small fits
        unwrapped first
      obtain ⟨unwrapped'', fits'', atMost', atLeast'⟩ := ih (traverses.booked booked bounded)
        (traverses.protocolFee_eq rate small fits).2 unwrapped' others
      simp only [List.map_cons, List.sum_cons, Nat.cast_add]
      exact ⟨unwrapped'', fits'', by linarith, by linarith⟩

/-- The token a swap pays out earns nothing. -/
theorem Traversal.unwrapped_of_ne
    (traversal : Traversal m context table state entries last final)
    (bounded : totalLiquidity positions < 2 ^ 127)
    (booked : Booked tickSpacing (state.market context table) positions) {isTokenA : Bool}
    (other : isTokenA ≠ context.aToB)
    (unwrapped : (state.market context table).Unwrapped (.fee isTokenA) positions) :
    (final.market context last).Unwrapped (.fee isTokenA) positions := by
  induction traversal with
  | done => exact unwrapped
  | @step table table' _ state state' _ entry _ _ traverses _ _ ih =>
      have zero : entry.growth context.aToB (.fee isTokenA) = 0 :=
        if_neg (by simpa only [Channel.fee.injEq] using other)
      have grows := traverses.grows booked.idle (.fee isTokenA)
      rw [zero] at grows
      refine ih (traverses.booked booked bounded) (grows.unwrapped booked ?_ unwrapped)
      unfold Market.growthGlobal SwapState.market crossingFeeGrowths
      cases isTokenA <;> cases aToB : context.aToB <;>
        simp only [aToB, ne_eq, not_true_eq_false, Bool.false_eq_true, ↓reduceIte]
          at other ⊢ <;> rfl

/-- No iteration of a swap charges a fee without liquidity. -/
theorem Traversal.free_of_empty (traversal : Traversal m context table state entries last final) :
    ∀ entry ∈ entries, entry.liquidity = 0 → entry.computation.feeAmount = 0 := by
  induction traversal with
  | done => exact fun _ member => absurd member List.not_mem_nil
  | step _ traverses _ _ ih =>
      refine List.forall_mem_cons.mpr ⟨fun empty => ?_, ih⟩
      exact (traverses.free_of_empty (traverses.liquidity ▸ empty)).2.2

end Swap

namespace Market.Unwrapped

variable {market market' : Market} {channel : Channel} {positions : Records Pubkey Position}
  {positionMint : Pubkey} {position : Position}

/-- One position changes, and the others see the growth they saw before. -/
theorem insert (unwrapped : market.Unwrapped channel positions)
    (global : market'.growthGlobal channel = market.growthGlobal channel)
    (own : 0 < position.liquidity →
      market'.growthSince channel position ≤ market'.growthGlobal channel)
    (others : ∀ other value, other ≠ positionMint → positions.lookup other = some value →
      0 < value.liquidity → market'.growthSince channel value = market.growthSince channel value) :
    market'.Unwrapped channel (positions.insert positionMint position) := by
  intro value held liquid
  obtain rfl | ⟨other, distinct, found⟩ := held.of_insert
  · exact own liquid
  · rw [others other value distinct found liquid, global]
    exact unwrapped value ⟨other, found⟩ liquid

/-- Rewards have no part in the growth of fees. -/
theorem accrue {isTokenA : Bool} (unwrapped : market.Unwrapped (.fee isTokenA) positions)
    (infos : Fin numRewards → WhirlpoolRewardInfo) :
    (market.accrue infos).Unwrapped (.fee isTokenA) positions := by
  cases isTokenA <;> exact unwrapped

end Market.Unwrapped

namespace Pool

variable {m : Machine} {pool pool' : Pool} {receipt : Receipt} {isTokenA : Bool}

/-- The fees of a token that are owed to the protocol or pending for the positions. -/
def feesOutstanding (pool : Pool) (isTokenA : Bool) : ℚ :=
  pool.protocolFeeOwed isTokenA + pool.market.totalPending (.fee isTokenA) pool.positions

/-- What a receipt charges goes to the protocol and the positions, up to what rounding loses. -/
structure Conserves (pool : Pool) (receipt : Receipt) (pool' : Pool) (isTokenA : Bool) : Prop where
  atMost : pool'.feesOutstanding isTokenA + receipt.protocolCollected isTokenA +
    receipt.credited (.fee isTokenA) ≤
      pool.feesOutstanding isTokenA + receipt.feesCharged isTokenA
  atLeast : pool.feesOutstanding isTokenA + receipt.feesCharged isTokenA ≤
    pool'.feesOutstanding isTokenA + receipt.protocolCollected isTokenA +
      receipt.credited (.fee isTokenA) + receipt.rounding isTokenA

/-- Nothing moves, and nothing is outstanding that was not. -/
private theorem Conserves.of_same
    (same : pool'.feesOutstanding isTokenA = pool.feesOutstanding isTokenA)
    (charged : receipt.feesCharged isTokenA = 0)
    (collected : receipt.protocolCollected isTokenA = 0)
    (credited : receipt.credited (.fee isTokenA) = 0) (rounding : receipt.rounding isTokenA = 0) :
    pool.Conserves receipt pool' isTokenA := by
  constructor <;> rw [same, charged, collected, credited] <;> simp only [Nat.cast_zero, add_zero,
    rounding, le_refl]

/-- Rewards have no part in the pending fees. -/
theorem totalPending_fee_accrue (market : Market) (infos : Fin numRewards → WhirlpoolRewardInfo)
    (isTokenA : Bool) (positions : Records Pubkey Position) :
    (market.accrue infos).totalPending (.fee isTokenA) positions =
      market.totalPending (.fee isTokenA) positions := by
  cases isTokenA <;> rfl

/-- A position is credited what was pending for it, rounded down. -/
private theorem credits_conserves {timestamp : ℕ} {positionMint : Pubkey} {position : Position}
    {liquidityDelta : ℤ} {update : ModifyLiquidityUpdate} (consistent : pool.Consistent)
    (found : pool.positions.lookup positionMint = some position)
    (accrued : nextWhirlpoolRewardInfos pool.whirlpool timestamp = .ok update.rewardInfos)
    (modifies : Modifies m (pool.market.accrue update.rewardInfos) position liquidityDelta update)
    (market_eq : pool'.market = (pool.market.accrue update.rewardInfos).modify position update)
    (positions_eq : pool'.positions =
      pool.positions.insert positionMint (position.update update.positionUpdate))
    (owed_eq : pool'.protocolFeeOwed = pool.protocolFeeOwed)
    (unwrapped : pool.market.Unwrapped (.fee isTokenA) pool.positions)
    (exact : (Receipt.credit pool timestamp position update.positionUpdate).Exact isTokenA) :
    pool'.market.Unwrapped (.fee isTokenA) pool'.positions ∧
      pool.Conserves (.credit pool timestamp position update.positionUpdate) pool' isTokenA := by
  have booked := consistent.booked.accrue accrued
  have booked' := modifies.booked booked found
  have moved := modifies.totalPending_eq booked found (.fee isTokenA)
  have credited := modifies.credited_eq pool timestamp (.fee isTokenA)
  have down := (pool.market.accrue update.rewardInfos).credit_le_pending (.fee isTokenA) position
  have up := (pool.market.accrue update.rewardInfos).pending_lt_credit_add_one (.fee isTokenA)
    position (by
      change position.liquidity * wrappingSub _ _ < 2 ^ 128 at exact
      rw [wrappingSub_eq_val, modifies.checkpoint] at exact
      exact exact)
  have inside (other : Pubkey) (value : Position) (present : (pool.positions.insert positionMint
      (position.update update.positionUpdate)).lookup other = some value)
      (liquid : 0 < value.liquidity) :
      ((pool.market.accrue update.rewardInfos).modify position update).growthInside (.fee isTokenA)
          value.tickLowerIndex value.tickUpperIndex =
        (pool.market.accrue update.rewardInfos).growthInside (.fee isTokenA) value.tickLowerIndex
          value.tickUpperIndex := by
    obtain ⟨lowerFull, upperFull⟩ := booked'.bounds_initialized ⟨other, present⟩ liquid
    exact modifies.growthInside_eq booked (.fee isTokenA) lowerFull upperFull
  have same := totalPending_fee_accrue pool.market update.rewardInfos isTokenA pool.positions
  refine ⟨?_, ?_, ?_⟩
  · rw [market_eq, positions_eq]
    refine (unwrapped.accrue update.rewardInfos).insert ?_ (fun liquid => ?_)
      fun other value distinct present liquid => ?_
    · cases isTokenA <;> rfl
    · rw [modifies.growthSince_eq_zero (.fee isTokenA)
        (inside positionMint (position.update update.positionUpdate)
          (AList.lookup_insert _) liquid)]
      exact Nat.zero_le _
    · unfold Market.growthSince
      rw [inside other value ((AList.lookup_insert_ne distinct).trans present) liquid]
  · rw [credited]
    unfold feesOutstanding
    rw [owed_eq, market_eq, positions_eq]
    change _ + ((0 : ℕ) : ℚ) + _ ≤ _ + ((0 : ℕ) : ℚ)
    rw [Nat.cast_zero]
    linarith
  · rw [credited]
    unfold feesOutstanding
    rw [owed_eq, market_eq, positions_eq]
    change _ + ((0 : ℕ) : ℚ) ≤ _ + ((0 : ℕ) : ℚ) + _ + 1
    rw [Nat.cast_zero]
    linarith

/-- A swap adds the protocol's share of its fees to what the protocol is owed. -/
private theorem swaps_conserves {timestamp amount : ℕ} {context : SwapContext}
    {sequence : SwapTickSequence} {outcome : SwapOutcome} {last : TickTable} {final : SwapState}
    (consistent : pool.Consistent) (consistent' : pool'.Consistent)
    (whirlpool_eq : context.whirlpool = pool.whirlpool)
    (accrued : nextWhirlpoolRewardInfos pool.whirlpool timestamp = .ok context.nextRewardInfos)
    (traded : Traded m context pool.tickAt sequence amount outcome last final)
    (market_eq : pool'.market = final.market context last)
    (positions_eq : pool'.positions = pool.positions)
    (owed_eq : if isTokenA = context.aToB then
        m.plainAdd 64 (pool.protocolFeeOwed isTokenA) final.currProtocolFee =
          .ok (pool'.protocolFeeOwed isTokenA)
      else pool'.protocolFeeOwed isTokenA = pool.protocolFeeOwed isTokenA)
    (vault_eq : if isTokenA = context.aToB then
        pool'.vault isTokenA = pool.vault isTokenA + outcome.update.amount isTokenA
      else pool.vault isTokenA = pool'.vault isTokenA + outcome.update.amount isTokenA)
    (unwrapped : pool.market.Unwrapped (.fee isTokenA) pool.positions)
    (exact : (Receipt.swap pool timestamp context.aToB outcome.iterations).Exact isTokenA) :
    pool'.market.Unwrapped (.fee isTokenA) pool'.positions ∧
      pool.Conserves (.swap pool timestamp context.aToB outcome.iterations) pool' isTokenA := by
  have start := Effect.initial_market sequence amount whirlpool_eq
  have booked := start ▸ consistent.booked.accrue accrued
  have same := totalPending_fee_accrue pool.market context.nextRewardInfos isTokenA pool.positions
  rw [market_eq, positions_eq]
  by_cases side : isTokenA = context.aToB
  · subst side
    rw [if_pos rfl] at owed_eq vault_eq
    have small : amount < 2 ^ 64 := traded.starts.remaining
    have nothing : (context.initialState sequence amount).currProtocolFee = 0 := rfl
    obtain ⟨unwrapped', fits, atMost, atLeast⟩ := traded.traversal.fees_accounted
      (whirlpool_eq ▸ consistent.rate) consistent.bounded booked small (by
        unfold SwapState.ProtocolFits
        split_ifs
        · exact (Nat.zero_add _).le
        · exact Nat.zero_le _) (start ▸ unwrapped.accrue context.nextRewardInfos) (exact rfl)
    obtain ⟨taken, -⟩ := postSwapUpdate_amounts sequence amount traded.traversal.remaining_le
      traded.update
    have share : final.currProtocolFee ≤ outcome.update.amount context.aToB := by
      unfold SwapState.taken SwapContext.initialState at taken
      unfold SwapState.ProtocolFits at fits
      cases isIn : context.amountSpecifiedIsInput <;>
        simp only [isIn, Bool.false_eq_true, ↓reduceIte, Nat.cast_zero] at taken fits
      · have bound : (final.currProtocolFee : ℚ) ≤ final.amountCalculated := by exact_mod_cast fits
        exact_mod_cast (by linarith : (final.currProtocolFee : ℚ) ≤ outcome.update.amount _)
      · have bound : (final.currProtocolFee : ℚ) + final.amountRemaining ≤ amount := by
          exact_mod_cast fits
        exact_mod_cast (by linarith : (final.currProtocolFee : ℚ) ≤ outcome.update.amount _)
    have owed := consistent.owed_le context.aToB
    have room := consistent'.fits context.aToB
    rw [m.plainAdd_of_lt (by omega)] at owed_eq
    have added : (pool'.protocolFeeOwed context.aToB : ℚ) =
        pool.protocolFeeOwed context.aToB + final.currProtocolFee := by
      rw [← Except.ok.inj owed_eq, Nat.cast_add]
    rw [start, same, nothing, Nat.cast_zero, zero_add] at atMost atLeast
    refine ⟨unwrapped', ?_, ?_⟩
    · unfold feesOutstanding
      rw [market_eq, positions_eq, added]
      simp only [Receipt.protocolCollected, Receipt.credited, Receipt.feesCharged, ↓reduceIte,
        Nat.cast_zero, add_zero]
      linarith
    · unfold feesOutstanding
      rw [market_eq, positions_eq, added]
      simp only [Receipt.protocolCollected, Receipt.credited, Receipt.feesCharged,
        Receipt.rounding, ↓reduceIte, Nat.cast_zero, add_zero]
      linarith
  · rw [if_neg side] at owed_eq
    have other : Channel.fee isTokenA ≠ .fee context.aToB := by
      simpa only [ne_eq, Channel.fee.injEq] using side
    have reverse : ¬context.aToB = isTokenA := fun turned => side turned.symm
    have pending := traded.traversal.totalPending_of_ne consistent.bounded booked other
    rw [start, same] at pending
    refine ⟨traded.traversal.unwrapped_of_ne consistent.bounded booked side
      (start ▸ unwrapped.accrue context.nextRewardInfos), .of_same ?_ ?_ rfl rfl ?_⟩
    · unfold feesOutstanding
      rw [owed_eq, market_eq, positions_eq, pending]
    · exact if_neg reverse
    · exact if_neg reverse

/-- Every instruction conserves the fees of a token, as long as nothing wraps. -/
theorem Effect.conserves (effect : pool.Effect m receipt pool') (consistent : pool.Consistent)
    (consistent' : pool'.Consistent)
    (unwrapped : pool.market.Unwrapped (.fee isTokenA) pool.positions)
    (exact : receipt.Exact isTokenA) :
    pool'.market.Unwrapped (.fee isTokenA) pool'.positions ∧
      pool.Conserves receipt pool' isTokenA := by
  have quiet {receipt : Receipt} (receipt_eq : receipt = .quiet)
      (same : pool'.feesOutstanding isTokenA = pool.feesOutstanding isTokenA) :
      pool.Conserves receipt pool' isTokenA := by
    rw [receipt_eq]
    exact .of_same same rfl rfl rfl rfl
  cases effect with
  | still receipt_eq market_eq positions_eq owed_eq =>
      refine ⟨market_eq ▸ positions_eq ▸ unwrapped, quiet receipt_eq ?_⟩
      unfold feesOutstanding
      rw [market_eq, positions_eq, owed_eq]
  | @setsUp infos receipt_eq _ _ market_eq positions_eq owed_eq =>
      refine ⟨market_eq ▸ positions_eq ▸ unwrapped.accrue infos, quiet receipt_eq ?_⟩
      unfold feesOutstanding
      rw [market_eq, positions_eq, owed_eq, totalPending_fee_accrue]
  | @emits timestamp infos infos' receipt_eq _ _ _ market_eq positions_eq owed_eq =>
      refine ⟨market_eq ▸ positions_eq ▸ unwrapped.accrue infos', ?_⟩
      rw [receipt_eq]
      refine .of_same ?_ rfl rfl rfl rfl
      unfold feesOutstanding
      rw [market_eq, positions_eq, owed_eq, totalPending_fee_accrue]
  | @opens positionMint position receipt_eq fresh _ empty _ market_eq positions_eq owed_eq =>
      refine ⟨?_, quiet receipt_eq ?_⟩
      · rw [market_eq, positions_eq]
        exact unwrapped.insert rfl (fun liquid => absurd liquid (by omega)) fun _ _ _ _ _ => rfl
      · unfold feesOutstanding
        rw [market_eq, positions_eq, owed_eq, Market.totalPending_opens fresh empty]
  | closes receipt_eq found empty _ market_eq positions_eq owed_eq =>
      refine ⟨?_, quiet receipt_eq ?_⟩
      · rw [market_eq, positions_eq]
        exact fun position held liquid => unwrapped position held.of_erase liquid
      · unfold feesOutstanding
        rw [market_eq, positions_eq, owed_eq, Market.totalPending_closes found empty]
  | @pays positionMint position position' receipt_eq found liquidity_eq range_eq checkpoint_eq _
      market_eq positions_eq owed_eq =>
      refine ⟨?_, quiet receipt_eq ?_⟩
      · rw [market_eq, positions_eq]
        refine unwrapped.insert rfl (fun liquid => ?_) fun _ _ _ _ _ => rfl
        have before := unwrapped position ⟨positionMint, found⟩ (liquidity_eq ▸ liquid)
        unfold Market.growthSince at before ⊢
        rwa [range_eq.1, range_eq.2, checkpoint_eq]
      · unfold feesOutstanding
        rw [market_eq, positions_eq, owed_eq,
          Market.totalPending_pays found liquidity_eq range_eq checkpoint_eq]
  | paysProtocol receipt_eq market_eq positions_eq owed_eq =>
      refine ⟨market_eq ▸ positions_eq ▸ unwrapped, ?_⟩
      rw [receipt_eq]
      constructor <;> unfold feesOutstanding <;> rw [market_eq, positions_eq, owed_eq] <;>
        simp only [Receipt.protocolCollected, Receipt.credited, Receipt.feesCharged,
          Receipt.rounding, Nat.cast_zero, add_zero, zero_add] <;> linarith
  | credits receipt_eq found accrued modifies _ market_eq positions_eq owed_eq =>
      subst receipt_eq
      exact credits_conserves consistent found accrued modifies market_eq positions_eq owed_eq
        unwrapped exact
  | swaps receipt_eq whirlpool_eq accrued traded market_eq positions_eq owed_eq vault_eq =>
      subst receipt_eq
      exact swaps_conserves consistent consistent' whirlpool_eq accrued traded market_eq
        positions_eq (owed_eq isTokenA) (vault_eq isTokenA) unwrapped exact

/-- No swap charges a fee without liquidity. -/
theorem Effect.freeOfEmpty (effect : pool.Effect m receipt pool') : receipt.FreeOfEmpty := by
  cases effect with
  | swaps receipt_eq _ _ traded =>
      subst receipt_eq
      exact traded.traversal.free_of_empty
  | still receipt_eq => exact receipt_eq ▸ trivial
  | setsUp receipt_eq => exact receipt_eq ▸ trivial
  | emits receipt_eq => exact receipt_eq ▸ trivial
  | opens receipt_eq => exact receipt_eq ▸ trivial
  | closes receipt_eq => exact receipt_eq ▸ trivial
  | pays receipt_eq => exact receipt_eq ▸ trivial
  | paysProtocol receipt_eq => exact receipt_eq ▸ trivial
  | credits receipt_eq => exact receipt_eq ▸ trivial

end Pool

/-- In every run in which no growth wraps and no credit overflows, the fees charged are those owed
to the protocol, those it collected, those credited to positions and those pending for them, and
what rounding lost; and nothing is ever charged without liquidity. -/
theorem fees_conserved {m : Machine} {instructions : List Instruction} {pool : Pool}
    (reached : (run (execute m) none instructions).1 = some pool) (isTokenA : Bool)
    (exact : ∀ receipt ∈ (run (execute m) none instructions).2, receipt.Exact isTokenA) :
    (∃ dust : ℚ, 0 ≤ dust ∧
      dust ≤ ((run (execute m) none instructions).2.map (Receipt.rounding isTokenA)).sum ∧
      (((run (execute m) none instructions).2.map (Receipt.feesCharged isTokenA)).sum : ℚ) =
        pool.protocolFeeOwed isTokenA +
          ((run (execute m) none instructions).2.map (Receipt.protocolCollected isTokenA)).sum +
          ((run (execute m) none instructions).2.map (Receipt.credited (.fee isTokenA))).sum +
          total (pool.pendingFee isTokenA) pool.positions + dust) ∧
    ∀ receipt ∈ (run (execute m) none instructions).2, receipt.FreeOfEmpty := by
  have invariant := Pool.run_invariant (m := m)
    (fun pool receipts => (∀ receipt ∈ receipts, receipt.FreeOfEmpty) ∧
      ((∀ receipt ∈ receipts, receipt.Exact isTokenA) →
        pool.market.Unwrapped (.fee isTokenA) pool.positions ∧
        pool.feesOutstanding isTokenA +
            ((receipts.map (Receipt.protocolCollected isTokenA)).sum : ℕ) +
            ((receipts.map (Receipt.credited (.fee isTokenA))).sum : ℕ) ≤
          ((receipts.map (Receipt.feesCharged isTokenA)).sum : ℕ) ∧
        (((receipts.map (Receipt.feesCharged isTokenA)).sum : ℕ) : ℚ) ≤
          pool.feesOutstanding isTokenA +
            ((receipts.map (Receipt.protocolCollected isTokenA)).sum : ℕ) +
            ((receipts.map (Receipt.credited (.fee isTokenA))).sum : ℕ) +
            (receipts.map (Receipt.rounding isTokenA)).sum))
    (fun pool empty nothing _ => ?_)
    (fun pool pool' receipts receipt consistent consistent' before effect => ?_) reached
  · obtain ⟨-, free, conserved⟩ := invariant
    obtain ⟨-, atMost, atLeast⟩ := conserved exact
    rw [total_congr fun position _ => pool.pendingFee_eq isTokenA position]
    unfold Pool.feesOutstanding Market.totalPending at atMost atLeast
    exact ⟨⟨_, sub_nonneg.mpr atMost, by linarith, by ring⟩, free⟩
  · have outstanding : pool.feesOutstanding isTokenA = 0 := by
      unfold Pool.feesOutstanding
      rw [nothing, empty, Nat.cast_zero]
      exact add_zero 0
    refine ⟨fun receipt member => List.mem_singleton.mp member ▸ trivial, fun _ => ⟨?_, ?_, ?_⟩⟩
    · rintro position ⟨key, found⟩
      rw [empty, AList.lookup_empty] at found
      simp only [reduceCtorEq] at found
    · rw [outstanding]
      refine le_of_eq ?_
      norm_num [Receipt.credited, Receipt.protocolCollected, Receipt.feesCharged]
    · rw [outstanding]
      exact le_of_eq (by norm_num [Receipt.credited, Receipt.protocolCollected, Receipt.feesCharged,
        Receipt.rounding])
  · refine ⟨fun other member => ?_, fun exact => ?_⟩
    · rcases List.mem_append.mp member with earlier | last
      · exact before.1 other earlier
      · exact List.mem_singleton.mp last ▸ effect.freeOfEmpty
    · obtain ⟨unwrapped, atMost, atLeast⟩ := before.2 fun other member =>
        exact other (List.mem_append_left _ member)
      obtain ⟨unwrapped', step⟩ := effect.conserves consistent consistent' unwrapped
        (exact receipt (List.mem_append_right _ (List.mem_singleton_self _)))
      have stepMost := step.atMost
      have stepLeast := step.atLeast
      simp only [List.map_append, List.sum_append, List.map_cons, List.map_nil, List.sum_cons,
        List.sum_nil, add_zero, Nat.cast_add]
      exact ⟨unwrapped', by linarith, by linarith⟩

instance (isTokenA : Bool) (receipt : Receipt) : Decidable (receipt.Exact isTokenA) :=
  match receipt with
  | .swap _ _ aToB iterations => inferInstanceAs (Decidable (aToB = isTokenA →
      ∀ entry ∈ iterations, entry.feeGrowthGlobal + entry.feeGrowthDelta < 2 ^ 128))
  | .credit _ _ position update => inferInstanceAs (Decidable (position.liquidity *
      wrappingSub ((position.update update).growthCheckpoint (.fee isTokenA))
        (position.growthCheckpoint (.fee isTokenA)) < 2 ^ 128))
  | .quiet => .isTrue trivial
  | .emissions .. => .isTrue trivial
  | .protocolFees .. => .isTrue trivial

/-- The sample run, and then the fees are collected. -/
def feeRun : List Instruction := sampleRun ++ [
  .collectProtocolFees,
  .updateFeesAndRewards 7 (-5632) 0 50,
  .collectFees 7]

/-- All fees of token A that were charged are accounted for, also when they are paid out. -/
theorem fees_conserved_feeRun : ∃ pool,
    (run (execute (.exact false)) none feeRun).1 = some pool ∧
    0 < ((run (execute (.exact false)) none feeRun).2.map
      (Receipt.protocolCollected true)).sum ∧
    0 < ((run (execute (.exact false)) none feeRun).2.map (Receipt.credited (.fee true))).sum ∧
    ∃ dust : ℚ, 0 ≤ dust ∧
      dust ≤ ((run (execute (.exact false)) none feeRun).2.map (Receipt.rounding true)).sum ∧
      (((run (execute (.exact false)) none feeRun).2.map (Receipt.feesCharged true)).sum : ℚ) =
        pool.protocolFeeOwed true +
          ((run (execute (.exact false)) none feeRun).2.map (Receipt.protocolCollected true)).sum +
          ((run (execute (.exact false)) none feeRun).2.map (Receipt.credited (.fee true))).sum +
          total (pool.pendingFee true) pool.positions + dust := by
  have ran : (run (execute (.exact false)) none feeRun).1.any (fun _ =>
      decide (0 < ((run (execute (.exact false)) none feeRun).2.map
          (Receipt.protocolCollected true)).sum ∧
        0 < ((run (execute (.exact false)) none feeRun).2.map (Receipt.credited (.fee true))).sum ∧
        ∀ receipt ∈ (run (execute (.exact false)) none feeRun).2, receipt.Exact true)) = true := by
    decide +kernel
  obtain ⟨pool, reached, checked⟩ := (Option.any_eq_true _ _).mp ran
  obtain ⟨collected, credited, exact⟩ := of_decide_eq_true checked
  exact ⟨pool, reached, collected, credited, (fees_conserved reached true exact).1⟩

end Whirlpools
