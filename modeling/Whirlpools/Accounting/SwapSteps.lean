import Whirlpools.Accounting.Holdings
import Whirlpools.Accounting.Pending

/-! # What one iteration of a swap accounts for

An iteration keeps the books of the positions, grows the fees of the input token at
the current tick only, and moves the price in a segment of constant liquidity. Its
fee is shared between the protocol and the liquidity in range.
-/

namespace Whirlpools

open Outcome Ledger

/-- The growth an iteration makes in a channel. -/
def SwapIteration.growth (entry : SwapIteration) (aToB : Bool) (channel : Channel) : ℕ :=
  if channel = .fee aToB then entry.feeGrowthDelta else 0

section Fees

variable {m : Machine} {feeAmount protocolFeeRate liquidity protocolFee growth protocolFee' growth'
  share delta : ℕ}

/-- The growth shared among the liquidity never exceeds the fee. -/
theorem feeGrowthDelta_mul_le (globalFee liquidity : ℕ) :
    liquidity * feeGrowthDelta globalFee liquidity ≤ globalFee * 2 ^ 64 := by
  unfold feeGrowthDelta
  split_ifs
  · exact Nat.mul_div_le _ _
  · exact Nat.zero_le _

/-- What rounding the growth down loses is less than the liquidity. -/
theorem lt_feeGrowthDelta_mul {globalFee liquidity : ℕ} (liquid : 0 < liquidity) :
    globalFee * 2 ^ 64 < liquidity * feeGrowthDelta globalFee liquidity + liquidity := by
  unfold feeGrowthDelta
  rw [if_pos liquid, Nat.mul_comm liquidity]
  exact Nat.lt_div_mul_add liquid

/-- What is charged for an iteration. -/
structure FeesCharged
    (feeAmount liquidity protocolFee growth protocolFee' growth' share delta : ℕ) :
    Prop where
  share_le : share ≤ feeAmount
  delta_eq : delta = feeGrowthDelta (feeAmount - share) liquidity
  protocolFee_eq : protocolFee' = wrappingAdd 64 protocolFee share
  growth_eq : growth' = wrappingAdd 128 growth delta

/-- What the program charges: a share for the protocol, and the rest as growth. -/
theorem calculateFees_eq_ok (rate : protocolFeeRate ≤ maxProtocolFeeRate)
    (returned : calculateFees m feeAmount protocolFeeRate liquidity protocolFee growth =
      .ok (protocolFee', growth', share, delta)) :
    FeesCharged feeAmount liquidity protocolFee growth protocolFee' growth' share delta := by
  simp only [calculateFees, bind_eq_ok, Except.ok.injEq, Prod.mk.injEq] at returned
  obtain ⟨⟨share', globalFee⟩, split, rfl, rfl, rfl, rfl⟩ := returned
  dsimp only
  have spec : share' ≤ feeAmount ∧ globalFee = feeAmount - share' := by
    unfold splitFee at split
    by_cases positive : protocolFeeRate > 0
    · rw [if_pos positive] at split
      simp only [calculateProtocolFee, bind_eq_ok, Except.ok.injEq, Prod.mk.injEq] at split
      obtain ⟨computed, fits, remaining, subtracted, rfl, rfl⟩ := split
      split_ifs at fits
      have small : computed ≤ feeAmount := by
        rw [← Except.ok.inj fits]
        unfold maxProtocolFeeRate at rate
        unfold protocolFeeRateMulValue
        refine Nat.div_le_of_le_mul ?_
        rw [Nat.mul_comm]
        exact Nat.mul_le_mul_right _ (by omega)
      rw [m.plainSub_of_le small] at subtracted
      exact ⟨small, (Except.ok.inj subtracted).symm⟩
    · rw [if_neg positive] at split
      simp only [Except.ok.injEq, Prod.mk.injEq] at split
      omega
  exact ⟨spec.1, by rw [spec.2], rfl, rfl⟩

end Fees

namespace Traverses

variable {m : Machine} {context : SwapContext} {table table' : TickTable}
  {state state' : SwapState} {entry : SwapIteration} {tickSpacing : ℕ}
  {positions : Records Pubkey Position}

section Books

/-- All of the segment of an iteration has the liquidity it starts with. -/
theorem activeAt_segment (step : Traverses m context table state entry table' state')
    (booked : Booked tickSpacing (state.market context table) positions) (tick : ℤ)
    (after : entry.lower context.aToB ≤ tick) (before : tick ≤ entry.upper context.aToB) :
    activeAt positions tick = state.currLiquidity := by
  have bounds := step.inside
  rw [step.tick] at bounds
  have here := booked.activeAt_of_clear bounds.1 (step.clear.mono le_rfl bounds.2)
  have there := booked.activeAt_of_clear after (step.clear.mono le_rfl before)
  rw [there, ← here]
  exact booked.liquidity.symm

/-- Beyond the next tick the liquidity has changed by its net liquidity. -/
theorem activeAt_beyond (step : Traverses m context table state entry table' state')
    (booked : Booked tickSpacing (state.market context table) positions) :
    (activeAt positions (entry.beyond context.aToB) : ℤ) = state.currLiquidity +
      crossingSign context.aToB * (table entry.nextTickIndex).liquidityNet := by
  have passing := booked.activeAt_sub entry.nextTickIndex
  change _ = _ + (table entry.nextTickIndex).liquidityNet at passing
  have bounds := step.inside
  have segment := step.activeAt_segment booked entry.nextTickIndex
  have before := step.activeAt_segment booked (entry.nextTickIndex - 1)
  unfold crossingSign SwapIteration.beyond
  cases aToB : context.aToB <;>
    simp only [aToB, SwapIteration.lower, SwapIteration.upper, Bool.false_eq_true,
      ↓reduceIte] at bounds segment before ⊢
  · rw [passing, before (by omega) le_rfl, one_mul]
  · rw [segment le_rfl bounds.1] at passing
    linarith

/-- The liquidity after an iteration is that of the positions in range. -/
theorem liquidity_eq_activeAt (step : Traverses m context table state entry table' state')
    (booked : Booked tickSpacing (state.market context table) positions)
    (bounded : totalLiquidity positions < 2 ^ 127) :
    state'.currLiquidity = activeAt positions state'.currTickIndex := by
  have beyond := step.activeAt_beyond booked
  obtain ⟨-, inside, -, -, same⟩ | ⟨-, empty, -, arrived, -, same⟩ |
    ⟨-, full, -, arrived, -, calculated⟩ := step.arrives
  · rw [same, step.liquidity, step.activeAt_segment booked _ inside.1 inside.2]
  · have zero : (table entry.nextTickIndex).liquidityNet = 0 := booked.net_of_empty empty
    rw [← arrived, zero, mul_zero, add_zero] at beyond
    rw [same, step.liquidity]
    exact_mod_cast beyond.symm
  · rw [← arrived] at beyond
    have net := booked.abs_net_le entry.nextTickIndex
    rw [abs_le] at net
    have exact := calculateUpdate_liquidity calculated (by
      change -2 ^ 127 < (state.market context table |>.ticks entry.nextTickIndex).liquidityNet
      omega)
    rw [step.liquidity, ← beyond] at exact
    exact_mod_cast exact

/-- An iteration keeps rewards idle that are not set up. -/
theorem idle (step : Traverses m context table state entry table' state')
    (idle : (state.market context table).RewardsIdle) :
    (state'.market context table').RewardsIdle := by
  intro index off
  obtain ⟨zero, nowhere⟩ := idle index off
  refine ⟨zero, fun tick => ?_⟩
  change (context.nextRewardInfos index).initialized = false at off
  by_cases crossed : entry.crossed = some tick
  · change (table' tick).rewardGrowthsOutside index = 0
    rw [step.flipped crossed]
    unfold nextTickCrossUpdate
    dsimp only
    rw [if_neg (by rw [off]; exact Bool.false_ne_true)]
    exact nowhere tick
  · change (table' tick).rewardGrowthsOutside index = 0
    rw [step.unchanged crossed]
    exact nowhere tick

/-- An iteration keeps the books. -/
theorem booked (step : Traverses m context table state entry table' state')
    (booked : Booked tickSpacing (state.market context table) positions)
    (bounded : totalLiquidity positions < 2 ^ 127) :
    Booked tickSpacing (state'.market context table') positions where
  ranges := booked.ranges
  gross tick := (step.liquidityGross_eq tick).trans (booked.gross tick)
  net tick := (step.liquidityNet_eq tick).trans (booked.net tick)
  initialized tick := by
    change (table' tick).initialized = true ↔ 0 < (table' tick).liquidityGross
    rw [step.initialized_eq, step.liquidityGross_eq]
    exact booked.initialized tick
  liquidity := step.liquidity_eq_activeAt booked bounded
  idle := step.idle booked.idle

end Books

section Growth

/-- The fees of an iteration, by the names of its record. -/
theorem charged (step : Traverses m context table state entry table' state')
    (rate : context.whirlpool.protocolFeeRate ≤ maxProtocolFeeRate) :
    FeesCharged entry.computation.feeAmount state.currLiquidity state.currProtocolFee
      state.currFeeGrowthGlobalInput state'.currProtocolFee state'.currFeeGrowthGlobalInput
      entry.protocolFee entry.feeGrowthDelta :=
  calculateFees_eq_ok rate step.fees

/-- The growth of every channel after an iteration. -/
theorem growthGlobal_eq (step : Traverses m context table state entry table' state')
    (channel : Channel) :
    (((state'.market context table').growthGlobal channel : ℕ) : Growth) =
      (state.market context table).growthGlobal channel + entry.growth context.aToB channel := by
  have grown : ((state'.currFeeGrowthGlobalInput : ℕ) : Growth) =
      state.currFeeGrowthGlobalInput + entry.feeGrowthDelta := by
    have fees := step.fees
    simp only [calculateFees, bind_eq_ok, Except.ok.injEq, Prod.mk.injEq] at fees
    obtain ⟨shares, -, -, growth_eq, -, delta_eq⟩ := fees
    rw [← growth_eq, ← delta_eq, wrappingAdd_cast]
  unfold Market.growthGlobal SwapState.market SwapIteration.growth crossingFeeGrowths
  cases aToB : context.aToB <;> rcases channel with (_ | _) | index <;>
    simp only [Bool.false_eq_true, Bool.true_eq_false, Channel.fee.injEq, reduceCtorEq, ↓reduceIte,
      Nat.cast_zero, add_zero] <;> exact grown

/-- A crossed tick stores the growth on its other side. -/
theorem flipped_outside (step : Traverses m context table state entry table' state')
    (idle : (state.market context table).RewardsIdle) {tick : ℤ}
    (crossed : entry.crossed = some tick) (channel : Channel) :
    (((table' tick).growthOutside channel : ℕ) : Growth) =
      (state'.market context table').growthGlobal channel - (table tick).growthOutside channel := by
  rw [step.flipped crossed]
  rcases channel with (_ | _) | index
  · exact wrappingSub_cast _ _
  · exact wrappingSub_cast _ _
  · change (((if (context.nextRewardInfos index).initialized then
      wrappingSub (context.nextRewardInfos index).growthGlobalX64
        ((table tick).rewardGrowthsOutside index)
      else (table tick).rewardGrowthsOutside index : ℕ) : Growth)) =
        (context.nextRewardInfos index).growthGlobalX64 -
          ((table tick).rewardGrowthsOutside index : ℕ)
    split_ifs with on
    · exact wrappingSub_cast _ _
    · obtain ⟨zero, nowhere⟩ := idle index (Bool.eq_false_iff.mpr on)
      change (context.nextRewardInfos index).growthGlobalX64 = 0 at zero
      have outside : (table tick).rewardGrowthsOutside index = 0 := nowhere tick
      rw [zero, outside, Nat.cast_zero, sub_zero]

/-- An iteration grows the fees of its input token at its current tick, and nothing else. -/
theorem grows (step : Traverses m context table state entry table' state')
    (idle : (state.market context table).RewardsIdle) (channel : Channel) :
    (state.market context table).Grows (state'.market context table') channel
      (entry.growth context.aToB channel) := by
  intro tick full
  change (table tick).initialized = true at full
  have inUse : (table' tick).initialized = true := (step.initialized_eq tick).trans full
  unfold Market.growthBelow
  change Accumulator.below (table' tick).initialized state'.currTickIndex tick
      ((table' tick).growthOutside channel : Growth) _ =
    Accumulator.below (table tick).initialized state.currTickIndex tick
      ((table tick).growthOutside channel : Growth) _ +
        if state.currTickIndex < tick then _ else 0
  rw [full, inUse, ← Accumulator.below_accrue, ← step.growthGlobal_eq]
  have passed := step.passed_iff_crossed full
  by_cases crossed : entry.crossed = some tick
  · rw [step.flipped_outside idle crossed]
    exact Accumulator.below_cross ((passed_iff step.onward).mp (passed.mpr crossed)) _ _
  · rw [step.unchanged crossed]
    exact Accumulator.below_move ((not_passed_iff step.onward).mp (mt passed.mp crossed)) _ _ _

end Growth

section Tokens

/-- An iteration adds the exact amount of the input token to the holdings, and takes the
exact amount of the output token out of them. -/
theorem holdings_eq (step : Traverses m context table state entry table' state')
    (holds : LoopInvariant context table state) (holds' : LoopInvariant context table' state')
    (booked : Booked tickSpacing (state.market context table) positions) (isTokenA : Bool) :
    holdings positions isTokenA state'.currSqrtPrice =
      holdings positions isTokenA state.currSqrtPrice +
        if isTokenA = context.aToB then
          amountOf isTokenA state.currLiquidity state.currSqrtPrice state'.currSqrtPrice
        else -amountOf isTokenA state.currLiquidity state.currSqrtPrice state'.currSqrtPrice := by
  obtain ⟨above, below, ordered⟩ := step.segment_range holds.place
  obtain ⟨inside, inside'⟩ := step.segment_prices holds.place holds'.place
  refine holdings_move booked.ranges isTokenA above ordered below
    (step.activeAt_segment booked) inside inside' ?_
  rw [step.nextPrice]
  exact step.contract.leaves

/-- The tokens an iteration takes cover what it adds to the holdings, and those it gives
are covered by what it takes out of them. -/
theorem amounts_bound (step : Traverses m context table state entry table' state')
    (holds : LoopInvariant context table state) (holds' : LoopInvariant context table' state') :
    amountOf context.aToB state.currLiquidity state.currSqrtPrice state'.currSqrtPrice ≤
        entry.computation.amountIn ∧
      (entry.computation.amountOut : ℚ) ≤
        amountOf (!context.aToB) state.currLiquidity state.currSqrtPrice state'.currSqrtPrice := by
  have contract := step.contract
  rw [step.nextPrice]
  constructor
  · rw [contract.amountIn]
    exact Nat.le_ceil _
  · have positive := holds.place.price_pos
    have positive' := holds'.place.price_pos
    rw [step.nextPrice] at positive'
    have floor := Nat.floor_le (amountOf_nonneg (!context.aToB)
      state.currLiquidity positive positive')
    rw [contract.amountOut]
    split_ifs
    · exact floor
    · exact (Nat.cast_le.mpr (min_le_left _ _)).trans floor

/-- Without liquidity an iteration takes and charges nothing. -/
theorem free_of_empty (step : Traverses m context table state entry table' state')
    (empty : state.currLiquidity = 0) :
    entry.computation.amountIn = 0 ∧ entry.computation.amountOut = 0 ∧
      entry.computation.feeAmount = 0 := by
  have contract := step.contract
  have reached := contract.empty empty
  have nothing : entry.computation.amountIn = 0 := by
    rw [contract.amountIn, empty, amountOf_zero, Nat.ceil_zero]
  refine ⟨nothing, ?_, ?_⟩
  · rw [contract.amountOut, empty, amountOf_zero, Nat.floor_zero]
    split_ifs
    · rfl
    · exact Nat.zero_min _
  · rw [contract.fee, if_neg (fun both => both.2 reached), nothing]
    simp only [fullFee, Nat.cast_zero, zero_mul, zero_div, Nat.ceil_zero]

end Tokens
end Traverses
end Whirlpools
