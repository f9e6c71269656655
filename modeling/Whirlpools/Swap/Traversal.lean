import Whirlpools.Manager.SwapManager
import Whirlpools.Math.SwapAmounts
import Whirlpools.Ticks.Prices
import Whirlpools.Ticks.Search

/-! # The swap loop over the table of ticks

One iteration works on a segment of the tick line without initialized ticks inside:
it keeps its computation contract and either stays in the segment or arrives at the
tick the search returned, crossing it when it is initialized. The loop is a
traversal of such segments over a table of ticks, whatever arrays were supplied.
-/

namespace Whirlpools

open Outcome

namespace SwapIteration

/-- The tick after arriving at the next tick of an iteration. -/
def beyond (entry : SwapIteration) (aToB : Bool) : ℤ :=
  if aToB then entry.nextTickIndex - 1 else entry.nextTickIndex

/-- The least tick of the segment of an iteration. -/
def lower (entry : SwapIteration) (aToB : Bool) : ℤ :=
  if aToB then entry.nextTickIndex else entry.tickIndex

/-- The greatest tick of the segment of an iteration. -/
def upper (entry : SwapIteration) (aToB : Bool) : ℤ :=
  if aToB then entry.tickIndex else entry.nextTickIndex - 1

/-- The price an iteration aims at. -/
def target (entry : SwapIteration) (context : SwapContext) : ℕ :=
  (getNextSqrtPrices entry.nextTickIndex context.sqrtPriceLimit context.aToB).2

end SwapIteration

/-- Where an iteration ends: the table, the tick and the liquidity it leaves. -/
inductive Arrives (m : Machine) (context : SwapContext) (table : TickTable) (feeGrowth : ℕ)
    (entry : SwapIteration) (table' : TickTable) (tick : ℤ) (liquidity : ℕ) : Prop
  /-- Short of the next tick, inside the segment. -/
  | short (apart : entry.computation.nextPrice ≠ tickPrice entry.nextTickIndex)
      (inside : entry.lower context.aToB ≤ tick ∧ tick ≤ entry.upper context.aToB)
      (uncrossed : entry.crossed = none) (table_eq : table' = table)
      (liquidity_eq : liquidity = entry.liquidity)
  /-- At the next tick, which is not initialized. -/
  | passes (reached : entry.computation.nextPrice = tickPrice entry.nextTickIndex)
      (empty : (table entry.nextTickIndex).initialized = false) (uncrossed : entry.crossed = none)
      (tick_eq : tick = entry.beyond context.aToB) (table_eq : table' = table)
      (liquidity_eq : liquidity = entry.liquidity)
  /-- At the next tick, which is initialized and crossed. -/
  | crosses {update : TickUpdate}
      (reached : entry.computation.nextPrice = tickPrice entry.nextTickIndex)
      (full : (table entry.nextTickIndex).initialized = true)
      (crossed : entry.crossed = some entry.nextTickIndex)
      (tick_eq : tick = entry.beyond context.aToB)
      (table_eq : table' = Function.update table entry.nextTickIndex update)
      (calculated : calculateUpdate m (table entry.nextTickIndex) context.aToB entry.liquidity
        (crossingFeeGrowths context feeGrowth).1 (crossingFeeGrowths context feeGrowth).2
        context.nextRewardInfos = .ok (update, liquidity))

/-- What one iteration of the swap loop does to the table and the loop variables. -/
structure Traverses (m : Machine) (context : SwapContext) (table : TickTable) (state : SwapState)
    (entry : SwapIteration) (table' : TickTable) (state' : SwapState) : Prop where
  tick : entry.tickIndex = state.currTickIndex
  liquidity : entry.liquidity = state.currLiquidity
  price : entry.sqrtPrice = state.currSqrtPrice
  growth : entry.feeGrowthGlobal = state.currFeeGrowthGlobalInput
  nextPrice : state'.currSqrtPrice = entry.computation.nextPrice
  contract : StepContract state.amountRemaining context.whirlpool.feeRate state.currLiquidity
    state.currSqrtPrice (entry.target context) context.amountSpecifiedIsInput context.aToB
    entry.computation
  amounts : accountAmounts context.amountSpecifiedIsInput state.amountRemaining
    state.amountCalculated entry.computation = .ok (state'.amountRemaining, state'.amountCalculated)
  fees : calculateFees m entry.computation.feeAmount context.whirlpool.protocolFeeRate
    state.currLiquidity state.currProtocolFee state.currFeeGrowthGlobalInput =
      .ok (state'.currProtocolFee, state'.currFeeGrowthGlobalInput, entry.protocolFee,
        entry.feeGrowthDelta)
  range : minTickIndex ≤ entry.nextTickIndex ∧ entry.nextTickIndex ≤ maxTickIndex
  inside : entry.lower context.aToB ≤ entry.tickIndex ∧
    entry.tickIndex ≤ entry.upper context.aToB
  clear : table.Clear (entry.lower context.aToB) (entry.upper context.aToB)
  window : ∃ array ∈ state.swapTickSequence.arrays, array.startTickIndex ≤ entry.nextTickIndex ∧
    entry.nextTickIndex < array.startTickIndex + arrayWidth context.whirlpool.tickSpacing
  starts : state'.swapTickSequence.arrays.map TickArray.startTickIndex =
    state.swapTickSequence.arrays.map TickArray.startTickIndex
  arrives : Arrives m context table state'.currFeeGrowthGlobalInput entry table'
    state'.currTickIndex state'.currLiquidity

/-- What every state of the swap loop satisfies, with the table its arrays carry. -/
structure LoopInvariant (context : SwapContext) (table : TickTable) (state : SwapState) : Prop where
  carried : state.swapTickSequence.Carries table context.whirlpool.tickSpacing
  usable : table.UsableOnly context.whirlpool.tickSpacing
  place : PriceTick state.currSqrtPrice state.currTickIndex
  limit : Onward context.aToB state.currSqrtPrice context.sqrtPriceLimit
  liquidity : state.currLiquidity < 2 ^ 128
  remaining : state.amountRemaining < 2 ^ 64

/-- What is fixed in the loop and does not go wrong. -/
structure SwapContext.Sound (context : SwapContext) : Prop where
  spacing : 0 < context.whirlpool.tickSpacing
  limit : minSqrtPriceX64 ≤ context.sqrtPriceLimit ∧ context.sqrtPriceLimit ≤ maxSqrtPriceX64

section Step

variable {m : Machine} {context : SwapContext} {table : TickTable} {state state' : SwapState}
  {entry : SwapIteration}

/-- A swap that goes on has not run into the end of the tick range. -/
private theorem tick_range (sound : context.Sound) (holds : LoopInvariant context table state)
    (runs : swapContinues context state = true) :
    if context.aToB then minTickIndex ≤ state.currTickIndex
    else state.currTickIndex < maxTickIndex := by
  have place := holds.place
  have limit := holds.limit
  simp only [swapContinues, decide_eq_true_eq] at runs
  cases aToB : context.aToB with
  | true =>
      simp only [aToB, onward_true, ↓reduceIte] at limit ⊢
      by_contra before
      have extreme := place.le_tickPrice
      rw [tickPrice_of_le (by omega)] at extreme
      exact runs.2 (le_antisymm limit (extreme.trans sound.limit.1))
  | false =>
      simp only [aToB, onward_false, Bool.false_eq_true, ↓reduceIte] at limit ⊢
      by_contra after
      have extreme := place.tickPrice_le
      rw [tickPrice_of_ge (not_lt.mp after)] at extreme
      exact runs.2 (le_antisymm (sound.limit.2.trans extreme) limit)

/-- The search of an iteration over the table. -/
theorem search_spec (sound : context.Sound) (holds : LoopInvariant context table state)
    (runs : swapContinues context state = true) {arrayIndex : ℕ} {next : ℤ}
    (returned : state.swapTickSequence.getNextInitializedTickIndex state.currTickIndex
      context.whirlpool.tickSpacing context.aToB state.currArrayIndex = .ok (arrayIndex, next)) :
    SearchResult context.whirlpool.tickSpacing state.swapTickSequence.arrays arrayIndex next ∧
      if context.aToB then next ≤ state.currTickIndex ∧ table.Clear next state.currTickIndex
      else state.currTickIndex < next ∧ table.Clear state.currTickIndex (next - 1) := by
  have inside := tick_range sound holds runs
  cases aToB : context.aToB with
  | true =>
      simp only [aToB, ↓reduceIte] at inside returned ⊢
      exact getNextInitializedTickIndex_left holds.carried holds.usable sound.spacing inside
        holds.place.tickBelow returned
  | false =>
      simp only [aToB, Bool.false_eq_true, ↓reduceIte] at inside returned ⊢
      exact getNextInitializedTickIndex_right holds.carried holds.usable sound.spacing
        holds.place.tickAbove inside returned

/-- The target of an iteration lies ahead, before the limit and the next tick. -/
private theorem target_spec (sound : context.Sound) (holds : LoopInvariant context table state)
    {next : ℤ} (range : minTickIndex ≤ next ∧ next ≤ maxTickIndex)
    (ahead : if context.aToB then next ≤ state.currTickIndex else state.currTickIndex < next) :
    let target := (getNextSqrtPrices next context.sqrtPriceLimit context.aToB).2
    (minSqrtPriceX64 ≤ target ∧ target ≤ maxSqrtPriceX64) ∧
      Onward context.aToB state.currSqrtPrice target ∧
      Onward context.aToB target context.sqrtPriceLimit ∧
      Onward context.aToB target (tickPrice next) := by
  have place := holds.place
  have limit := holds.limit
  have nextPrice := tickPrice_of_range range.1 range.2
  have least := minSqrtPrice_le_tickPrice next
  have greatest := tickPrice_le_maxSqrtPrice next
  simp only [getNextSqrtPrices, ← nextPrice]
  cases aToB : context.aToB with
  | true =>
      simp only [aToB, onward_true, ↓reduceIte] at limit ahead ⊢
      have before := (tickPrice_mono ahead).trans place.tickPrice_le
      exact ⟨⟨le_max_of_le_left sound.limit.1, max_le sound.limit.2 greatest⟩,
        max_le limit before, le_max_left _ _, le_max_right _ _⟩
  | false =>
      simp only [aToB, onward_false, Bool.false_eq_true, ↓reduceIte] at limit ahead ⊢
      have after := place.le_tickPrice.trans (tickPrice_mono (Int.add_one_le_iff.mpr ahead))
      exact ⟨⟨le_min sound.limit.1 least, min_le_of_left_le sound.limit.2⟩,
        le_min limit after, min_le_left _ _, min_le_right _ _⟩

/-- The tick computed for a price short of the next tick stays in the segment. -/
private theorem short_tick {price : ℕ} {next : ℤ} (place : PriceTick state.currSqrtPrice
      state.currTickIndex) (range : minTickIndex ≤ next ∧ next ≤ maxTickIndex)
    (above : minSqrtPriceX64 ≤ price) (below : price ≤ maxSqrtPriceX64)
    (leaves : Onward context.aToB state.currSqrtPrice price)
    (stops : Onward context.aToB price (tickPrice next)) (apart : price ≠ tickPrice next)
    (moved : price ≠ state.currSqrtPrice) :
    (if context.aToB then next else state.currTickIndex) ≤ tickIndexFromSqrtPrice price ∧
      tickIndexFromSqrtPrice price ≤
        (if context.aToB then state.currTickIndex else next - 1) := by
  have arrived := PriceTick.of_sqrtPrice above below
  cases aToB : context.aToB with
  | true =>
      simp only [aToB, onward_true, ↓reduceIte] at leaves stops ⊢
      have strict : price < state.currSqrtPrice := lt_of_le_of_ne leaves moved
      have before := arrived.tickIndex_lt (lt_of_lt_of_le strict place.le_tickPrice)
      exact ⟨arrived.le_tickIndex range.2 stops, by omega⟩
  | false =>
      simp only [aToB, onward_false, Bool.false_eq_true, ↓reduceIte] at leaves stops ⊢
      have before := arrived.tickIndex_lt (lt_of_le_of_ne stops apart)
      exact ⟨arrived.le_tickIndex place.tickBelow (place.tickPrice_le.trans leaves), by omega⟩

/-- Crossing a tick keeps it initialized and the liquidity in `u128`. -/
theorem calculateUpdate_eq_ok {tick : Tick} {aToB : Bool} {liquidity next growthA growthB : ℕ}
    {rewardInfos : Fin numRewards → WhirlpoolRewardInfo} {update : TickUpdate}
    (returned : calculateUpdate m tick aToB liquidity growthA growthB rewardInfos =
      .ok (update, next)) :
    update = nextTickCrossUpdate tick growthA growthB rewardInfos ∧
      ∃ signed, (if aToB then m.plainNeg tick.liquidityNet else .ok tick.liquidityNet) =
        .ok signed ∧ addLiquidityDelta m liquidity signed = .ok next := by
  simp only [calculateUpdate, bind_eq_ok, Except.ok.injEq, Prod.mk.injEq] at returned
  obtain ⟨signed, negated, liquidity', added, rfl, rfl⟩ := returned
  exact ⟨rfl, signed, negated, added⟩

/-- An iteration that succeeds moves its amounts from what remains to what is calculated. -/
theorem accountAmounts_eq_ok {isIn : Bool} {remaining calculated remaining' calculated' : ℕ}
    {computation : SwapStepComputation}
    (returned : accountAmounts isIn remaining calculated computation =
      .ok (remaining', calculated')) :
    if isIn then
      remaining' + computation.amountIn + computation.feeAmount = remaining ∧
        calculated' = calculated + computation.amountOut ∧ calculated' < 2 ^ 64
    else
      remaining' + computation.amountOut = remaining ∧
        calculated' = calculated + computation.amountIn + computation.feeAmount ∧
          calculated' < 2 ^ 64 := by
  unfold accountAmounts at returned
  cases isIn <;> simp only [Bool.false_eq_true, ↓reduceIte] at returned ⊢
  · simp only [guard_eq_ok, Except.ok.injEq, Prod.mk.injEq] at returned
    omega
  · simp only [guard_eq_ok, Except.ok.injEq, Prod.mk.injEq] at returned
    omega

theorem accountAmounts_le {isIn : Bool} {remaining calculated remaining' calculated' : ℕ}
    {computation : SwapStepComputation}
    (returned : accountAmounts isIn remaining calculated computation =
      .ok (remaining', calculated')) : remaining' ≤ remaining := by
  have spec := accountAmounts_eq_ok returned
  cases isIn <;> simp only [Bool.false_eq_true, ↓reduceIte] at spec <;> omega

/-- The crossing of an iteration over the table. -/
private theorem crossTick_spec (sound : context.Sound) (holds : LoopInvariant context table state)
    {arrayIndex : ℕ} {next : ℤ} {growth : ℕ}
    (result : SearchResult context.whirlpool.tickSpacing state.swapTickSequence.arrays arrayIndex
      next) {liquidity : ℕ} {sequence : SwapTickSequence} {crossed : Option ℤ}
    (returned : crossTick m context state arrayIndex next growth =
      .ok (liquidity, sequence, crossed)) :
    ((table next).initialized = false ∧ crossed = none ∧ liquidity = state.currLiquidity ∧
        sequence = state.swapTickSequence) ∨
      ((table next).initialized = true ∧ crossed = some next ∧
        ∃ update, calculateUpdate m (table next) context.aToB state.currLiquidity
            (crossingFeeGrowths context growth).1 (crossingFeeGrowths context growth).2
            context.nextRewardInfos = .ok (update, liquidity) ∧
          sequence.Carries (Function.update table next update) context.whirlpool.tickSpacing ∧
          sequence.arrays.map TickArray.startTickIndex =
            state.swapTickSequence.arrays.map TickArray.startTickIndex) := by
  obtain ⟨array, found, above, below⟩ := result.inside
  have carried := holds.carried.arrays array (List.mem_of_getElem? found)
  have read : state.swapTickSequence.getTick arrayIndex next context.whirlpool.tickSpacing =
      array.getTick next context.whirlpool.tickSpacing := by
    rw [SwapTickSequence.getTick, SwapTickSequence.getArray_eq_ok.mpr found, ok_bind]
  unfold crossTick at returned
  rw [read] at returned
  cases outcome : array.getTick next context.whirlpool.tickSpacing with
  | error failure =>
      simp only [outcome, Except.ok.injEq, Prod.mk.injEq] at returned
      obtain ⟨rfl, rfl, rfl⟩ := returned
      refine .inl ⟨?_, rfl, rfl, rfl⟩
      by_contra initialized
      rw [Bool.not_eq_false] at initialized
      obtain ⟨tick, readable⟩ := getTick_of_inside sound.spacing (holds.usable next initialized)
        above below
      rw [outcome] at readable
      exact absurd readable (by simp only [reduceCtorEq, not_false_eq_true])
  | ok tick =>
      have tick_eq := carried.getTick_eq_ok sound.spacing outcome
      simp only [outcome, tick_eq] at returned
      split_ifs at returned with initialized
      · simp only [bind_eq_ok, Except.ok.injEq, Prod.mk.injEq] at returned
        obtain ⟨⟨update, liquidity'⟩, calculated, updated, written, rfl, rfl, rfl⟩ := returned
        exact .inr ⟨initialized, rfl, update, calculated,
          holds.carried.updateTick sound.spacing written⟩
      · simp only [Except.ok.injEq, Prod.mk.injEq] at returned
        obtain ⟨rfl, rfl, rfl⟩ := returned
        exact .inl ⟨by simpa only [Bool.not_eq_true] using initialized, rfl, rfl, rfl⟩

/-- Crossing keeps the initialized ticks where they are. -/
theorem crossed_initialized {tick : ℤ} {update : TickUpdate} {aToB : Bool}
    {liquidity next growthA growthB : ℕ} {rewardInfos : Fin numRewards → WhirlpoolRewardInfo}
    (calculated : calculateUpdate m (table tick) aToB liquidity growthA growthB rewardInfos =
      .ok (update, next)) (other : ℤ) :
    (Function.update table tick update other).initialized = (table other).initialized := by
  obtain ⟨rfl, -⟩ := calculateUpdate_eq_ok calculated
  by_cases same : other = tick
  · rw [same, Function.update_self]
    rfl
  · rw [Function.update_of_ne same]

/-- The prices an iteration steps between. -/
theorem step_prices (sound : context.Sound) (holds : LoopInvariant context table state)
    (runs : swapContinues context state = true) {arrayIndex : ℕ} {next : ℤ}
    (searched : state.swapTickSequence.getNextInitializedTickIndex state.currTickIndex
      context.whirlpool.tickSpacing context.aToB state.currArrayIndex = .ok (arrayIndex, next)) :
    let target := (getNextSqrtPrices next context.sqrtPriceLimit context.aToB).2
    (minSqrtPriceX64 ≤ target ∧ target ≤ maxSqrtPriceX64) ∧ 0 < target ∧ target < 2 ^ 128 ∧
      Onward context.aToB state.currSqrtPrice target := by
  intro target
  obtain ⟨result, segment⟩ := search_spec sound holds runs searched
  obtain ⟨range, onward, -, -⟩ := target_spec sound holds result.range (by
    cases aToB : context.aToB <;> simp only [aToB, Bool.false_eq_true, ↓reduceIte] at segment ⊢
    · exact segment.1
    · exact segment.1)
  exact ⟨range, lt_of_lt_of_le minSqrtPrice_pos range.1,
    lt_of_le_of_lt range.2 (show maxSqrtPriceX64 < 2 ^ 128 by decide), onward⟩

/-- The step an iteration computes towards the next tick keeps its contract. -/
theorem step_contract (sound : context.Sound) (holds : LoopInvariant context table state)
    (runs : swapContinues context state = true) {arrayIndex : ℕ} {next : ℤ}
    {computation : SwapStepComputation}
    (searched : state.swapTickSequence.getNextInitializedTickIndex state.currTickIndex
      context.whirlpool.tickSpacing context.aToB state.currArrayIndex = .ok (arrayIndex, next))
    (computed : computeSwap m state.amountRemaining context.whirlpool.feeRate state.currLiquidity
      state.currSqrtPrice (getNextSqrtPrices next context.sqrtPriceLimit context.aToB).2
      context.amountSpecifiedIsInput context.aToB = .ok computation) :
    StepContract state.amountRemaining context.whirlpool.feeRate state.currLiquidity
      state.currSqrtPrice (getNextSqrtPrices next context.sqrtPriceLimit context.aToB).2
      context.amountSpecifiedIsInput context.aToB computation := by
  obtain ⟨-, positive, small, onward⟩ := step_prices sound holds runs searched
  exact computeSwap_contract holds.place.price_pos positive holds.place.price_lt small
    holds.liquidity holds.remaining onward computed

/-- One iteration traverses a segment and keeps the loop invariant. -/
theorem swapIteration_traverses (sound : context.Sound) (holds : LoopInvariant context table state)
    (runs : swapContinues context state = true)
    (returned : swapIteration m context state = .ok (state', entry)) :
    ∃ table', Traverses m context table state entry table' state' ∧
      LoopInvariant context table' state' := by
  simp only [swapIteration, bind_eq_ok] at returned
  obtain ⟨⟨arrayIndex, next⟩, searched, computation, computed, ⟨remaining, calculated⟩, accounted,
    ⟨protocolFee, growth, protocolShare, growthDelta⟩, charged, returned⟩ := returned
  obtain ⟨result, segment⟩ := search_spec sound holds runs searched
  have place := holds.place
  obtain ⟨targetRange, onward, beforeLimit, beforeNext⟩ := target_spec sound holds result.range (by
    cases aToB : context.aToB <;> simp only [aToB, Bool.false_eq_true, ↓reduceIte] at segment ⊢
    · exact segment.1
    · exact segment.1)
  have contract := step_contract sound holds runs searched computed
  have stops := contract.stops.trans beforeNext
  have limit := contract.stops.trans beforeLimit
  have remainingLe := accountAmounts_le accounted
  have nextRange : minSqrtPriceX64 ≤ computation.nextPrice ∧
      computation.nextPrice ≤ maxSqrtPriceX64 := by
    have leaves := contract.leaves
    have ends := contract.stops
    cases aToB : context.aToB <;> simp only [aToB, onward_true, onward_false] at leaves ends
    · exact ⟨place.priceAbove.trans leaves, ends.trans (by simpa only [aToB] using targetRange.2)⟩
    · exact ⟨le_trans (by simpa only [aToB] using targetRange.1) ends,
        leaves.trans place.priceBelow⟩
  have bounds : (if context.aToB then next else state.currTickIndex) ≤ state.currTickIndex ∧
      state.currTickIndex ≤ (if context.aToB then state.currTickIndex else next - 1) := by
    cases aToB : context.aToB <;> simp only [aToB, Bool.false_eq_true, ↓reduceIte] at segment ⊢ <;>
      omega
  have clear : table.Clear (if context.aToB then next else state.currTickIndex)
      (if context.aToB then state.currTickIndex else next - 1) := by
    cases aToB : context.aToB <;> simp only [aToB, Bool.false_eq_true, ↓reduceIte] at segment ⊢
    · exact segment.2
    · exact segment.2
  have window : ∃ array ∈ state.swapTickSequence.arrays, array.startTickIndex ≤ next ∧
      next < array.startTickIndex + arrayWidth context.whirlpool.tickSpacing := by
    obtain ⟨array, found, inside⟩ := result.inside
    exact ⟨array, List.mem_of_getElem? found, inside⟩
  have nextPrice_eq : sqrtPriceFromTickIndex next = tickPrice next :=
    (tickPrice_of_range result.range.1 result.range.2).symm
  by_cases reached : computation.nextPrice = tickPrice next
  · rw [if_pos (by simpa only [getNextSqrtPrices, nextPrice_eq] using reached)] at returned
    simp only [bind_eq_ok] at returned
    obtain ⟨⟨liquidity, sequence, crossed⟩, crossing, offset, -, returned⟩ := returned
    simp only [Except.ok.injEq, Prod.mk.injEq] at returned
    obtain ⟨rfl, rfl⟩ := returned
    have arrived : PriceTick computation.nextPrice
        (if context.aToB then next - 1 else next) := by
      rw [reached]
      obtain ⟨here, previous⟩ := PriceTick.of_tick result.range.1 result.range.2
      split_ifs
      · exact previous
      · exact here
    rcases crossTick_spec sound holds result crossing with
      ⟨empty, rfl, rfl, rfl⟩ | ⟨full, rfl, update, calculated, carried, starts⟩
    · refine ⟨table, ⟨rfl, rfl, rfl, rfl, rfl, contract, accounted, charged, result.range, bounds,
        clear, window, rfl, ?_⟩, ⟨holds.carried, holds.usable, arrived, limit, holds.liquidity,
        lt_of_le_of_lt remainingLe holds.remaining⟩⟩
      exact .passes reached empty rfl rfl rfl rfl
    · obtain ⟨-, signed, -, added⟩ := calculateUpdate_eq_ok calculated
      refine ⟨Function.update table next update, ⟨rfl, rfl, rfl, rfl, rfl, contract, accounted,
        charged, result.range, bounds, clear, window, starts, ?_⟩, ⟨carried, ?_, arrived, limit,
        (addLiquidityDelta_eq_ok added).2 holds.liquidity,
        lt_of_le_of_lt remainingLe holds.remaining⟩⟩
      · exact .crosses reached full rfl rfl rfl calculated
      · intro tick initialized
        rw [crossed_initialized calculated] at initialized
        exact holds.usable tick initialized
  · rw [if_neg (by simpa only [getNextSqrtPrices, nextPrice_eq] using reached)] at returned
    split_ifs at returned with moved
    · simp only [Except.ok.injEq, Prod.mk.injEq] at returned
      obtain ⟨rfl, rfl⟩ := returned
      refine ⟨table, ⟨rfl, rfl, rfl, rfl, rfl, contract, accounted, charged, result.range, bounds,
        clear, window, rfl, ?_⟩,
        ⟨holds.carried, holds.usable, .of_sqrtPrice nextRange.1 nextRange.2, limit, holds.liquidity,
          lt_of_le_of_lt remainingLe holds.remaining⟩⟩
      exact .short reached (short_tick place result.range nextRange.1 nextRange.2 contract.leaves
        stops reached moved) rfl rfl rfl
    · simp only [Except.ok.injEq, Prod.mk.injEq] at returned
      obtain ⟨rfl, rfl⟩ := returned
      rw [ne_eq, not_not] at moved
      refine ⟨table, ⟨rfl, rfl, rfl, rfl, rfl, contract, accounted, charged, result.range, bounds,
        clear, window, rfl, ?_⟩, ⟨holds.carried, holds.usable, moved ▸ place, limit,
        holds.liquidity, lt_of_le_of_lt remainingLe holds.remaining⟩⟩
      exact .short reached bounds rfl rfl rfl

end Step

section Segment

variable {m : Machine} {context : SwapContext} {table table' : TickTable}
  {state state' : SwapState} {entry : SwapIteration}

/-- A tick is passed by a move of the current tick: crossed from right to left when it
is left of no current tick any more, and the other way around. -/
def Passed (aToB : Bool) (current next tick : ℤ) : Prop :=
  if aToB then next < tick ∧ tick ≤ current else current < tick ∧ tick ≤ next

/-- The current tick moves in the direction of the trade. -/
def TickOnward (aToB : Bool) (current next : ℤ) : Prop :=
  if aToB then next ≤ current else current ≤ next

/-- Moves of the tick in the direction of the swap compose. -/
theorem TickOnward.trans {aToB : Bool} {first second third : ℤ}
    (one : TickOnward aToB first second) (two : TickOnward aToB second third) :
    TickOnward aToB first third := by
  cases aToB
  · exact le_trans one two
  · exact le_trans two one

/-- Two moves in one direction pass the ticks that either of them passes. -/
theorem passed_trans {aToB : Bool} {first second third tick : ℤ}
    (one : TickOnward aToB first second) (two : TickOnward aToB second third) :
    Passed aToB first third tick ↔ Passed aToB first second tick ∨
      Passed aToB second third tick := by
  cases aToB <;> simp only [TickOnward, Passed, Bool.false_eq_true, ↓reduceIte] at * <;> omega

/-- A tick that is not passed stays on its side of the current tick. -/
theorem not_passed_iff {aToB : Bool} {current next tick : ℤ}
    (onward : TickOnward aToB current next) :
    ¬ Passed aToB current next tick ↔ (current < tick ↔ next < tick) := by
  cases aToB <;> simp only [TickOnward, Passed, Bool.false_eq_true, ↓reduceIte] at * <;> omega

/-- A passed tick changes sides. -/
theorem passed_iff {aToB : Bool} {current next tick : ℤ} (onward : TickOnward aToB current next) :
    Passed aToB current next tick ↔ (current < tick ↔ ¬ next < tick) := by
  cases aToB <;> simp only [TickOnward, Passed, Bool.false_eq_true, ↓reduceIte] at * <;> omega

namespace Traverses

/-- An iteration moves the tick in the direction of the swap. -/
theorem onward (step : Traverses m context table state entry table' state') :
    TickOnward context.aToB state.currTickIndex state'.currTickIndex := by
  have bounds := step.inside
  have tick := step.tick
  unfold TickOnward
  cases aToB : context.aToB <;>
    simp only [aToB, SwapIteration.lower, SwapIteration.upper, Bool.false_eq_true,
      ↓reduceIte] at bounds ⊢ <;>
    rcases step.arrives with ⟨-, inside, -⟩ | ⟨-, -, -, beyond⟩ | ⟨-, -, -, beyond⟩ <;>
    simp only [aToB, SwapIteration.lower, SwapIteration.upper, SwapIteration.beyond,
      Bool.false_eq_true, ↓reduceIte] at * <;> omega

/-- The initialized ticks passed by an iteration are the one it crosses. -/
theorem passed_iff_crossed (step : Traverses m context table state entry table' state') {tick : ℤ}
    (full : (table tick).initialized = true) :
    Passed context.aToB state.currTickIndex state'.currTickIndex tick ↔
      entry.crossed = some tick := by
  have bounds := step.inside
  have same := step.tick
  have clear := step.clear tick
  rw [full] at clear
  simp only [Bool.true_eq_false, imp_false, not_le] at clear
  unfold Passed
  cases aToB : context.aToB <;>
    simp only [aToB, SwapIteration.lower, SwapIteration.upper, Bool.false_eq_true,
      ↓reduceIte] at bounds clear ⊢ <;>
    rcases step.arrives with ⟨-, inside, crossed⟩ | ⟨-, empty, crossed, beyond⟩ |
      ⟨-, -, crossed, beyond⟩ <;>
    simp only [aToB, SwapIteration.lower, SwapIteration.upper, SwapIteration.beyond, crossed,
      Bool.false_eq_true, ↓reduceIte, reduceCtorEq, iff_false, Option.some.injEq, not_and,
      not_le] at *
  · omega
  · intro after
    by_contra before
    have here : tick = entry.nextTickIndex := by omega
    rw [← here, full] at empty
    exact absurd empty (by decide)
  · omega
  · omega
  · intro after
    by_contra before
    have here : tick = entry.nextTickIndex := by omega
    rw [← here, full] at empty
    exact absurd empty (by decide)
  · omega

/-- An iteration keeps the initialized ticks where they are. -/
theorem initialized_eq (step : Traverses m context table state entry table' state') (tick : ℤ) :
    (table' tick).initialized = (table tick).initialized := by
  obtain ⟨-, -, -, same⟩ | ⟨-, -, -, -, same⟩ | ⟨-, -, -, -, same, calculated⟩ := step.arrives
  · rw [same]
  · rw [same]
  · rw [same]
    exact crossed_initialized calculated tick

/-- The tick an iteration crosses was initialized. -/
theorem crossed_full (step : Traverses m context table state entry table' state') {tick : ℤ}
    (crossed : entry.crossed = some tick) : (table tick).initialized = true := by
  obtain ⟨-, -, absent⟩ | ⟨-, -, absent⟩ | ⟨-, full, present⟩ := step.arrives
  · exact absurd (absent.symm.trans crossed) (by simp only [reduceCtorEq, not_false_eq_true])
  · exact absurd (absent.symm.trans crossed) (by simp only [reduceCtorEq, not_false_eq_true])
  · obtain rfl := Option.some.inj (present.symm.trans crossed)
    exact full

/-- The segment of an iteration lies in the tick range. -/
theorem segment_range (step : Traverses m context table state entry table' state')
    (place : PriceTick state.currSqrtPrice state.currTickIndex) :
    minTickIndex - 1 ≤ entry.lower context.aToB ∧ entry.upper context.aToB ≤ maxTickIndex ∧
      entry.lower context.aToB ≤ entry.upper context.aToB + 1 := by
  have range := step.range
  have bounds := step.inside
  have above := place.tickAbove
  have below := place.tickBelow
  have same := step.tick
  cases aToB : context.aToB <;>
    simp only [aToB, SwapIteration.lower, SwapIteration.upper, Bool.false_eq_true,
      ↓reduceIte] at bounds ⊢ <;> omega

/-- Both prices of an iteration lie in its segment. -/
theorem segment_prices (step : Traverses m context table state entry table' state')
    (place : PriceTick state.currSqrtPrice state.currTickIndex)
    (place' : PriceTick state'.currSqrtPrice state'.currTickIndex) :
    (tickPrice (entry.lower context.aToB) ≤ state.currSqrtPrice ∧
      state.currSqrtPrice ≤ tickPrice (entry.upper context.aToB + 1)) ∧
    tickPrice (entry.lower context.aToB) ≤ state'.currSqrtPrice ∧
      state'.currSqrtPrice ≤ tickPrice (entry.upper context.aToB + 1) := by
  have bounds := step.inside
  rw [step.tick] at bounds
  have nextPrice := step.nextPrice
  refine ⟨⟨(tickPrice_mono bounds.1).trans place.tickPrice_le,
    place.le_tickPrice.trans (tickPrice_mono (by omega))⟩, ?_⟩
  have reachedCase (reached : entry.computation.nextPrice = tickPrice entry.nextTickIndex) :
      tickPrice (entry.lower context.aToB) ≤ state'.currSqrtPrice ∧
        state'.currSqrtPrice ≤ tickPrice (entry.upper context.aToB + 1) := by
    rw [nextPrice, reached]
    cases aToB : context.aToB <;>
      simp only [aToB, SwapIteration.lower, SwapIteration.upper, Bool.false_eq_true,
        ↓reduceIte] at bounds ⊢ <;>
      constructor <;> apply tickPrice_mono <;> omega
  obtain ⟨-, inside⟩ | ⟨reached⟩ | ⟨reached⟩ := step.arrives
  · exact ⟨(tickPrice_mono inside.1).trans place'.tickPrice_le,
      place'.le_tickPrice.trans (tickPrice_mono (by omega))⟩
  · exact reachedCase reached
  · exact reachedCase reached

end Traverses
end Segment

/-- The segments a swap loop traverses, with the loop invariant between them. -/
inductive Traversal (m : Machine) (context : SwapContext) :
    TickTable → SwapState → List SwapIteration → TickTable → SwapState → Prop
  | done (table : TickTable) (state : SwapState) : Traversal m context table state [] table state
  | step {table table' final : TickTable} {state state' last : SwapState} {entry : SwapIteration}
      {entries : List SwapIteration} (holds : LoopInvariant context table state)
      (traverses : Traverses m context table state entry table' state')
      (holds' : LoopInvariant context table' state')
      (rest : Traversal m context table' state' entries final last) :
      Traversal m context table state (entry :: entries) final last

section Run

variable {m : Machine} {context : SwapContext} {table : TickTable} {state final : SwapState}
  {entries : List SwapIteration}

/-- Running the loop traverses segments. -/
theorem iterations_traversal (sound : context.Sound)
    (iterations : Iterations (swapContinues context) (swapIteration m context) state entries final)
    (holds : LoopInvariant context table state) :
    ∃ last, Traversal m context table state entries last final ∧
      LoopInvariant context last final := by
  induction iterations generalizing table with
  | done state => exact ⟨table, .done table state, holds⟩
  | step runs stepped _ ih =>
      obtain ⟨middle, traverses, holds'⟩ := swapIteration_traverses sound holds runs stepped
      obtain ⟨last, rest, ends⟩ := ih holds'
      exact ⟨last, .step holds traverses holds' rest, ends⟩

/-- A swap neither initializes a tick nor clears one. -/
theorem Traversal.initialized_eq {last : TickTable}
    (traversal : Traversal m context table state entries last final) (tick : ℤ) :
    (last tick).initialized = (table tick).initialized := by
  induction traversal with
  | done => rfl
  | step _ traverses _ _ ih => rw [ih, traverses.initialized_eq]

/-- A whole swap moves the tick in its direction. -/
theorem Traversal.onward {last : TickTable}
    (traversal : Traversal m context table state entries last final) :
    TickOnward context.aToB state.currTickIndex final.currTickIndex := by
  induction traversal with
  | done => cases aToB : context.aToB <;> exact le_refl _
  | step _ traverses _ _ ih => exact traverses.onward.trans ih

theorem Traversal.remaining_le (traversal : Traversal m context table state entries last final) :
    final.amountRemaining ≤ state.amountRemaining := by
  induction traversal with
  | done => exact le_refl _
  | step _ traverses _ _ ih => exact ih.trans (accountAmounts_le traverses.amounts)

end Run

/-- A pool with a table of ticks and a sequence of arrays carrying it, in which a swap
can be run. -/
structure Tradable (whirlpool : Whirlpool) (table : TickTable) (sequence : SwapTickSequence) :
    Prop where
  spacing : 0 < whirlpool.tickSpacing
  usable : table.UsableOnly whirlpool.tickSpacing
  place : PriceTick whirlpool.sqrtPrice whirlpool.tickCurrentIndex
  liquidity : whirlpool.liquidity < 2 ^ 128
  carried : sequence.Carries table whirlpool.tickSpacing

/-- The context of a swap whose rewards have been accrued. -/
def Whirlpool.swapContext (whirlpool : Whirlpool) (sqrtPriceLimit : ℕ)
    (amountSpecifiedIsInput aToB : Bool)
    (nextRewardInfos : Fin numRewards → WhirlpoolRewardInfo) : SwapContext :=
  ⟨whirlpool, sqrtPriceLimit, amountSpecifiedIsInput, aToB, nextRewardInfos⟩

section Context

variable (whirlpool : Whirlpool) (sqrtPriceLimit : ℕ) (amountSpecifiedIsInput aToB : Bool)
  (nextRewardInfos : Fin numRewards → WhirlpoolRewardInfo)

/-- The context of a swap has the direction of its instruction. -/
@[simp] theorem swapContext_aToB : (whirlpool.swapContext sqrtPriceLimit amountSpecifiedIsInput aToB
    nextRewardInfos).aToB = aToB := rfl

/-- The context of a swap has the kind of amount of its instruction. -/
@[simp] theorem swapContext_amountSpecifiedIsInput : (whirlpool.swapContext sqrtPriceLimit
    amountSpecifiedIsInput aToB nextRewardInfos).amountSpecifiedIsInput =
      amountSpecifiedIsInput := rfl

end Context

/-- What a swap that returns has done: it accrued the rewards and traversed segments. -/
structure Traded (m : Machine) (context : SwapContext) (table : TickTable)
    (sequence : SwapTickSequence) (amount : ℕ) (outcome : SwapOutcome) (last : TickTable)
    (final : SwapState) : Prop where
  sound : context.Sound
  starts : LoopInvariant context table (context.initialState sequence amount)
  traversal : Traversal m context table (context.initialState sequence amount) outcome.iterations
    last final
  ends : LoopInvariant context last final
  stops : swapContinues context final = false
  sequence : outcome.sequence = final.swapTickSequence
  update : context.postSwapUpdate m amount final = .ok outcome.update

/-- A swap that is not refused for its limit starts with the loop invariant. -/
theorem LoopInvariant.initial (context : SwapContext) (table : TickTable)
    (sequence : SwapTickSequence) {amount : ℕ}
    (tradable : Tradable context.whirlpool table sequence) (fits : amount < 2 ^ 64)
    (direction : ¬ ((context.aToB ∧ context.sqrtPriceLimit > context.whirlpool.sqrtPrice) ∨
      (¬ context.aToB ∧ context.sqrtPriceLimit < context.whirlpool.sqrtPrice))) :
    LoopInvariant context table (context.initialState sequence amount) := by
  refine ⟨tradable.carried, tradable.usable, tradable.place, ?_, tradable.liquidity, fits⟩
  unfold SwapContext.initialState
  cases aToB : context.aToB
  · simpa only [aToB, onward_false, Bool.false_eq_true, false_and, not_false_eq_true, true_and,
      false_or, not_lt] using direction
  · simpa only [aToB, onward_true, true_and, gt_iff_lt, not_true_eq_false, false_and, or_false,
      not_lt] using direction

/-- A swap that succeeds accrues the rewards and runs the loop to its end over the tick table of the
pool. -/
theorem swap_traded {m : Machine} {whirlpool : Whirlpool} {table : TickTable}
    {sequence : SwapTickSequence} {amount sqrtPriceLimit timestamp : ℕ}
    {amountSpecifiedIsInput aToB : Bool} {outcome : SwapOutcome}
    (tradable : Tradable whirlpool table sequence) (fits : amount < 2 ^ 64)
    (returned : swap m whirlpool sequence amount sqrtPriceLimit amountSpecifiedIsInput aToB
      timestamp = .ok outcome) :
    amount ≠ 0 ∧ ∃ rewardInfos, nextWhirlpoolRewardInfos whirlpool timestamp = .ok rewardInfos ∧
      ∃ last final, Traded m (whirlpool.swapContext sqrtPriceLimit amountSpecifiedIsInput aToB
        rewardInfos) table sequence amount outcome last final := by
  simp only [swap, guard_eq_ok, bind_eq_ok, Except.ok.injEq] at returned
  obtain ⟨bounds, direction, nonzero, rewardInfos, accrued, ⟨final, entries⟩, looped, update,
    posted, rfl⟩ := returned
  obtain ⟨iterations, stops⟩ := whileLogged_iterations looped
  simp only [not_or, not_lt, gt_iff_lt] at bounds
  have sound : (whirlpool.swapContext sqrtPriceLimit amountSpecifiedIsInput aToB
      rewardInfos).Sound := ⟨tradable.spacing, bounds⟩
  have starts := LoopInvariant.initial (whirlpool.swapContext sqrtPriceLimit
    amountSpecifiedIsInput aToB rewardInfos) table sequence tradable fits direction
  obtain ⟨last, traversal, ends⟩ := iterations_traversal sound iterations starts
  exact ⟨nonzero, rewardInfos, accrued, last, final, sound, starts, traversal, ends, stops, rfl,
    posted⟩

end Whirlpools
