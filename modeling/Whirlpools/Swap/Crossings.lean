import Whirlpools.Swap.Traversal

/-! # The ticks a swap crosses

Whatever arrays are supplied, a swap that succeeds crosses every initialized tick
its current tick passes, once and in price order, and no other tick. The liquidity
changes by their net liquidity, except that the least `i128` has no negation.
-/

namespace Whirlpools

open Outcome

/-- The ticks updated by a list of iterations, in order. -/
def crossings (entries : List SwapIteration) : List ℤ := entries.filterMap SwapIteration.crossed

/-- The order in which a trade meets ticks. -/
def MetBefore (aToB : Bool) (first second : ℤ) : Prop := if aToB then second <
    first else first < second

/-- The sign with which the net liquidity of a crossed tick counts. -/
def crossingSign (aToB : Bool) : ℤ := if aToB then -1 else 1

@[simp] theorem crossings_nil : crossings [] = [] := rfl

/-- The ticks of a log are those of its first entry and those of the rest. -/
theorem crossings_cons (entry : SwapIteration) (entries : List SwapIteration) :
    crossings (entry :: entries) = entry.crossed.toList ++ crossings entries := by
  unfold crossings
  cases crossed : entry.crossed with
  | none => rw [List.filterMap_cons_none crossed, Option.toList_none, List.nil_append]
  | some tick => rw [List.filterMap_cons_some crossed, Option.toList_some, List.singleton_append]

/-- A list of at most one tick is ordered. -/
private theorem option_pairwise {relation : ℤ → ℤ → Prop} (found : Option ℤ) :
    found.toList.Pairwise relation := by
  cases found with
  | none => exact List.Pairwise.nil
  | some tick => exact List.pairwise_singleton relation tick

section Liquidity

variable {m : Machine} {tick : Tick} {aToB : Bool} {liquidity next growthA growthB : ℕ}
  {rewardInfos : Fin numRewards → WhirlpoolRewardInfo} {update : TickUpdate}

/-- The liquidity beyond a tick, unless its net liquidity has no negation. -/
theorem calculateUpdate_liquidity
    (returned : calculateUpdate m tick aToB liquidity growthA growthB rewardInfos =
      .ok (update, next)) (bounded : -2 ^ 127 < tick.liquidityNet) :
    (next : ℤ) = liquidity + crossingSign aToB * tick.liquidityNet := by
  obtain ⟨-, signed, negated, added⟩ := calculateUpdate_eq_ok returned
  have exact := (addLiquidityDelta_eq_ok added).1
  unfold crossingSign
  cases aToB <;> simp only [Bool.false_eq_true, ↓reduceIte] at negated ⊢
  · rw [exact, ← Except.ok.inj negated, one_mul]
  · rcases m.plainNeg_eq negated with rfl | ⟨least, -⟩
    · rw [exact, neg_one_mul]
    · omega

end Liquidity

section Traversal

variable {m : Machine} {context : SwapContext} {table table' last : TickTable}
  {state state' final : SwapState} {entry : SwapIteration} {entries : List SwapIteration}

/-- The crossed ticks are the initialized ones passed by the current tick. -/
theorem Traversal.mem_crossings (traversal : Traversal m context table state entries last final)
    {tick : ℤ} : tick ∈ crossings entries ↔ (table tick).initialized = true ∧
      Passed context.aToB state.currTickIndex final.currTickIndex tick := by
  induction traversal with
  | done table state =>
      simp only [crossings_nil, List.not_mem_nil, false_iff, not_and]
      intro _
      cases aToB : context.aToB <;> simp only [Passed, Bool.false_eq_true, ↓reduceIte] <;> omega
  | step _ traverses _ rest ih =>
      rw [crossings_cons, List.mem_append, Option.mem_toList, ih,
        traverses.initialized_eq, passed_trans traverses.onward rest.onward]
      constructor
      · rintro (crossed | ⟨full, passed⟩)
        · have full := traverses.crossed_full crossed
          exact ⟨full, .inl ((traverses.passed_iff_crossed full).mpr crossed)⟩
        · exact ⟨full, .inr passed⟩
      · rintro ⟨full, passed | passed⟩
        · exact .inl ((traverses.passed_iff_crossed full).mp passed)
        · exact .inr ⟨full, passed⟩

/-- The crossed ticks are met in order, none of them twice. -/
theorem Traversal.crossings_pairwise
    (traversal : Traversal m context table state entries last final) :
    (crossings entries).Pairwise (MetBefore context.aToB) := by
  induction traversal with
  | done => exact List.Pairwise.nil
  | step _ traverses _ rest ih =>
      rw [crossings_cons, List.pairwise_append]
      refine ⟨?_, ih, ?_⟩
      · exact option_pairwise _
      · intro tick first other second
        rw [Option.mem_toList] at first
        have passed := (traverses.passed_iff_crossed (traverses.crossed_full first)).mpr first
        have later := (rest.mem_crossings.mp second).2
        unfold MetBefore
        cases aToB : context.aToB <;>
          simp only [aToB, Passed, Bool.false_eq_true, ↓reduceIte] at passed later ⊢ <;> omega

/-- A tick that an iteration does not cross keeps its content. -/
theorem Traverses.unchanged (step : Traverses m context table state entry table' state') {tick : ℤ}
    (uncrossed : entry.crossed ≠ some tick) : table' tick = table tick := by
  obtain ⟨-, -, -, same⟩ | ⟨-, -, -, -, same⟩ | ⟨-, -, crossed, -, same, -⟩ := step.arrives
  · rw [same]
  · rw [same]
  · rw [same, Function.update_of_ne]
    rintro rfl
    exact uncrossed crossed

/-- A tick that an iteration crosses is flipped. -/
theorem Traverses.flipped (step : Traverses m context table state entry table' state') {tick : ℤ}
    (crossed : entry.crossed = some tick) :
    table' tick = nextTickCrossUpdate (table tick)
      (crossingFeeGrowths context state'.currFeeGrowthGlobalInput).1
      (crossingFeeGrowths context state'.currFeeGrowthGlobalInput).2 context.nextRewardInfos := by
  obtain ⟨-, -, absent⟩ | ⟨-, -, absent⟩ | ⟨-, -, present, -, same, calculated⟩ := step.arrives
  · exact absurd (absent.symm.trans crossed) (by simp only [reduceCtorEq, not_false_eq_true])
  · exact absurd (absent.symm.trans crossed) (by simp only [reduceCtorEq, not_false_eq_true])
  · obtain rfl := Option.some.inj (present.symm.trans crossed)
    rw [same, Function.update_self, (calculateUpdate_eq_ok calculated).1]

/-- The net liquidity of every tick stays what it is. -/
theorem Traverses.liquidityNet_eq (step : Traverses m context table state entry table' state')
    (tick : ℤ) : (table' tick).liquidityNet = (table tick).liquidityNet := by
  by_cases crossed : entry.crossed = some tick
  · rw [step.flipped crossed]
    rfl
  · rw [step.unchanged crossed]

/-- Crossing a tick keeps its gross liquidity. -/
theorem Traverses.liquidityGross_eq (step : Traverses m context table state entry table' state')
    (tick : ℤ) : (table' tick).liquidityGross = (table tick).liquidityGross := by
  by_cases crossed : entry.crossed = some tick
  · rw [step.flipped crossed]
    rfl
  · rw [step.unchanged crossed]

/-- A tick that is not crossed is left as it was. -/
theorem Traversal.unchanged (traversal : Traversal m context table state entries last final)
    {tick : ℤ} (uncrossed : tick ∉ crossings entries) : last tick = table tick := by
  induction traversal with
  | done => rfl
  | step _ traverses _ _ ih =>
      rw [crossings_cons, List.mem_append, Option.mem_toList, not_or] at uncrossed
      rw [ih uncrossed.2, traverses.unchanged uncrossed.1]

/-- A crossed tick is flipped once. -/
theorem Traversal.flipped (traversal : Traversal m context table state entries last final)
    {tick : ℤ} (crossed : tick ∈ crossings entries) :
    ∃ growthA growthB, last tick =
      nextTickCrossUpdate (table tick) growthA growthB context.nextRewardInfos := by
  induction traversal with
  | done => exact absurd crossed List.not_mem_nil
  | @step table table' last state state' final entry entries _ traverses _ rest ih =>
      rw [crossings_cons, List.mem_append, Option.mem_toList] at crossed
      by_cases here : entry.crossed = some tick
      · have passed := (traverses.passed_iff_crossed (traverses.crossed_full here)).mpr here
        have never : tick ∉ crossings entries := by
          intro again
          have later := (rest.mem_crossings.mp again).2
          cases aToB : context.aToB <;>
            simp only [aToB, Passed, Bool.false_eq_true, ↓reduceIte] at passed later <;> omega
        rw [rest.unchanged never, traverses.flipped here]
        exact ⟨_, _, rfl⟩
      · obtain ⟨growthA, growthB, flipped⟩ := ih (crossed.resolve_left here)
        rw [flipped, traverses.unchanged here]
        exact ⟨_, _, rfl⟩

/-- The arrays of a swap stay at their places. -/
theorem Traversal.starts (traversal : Traversal m context table state entries last final) :
    final.swapTickSequence.arrays.map TickArray.startTickIndex =
      state.swapTickSequence.arrays.map TickArray.startTickIndex := by
  induction traversal with
  | done => rfl
  | step _ traverses _ _ ih => rw [ih, traverses.starts]

/-- Crossed ticks lie in the supplied arrays. -/
theorem Traversal.window (traversal : Traversal m context table state entries last final)
    {tick : ℤ} (crossed : tick ∈ crossings entries) :
    ∃ array ∈ state.swapTickSequence.arrays, array.startTickIndex ≤ tick ∧
      tick < array.startTickIndex + arrayWidth context.whirlpool.tickSpacing := by
  induction traversal with
  | done => exact absurd crossed List.not_mem_nil
  | @step table table' last state state' final entry entries _ traverses _ rest ih =>
      rw [crossings_cons, List.mem_append, Option.mem_toList] at crossed
      rcases crossed with here | later
      · obtain ⟨-, -, absent⟩ | ⟨-, -, absent⟩ | ⟨-, -, given⟩ := traverses.arrives
        · exact absurd (absent.symm.trans here) (by simp only [reduceCtorEq, not_false_eq_true])
        · exact absurd (absent.symm.trans here) (by simp only [reduceCtorEq, not_false_eq_true])
        · obtain rfl := Option.some.inj (given.symm.trans here)
          exact traverses.window
      · obtain ⟨array, member, inside⟩ := ih later
        have start := List.mem_map_of_mem (f := TickArray.startTickIndex) member
        rw [traverses.starts] at start
        obtain ⟨other, present, same⟩ := List.mem_map.mp start
        exact ⟨other, present, same ▸ inside⟩

/-- The liquidity after an iteration. -/
theorem Traverses.liquidity_eq (step : Traverses m context table state entry table' state')
    (bounded : ∀ tick, (table tick).initialized = true → -2 ^ 127 < (table tick).liquidityNet) :
    (state'.currLiquidity : ℤ) = state.currLiquidity + crossingSign context.aToB *
      (entry.crossed.toList.map fun tick => (table tick).liquidityNet).sum := by
  rw [← step.liquidity]
  obtain ⟨-, -, absent, -, same⟩ | ⟨-, -, absent, -, -, same⟩ | ⟨-, full, present, -,
    -, calculated⟩ :=
    step.arrives
  · simp only [absent, same, Option.toList_none, List.map_nil, List.sum_nil, mul_zero, add_zero]
  · simp only [absent, same, Option.toList_none, List.map_nil, List.sum_nil, mul_zero, add_zero]
  · rw [calculateUpdate_liquidity calculated (bounded _ full)]
    simp only [present, Option.toList_some, List.map_cons, List.map_nil, List.sum_cons,
      List.sum_nil, add_zero]

/-- The liquidity at the end is that at the start with the net liquidity of the ticks crossed, in
the direction of the swap. -/
theorem Traversal.liquidity_eq (traversal : Traversal m context table state entries last final)
    (bounded : ∀ tick, (table tick).initialized = true → -2 ^ 127 < (table tick).liquidityNet) :
    (final.currLiquidity : ℤ) = state.currLiquidity + crossingSign context.aToB *
      ((crossings entries).map fun tick => (table tick).liquidityNet).sum := by
  induction traversal with
  | done => simp only [crossings_nil, List.map_nil, List.sum_nil, mul_zero, add_zero]
  | step _ traverses _ _ ih =>
      have rest := ih fun tick full => by
        rw [traverses.liquidityNet_eq]
        exact bounded tick (traverses.initialized_eq tick ▸ full)
      simp only [traverses.liquidityNet_eq] at rest
      rw [rest, traverses.liquidity_eq bounded, crossings_cons, List.map_append, List.sum_append]
      ring

end Traversal

/-- A swap whose updated ticks are exactly the initialized ticks between its first and
its last tick, each flipped once and in price order, with the liquidity to match. -/
structure CrossesExactly (whirlpool : Whirlpool) (table : TickTable) (sequence : SwapTickSequence)
    (aToB : Bool) (outcome : SwapOutcome) : Prop where
  exactly : ∀ tick, tick ∈ crossings outcome.iterations ↔ (table tick).initialized = true ∧
    Passed aToB whirlpool.tickCurrentIndex outcome.update.nextTickIndex tick
  ordered : (crossings outcome.iterations).Pairwise (MetBefore aToB)
  changed : ∃ table' rewardInfos, outcome.sequence.Carries table' whirlpool.tickSpacing ∧
    outcome.sequence.arrays.map TickArray.startTickIndex =
      sequence.arrays.map TickArray.startTickIndex ∧
    (∀ tick, tick ∉ crossings outcome.iterations → table' tick = table tick) ∧
    ∀ tick, tick ∈ crossings outcome.iterations → ∃ growthA growthB,
      table' tick = nextTickCrossUpdate (table tick) growthA growthB rewardInfos
  liquidity : (outcome.update.nextLiquidity : ℤ) = whirlpool.liquidity + crossingSign aToB *
    ((crossings outcome.iterations).map fun tick => (table tick).liquidityNet).sum

/-- What a finished swap reports is what its loop ended with. -/
theorem postSwapUpdate_eq_ok {m : Machine} {context : SwapContext} {amount : ℕ} {state : SwapState}
    {update : PostSwapUpdate} (returned : context.postSwapUpdate m amount state = .ok update) :
    update.nextLiquidity = state.currLiquidity ∧ update.nextTickIndex = state.currTickIndex ∧
      update.nextSqrtPrice = state.currSqrtPrice ∧
      update.nextFeeGrowthGlobal = state.currFeeGrowthGlobalInput ∧
      update.nextRewardInfos = context.nextRewardInfos ∧
      update.nextProtocolFee = state.currProtocolFee := by
  simp only [SwapContext.postSwapUpdate, bind_eq_ok, Except.ok.injEq] at returned
  obtain ⟨used, -, growth, -, rfl⟩ := returned
  exact ⟨rfl, rfl, rfl, rfl, rfl, rfl⟩

/-- Whatever tick arrays are supplied, a swap crosses exactly the initialized ticks it passes. -/
theorem swap_crossesExactly {m : Machine} {whirlpool : Whirlpool} {table : TickTable}
    {sequence : SwapTickSequence} {amount : UInt64} {sqrtPriceLimit timestamp : ℕ}
    {amountSpecifiedIsInput aToB : Bool} {outcome : SwapOutcome}
    (tradable : Tradable whirlpool table sequence)
    (bounded : ∀ tick, (table tick).initialized = true → -2 ^ 127 < (table tick).liquidityNet)
    (returned : swap m whirlpool sequence amount.toNat sqrtPriceLimit amountSpecifiedIsInput aToB
      timestamp = .ok outcome) :
    CrossesExactly whirlpool table sequence aToB outcome := by
  obtain ⟨-, rewardInfos, -, last, final, traded⟩ :=
    swap_traded tradable amount.toNat_lt returned
  obtain ⟨liquidity, tick, -⟩ := postSwapUpdate_eq_ok traded.update
  refine ⟨fun other => ?_, traded.traversal.crossings_pairwise, ⟨last, rewardInfos, ?_, ?_,
    fun other uncrossed => traded.traversal.unchanged uncrossed,
    fun other crossed => traded.traversal.flipped crossed⟩, ?_⟩
  · rw [tick]
    exact traded.traversal.mem_crossings
  · rw [traded.sequence]
    exact traded.ends.carried
  · rw [traded.sequence]
    exact traded.traversal.starts
  · rw [liquidity]
    exact traded.traversal.liquidity_eq bounded

/-- A pool of spacing one at the price of a tick, without fees. -/
def poolAtTick (tick : ℤ) (liquidity : ℕ) : Whirlpool :=
  { Whirlpool.zeroed with
    tickSpacing := 1
    liquidity := liquidity
    sqrtPrice := sqrtPriceFromTickIndex tick
    tickCurrentIndex := tick }

/-- A table with a single initialized tick. -/
def singleTick (index : ℤ) (liquidityNet : ℤ) (liquidityGross : ℕ) : TickTable := fun tick =>
  if tick = index then
    { Tick.default with
      initialized := true
      liquidityNet := liquidityNet
      liquidityGross := liquidityGross }
  else Tick.default

/-- The table of one usable tick has usable ticks only. -/
theorem singleTick_usable {index net : ℤ} {gross tickSpacing : ℕ}
    (usable : Tick.checkIsUsableTick index tickSpacing = true) :
    (singleTick index net gross).UsableOnly tickSpacing := by
  intro tick initialized
  unfold singleTick at initialized
  split_ifs at initialized with here
  · exact here ▸ usable
  · exact absurd initialized (by decide)

/-- A pool with a single tick in its array satisfies all that a swap needs. -/
theorem poolAtTick_tradable {tick index net : ℤ} {liquidity gross : ℕ}
    (above : minTickIndex ≤ tick) (below : tick ≤ maxTickIndex) (fits : liquidity < 2 ^ 128)
    (usable : Tick.checkIsUsableTick index 1 = true) :
    Tradable (poolAtTick tick liquidity) (singleTick index net gross)
      ⟨[(singleTick index net gross).arrayAt 1 0]⟩ where
  spacing := Nat.one_pos
  usable := singleTick_usable usable
  place := by
    have place := (PriceTick.of_tick above below).1
    rwa [tickPrice_of_range above below] at place
  liquidity := fits
  carried := TickTable.carries_single _ (show Tick.checkIsValidStartTick 0 1 = true by decide)

/-- Crossing tick 5 from right to left adds the liquidity it takes away on its right. -/
theorem swap_crossesExactly_leftward : ∃ outcome,
    swap (.exact false) (poolAtTick 8 0) ⟨[(singleTick 5 (-7) 7).arrayAt 1 0]⟩
        (1000 : UInt64).toNat (sqrtPriceFromTickIndex 3) true true 0 = .ok outcome ∧
      crossings outcome.iterations = [5] ∧
      CrossesExactly (poolAtTick 8 0) (singleTick 5 (-7) 7) ⟨[(singleTick 5 (-7) 7).arrayAt 1 0]⟩
        true outcome := by
  have ran : yields (swap (.exact false) (poolAtTick 8 0) ⟨[(singleTick 5 (-7) 7).arrayAt 1 0]⟩
      (1000 : UInt64).toNat (sqrtPriceFromTickIndex 3) true true 0)
      (fun outcome => crossings outcome.iterations == [5]) = true := by decide +kernel
  obtain ⟨outcome, returned, crossed⟩ := yields_iff.mp ran
  refine ⟨outcome, returned, eq_of_beq crossed, ?_⟩
  refine swap_crossesExactly (poolAtTick_tradable (by decide) (by decide) (by decide) (by decide))
    (fun tick initialized => ?_) returned
  unfold singleTick
  split_ifs <;> decide

/-- Every swap on a pool that satisfies a further condition crosses exactly the
initialized ticks it passes. -/
def CrossesExactlyUnder (condition : Whirlpool → TickTable → Prop) : Prop :=
  ∀ (m : Machine) (whirlpool : Whirlpool) (table : TickTable) (sequence : SwapTickSequence)
    (amount : UInt64) (sqrtPriceLimit timestamp : ℕ) (amountSpecifiedIsInput aToB : Bool)
    (outcome : SwapOutcome),
    0 < whirlpool.tickSpacing → table.UsableOnly whirlpool.tickSpacing →
    whirlpool.liquidity < 2 ^ 128 → sequence.Carries table whirlpool.tickSpacing →
    (minSqrtPriceX64 ≤ whirlpool.sqrtPrice ∧ whirlpool.sqrtPrice ≤ maxSqrtPriceX64) →
    (minTickIndex ≤ whirlpool.tickCurrentIndex →
      sqrtPriceFromTickIndex whirlpool.tickCurrentIndex ≤ whirlpool.sqrtPrice) →
    (whirlpool.tickCurrentIndex < maxTickIndex →
      whirlpool.sqrtPrice ≤ sqrtPriceFromTickIndex (whirlpool.tickCurrentIndex + 1)) →
    condition whirlpool table →
    swap m whirlpool sequence amount.toNat sqrtPriceLimit amountSpecifiedIsInput aToB timestamp =
      .ok outcome →
    CrossesExactly whirlpool table sequence aToB outcome

/-- Neither bound can be left out: the least `i128` as net liquidity is subtracted
instead of added where overflow is not checked, and a current tick out of range finds
ticks on the wrong side of the price. -/
theorem not_crossesExactlyUnder :
    ¬ CrossesExactlyUnder (fun whirlpool _ => minTickIndex - 1 ≤ whirlpool.tickCurrentIndex ∧
      whirlpool.tickCurrentIndex ≤ maxTickIndex) ∧
    ¬ CrossesExactlyUnder (fun _ table => ∀ tick, (table tick).initialized = true →
      -2 ^ 127 < (table tick).liquidityNet) := by
  constructor
  · intro claimed
    have ran : yields (swap (.exact false) (poolAtTick 5 (2 ^ 127))
        ⟨[(singleTick 5 (-2 ^ 127) (2 ^ 127)).arrayAt 1 0]⟩ (1 : UInt64).toNat
        (sqrtPriceFromTickIndex 3) true true 0)
        (fun outcome => crossings outcome.iterations == [5] && outcome.update.nextLiquidity == 0) =
          true := by decide +kernel
    obtain ⟨outcome, returned, found⟩ := yields_iff.mp ran
    rw [Bool.and_eq_true, beq_iff_eq, beq_iff_eq] at found
    have tradable : Tradable (poolAtTick 5 (2 ^ 127)) (singleTick 5 (-2 ^ 127) (2 ^ 127)) _ :=
      poolAtTick_tradable (by decide) (by decide) (by decide) (by decide)
    have exact := (claimed _ _ _ _ _ _ _ _ _ outcome tradable.spacing tradable.usable
      tradable.liquidity tradable.carried ⟨tradable.place.priceAbove, tradable.place.priceBelow⟩
      tradable.place.lower tradable.place.upper
      ⟨tradable.place.tickAbove, tradable.place.tickBelow⟩ returned).liquidity
    rw [found.1, found.2] at exact
    exact absurd exact (by decide)
  · intro claimed
    let whirlpool : Whirlpool := { Whirlpool.zeroed with
      tickSpacing := 32768
      liquidity := 10 ^ 12
      sqrtPrice := 2 ^ 64
      tickCurrentIndex := 524288 }
    have ran : yields (swap (.exact false) whirlpool ⟨[(singleTick 425984 7 7).arrayAt 32768 0]⟩
        (1000 : UInt64).toNat minSqrtPriceX64 true true 0)
        (fun outcome => crossings outcome.iterations == [] && outcome.update.nextTickIndex == -1) =
          true := by decide +kernel
    obtain ⟨outcome, returned, found⟩ := yields_iff.mp ran
    rw [Bool.and_eq_true, beq_iff_eq, beq_iff_eq] at found
    have exact := (claimed _ whirlpool (singleTick 425984 7 7) _ _ _ _ _ _ outcome (by decide)
      (singleTick_usable (by decide)) (by decide)
      (TickTable.carries_single _
        (show Tick.checkIsValidStartTick 0 32768 = true by decide)) (by decide) (by decide)
      (by decide) (fun tick _ => by unfold singleTick; split_ifs <;> decide) returned).exactly
        425984
    rw [found.1, found.2] at exact
    exact absurd (exact.mpr ⟨by decide, by unfold Passed; decide⟩) List.not_mem_nil

end Whirlpools
