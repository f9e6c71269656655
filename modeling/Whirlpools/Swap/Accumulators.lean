import Whirlpools.Foundation.Agreement
import Whirlpools.Swap.Steps

/-! # A swap does not read the growth of fees

The accumulators of a pool and the growths stored at its ticks are written by a swap and never read
for anything else. So a swap runs the same from any growths, and adds the same growth to them.
-/

namespace Whirlpools

open Outcome

/-- A tick with the fee growths on its other side forgotten. -/
def Tick.withoutFees (tick : Tick) : Tick :=
  { tick with feeGrowthOutsideA := 0, feeGrowthOutsideB := 0 }

namespace TickArray

variable {array : TickArray} {tickSpacing : ℕ} {aToB : Bool} {tickIndex : ℤ}

def withoutFees (array : TickArray) : TickArray :=
  { array with ticks := fun position => (array.ticks position).withoutFees }

/-- Reading a tick commutes with forgetting its fee growth. -/
theorem tick_withoutFees (offset : ℤ) :
    array.withoutFees.tick offset = (array.tick offset).withoutFees := by
  unfold tick
  split_ifs <;> rfl

/-- The scan of an array reads only which ticks are initialized. -/
theorem scanOffsets_withoutFees (fuel : ℕ) (offset : ℤ) :
    array.withoutFees.scanOffsets tickSpacing aToB fuel offset =
      array.scanOffsets tickSpacing aToB fuel offset := by
  induction fuel generalizing offset with
  | zero => rfl
  | succ fuel ih =>
      simp only [scanOffsets, tick_withoutFees, ih]
      rfl

/-- So the next tick that an array finds does not depend on the fee growths. -/
theorem getNextInitTickIndex_withoutFees :
    array.withoutFees.getNextInitTickIndex tickIndex tickSpacing aToB =
      array.getNextInitTickIndex tickIndex tickSpacing aToB := by
  simp only [getNextInitTickIndex, scanOffsets_withoutFees]
  rfl

/-- What is read of an array without fees is a tick without fees. -/
theorem getTick_withoutFees :
    array.withoutFees.getTick tickIndex tickSpacing =
      (array.getTick tickIndex tickSpacing).map Tick.withoutFees := by
  change (array.findTick tickIndex tickSpacing >>= _) = _
  unfold getTick
  cases array.findTick tickIndex tickSpacing with
  | error failure => rfl
  | ok offset => exact congrArg Except.ok (tick_withoutFees offset)

/-- Writing a tick commutes with forgetting the fee growths. -/
theorem updateTick_withoutFees {update : TickUpdate} :
    array.withoutFees.updateTick tickIndex tickSpacing update.withoutFees =
      (array.updateTick tickIndex tickSpacing update).map withoutFees := by
  change (array.findTick tickIndex tickSpacing >>= _) = _
  unfold updateTick
  cases array.findTick tickIndex tickSpacing with
  | error failure => rfl
  | ok offset =>
      refine congrArg Except.ok ?_
      simp only [withoutFees, TickArray.mk.injEq, true_and]
      funext position
      split_ifs <;> rfl

end TickArray

namespace SwapTickSequence

variable {sequence sequence' : SwapTickSequence} {arrayIndex tickSpacing : ℕ} {aToB : Bool}
  {tickIndex : ℤ}

def withoutFees (sequence : SwapTickSequence) : SwapTickSequence :=
  ⟨sequence.arrays.map TickArray.withoutFees⟩

/-- Choosing an array of the sequence commutes with forgetting the fee growths. -/
theorem getArray_withoutFees :
    sequence.withoutFees.getArray arrayIndex =
      (sequence.getArray arrayIndex).map TickArray.withoutFees := by
  unfold getArray withoutFees
  rw [List.getElem?_map]
  cases sequence.arrays[arrayIndex]? <;> rfl

/-- The search over the arrays does not depend on the fee growths, array by array. -/
theorem searchArrays_withoutFees (arrays : List TickArray) (index : ℕ) :
    searchArrays tickSpacing aToB (arrays.map TickArray.withoutFees) index tickIndex =
      searchArrays tickSpacing aToB arrays index tickIndex := by
  induction arrays generalizing index tickIndex with
  | nil => rfl
  | cons array rest ih =>
      simp only [List.map_cons, searchArrays, TickArray.getNextInitTickIndex_withoutFees, ih,
        List.map_eq_nil_iff]
      rfl

theorem getNextInitializedTickIndex_withoutFees {cursor : ℕ} :
    sequence.withoutFees.getNextInitializedTickIndex tickIndex tickSpacing aToB cursor =
      sequence.getNextInitializedTickIndex tickIndex tickSpacing aToB cursor := by
  unfold getNextInitializedTickIndex withoutFees
  rw [← List.map_drop]
  exact searchArrays_withoutFees _ _

/-- The place of a tick in its array does not depend on the fee growths. -/
theorem getTickOffset_withoutFees :
    sequence.withoutFees.getTickOffset arrayIndex tickIndex tickSpacing =
      sequence.getTickOffset arrayIndex tickIndex tickSpacing := by
  unfold getTickOffset
  rw [getArray_withoutFees]
  cases sequence.getArray arrayIndex <;> rfl

/-- Reading a tick of the sequence commutes with forgetting its fee growth. -/
theorem getTick_withoutFees :
    sequence.withoutFees.getTick arrayIndex tickIndex tickSpacing =
      (sequence.getTick arrayIndex tickIndex tickSpacing).map Tick.withoutFees := by
  unfold getTick
  rw [getArray_withoutFees]
  cases sequence.getArray arrayIndex with
  | error failure => rfl
  | ok array => exact TickArray.getTick_withoutFees

/-- Writing a tick commutes with forgetting the fee growths. -/
theorem updateTick_withoutFees {update : TickUpdate} :
    sequence.withoutFees.updateTick arrayIndex tickIndex tickSpacing update.withoutFees =
      (sequence.updateTick arrayIndex tickIndex tickSpacing update).map withoutFees := by
  unfold updateTick
  rw [getArray_withoutFees]
  cases sequence.getArray arrayIndex with
  | error failure => rfl
  | ok array =>
      simp only [Except.map, ok_bind, TickArray.updateTick_withoutFees]
      cases array.updateTick tickIndex tickSpacing update with
      | error failure => rfl
      | ok updated =>
          simp only [ok_bind, withoutFees, List.map_set]

end SwapTickSequence

/-- The same pool with other accumulators of fee growth. -/
def Whirlpool.withFeeGrowths (whirlpool : Whirlpool) (feeGrowthGlobalA feeGrowthGlobalB : ℕ) :
    Whirlpool :=
  { whirlpool with feeGrowthGlobalA := feeGrowthGlobalA, feeGrowthGlobalB := feeGrowthGlobalB }

def SwapContext.withFeeGrowths (context : SwapContext) (feeGrowthGlobalA feeGrowthGlobalB : ℕ) :
    SwapContext :=
  { context with whirlpool := context.whirlpool.withFeeGrowths feeGrowthGlobalA feeGrowthGlobalB }

/-- The variables of the loop with all fee growths forgotten. -/
def SwapState.withoutFees (state : SwapState) : SwapState :=
  { state with
    currFeeGrowthGlobalInput := 0
    swapTickSequence := state.swapTickSequence.withoutFees }

section Loop

variable {m : Machine} {context : SwapContext} {state state' : SwapState} (growthA growthB : ℕ)

/-- Crossing a tick reads only its net liquidity. -/
theorem calculateUpdate_alike {tick tick' : Tick} {aToB : Bool} {liquidity : ℕ}
    {rewardInfos : Fin numRewards → WhirlpoolRewardInfo}
    (same : tick.withoutFees = tick'.withoutFees)
    (feeGrowthA feeGrowthB feeGrowthA' feeGrowthB' : ℕ) :
    Agree (fun crossed crossed' => crossed.1.withoutFees = crossed'.1.withoutFees ∧
        crossed.2 = crossed'.2)
      (calculateUpdate m tick aToB liquidity feeGrowthA feeGrowthB rewardInfos)
      (calculateUpdate m tick' aToB liquidity feeGrowthA' feeGrowthB' rewardInfos) := by
  simp only [Tick.withoutFees, Tick.mk.injEq, true_and] at same
  obtain ⟨initialized, net, gross, rewards⟩ := same
  unfold calculateUpdate
  rw [net]
  refine .bind_same fun signed _ => ?_
  refine .bind_same fun nextLiquidity _ => .ok ⟨?_, rfl⟩
  simp only [nextTickCrossUpdate, Tick.withoutFees, initialized, net, gross, rewards]

/-- Crossing a tick from states that differ in fee growths alone succeeds or fails alike, with the
same liquidity after it. -/
theorem crossTick_alike {arrayIndex : ℕ} {tick : ℤ} (same : state.withoutFees = state'.withoutFees)
    (growth growth' : ℕ) :
    Agree (fun crossed crossed' => crossed.1 = crossed'.1 ∧
        crossed.2.1.withoutFees = crossed'.2.1.withoutFees ∧ crossed.2.2 = crossed'.2.2)
      (crossTick m context state arrayIndex tick growth)
      (crossTick m (context.withFeeGrowths growthA growthB) state' arrayIndex tick growth') := by
  have liquid := congrArg SwapState.currLiquidity same
  have arrays := congrArg SwapState.swapTickSequence same
  dsimp only [SwapState.withoutFees] at liquid arrays
  have read : Agree (fun full full' => full.withoutFees = full'.withoutFees)
      (state.swapTickSequence.getTick arrayIndex tick context.whirlpool.tickSpacing)
      (state'.swapTickSequence.getTick arrayIndex tick
        (context.withFeeGrowths growthA growthB).whirlpool.tickSpacing) := by
    refine .of_map_eq ?_
    rw [← SwapTickSequence.getTick_withoutFees, arrays]
    exact SwapTickSequence.getTick_withoutFees
  unfold crossTick
  revert read
  generalize state.swapTickSequence.getTick arrayIndex tick context.whirlpool.tickSpacing = found
  generalize state'.swapTickSequence.getTick arrayIndex tick
    (context.withFeeGrowths growthA growthB).whirlpool.tickSpacing = found'
  intro read
  cases read with
  | error => exact .ok ⟨liquid, arrays, rfl⟩
  | @ok full full' alike =>
      have initialized : full.initialized = full'.initialized := by
        simp only [Tick.withoutFees, Tick.mk.injEq] at alike
        exact alike.1
      refine .ite (by rw [initialized]) (fun _ => ?_) fun _ => .ok ⟨liquid, arrays, rfl⟩
      rw [liquid]
      refine .bind (calculateUpdate_alike alike _ _ _ _) fun crossed crossed' _ updates => ?_
      have written : Agree (fun sequence sequence' => sequence.withoutFees = sequence'.withoutFees)
          (state.swapTickSequence.updateTick arrayIndex tick context.whirlpool.tickSpacing
            crossed.1)
          (state'.swapTickSequence.updateTick arrayIndex tick
            (context.withFeeGrowths growthA growthB).whirlpool.tickSpacing crossed'.1) := by
        refine .of_map_eq ?_
        rw [← SwapTickSequence.updateTick_withoutFees, arrays, updates.1]
        exact SwapTickSequence.updateTick_withoutFees
      exact .bind written fun sequence sequence' _ same => .ok ⟨updates.2, same, rfl⟩

/-- The growth before an iteration decides nothing but the growth after it. -/
theorem calculateFees_alike {feeAmount protocolFeeRate liquidity protocolFee : ℕ}
    (growth growth' : ℕ) :
    Agree (fun fees fees' => fees.1 = fees'.1 ∧ fees.2.2 = fees'.2.2)
      (calculateFees m feeAmount protocolFeeRate liquidity protocolFee growth)
      (calculateFees m feeAmount protocolFeeRate liquidity protocolFee growth') := by
  refine .bind_same fun shares _ => ?_
  exact .ok ⟨rfl, rfl⟩

/-- An iteration of a swap is the same from other fee growths, and adds as much to them. -/
theorem swapIteration_alike (same : state.withoutFees = state'.withoutFees) :
    Agree (fun stepped stepped' => stepped.1.withoutFees = stepped'.1.withoutFees ∧
        stepped.2.feeGrowthDelta = stepped'.2.feeGrowthDelta)
      (swapIteration m context state)
      (swapIteration m (context.withFeeGrowths growthA growthB) state') := by
  have arrays := congrArg SwapState.swapTickSequence same
  dsimp only [SwapState.withoutFees] at arrays
  have crosses (arrayIndex : ℕ) (tick : ℤ) (growth growth' : ℕ) :=
    @crossTick_alike m context state state' growthA growthB arrayIndex tick same growth growth'
  obtain ⟨remaining, calculated, price, tickIndex, liquidity, protocolFee, arrayIndex, growth,
    sequence⟩ := state
  obtain ⟨remaining', calculated', price', tickIndex', liquidity', protocolFee', arrayIndex',
    growth', sequence'⟩ := state'
  simp only [SwapState.withoutFees, SwapState.mk.injEq, true_and] at same
  obtain ⟨rfl, rfl, rfl, rfl, rfl, rfl, rfl, -⟩ := same
  unfold swapIteration
  dsimp only [SwapContext.withFeeGrowths, Whirlpool.withFeeGrowths] at arrays crosses ⊢
  rw [← SwapTickSequence.getNextInitializedTickIndex_withoutFees, arrays,
    SwapTickSequence.getNextInitializedTickIndex_withoutFees]
  refine .bind_same fun found _ => ?_
  refine .bind_same fun computation _ => ?_
  refine .bind_same fun amounts _ => ?_
  refine .bind (calculateFees_alike growth growth') fun fees fees' _ charged => ?_
  obtain ⟨owed, grown, share, delta⟩ := fees
  obtain ⟨owed', grown', share', delta'⟩ := fees'
  obtain ⟨rfl, equal⟩ := charged
  obtain ⟨rfl, rfl⟩ := Prod.mk.inj equal
  refine .ite Iff.rfl (fun _ => ?_) fun _ => .ite Iff.rfl (fun _ => .ok ⟨?_, rfl⟩)
    fun _ => .ok ⟨?_, rfl⟩
  · refine .bind (crosses _ _ _ _) fun crossed crossed' _ alike => ?_
    have offset (arrayIndex : ℕ) (tick : ℤ) :
        crossed.2.1.getTickOffset arrayIndex tick context.whirlpool.tickSpacing =
          crossed'.2.1.getTickOffset arrayIndex tick context.whirlpool.tickSpacing := by
      rw [← SwapTickSequence.getTickOffset_withoutFees, alike.2.1,
        SwapTickSequence.getTickOffset_withoutFees]
    dsimp only
    rw [offset]
    refine .bind_same fun located _ => ?_
    refine .ok ⟨?_, rfl⟩
    simp only [SwapState.withoutFees, alike.1, alike.2.1]
    rfl
  · simp only [SwapState.withoutFees, arrays]
  · simp only [SwapState.withoutFees, arrays]

end Loop

/-- Without overflow checks a plain subtraction returns something. -/
theorem Machine.plainSub_agree (m : Machine) (width a b a' b' : ℕ) :
    Agree (fun _ _ => True) ({ m with overflowChecks := false }.plainSub width a b)
      ({ m with overflowChecks := false }.plainSub width a' b') := by
  simp only [plainSub, Bool.false_eq_true, if_false]
  split_ifs <;> constructor <;> trivial

/-- A swap without overflow checks is the same from other accumulators: it fails with them or adds
the same growths to them. -/
theorem swap_alike (m : Machine) (whirlpool : Whirlpool) (growthA growthB : ℕ)
    (sequence : SwapTickSequence) (amount sqrtPriceLimit timestamp : ℕ)
    (amountSpecifiedIsInput aToB : Bool) :
    Agree (fun outcome outcome' => List.Forall₂
        (fun entry entry' => entry.feeGrowthDelta = entry'.feeGrowthDelta)
        outcome.iterations outcome'.iterations)
      (swap { m with overflowChecks := false } whirlpool sequence amount sqrtPriceLimit
        amountSpecifiedIsInput aToB timestamp)
      (swap { m with overflowChecks := false } (whirlpool.withFeeGrowths growthA growthB) sequence
        amount sqrtPriceLimit amountSpecifiedIsInput aToB timestamp) := by
  refine .guard Iff.rfl fun _ => .guard Iff.rfl fun _ => .guard Iff.rfl fun _ => ?_
  refine .bind_same fun rewardInfos _ => ?_
  have each (state state' : SwapState) (same : state.withoutFees = state'.withoutFees) :=
    @swapIteration_alike { m with overflowChecks := false }
      (whirlpool.swapContext sqrtPriceLimit amountSpecifiedIsInput aToB rewardInfos) state state'
      growthA growthB same
  refine .bind (.whileLogged (fun state state' => state.withoutFees = state'.withoutFees)
    (fun entry entry' => entry.feeGrowthDelta = entry'.feeGrowthDelta) (fun state state' same => ?_)
    (fun state state' same _ => each state state' same) _ rfl) fun looped looped' _ alike => ?_
  · have remaining := congrArg SwapState.amountRemaining same
    have price := congrArg SwapState.currSqrtPrice same
    dsimp only [SwapState.withoutFees] at remaining price
    simp only [swapContinues, remaining, price]
  · have posted : Agree (fun _ _ => True) (SwapContext.postSwapUpdate
          { m with overflowChecks := false }
          (whirlpool.swapContext sqrtPriceLimit amountSpecifiedIsInput aToB rewardInfos) amount
          looped.1)
        (SwapContext.postSwapUpdate { m with overflowChecks := false }
          ((whirlpool.withFeeGrowths growthA growthB).swapContext sqrtPriceLimit
            amountSpecifiedIsInput aToB rewardInfos) amount looped'.1) :=
      .bind (m.plainSub_agree _ _ _ _ _) fun _ _ _ _ => .bind (m.plainSub_agree _ _ _ _ _)
        fun _ _ _ _ => .ok trivial
    exact .bind posted fun _ _ _ _ => .ok alike.2

end Whirlpools
