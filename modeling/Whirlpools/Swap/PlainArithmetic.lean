import Whirlpools.Accounting.SwapSteps
import Whirlpools.Swap.Accumulators

/-! # The unchecked arithmetic of a swap

Plain arithmetic is the same in every build as long as it neither over- nor
underflows. In a swap it does not, except for one operation: the growth of the fees is
added with wrapping, and the difference that is logged afterwards is subtracted without. That
difference underflows from a threshold of the accumulator on, which the accumulators do not decide.
-/

namespace Whirlpools

open Outcome Ledger

section Operations

variable {m : Machine}

/-- The share of the protocol never exceeds the fee it is taken from. -/
theorem calculateFees_overflowChecks (checks : Bool) {protocolFeeRate : ℕ}
    (rate : protocolFeeRate ≤ maxProtocolFeeRate)
    (feeAmount liquidity protocolFee growth : ℕ) :
    calculateFees { m with overflowChecks := checks } feeAmount protocolFeeRate liquidity
      protocolFee growth = calculateFees m feeAmount protocolFeeRate liquidity
        protocolFee growth := by
  have split : splitFee { m with overflowChecks := checks } feeAmount protocolFeeRate =
      splitFee m feeAmount protocolFeeRate := by
    unfold splitFee
    split_ifs
    · refine bind_congr fun share computed => ?_
      have small : share ≤ feeAmount := by
        unfold calculateProtocolFee at computed
        dsimp only at computed
        split_ifs at computed
        rw [← Except.ok.inj computed]
        unfold maxProtocolFeeRate at rate
        unfold protocolFeeRateMulValue
        refine Nat.div_le_of_le_mul ?_
        rw [Nat.mul_comm]
        exact Nat.mul_le_mul_right _ (by omega)
      rw [Machine.plainSub_of_le _ small, Machine.plainSub_of_le _ small]
    · rfl
  unfold calculateFees
  rw [split]

/-- Within the range of the net liquidity, adding it does not depend on the build. -/
theorem addLiquidityDelta_overflowChecks (checks : Bool) (liquidity : ℕ) {delta : ℤ}
    (bounded : delta ≠ -2 ^ 127) :
    addLiquidityDelta { m with overflowChecks := checks } liquidity delta =
      addLiquidityDelta m liquidity delta := by
  unfold addLiquidityDelta
  rw [Machine.plainAbs_of_ne _ bounded, Machine.plainAbs_of_ne _ bounded]

/-- Crossing a tick whose net liquidity is not the least `i128` negates without overflow. -/
theorem calculateUpdate_overflowChecks (checks : Bool) {tick : Tick}
    (bounded : -2 ^ 127 < tick.liquidityNet ∧ tick.liquidityNet < 2 ^ 127) (aToB : Bool)
    (liquidity growthA growthB : ℕ) (infos : Fin numRewards → WhirlpoolRewardInfo) :
    calculateUpdate { m with overflowChecks := checks } tick aToB liquidity growthA growthB infos =
      calculateUpdate m tick aToB liquidity growthA growthB infos := by
  unfold calculateUpdate
  rw [Machine.plainNeg_of_ne _ (by omega), Machine.plainNeg_of_ne _ (by omega)]
  refine bind_congr fun signed negated => ?_
  have small : signed ≠ -2 ^ 127 := by
    split_ifs at negated
    · have := Except.ok.inj negated
      omega
    · have := Except.ok.inj negated
      omega
  dsimp only
  rw [addLiquidityDelta_overflowChecks checks liquidity small]

end Operations

section Iteration

variable {m : Machine} {context : SwapContext} {table : TickTable} {state : SwapState}

/-- An iteration of a swap does the same in every build. -/
theorem swapIteration_overflowChecks (checks : Bool) (sound : context.Sound)
    (holds : LoopInvariant context table state) (runs : swapContinues context state = true)
    (rate : context.whirlpool.protocolFeeRate ≤ maxProtocolFeeRate)
    (bounded : ∀ tick, (table tick).initialized = true →
      -2 ^ 127 < (table tick).liquidityNet ∧ (table tick).liquidityNet < 2 ^ 127) :
    swapIteration { m with overflowChecks := checks } context state =
      swapIteration m context state := by
  unfold swapIteration
  refine bind_congr fun found searched => ?_
  obtain ⟨arrayIndex, next⟩ := found
  obtain ⟨-, positive, small, onward⟩ := step_prices sound holds runs searched
  dsimp only
  rw [computeSwap_overflowChecks checks holds.place.price_pos positive holds.place.price_lt small
    holds.liquidity holds.remaining onward]
  refine bind_congr fun computation computed => bind_congr fun amounts accounted => ?_
  rw [calculateFees_overflowChecks checks rate]
  refine bind_congr fun fees charged => ?_
  have crossing : crossTick { m with overflowChecks := checks } context state arrayIndex next
      fees.2.1 = crossTick m context state arrayIndex next fees.2.1 := by
    unfold crossTick
    cases read : state.swapTickSequence.getTick arrayIndex next context.whirlpool.tickSpacing with
    | error => rfl
    | ok tick =>
        dsimp only
        by_cases full : tick.initialized = true
        · obtain ⟨result, -⟩ := search_spec sound holds runs searched
          obtain ⟨array, member, -⟩ := result.inside
          have carried := holds.carried.arrays array (List.mem_of_getElem? member)
          rw [SwapTickSequence.getTick, SwapTickSequence.getArray_eq_ok.mpr member, ok_bind] at read
          obtain rfl := carried.getTick_eq_ok sound.spacing read
          rw [calculateUpdate_overflowChecks checks (bounded next full)]
        · rw [if_neg full, if_neg full]
  rw [crossing]

end Iteration

section Growth

variable {m : Machine} {context : SwapContext} {table last : TickTable} {state final : SwapState}
  {entries : List SwapIteration}

/-- The growth that the iterations of a swap add to the accumulator of the input token. -/
def totalGrowth (entries : List SwapIteration) : ℕ :=
  (entries.map SwapIteration.feeGrowthDelta).sum

/-- The fees that the iterations of a swap charge. -/
def totalFees (entries : List SwapIteration) : ℕ :=
  (entries.map fun entry => entry.computation.feeAmount).sum

/-- The growth of a step is at most its fee per unit of liquidity. -/
theorem feeGrowthDelta_le (globalFee liquidity : ℕ) :
    feeGrowthDelta globalFee liquidity ≤ globalFee * 2 ^ 64 := by
  unfold feeGrowthDelta
  split_ifs
  · exact Nat.div_le_self _ _
  · exact Nat.zero_le _

/-- A sum below twice the modulus wraps exactly if the result is less than the summand. -/
theorem le_mod_iff {start increase modulus : ℕ} (bounded : start < modulus)
    (small : increase < modulus) :
    start ≤ (start + increase) % modulus ↔ start + increase < modulus := by
  by_cases fits : start + increase < modulus
  · rw [Nat.mod_eq_of_lt fits]
    omega
  · rw [Nat.mod_eq_sub_mod (not_lt.mp fits), Nat.mod_eq_of_lt (by omega)]
    omega

/-- The most that a swap can add to the accumulator of its input token: its whole amount, or for an
exact output the greatest one, as fees of a single unit of liquidity. -/
def greatestGrowth (amount : ℕ) (amountSpecifiedIsInput : Bool) : ℕ :=
  (if amountSpecifiedIsInput then amount else u64Max) * 2 ^ 64

namespace Traversal

/-- The growth of a whole swap is at most its fees per unit of liquidity. -/
theorem totalGrowth_le (rate : context.whirlpool.protocolFeeRate ≤ maxProtocolFeeRate)
    (traversal : Traversal m context table state entries last final) :
    totalGrowth entries ≤ totalFees entries * 2 ^ 64 := by
  induction traversal with
  | done => exact Nat.zero_le _
  | @step _ _ _ _ _ _ entry _ _ traverses _ _ ih =>
      have delta := (traverses.charged rate).delta_eq
      have least := feeGrowthDelta_le (entry.computation.feeAmount - entry.protocolFee)
        entry.liquidity
      rw [traverses.liquidity, ← delta] at least
      simp only [totalGrowth, totalFees, List.map_cons, List.sum_cons] at ih ⊢
      omega

/-- The fees come out of the amount of an exact input, and are part of what is calculated
for an exact output. -/
theorem totalFees_le (traversal : Traversal m context table state entries last final) :
    if context.amountSpecifiedIsInput then
      final.amountRemaining + totalFees entries ≤ state.amountRemaining
    else state.amountCalculated + totalFees entries ≤ final.amountCalculated := by
  induction traversal with
  | done => split_ifs <;> exact le_rfl
  | step _ traverses _ _ ih =>
      have spec := accountAmounts_eq_ok traverses.amounts
      simp only [totalFees, List.map_cons, List.sum_cons] at ih ⊢
      split_ifs at ih spec ⊢ <;> omega

theorem amountCalculated_lt (traversal : Traversal m context table state entries last final)
    (small : state.amountCalculated < 2 ^ 64) : final.amountCalculated < 2 ^ 64 := by
  induction traversal with
  | done => exact small
  | step _ traverses _ _ ih =>
      have spec := accountAmounts_eq_ok traverses.amounts
      refine ih ?_
      split_ifs at spec <;> omega

/-- The growth of one swap is bounded by its amount, or by all amounts there are. -/
theorem totalGrowth_bounded (rate : context.whirlpool.protocolFeeRate ≤ maxProtocolFeeRate)
    (traversal : Traversal m context table state entries last final)
    (calculated : state.amountCalculated < 2 ^ 64) :
    totalGrowth entries ≤ greatestGrowth state.amountRemaining context.amountSpecifiedIsInput := by
  have growth := traversal.totalGrowth_le rate
  have fees := traversal.totalFees_le
  have bounded := traversal.amountCalculated_lt calculated
  refine growth.trans (Nat.mul_le_mul_right _ ?_)
  unfold u64Max
  split_ifs at fees ⊢ <;> omega

theorem amountRemaining_le (traversal : Traversal m context table state entries last final) :
    final.amountRemaining ≤ state.amountRemaining := by
  induction traversal with
  | done => exact le_rfl
  | step _ traverses _ _ ih => exact ih.trans (accountAmounts_le traverses.amounts)

/-- A swap leaves the net liquidity of every tick as it was. -/
theorem liquidityNet_eq (traversal : Traversal m context table state entries last final)
    (tick : ℤ) : (last tick).liquidityNet = (table tick).liquidityNet := by
  induction traversal with
  | done => rfl
  | step _ traverses _ _ ih => rw [ih, traverses.liquidityNet_eq]

/-- Every tick that a swap heads for is within the range of ticks. -/
theorem nextTickIndex_range (traversal : Traversal m context table state entries last final) :
    ∀ entry ∈ entries, minTickIndex ≤ entry.nextTickIndex ∧ entry.nextTickIndex ≤ maxTickIndex := by
  induction traversal with
  | done => exact fun _ absent => absurd absent List.not_mem_nil
  | step _ traverses _ _ ih => exact List.forall_mem_cons.mpr ⟨traverses.range, ih⟩

/-- The accumulator after a swap. -/
theorem feeGrowthGlobal_eq (rate : context.whirlpool.protocolFeeRate ≤ maxProtocolFeeRate)
    (traversal : Traversal m context table state entries last final)
    (bounded : state.currFeeGrowthGlobalInput < 2 ^ 128) :
    final.currFeeGrowthGlobalInput =
      (state.currFeeGrowthGlobalInput + totalGrowth entries) % 2 ^ 128 := by
  induction traversal with
  | done => exact (Nat.mod_eq_of_lt bounded).symm
  | step _ traverses _ _ ih =>
      have grown := (traverses.charged rate).growth_eq
      unfold wrappingAdd at grown
      rw [ih (grown ▸ Nat.mod_lt _ (by norm_num)), grown, Nat.mod_add_mod, Nat.add_assoc]
      rfl

/-- The accumulator has not decreased exactly if its growth did not wrap it. -/
theorem le_feeGrowthGlobal_iff (rate : context.whirlpool.protocolFeeRate ≤ maxProtocolFeeRate)
    (traversal : Traversal m context table state entries last final)
    (bounded : state.currFeeGrowthGlobalInput < 2 ^ 128)
    (remaining : state.amountRemaining < 2 ^ 64) (calculated : state.amountCalculated < 2 ^ 64) :
    state.currFeeGrowthGlobalInput ≤ final.currFeeGrowthGlobalInput ↔
      state.currFeeGrowthGlobalInput + totalGrowth entries < 2 ^ 128 := by
  have growth := traversal.totalGrowth_bounded rate calculated
  rw [traversal.feeGrowthGlobal_eq rate bounded]
  refine le_mod_iff bounded (lt_of_le_of_lt growth ?_)
  unfold greatestGrowth u64Max
  split_ifs <;> omega

end Traversal

/-- The final difference of the accumulators does not underflow exactly if no iteration
wraps, and is the only operation of the tail that can. -/
theorem postSwapUpdate_overflowChecks {amount : ℕ} {update : PostSwapUpdate}
    (used : final.amountRemaining ≤ amount)
    (posted : context.postSwapUpdate { m with overflowChecks := false } amount final =
      .ok update) :
    context.postSwapUpdate { m with overflowChecks := true } amount final = .ok update ↔
      (if context.aToB then context.whirlpool.feeGrowthGlobalA
        else context.whirlpool.feeGrowthGlobalB) ≤ final.currFeeGrowthGlobalInput := by
  simp only [SwapContext.postSwapUpdate, Machine.plainSub_of_le _ used, ok_bind, bind_eq_ok,
    Except.ok.injEq] at posted ⊢
  obtain ⟨-, -, same⟩ := posted
  unfold Machine.plainSub
  constructor
  · rintro ⟨difference, subtracted, -⟩
    by_contra less
    rw [if_neg less, if_pos rfl] at subtracted
    exact absurd subtracted (by simp only [reduceCtorEq, not_false_eq_true])
  · intro less
    exact ⟨_, if_pos less, same⟩

/-- The loop of a swap does the same in every build. -/
theorem loop_overflowChecks (checks : Bool) {fuel : ℕ} (sound : context.Sound)
    (holds : LoopInvariant context table state)
    (rate : context.whirlpool.protocolFeeRate ≤ maxProtocolFeeRate)
    (bounded : ∀ tick, (table tick).initialized = true →
      -2 ^ 127 < (table tick).liquidityNet ∧ (table tick).liquidityNet < 2 ^ 127) :
    whileLogged (swapContinues context) (swapIteration { m with overflowChecks := checks } context)
        .outOfFuel fuel state =
      whileLogged (swapContinues context) (swapIteration m context) .outOfFuel fuel state := by
  refine whileLogged_congr fun middle entries iterations runs => ?_
  obtain ⟨reached, traversal, holds'⟩ := iterations_traversal sound iterations holds
  refine swapIteration_overflowChecks checks sound holds' runs rate fun tick full => ?_
  rw [traversal.liquidityNet_eq]
  exact bounded tick ((traversal.initialized_eq tick).symm.trans full)

end Growth

/-- A swap that is not refused runs its loop. -/
theorem swap_eq_loop (m : Machine) {whirlpool : Whirlpool} {sequence : SwapTickSequence}
    {amount sqrtPriceLimit timestamp : ℕ} {amountSpecifiedIsInput aToB : Bool}
    {infos : Fin numRewards → WhirlpoolRewardInfo}
    (bounds : ¬ (sqrtPriceLimit < minSqrtPriceX64 ∨ sqrtPriceLimit > maxSqrtPriceX64))
    (direction : ¬ ((aToB ∧ sqrtPriceLimit > whirlpool.sqrtPrice) ∨
      (¬ aToB ∧ sqrtPriceLimit < whirlpool.sqrtPrice))) (nonzero : amount ≠ 0)
    (accrued : nextWhirlpoolRewardInfos whirlpool timestamp = .ok infos) :
    let context := whirlpool.swapContext sqrtPriceLimit amountSpecifiedIsInput aToB infos
    swap m whirlpool sequence amount sqrtPriceLimit amountSpecifiedIsInput aToB timestamp =
      whileLogged (swapContinues context) (swapIteration m context) .outOfFuel (swapFuel sequence)
        (context.initialState sequence amount) >>= fun (final, iterations) =>
      context.postSwapUpdate m amount final >>= fun update =>
      .ok ⟨update, final.swapTickSequence, iterations⟩ := by
  unfold swap
  rw [if_neg bounds, if_neg direction, if_neg nonzero, accrued, ok_bind]
  rfl

/-- No plain operation of a swap that completes with this outcome over- or underflows: the
build that panics on overflow completes as well, and the ticks next to the ones found are in
`i32`. -/
def PlainOperationsFit (m : Machine) (whirlpool : Whirlpool) (sequence : SwapTickSequence)
    (amount sqrtPriceLimit : ℕ) (amountSpecifiedIsInput aToB : Bool) (timestamp : ℕ)
    (outcome : SwapOutcome) : Prop :=
  swap { m with overflowChecks := true } whirlpool sequence amount sqrtPriceLimit
      amountSpecifiedIsInput aToB timestamp = .ok outcome ∧
    ∀ entry ∈ outcome.iterations,
      -2 ^ 31 ≤ entry.nextTickIndex - 1 ∧ entry.nextTickIndex + 1 < 2 ^ 31

/-- A swap that completes without checks also completes with them, with the same outcome, exactly if
its growth does not wrap the accumulator; and its amount bounds that growth. -/
theorem plainOperationsFit_iff (m : Machine) {whirlpool : Whirlpool} {table : TickTable}
    {sequence : SwapTickSequence} {amount : ℕ} (tradable : Tradable whirlpool table sequence)
    (bounded : ∀ tick, (table tick).initialized = true →
      -2 ^ 127 < (table tick).liquidityNet ∧ (table tick).liquidityNet < 2 ^ 127)
    (rate : whirlpool.protocolFeeRate ≤ maxProtocolFeeRate)
    (growths : whirlpool.feeGrowthGlobalA < 2 ^ 128 ∧ whirlpool.feeGrowthGlobalB < 2 ^ 128)
    (fits : amount < 2 ^ 64) (sqrtPriceLimit timestamp : ℕ) (amountSpecifiedIsInput aToB : Bool)
    {outcome : SwapOutcome}
    (completes : swap { m with overflowChecks := false } whirlpool sequence amount sqrtPriceLimit
      amountSpecifiedIsInput aToB timestamp = .ok outcome) :
    totalGrowth outcome.iterations ≤ greatestGrowth amount amountSpecifiedIsInput ∧
      (PlainOperationsFit m whirlpool sequence amount sqrtPriceLimit amountSpecifiedIsInput aToB
          timestamp outcome ↔
        (if aToB then whirlpool.feeGrowthGlobalA else whirlpool.feeGrowthGlobalB) +
          totalGrowth outcome.iterations < 2 ^ 128) := by
  simp only [swap, guard_eq_ok, bind_eq_ok, Except.ok.injEq] at completes
  obtain ⟨bounds, direction, nonzero, infos, accrued, ⟨final, entries⟩, looped, update, posted,
    rfl⟩ := completes
  dsimp only at looped posted ⊢
  have limits := bounds
  simp only [not_or, not_lt, gt_iff_lt] at limits
  have sound : (whirlpool.swapContext sqrtPriceLimit amountSpecifiedIsInput aToB infos).Sound :=
    ⟨tradable.spacing, limits⟩
  have starts := LoopInvariant.initial (whirlpool.swapContext sqrtPriceLimit
    amountSpecifiedIsInput aToB infos) table sequence tradable fits direction
  obtain ⟨last, traversal, -⟩ := iterations_traversal sound (whileLogged_iterations looped).1 starts
  have initial : ((whirlpool.swapContext sqrtPriceLimit amountSpecifiedIsInput aToB
      infos).initialState sequence amount).currFeeGrowthGlobalInput < 2 ^ 128 := by
    change (if aToB then _ else _) < _
    split_ifs
    · exact growths.1
    · exact growths.2
  -- The swap with checks runs the same loop, so only its tail can differ.
  have checked : swap { m with overflowChecks := true } whirlpool sequence amount sqrtPriceLimit
      amountSpecifiedIsInput aToB timestamp =
        .ok ⟨update, final.swapTickSequence, entries⟩ ↔
      (whirlpool.swapContext sqrtPriceLimit amountSpecifiedIsInput aToB infos).postSwapUpdate
        { m with overflowChecks := true } amount final = .ok update := by
    have relooped := (loop_overflowChecks (m := { m with overflowChecks := false }) true sound
      starts rate bounded).trans looped
    rw [swap_eq_loop _ bounds direction nonzero accrued]
    dsimp only at relooped ⊢
    rw [relooped, ok_bind]
    simp only [bind_eq_ok, Except.ok.injEq, SwapOutcome.mk.injEq, and_true, exists_eq_right]
  have ticks : ∀ entry ∈ entries,
      -2 ^ 31 ≤ entry.nextTickIndex - 1 ∧ entry.nextTickIndex + 1 < 2 ^ 31 := fun entry member => by
    have range := traversal.nextTickIndex_range entry member
    unfold minTickIndex maxTickIndex at range
    omega
  have used : final.amountRemaining ≤ amount := traversal.amountRemaining_le
  have unwrapped := traversal.le_feeGrowthGlobal_iff rate initial fits (Nat.two_pow_pos 64)
  have limited := traversal.totalGrowth_bounded rate (Nat.two_pow_pos 64)
  dsimp only [Whirlpool.swapContext, SwapContext.initialState] at limited
  exact ⟨limited, (and_iff_left ticks).trans
    (checked.trans ((postSwapUpdate_overflowChecks used posted).trans unwrapped))⟩

/-- Whether a pool can be traded does not depend on its fee growths. -/
theorem Tradable.withFeeGrowths {whirlpool : Whirlpool} {table : TickTable}
    {sequence : SwapTickSequence} (tradable : Tradable whirlpool table sequence)
    (growthA growthB : ℕ) : Tradable (whirlpool.withFeeGrowths growthA growthB) table sequence :=
  ⟨tradable.spacing, tradable.usable, tradable.place, tradable.liquidity, tradable.carried⟩

/-- Where a swap completes without checks, it does from all accumulators. With checks it completes
as well, with the same outcome, from those that the greatest growth of its amount does not wrap, and
exactly from those that one growth does not wrap, which the accumulators do not decide. -/
theorem swap_plainArithmetic (m : Machine) {whirlpool : Whirlpool} {table : TickTable}
    {sequence : SwapTickSequence} {amount : ℕ} (tradable : Tradable whirlpool table sequence)
    (bounded : ∀ tick, (table tick).initialized = true →
      -2 ^ 127 < (table tick).liquidityNet ∧ (table tick).liquidityNet < 2 ^ 127)
    (rate : whirlpool.protocolFeeRate ≤ maxProtocolFeeRate) (fits : amount < 2 ^ 64)
    (sqrtPriceLimit timestamp : ℕ) (amountSpecifiedIsInput aToB : Bool) {outcome : SwapOutcome}
    (completes : swap { m with overflowChecks := false } whirlpool sequence amount sqrtPriceLimit
      amountSpecifiedIsInput aToB timestamp = .ok outcome) :
    (∀ growthA < 2 ^ 128, ∀ growthB < 2 ^ 128,
      (if aToB then growthA else growthB) + greatestGrowth amount amountSpecifiedIsInput < 2 ^ 128 →
      ∃ outcome',
        swap { m with overflowChecks := false } (whirlpool.withFeeGrowths growthA growthB) sequence
            amount sqrtPriceLimit amountSpecifiedIsInput aToB timestamp = .ok outcome' ∧
          PlainOperationsFit m (whirlpool.withFeeGrowths growthA growthB) sequence amount
            sqrtPriceLimit amountSpecifiedIsInput aToB timestamp outcome') ∧
    ∃ growth ≤ greatestGrowth amount amountSpecifiedIsInput,
      ∀ growthA < 2 ^ 128, ∀ growthB < 2 ^ 128, ∃ outcome',
        swap { m with overflowChecks := false } (whirlpool.withFeeGrowths growthA growthB) sequence
            amount sqrtPriceLimit amountSpecifiedIsInput aToB timestamp = .ok outcome' ∧
          (PlainOperationsFit m (whirlpool.withFeeGrowths growthA growthB) sequence amount
              sqrtPriceLimit amountSpecifiedIsInput aToB timestamp outcome' ↔
            (if aToB then growthA else growthB) + growth < 2 ^ 128) := by
  -- the swap from any accumulators, and the growth it has in common with the given one
  have runs (growthA growthB : ℕ) : ∃ outcome',
      swap { m with overflowChecks := false } (whirlpool.withFeeGrowths growthA growthB) sequence
        amount sqrtPriceLimit amountSpecifiedIsInput aToB timestamp = .ok outcome' ∧
        totalGrowth outcome'.iterations = totalGrowth outcome.iterations := by
    obtain ⟨outcome', completes', alike⟩ := (swap_alike m whirlpool growthA growthB sequence amount
      sqrtPriceLimit timestamp amountSpecifiedIsInput aToB).exists_of_left completes
    refine ⟨outcome', completes', congrArg List.sum (Eq.symm ?_)⟩
    rwa [← List.forall₂_eq_eq_eq, List.forall₂_map_left_iff, List.forall₂_map_right_iff]
  have fitsIff (growthA growthB : ℕ) (smallA : growthA < 2 ^ 128) (smallB : growthB < 2 ^ 128)
      {outcome' : SwapOutcome} := @plainOperationsFit_iff m
        (whirlpool.withFeeGrowths growthA growthB)
        table sequence amount (tradable.withFeeGrowths growthA growthB) bounded rate
          ⟨smallA, smallB⟩
        fits sqrtPriceLimit timestamp amountSpecifiedIsInput aToB outcome'
  obtain ⟨fresh, started, total⟩ := runs 0 0
  have most : totalGrowth outcome.iterations ≤ greatestGrowth amount amountSpecifiedIsInput := by
    rw [← total]
    exact (fitsIff 0 0 (by norm_num) (by norm_num) started).1
  have exactly (growthA : ℕ) (smallA : growthA < 2 ^ 128) (growthB : ℕ)
      (smallB : growthB < 2 ^ 128) : ∃ outcome',
      swap { m with overflowChecks := false } (whirlpool.withFeeGrowths growthA growthB) sequence
          amount sqrtPriceLimit amountSpecifiedIsInput aToB timestamp = .ok outcome' ∧
        (PlainOperationsFit m (whirlpool.withFeeGrowths growthA growthB) sequence amount
            sqrtPriceLimit amountSpecifiedIsInput aToB timestamp outcome' ↔
          (if aToB then growthA else growthB) + totalGrowth outcome.iterations < 2 ^ 128) := by
    obtain ⟨outcome', completes', total'⟩ := runs growthA growthB
    have fitsIff := (fitsIff growthA growthB smallA smallB completes').2
    rw [total'] at fitsIff
    exact ⟨outcome', completes', fitsIff⟩
  refine ⟨fun growthA smallA growthB smallB enough => ?_,
    totalGrowth outcome.iterations, most, exactly⟩
  obtain ⟨outcome', completes', fitsIff⟩ := exactly growthA smallA growthB smallB
  exact ⟨outcome', completes', fitsIff.mpr ((Nat.add_le_add_left most _).trans_lt enough)⟩

/-- A pool with fees whose accumulator for token A is about to wrap. -/
def exhaustedPool : Whirlpool :=
  { poolAtTick 8 (10 ^ 9) with
    feeRate := 3000
    protocolFeeRate := 300
    feeGrowthGlobalA := 2 ^ 128 - 1 }

/-- The pool of the counterexample satisfies all that a swap needs. -/
theorem exhaustedPool_tradable : Tradable exhaustedPool (singleTick 5 (-7) 7)
    ⟨[(singleTick 5 (-7) 7).arrayAt 1 0]⟩ :=
  have plain := @poolAtTick_tradable 8 5 (-7) (10 ^ 9) 7
    (by decide) (by decide) (by norm_num) (by decide)
  ⟨plain.spacing, plain.usable, plain.place, plain.liquidity, plain.carried⟩

/-- The tick of the counterexample has an ordinary net liquidity. -/
theorem singleTick_net_bounded (tick : ℤ) (_ : (singleTick 5 (-7) 7 tick).initialized = true) :
    -2 ^ 127 < (singleTick 5 (-7) 7 tick).liquidityNet ∧
      (singleTick 5 (-7) 7 tick).liquidityNet < 2 ^ 127 := by
  unfold singleTick
  split_ifs <;> decide

/-- A swap of token A into the pool completes without checks, and underflows at its end. -/
theorem not_plainOperationsFit :
    ¬ ∀ (whirlpool : Whirlpool) (table : TickTable) (sequence : SwapTickSequence) (amount : ℕ)
      (sqrtPriceLimit timestamp : ℕ) (amountSpecifiedIsInput aToB : Bool) (outcome : SwapOutcome),
      Tradable whirlpool table sequence →
      (∀ tick, (table tick).initialized = true →
        -2 ^ 127 < (table tick).liquidityNet ∧ (table tick).liquidityNet < 2 ^ 127) →
      whirlpool.protocolFeeRate ≤ maxProtocolFeeRate →
      (whirlpool.feeGrowthGlobalA < 2 ^ 128 ∧ whirlpool.feeGrowthGlobalB < 2 ^ 128) →
      amount < 2 ^ 64 →
      swap (.exact false) whirlpool sequence amount sqrtPriceLimit amountSpecifiedIsInput aToB
        timestamp = .ok outcome →
      PlainOperationsFit (.exact false) whirlpool sequence amount sqrtPriceLimit
        amountSpecifiedIsInput aToB timestamp outcome := by
  intro claimed
  have ran : yields (swap (.exact false) exhaustedPool ⟨[(singleTick 5 (-7) 7).arrayAt 1 0]⟩ 1000
      (sqrtPriceFromTickIndex 3) true true 0) (fun _ => true) = true := by decide +kernel
  obtain ⟨outcome, completes, -⟩ := yields_iff.mp ran
  obtain ⟨checked, -⟩ := claimed _ _ _ 1000 _ 0 true true outcome exhaustedPool_tradable
    singleTick_net_bounded (by decide) (by decide) (by decide) completes
  have fails : yields (swap { Machine.exact false with overflowChecks := true } exhaustedPool
      ⟨[(singleTick 5 (-7) 7).arrayAt 1 0]⟩ 1000 (sqrtPriceFromTickIndex 3) true true 0)
      (fun _ => true) = false := by
    decide +kernel
  rw [checked] at fails
  exact absurd fails (by simp only [yields, Bool.true_eq_false, not_false_eq_true])

/-- A pool with fees and one unit of liquidity. -/
def unitPool : Whirlpool := { poolAtTick 8 1 with feeRate := 3000 }

/-- The pool with one unit of liquidity satisfies all that a swap needs. -/
theorem unitPool_tradable : Tradable unitPool (singleTick 5 (-7) 7)
    ⟨[(singleTick 5 (-7) 7).arrayAt 1 0]⟩ :=
  have plain := @poolAtTick_tradable 8 5 (-7) 1 7 (by decide) (by decide) (by norm_num) (by decide)
  ⟨plain.spacing, plain.usable, plain.place, plain.liquidity, plain.carried⟩

/-- One unit of token A is a fee for one unit of liquidity. Its bound on the growth is attained: the
swap underflows from the first accumulator on that the amount can wrap. -/
theorem swap_plainArithmetic_unitPool : ∃ outcome,
    swap { Machine.exact false with overflowChecks := false }
        (unitPool.withFeeGrowths (2 ^ 128 - 2 ^ 64 - 1) 0)
        ⟨[(singleTick 5 (-7) 7).arrayAt 1 0]⟩ 1 (sqrtPriceFromTickIndex 3) true true 0 =
      .ok outcome ∧
      PlainOperationsFit (.exact false) (unitPool.withFeeGrowths (2 ^ 128 - 2 ^ 64 - 1) 0)
        ⟨[(singleTick 5 (-7) 7).arrayAt 1 0]⟩ 1 (sqrtPriceFromTickIndex 3) true true 0 outcome ∧
      yields (swap { Machine.exact false with overflowChecks := true }
        (unitPool.withFeeGrowths (2 ^ 128 - 2 ^ 64) 0)
        ⟨[(singleTick 5 (-7) 7).arrayAt 1 0]⟩ 1 (sqrtPriceFromTickIndex 3) true true 0)
        (fun _ => true) = false := by
  have ran : yields (swap { Machine.exact false with overflowChecks := false } unitPool
      ⟨[(singleTick 5 (-7) 7).arrayAt 1 0]⟩ 1 (sqrtPriceFromTickIndex 3) true true 0)
      (fun _ => true) = true := by decide +kernel
  obtain ⟨outcome, completes, -⟩ := yields_iff.mp ran
  obtain ⟨enough, -⟩ := swap_plainArithmetic (.exact false) unitPool_tradable
    singleTick_net_bounded (by decide) (by decide) (sqrtPriceFromTickIndex 3) 0 true true completes
  obtain ⟨outcome', completes', plain⟩ :=
    enough (2 ^ 128 - 2 ^ 64 - 1) (by norm_num) 0 (by norm_num) (by decide)
  exact ⟨outcome', completes', plain, by decide +kernel⟩

end Whirlpools
