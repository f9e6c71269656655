import Whirlpools.Instructions

/-! # How the arithmetic of the program fails

Refused transfers, liquidity that over- or underflows, and steps that use more than
the amount remaining are the failures the invariants of a pool exclude. All other
parts of the program fail in other ways, whatever their arguments.
-/

namespace Whirlpools

open Outcome

/-- A failure that is neither a lack of funds, nor an over- or underflow of liquidity, nor
an overdraft of the amount remaining. -/
def Common (failure : Failure) : Prop :=
  failure ≠ .insufficientFunds ∧ failure ≠ .code .liquidityUnderflow ∧
    failure ≠ .code .liquidityOverflow ∧ failure ≠ .code .amountRemainingOverflow

instance (failure : Failure) : Decidable (Common failure) := by
  unfold Common
  infer_instance

/-- A computation that fails only in common ways. -/
abbrev FailsCommonly {α : Type} (computed : Result α) : Prop := FailsWithin Common computed

section Arithmetic

variable (m : Machine)

theorem plainSub_common (width a b : ℕ) : FailsCommonly (m.plainSub width a b) :=
  .ite (fun _ => .ok _) fun _ => .ite (fun _ => .error (by decide)) fun _ => .ok _

theorem plainAdd_common (width a b : ℕ) : FailsCommonly (m.plainAdd width a b) :=
  .ite (fun _ => .ok _) fun _ => .ite (fun _ => .error (by decide)) fun _ => .ok _

theorem plainNeg_common (a : ℤ) : FailsCommonly (m.plainNeg a) :=
  .ite (fun _ => .ok _) fun _ => .ite (fun _ => .error (by decide)) fun _ => .ok _

theorem plainAbs_common (a : ℤ) : FailsCommonly (m.plainAbs a) :=
  .ite (fun _ => .ok _) fun _ => .ite (fun _ => .error (by decide)) fun _ => .ok _

/-- The wide division fails by a panic alone. -/
theorem div_common (dividend divisor : U256Muldiv) (returnRemainder : Bool) :
    FailsCommonly (m.div dividend divisor returnRemainder) := by
  intro failure failed
  rw [m.div_panics failed]
  decide

/-- A value too large for the type is a failed conversion. -/
theorem tryIntoU128_common (value : U256Muldiv) : FailsCommonly value.tryIntoU128 :=
  .ite (fun _ => .error (by decide)) fun _ => .ok _

theorem tryIntoU64_common (value : ℕ) : FailsCommonly (tryIntoU64 value) :=
  .ite (fun _ => .ok _) fun _ => .error (by decide)

/-- The rounded wide division fails as its parts do. -/
theorem divRoundUpIfU256_common (n d : U256Muldiv) (roundUp : Bool) :
    FailsCommonly (divRoundUpIfU256 m n d roundUp) :=
  .bind (div_common m n d roundUp) fun _ _ => tryIntoU128_common _

/-- The checked product and quotient has its own failures. -/
theorem checkedMulDivRoundUpIf_common (n0 n1 d : ℕ) (roundUp : Bool) :
    FailsCommonly (checkedMulDivRoundUpIf n0 n1 d roundUp) :=
  .ite (fun _ => .error (by decide)) fun _ => .ite (fun _ => .error (by decide)) fun _ => .ok _

theorem checkedMulShiftRightRoundUpIf_common (n0 n1 : ℕ) (roundUp : Bool) :
    FailsCommonly (checkedMulShiftRightRoundUpIf n0 n1 roundUp) :=
  .ite (fun _ => .ok _) fun _ => .ite (fun _ => .error (by decide)) fun _ =>
    .ite (fun _ => .error (by decide)) fun _ => .ok _

theorem divRoundUpIf_common (n d : ℕ) (roundUp : Bool) : FailsCommonly (divRoundUpIf n d roundUp) :=
  .ite (fun _ => .error (by decide)) fun _ => .ok _

end Arithmetic

section Amounts

variable (m : Machine)

/-- An amount of token A that does not fit is none of those failures. -/
theorem getAmountDeltaA_common (sqrtPrice0 sqrtPrice1 liquidity : ℕ) (roundUp : Bool) :
    FailsCommonly (getAmountDeltaA m sqrtPrice0 sqrtPrice1 liquidity roundUp) :=
  .bind (.okOr (by decide)) fun _ _ => .bind (div_common m _ _ _) fun _ _ =>
    .bind (.ite (fun _ => tryIntoU128_common _) fun _ => tryIntoU128_common _) fun _ _ =>
      .ite (fun _ => .error (by decide)) fun _ => .ok _

theorem getAmountDeltaB_common (sqrtPrice0 sqrtPrice1 liquidity : ℕ) (roundUp : Bool) :
    FailsCommonly (getAmountDeltaB sqrtPrice0 sqrtPrice1 liquidity roundUp) :=
  checkedMulShiftRightRoundUpIf_common _ _ _

theorem getNextSqrtPrice_common (sqrtPrice liquidity amount : ℕ)
    (amountSpecifiedIsInput aToB : Bool) :
    FailsCommonly (getNextSqrtPrice m sqrtPrice liquidity amount amountSpecifiedIsInput aToB) := by
  refine .ite (fun _ => ?_) fun _ => ?_
  · exact .ite (fun _ => .ok _) fun _ => .bind (.okOr (by decide)) fun _ _ =>
      .ite (fun _ => .error (by decide)) fun _ =>
        .bind (divRoundUpIfU256_common m _ _ _) fun _ _ =>
          .ite (fun _ => .error
            (by decide)) fun _ => .ite (fun _ => .error (by decide)) fun _ => .ok _
  · exact .bind (divRoundUpIf_common _ _ _) fun _ _ => .ite
      (fun _ => .ite (fun _ => .ok _) fun _ => .error (by decide))
      fun _ => .ite (fun _ => .ok _) fun _ => .error (by decide)

theorem computeSwap_common (amountRemaining feeRate liquidity sqrtPriceCurrent sqrtPriceTarget : ℕ)
    (amountSpecifiedIsInput aToB : Bool) :
    FailsCommonly (computeSwap m amountRemaining feeRate liquidity sqrtPriceCurrent sqrtPriceTarget
      amountSpecifiedIsInput aToB) := by
  have fixed (p q : ℕ) : FailsCommonly
      (getAmountFixedDelta m p q liquidity amountSpecifiedIsInput aToB) :=
    .ite (fun _ => getAmountDeltaA_common m _ _ _ _) fun _ => getAmountDeltaB_common _ _ _ _
  have unfixed (p q : ℕ) : FailsCommonly
      (getAmountUnfixedDelta m p q liquidity amountSpecifiedIsInput aToB) :=
    .ite (fun _ => getAmountDeltaB_common _ _ _ _) fun _ => getAmountDeltaA_common m _ _ _ _
  refine .bind (fixed _ _) fun _ _ => .bind ?_ fun _ _ => .bind ?_ fun _ _ =>
    .bind (unfixed _ _) fun _ _ => .bind ?_ fun _ _ => .bind ?_ fun _ _ => .ok _
  · exact .ite (fun _ => .bind (checkedMulDivRoundUpIf_common _ _ _ _) fun _ _ =>
      tryIntoU64_common _) fun _ => .ok _
  · exact .ite (fun _ => .ok _) fun _ => getNextSqrtPrice_common m _ _ _ _ _
  · exact .ite (fun _ => .ok _) fun _ => fixed _ _
  · exact .ite (fun _ => plainSub_common m _ _ _) fun _ =>
      .bind (checkedMulDivRoundUpIf_common _ _ _ _) fun _ _ => tryIntoU64_common _

/-- The tokens of a change of liquidity fail as their amounts do. -/
theorem calculateLiquidityTokenDeltas_common (currentTickIndex : ℤ) (sqrtPrice : ℕ)
    (position : Position) (liquidityDelta : ℤ) :
    FailsCommonly (calculateLiquidityTokenDeltas m currentTickIndex sqrtPrice position
      liquidityDelta) :=
  .ite (fun _ => .error (by decide)) fun _ => .bind (plainAbs_common m _) fun _ _ => .ite
    (fun _ => .bind (getAmountDeltaA_common m _ _ _ _) fun _ _ => .ok _) fun _ => .ite
    (fun _ => .bind (getAmountDeltaA_common m _ _ _ _) fun _ _ =>
      .bind (getAmountDeltaB_common _ _ _ _) fun _ _ => .ok _)
    fun _ => .bind (getAmountDeltaB_common _ _ _ _) fun _ _ => .ok _

end Amounts

section Ticks

/-- The offset of a tick fails on a spacing of zero alone. -/
theorem tickOffset_common (array : TickArray) (tickIndex : ℤ) (tickSpacing : ℕ) :
    FailsCommonly (array.tickOffset tickIndex tickSpacing) :=
  .ite (fun _ => .error (by decide)) fun _ => .ok _

/-- Finding a tick fails as its offset does. -/
theorem findTick_common (array : TickArray) (tickIndex : ℤ) (tickSpacing : ℕ) :
    FailsCommonly (array.findTick tickIndex tickSpacing) :=
  .ite (fun _ => .error (by decide)) fun _ => .bind (tickOffset_common _ _ _) fun _ _ =>
    .ite (fun _ => .error (by decide)) fun _ => .ok _

/-- Reading a tick fails as finding it does. -/
theorem getTick_common (array : TickArray) (tickIndex : ℤ) (tickSpacing : ℕ) :
    FailsCommonly (array.getTick tickIndex tickSpacing) :=
  .bind (findTick_common _ _ _) fun _ _ => .ok _

/-- Writing a tick fails as finding it does. -/
theorem updateTick_common (array : TickArray) (tickIndex : ℤ) (tickSpacing : ℕ)
    (update : TickUpdate) : FailsCommonly (array.updateTick tickIndex tickSpacing update) :=
  .bind (findTick_common _ _ _) fun _ _ => .ok _

/-- A search that runs out of arrays has a failure of its own. -/
theorem getNextInitializedTickIndex_common (sequence : SwapTickSequence) (tickIndex : ℤ)
    (tickSpacing : ℕ) (aToB : Bool) (startArrayIndex : ℕ) :
    FailsCommonly (sequence.getNextInitializedTickIndex tickIndex tickSpacing aToB
      startArrayIndex) := by
  unfold SwapTickSequence.getNextInitializedTickIndex
  generalize sequence.arrays.drop startArrayIndex = arrays
  induction arrays generalizing startArrayIndex tickIndex with
  | nil => exact .error (by decide)
  | cons array rest ih =>
      unfold SwapTickSequence.searchArrays
      refine .bind (.ite (fun _ => .error (by decide)) fun _ =>
        .bind (tickOffset_common _ _ _) fun _ _ => .ok _) fun found _ => ?_
      cases found with
      | some next => exact .ok _
      | none =>
          exact .ite (fun _ => .ok _) fun _ => .ite (fun _ => .ok _) fun _ =>
            .ite (fun _ => .ite (fun _ => .ok _) fun _ => .ok _) fun _ => ih _ _

end Ticks

section Swap

variable (m : Machine)

/-- Accounting fails in common ways, or because a step used more than the amount remaining. -/
theorem accountAmounts_failsWithin {allowed : Failure → Prop}
    (common : ∀ failure, Common failure → allowed failure) {isIn : Bool} {remaining : ℕ}
    {computation : SwapStepComputation} (calculated : ℕ)
    (overdraft : (if isIn then remaining < computation.amountIn + computation.feeAmount
      else remaining < computation.amountOut) → allowed (.code .amountRemainingOverflow)) :
    FailsWithin allowed (accountAmounts isIn remaining calculated computation) := by
  refine .ite (fun isInput => ?_) fun isOutput => ?_
  · rw [if_pos isInput] at overdraft
    exact .ite (fun _ => .error (overdraft (by omega))) fun _ =>
      .ite (fun _ => .error (overdraft (by omega))) fun _ =>
      .ite (fun _ => .error (common _ (by decide))) fun _ => .ok _
  · rw [if_neg isOutput] at overdraft
    exact .ite (fun _ => .error (overdraft (by omega))) fun _ =>
      .ite (fun _ => .error (common _ (by decide))) fun _ =>
      .ite (fun _ => .error (common _ (by decide))) fun _ => .ok _

/-- The fees of a step fail by a panic alone. -/
theorem calculateFees_common (feeAmount protocolFeeRate liquidity protocolFee growth : ℕ) :
    FailsCommonly (calculateFees m feeAmount protocolFeeRate liquidity protocolFee growth) :=
  .bind (.ite (fun _ => .bind (.ite (fun _ => .ok _) fun _ => .error (by decide)) fun _ _ =>
    .bind (plainSub_common m _ _ _) fun _ _ => .ok _) fun _ => .ok _) fun _ _ => .ok _

/-- Accruing the rewards fails on a timestamp from the past alone. -/
theorem nextWhirlpoolRewardInfos_common (whirlpool : Whirlpool) (timestamp : ℕ) :
    FailsCommonly (nextWhirlpoolRewardInfos whirlpool timestamp) :=
  .ite (fun _ => .error (by decide)) fun _ => .ite (fun _ => .ok _) fun _ => .ok _

/-- What a swap reports fails by a panic alone. -/
theorem postSwapUpdate_common (context : SwapContext) (amount : ℕ) (state : SwapState) :
    FailsCommonly (context.postSwapUpdate m amount state) :=
  .bind (plainSub_common m _ _ _) fun _ _ => .bind (plainSub_common m _ _ _) fun _ _ => .ok _

/-- An iteration fails in common ways, unless its step uses more than the amount remaining
or the liquidity beyond a crossed tick does not fit. -/
theorem swapIteration_failsWithin {context : SwapContext} {state : SwapState}
    {allowed : Failure → Prop} (common : ∀ failure, Common failure → allowed failure)
    (accounting : ∀ arrayIndex next computation,
      state.swapTickSequence.getNextInitializedTickIndex state.currTickIndex
        context.whirlpool.tickSpacing context.aToB state.currArrayIndex = .ok (arrayIndex, next) →
      computeSwap m state.amountRemaining context.whirlpool.feeRate state.currLiquidity
        state.currSqrtPrice (getNextSqrtPrices next context.sqrtPriceLimit context.aToB).2
        context.amountSpecifiedIsInput context.aToB = .ok computation →
      FailsWithin allowed (accountAmounts context.amountSpecifiedIsInput state.amountRemaining
        state.amountCalculated computation))
    (crossing : ∀ arrayIndex next tick growthA growthB,
      state.swapTickSequence.getNextInitializedTickIndex state.currTickIndex
        context.whirlpool.tickSpacing context.aToB state.currArrayIndex = .ok (arrayIndex, next) →
      state.swapTickSequence.getTick arrayIndex next context.whirlpool.tickSpacing = .ok tick →
      tick.initialized = true →
      FailsWithin allowed (calculateUpdate m tick context.aToB state.currLiquidity growthA growthB
        context.nextRewardInfos)) :
    FailsWithin allowed (swapIteration m context state) := by
  refine .bind ((getNextInitializedTickIndex_common _ _ _ _ _).mono common) fun found searched =>
    .bind ((computeSwap_common m _ _ _ _ _ _ _).mono common) fun computation computed =>
    .bind (accounting _ _ _ searched computed) fun amounts _ =>
    .bind ((calculateFees_common m _ _ _ _ _).mono common) fun fees _ =>
    .ite (fun _ => .bind ?_ fun crossed _ => .bind (.bind (.okOr (common _ (by decide))) fun _ _ =>
      (tickOffset_common _ _ _).mono common) fun _ _ => .ok _)
    fun _ => .ite (fun _ => .ok _) fun _ => .ok _
  unfold crossTick
  cases read : state.swapTickSequence.getTick found.1 found.2 context.whirlpool.tickSpacing with
  | error failure => exact .ok _
  | ok tick =>
      exact .ite (fun full => .bind (crossing _ _ _ _ _ searched read full) fun _ _ =>
        .bind (.bind (.okOr (common _ (by decide))) fun _ _ =>
          .bind ((updateTick_common _ _ _ _).mono common) fun _ _ => .ok _) fun _ _ => .ok _)
        fun _ => .ok _

/-- A swap fails in common ways, unless one of its iterations fails otherwise. -/
theorem swap_failsWithin {whirlpool : Whirlpool} {sequence : SwapTickSequence}
    {amount sqrtPriceLimit timestamp : ℕ} {amountSpecifiedIsInput aToB : Bool}
    {allowed : Failure → Prop} (common : ∀ failure, Common failure → allowed failure)
    (each : ∀ rewardInfos, nextWhirlpoolRewardInfos whirlpool timestamp = .ok rewardInfos →
      minSqrtPriceX64 ≤ sqrtPriceLimit → sqrtPriceLimit ≤ maxSqrtPriceX64 →
      ¬ ((aToB ∧ sqrtPriceLimit > whirlpool.sqrtPrice) ∨
        (¬ aToB ∧ sqrtPriceLimit < whirlpool.sqrtPrice)) →
      ∀ context : SwapContext,
        context = ⟨whirlpool, sqrtPriceLimit, amountSpecifiedIsInput, aToB, rewardInfos⟩ →
      ∀ middle entries, Iterations (swapContinues context) (swapIteration m context)
        (context.initialState sequence amount) entries middle →
        swapContinues context middle = true →
        FailsWithin allowed (swapIteration m context middle)) :
    FailsWithin allowed (swap m whirlpool sequence amount sqrtPriceLimit amountSpecifiedIsInput aToB
      timestamp) := by
  refine .ite (fun _ => .error (common _ (by decide))) fun bounds =>
    .ite (fun _ => .error (common _ (by decide))) fun direction =>
    .ite (fun _ => .error (common _ (by decide))) fun _ =>
    .bind ((nextWhirlpoolRewardInfos_common _ _).mono common) fun rewardInfos accrued =>
    .bind (.whileLogged (common _ (by decide)) ?_) fun _ _ =>
    .bind ((postSwapUpdate_common m _ _ _).mono common) fun _ _ => .ok _
  rw [not_or, not_lt, not_lt] at bounds
  exact each rewardInfos accrued bounds.1 bounds.2 direction _ rfl

end Swap
end Whirlpools
