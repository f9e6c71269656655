import Whirlpools.FailureModes
import Whirlpools.Swap.Crossings

/-! # The contract of a swap step

A step moves the price towards its target, takes at least and gives at most the exact
amounts of the move, charges at least its fee rate, and never uses more of the
specified token than remains. So the accounting of the swap loop never overdraws.
-/

namespace Whirlpools

open Outcome Rounding

section Step

variable {m : Machine} {rem feeRate liquidity current target : ℕ} {isIn aToB : Bool}
  {step : SwapStepComputation}

/-- The share of an input that is left after the fee, for a rate below one. -/
private theorem rate_split (rate : feeRate < 2 ^ 16) :
    0 < feeRateMulValue - feeRate ∧ feeRateMulValue - feeRate + feeRate = feeRateMulValue := by
  unfold feeRateMulValue
  omega

/-- The fee of a step that reaches its target is at least its rate of the gross input. -/
theorem fullFee_covers (rate : feeRate < 2 ^ 16) (amountIn : ℕ) :
    amountIn * feeRate ≤ fullFee amountIn feeRate * (feeRateMulValue - feeRate) := by
  have positive : (0 : ℚ) < (feeRateMulValue - feeRate : ℕ) := Nat.cast_pos.mpr (rate_split rate).1
  have ceil := Nat.le_ceil ((amountIn : ℚ) * feeRate / (feeRateMulValue - feeRate : ℕ))
  rw [div_le_iff₀ positive] at ceil
  unfold fullFee
  exact_mod_cast ceil

/-- An input the budget pays for fits in the amount remaining together with its fee. -/
theorem add_fullFee_le (rate : feeRate < 2 ^ 16) {amountIn : ℕ}
    (pays : amountIn ≤ amountCalc rem feeRate true) :
    amountIn + fullFee amountIn feeRate ≤ rem := by
  obtain ⟨positive, split⟩ := rate_split rate
  have budget : amountIn * feeRateMulValue ≤ rem * (feeRateMulValue - feeRate) := by
    simp only [amountCalc, ↓reduceIte] at pays
    exact (Nat.le_div_iff_mul_le (by unfold feeRateMulValue; norm_num)).mp pays
  have small : amountIn ≤ rem := pays.trans (amountCalc_le _ _ _)
  have fee : fullFee amountIn feeRate ≤ rem - amountIn := by
    unfold fullFee
    rw [Nat.ceil_le, div_le_iff₀ (Nat.cast_pos.mpr positive)]
    have whole : amountIn * feeRate ≤ (rem - amountIn) * (feeRateMulValue - feeRate) := by
      rw [Nat.sub_mul]
      have parts : amountIn * feeRateMulValue =
          amountIn * (feeRateMulValue - feeRate) + amountIn * feeRate := by
        rw [← Nat.mul_add, split]
      omega
    exact_mod_cast whole
  omega

namespace StepContract

/-- The input of an exact-in step is within its budget. -/
theorem amountIn_le (contract : StepContract rem feeRate liquidity current target true aToB step)
    (positive : 0 < step.nextPrice) : step.amountIn ≤ amountCalc rem feeRate true := by
  rw [contract.amountIn, Nat.ceil_le]
  by_cases reached : step.nextPrice = target
  · rw [reached]
    exact (contract.reaches rfl).mp reached
  · exact (contract.farthest rfl reached _ positive contract.leaves).mp (.refl _ _)

/-- An exact-in step uses at most the amount remaining, and all of it short of its target. -/
theorem input_used (contract : StepContract rem feeRate liquidity current target true aToB step)
    (positive : 0 < step.nextPrice) (rate : feeRate < 2 ^ 16) :
    step.amountIn + step.feeAmount ≤ rem ∧
      (step.nextPrice ≠ target → step.amountIn + step.feeAmount = rem) := by
  have fee := contract.fee
  have exhausts := contract.exhausts
  simp only [true_and, ↓reduceIte] at fee exhausts
  by_cases reached : step.nextPrice = target
  · rw [if_neg (not_not.mpr reached)] at fee
    rw [fee]
    exact ⟨add_fullFee_le rate (contract.amountIn_le positive), fun short => absurd reached short⟩
  · rw [if_pos reached] at fee
    have enough := exhausts reached
    omega

/-- An exact-out step gives at most the amount remaining, and all of it short of its target. -/
theorem output_used (contract : StepContract rem feeRate liquidity current target false aToB step) :
    step.amountOut ≤ rem ∧ (step.nextPrice ≠ target → step.amountOut = rem) := by
  have output := contract.amountOut
  have exhausts := contract.exhausts
  simp only [Bool.false_eq_true, ↓reduceIte] at output exhausts
  exact ⟨output ▸ min_le_right _ _, exhausts⟩

/-- A step takes at least and gives at most the exact amounts of its move. -/
theorem amounts_exact (contract : StepContract rem feeRate liquidity current target isIn aToB step)
    (positive : 0 < current) (nextPositive : 0 < step.nextPrice) :
    amountOf aToB liquidity current step.nextPrice ≤ step.amountIn ∧
      (step.amountOut : ℚ) ≤ amountOf (!aToB) liquidity current step.nextPrice := by
  have floor := Nat.floor_le (amountOf_nonneg (!aToB) liquidity positive nextPositive)
  refine ⟨?_, ?_⟩
  · rw [contract.amountIn]
    exact Nat.le_ceil _
  · rw [contract.amountOut]
    split_ifs
    · exact floor
    · exact (Nat.cast_le.mpr (min_le_left _ _)).trans floor

/-- A step charges at least its fee rate of the gross input. -/
theorem fee_covers (contract : StepContract rem feeRate liquidity current target isIn aToB step)
    (positive : 0 < step.nextPrice) (rate : feeRate < 2 ^ 16) :
    step.amountIn * feeRate ≤ step.feeAmount * (feeRateMulValue - feeRate) := by
  have fee := contract.fee
  by_cases short : isIn = true ∧ step.nextPrice ≠ target
  · rw [if_pos short] at fee
    obtain ⟨rfl, -⟩ := short
    have pays := (contract.amountIn_le positive).trans_eq (if_pos rfl)
    have budget := (Nat.le_div_iff_mul_le (by unfold feeRateMulValue; norm_num)).mp pays
    obtain ⟨-, split⟩ := rate_split rate
    have parts : step.amountIn * feeRateMulValue =
        step.amountIn * (feeRateMulValue - feeRate) + step.amountIn * feeRate := by
      rw [← Nat.mul_add, split]
    rw [fee, Nat.sub_mul]
    omega
  · rw [if_neg short] at fee
    rw [fee]
    exact fullFee_covers rate step.amountIn

end StepContract

/-- The subtraction of the fee of a step never underflows, so that it is the same in every
build. -/
theorem computeSwap_overflowChecks (checks : Bool) (positive : 0 < current)
    (targetPositive : 0 < target) (bound0 : current < 2 ^ 128) (bound1 : target < 2 ^ 128)
    (boundL : liquidity < 2 ^ 128) (remBound : rem < 2 ^ 64)
    (onward : Onward aToB current target) :
    computeSwap { m with overflowChecks := checks } rem feeRate liquidity current target isIn aToB =
      computeSwap m rem feeRate liquidity current target isIn aToB := by
  unfold computeSwap
  refine bind_congr fun initial fixed => bind_congr fun amount calculated =>
    bind_congr fun next moved => bind_congr fun unfixed unfixedDelta =>
    bind_congr fun fixedUsed fixedDelta => ?_
  dsimp only
  by_cases short : isIn = true ∧ ¬ next = target
  · -- Where underflow wraps, the step returns, and its contract excludes the underflow.
    have returned : computeSwap { m with overflowChecks := false } rem feeRate liquidity current
        target isIn aToB = .ok ⟨fixedUsed, unfixed, next,
          (if fixedUsed ≤ rem then rem - fixedUsed else (rem + 2 ^ 64 - fixedUsed) % 2 ^ 64)⟩ := by
      obtain ⟨rfl, apart⟩ := short
      refine bind_eq_ok.mpr ⟨initial, fixed, bind_eq_ok.mpr ⟨amount, calculated,
        bind_eq_ok.mpr ⟨next, moved, bind_eq_ok.mpr ⟨unfixed, unfixedDelta,
          bind_eq_ok.mpr ⟨fixedUsed, fixedDelta, ?_⟩⟩⟩⟩⟩
      dsimp only
      simp only [Machine.plainSub, apart, ↓reduceIte, not_false_eq_true, and_self,
        not_true_eq_false, false_and, Bool.false_eq_true]
      split_ifs <;> rfl
    have paid := (computeSwap_contract positive targetPositive bound0 bound1 boundL remBound onward
      returned).exhausts short.2
    rw [if_pos short.1] at paid
    rw [if_pos short, if_pos short, if_pos short.1, Machine.plainSub_of_le _ paid,
      Machine.plainSub_of_le _ paid]
  · rw [if_neg short, if_neg short]

/-- The amount of a longer move is at least that of a shorter one. -/
theorem amountOf_mono {isTokenA : Bool} {near far : ℕ} (positive : 0 < current)
    (farPositive : 0 < far) (onward : Onward aToB current near) (beyond : Onward aToB near far) :
    amountOf isTokenA liquidity current near ≤ amountOf isTokenA liquidity current far := by
  have nearPositive := onward.pos beyond positive farPositive
  rw [amountOf_add onward beyond]
  exact le_add_of_nonneg_right (amountOf_nonneg isTokenA liquidity nearPositive farPositive)

/-- A step that stops short of its target is the same for every target further away, where
the amount for the whole distance to that target can be computed. -/
theorem computeSwap_farther {near far : ℕ} (positive : 0 < current) (farPositive : 0 < far)
    (bound0 : current < 2 ^ 128) (bound1 : far < 2 ^ 128) (boundL : liquidity < 2 ^ 128)
    (remBound : rem < 2 ^ 64) (onward : Onward aToB current near) (beyond : Onward aToB near far)
    (returned : computeSwap m rem feeRate liquidity current near isIn aToB = .ok step)
    (short : step.nextPrice ≠ near) :
    computeSwap m rem feeRate liquidity current far isIn aToB =
      getAmountFixedDelta m current far liquidity isIn aToB >>= fun _ => .ok step := by
  have nearPositive := onward.pos beyond positive farPositive
  have nearBound := onward.lt beyond bound0 bound1
  have contract := computeSwap_contract positive nearPositive bound0 nearBound boundL
    remBound onward
    returned
  simp only [computeSwap, bind_eq_ok, Except.ok.injEq] at returned
  obtain ⟨initial, fixed, amount, calculated, next, moved, unfixed, unfixedDelta, fixedUsed,
    fixedDelta, fee, feeComputed, rfl⟩ := returned
  have stops : Onward aToB next near := contract.stops
  have apart : next ≠ near := short
  have farApart : next ≠ far := fun same => apart (stops.antisymm (same ▸ beyond))
  have lacking : ¬ amount ≥ initial := by
    intro enough
    rw [if_pos enough] at moved
    exact apart (Except.ok.inj moved).symm
  rw [if_neg lacking] at moved
  rw [if_neg apart] at fixedDelta
  unfold computeSwap
  refine bind_congr fun initialFar fixedFar => ?_
  have longer : initial ≤ initialFar := by
    rw [(getAmountFixedDelta_eq_ok positive nearPositive bound0 nearBound boundL fixed).1,
      (getAmountFixedDelta_eq_ok positive farPositive bound0 bound1 boundL fixedFar).1]
    exact roundTo_mono isIn (amountOf_mono positive farPositive onward beyond)
  rw [calculated, ok_bind, if_neg (by omega), moved, ok_bind]
  dsimp only
  rw [unfixedDelta, ok_bind, if_neg farApart, fixedDelta, ok_bind]
  simp only [farApart, apart, not_false_eq_true, and_true] at feeComputed ⊢
  rw [feeComputed, ok_bind]

end Step

/-- A step towards the next tick uses up a small amount; towards the least price the same
step fails, as the amount for the whole distance exceeds a `u64`. -/
theorem computeSwap_farther_fails :
    Onward true (sqrtPriceFromTickIndex (-1)) minSqrtPriceX64 ∧
      (∃ step, computeSwap (.exact true) 1000 3000 (2 ^ 70) (2 ^ 64) (sqrtPriceFromTickIndex (-1))
        true true = .ok step ∧ step.nextPrice ≠ sqrtPriceFromTickIndex (-1)) ∧
      computeSwap (.exact true) 1000 3000 (2 ^ 70) (2 ^ 64) minSqrtPriceX64 true true =
        .error (.code .tokenMaxExceeded) := by
  have ran : yields (computeSwap (.exact true) 1000 3000 (2 ^ 70) (2 ^ 64)
      (sqrtPriceFromTickIndex (-1)) true true)
      (fun step => decide (step.nextPrice ≠ sqrtPriceFromTickIndex (-1))) = true := by
    decide +kernel
  obtain ⟨step, returned, short⟩ := yields_iff.mp ran
  exact ⟨onward_true.mpr (by decide), ⟨step, returned, of_decide_eq_true short⟩, by decide +kernel⟩

/-- The same step towards the second tick is the step towards the first. -/
theorem computeSwap_farther_secondTick : ∃ step,
    computeSwap (.exact true) 1000 3000 (2 ^ 70) (2 ^ 64) (sqrtPriceFromTickIndex (-1)) true true =
      .ok step ∧
    computeSwap (.exact true) 1000 3000 (2 ^ 70) (2 ^ 64) (sqrtPriceFromTickIndex (-2)) true true =
      .ok step := by
  have ran : yields (computeSwap (.exact true) 1000 3000 (2 ^ 70) (2 ^ 64)
      (sqrtPriceFromTickIndex (-1)) true true)
      (fun step => decide (step.nextPrice ≠ sqrtPriceFromTickIndex (-1))) = true := by
    decide +kernel
  have fits : yields (getAmountFixedDelta (.exact true) (2 ^ 64) (sqrtPriceFromTickIndex (-2))
      (2 ^ 70) true true) (fun _ => true) = true := by decide +kernel
  obtain ⟨step, returned, short⟩ := yields_iff.mp ran
  obtain ⟨initial, fixed, -⟩ := yields_iff.mp fits
  refine ⟨step, returned, ?_⟩
  rw [computeSwap_farther (by norm_num) (by decide) (by norm_num) (by decide) (by norm_num)
    (by norm_num) (onward_true.mpr (by decide)) (onward_true.mpr (by decide)) returned
    (of_decide_eq_true short), fixed, ok_bind]

section Loop

variable {m : Machine}

/-- A failure other than an overdraft of the amount remaining. -/
def Undrawn (failure : Failure) : Prop := failure ≠ .code .amountRemainingOverflow

/-- The common failures are not about an amount that was drawn too far. -/
theorem Common.undrawn (failure : Failure) (common : Common failure) : Undrawn failure :=
  common.2.2.2

/-- Crossing a tick does not fail about an amount that was drawn too far. -/
theorem calculateUpdate_undrawn (tick : Tick) (aToB : Bool) (liquidity growthA growthB : ℕ)
    (infos : Fin numRewards → WhirlpoolRewardInfo) :
    FailsWithin Undrawn (calculateUpdate m tick aToB liquidity growthA growthB infos) := by
  have moved (delta : ℤ) : FailsWithin Undrawn (addLiquidityDelta m liquidity delta) :=
    .ite (fun _ => .ok _) fun _ => .ite
      (fun _ => .ite (fun _ => .ok _) fun _ => .error (by unfold Undrawn; decide))
      fun _ => .bind ((plainAbs_common m _).mono Common.undrawn) fun _ _ =>
        .ite (fun _ => .ok _) fun _ => .error (by unfold Undrawn; decide)
  exact .bind (.ite (fun _ => (plainNeg_common m _).mono Common.undrawn) fun _ => .ok _)
    fun _ _ => .bind (moved _) fun _ _ => .ok _

/-- The steps of a swap never use more than the amount remaining. -/
theorem swap_undrawn {whirlpool : Whirlpool} {table : TickTable} {sequence : SwapTickSequence}
    {amount : ℕ} (tradable : Tradable whirlpool table sequence) (rate : whirlpool.feeRate < 2 ^ 16)
    (fits : amount < 2 ^ 64) (sqrtPriceLimit timestamp : ℕ) (amountSpecifiedIsInput aToB : Bool) :
    FailsWithin Undrawn (swap m whirlpool sequence amount sqrtPriceLimit amountSpecifiedIsInput aToB
      timestamp) := by
  refine swap_failsWithin m Common.undrawn fun rewardInfos accrued above below direction context
    context_eq middle entries iterations runs => ?_
  have sound : context.Sound := by
    rw [context_eq]
    exact ⟨tradable.spacing, above, below⟩
  have starts : LoopInvariant context table (context.initialState sequence amount) := by
    subst context_eq
    exact .initial _ _ _ tradable fits direction
  have same : context.whirlpool = whirlpool := by rw [context_eq]
  obtain ⟨last, traversal, holds⟩ := iterations_traversal sound iterations starts
  refine swapIteration_failsWithin m Common.undrawn (fun arrayIndex next computation searched
    computed => accountAmounts_failsWithin Common.undrawn _ fun overdraft => ?_)
    fun _ _ _ _ _ _ _ _ => calculateUpdate_undrawn _ _ _ _ _ _
  have contract := step_contract sound holds runs searched computed
  have positive := contract.leaves.pos contract.stops holds.place.price_pos
    (step_prices sound holds runs searched).2.1
  cases isIn : context.amountSpecifiedIsInput <;>
    simp only [isIn, Bool.false_eq_true, ↓reduceIte] at contract overdraft
  · exact absurd contract.output_used.1 (not_le.mpr overdraft)
  · exact absurd (contract.input_used positive (same ▸ rate)).1 (not_le.mpr overdraft)

end Loop

/-- A swap step that returns moves the price between the current price and the target; takes
at most the remaining input, or gives at most the remaining output, and all of it short of
the target; takes at least and gives at most the exact amounts of the move; and charges at
least its fee rate. Its plain subtraction never underflows, as the step is the same whether
or not overflow is checked. So no swap uses more than the amount remaining. -/
theorem computeSwap_sound (m : Machine) :
    (∀ (rem feeRate liquidity current target : ℕ) (isIn aToB : Bool),
      rem < 2 ^ 64 → feeRate < 2 ^ 16 → liquidity < 2 ^ 128 →
      (minSqrtPriceX64 ≤ current ∧ current ≤ maxSqrtPriceX64) →
      (minSqrtPriceX64 ≤ target ∧ target ≤ maxSqrtPriceX64) → Onward aToB current target →
      (∀ step, computeSwap m rem feeRate liquidity current target isIn aToB = .ok step →
        (Onward aToB current step.nextPrice ∧ Onward aToB step.nextPrice target) ∧
        (if isIn then step.amountIn + step.feeAmount ≤ rem ∧
            (step.nextPrice ≠ target → step.amountIn + step.feeAmount = rem)
          else step.amountOut ≤ rem ∧ (step.nextPrice ≠ target → step.amountOut = rem)) ∧
        amountOf aToB liquidity current step.nextPrice ≤ step.amountIn ∧
        (step.amountOut : ℚ) ≤ amountOf (!aToB) liquidity current step.nextPrice ∧
        step.amountIn * feeRate ≤ step.feeAmount * (1000000 - feeRate)) ∧
      ∀ checks, computeSwap { m with overflowChecks := checks } rem feeRate liquidity current
        target isIn aToB = computeSwap m rem feeRate liquidity current target isIn aToB) ∧
    ∀ (whirlpool : Whirlpool) (table : TickTable) (sequence : SwapTickSequence)
      (amount : UInt64) (sqrtPriceLimit timestamp : ℕ) (amountSpecifiedIsInput aToB : Bool),
      Tradable whirlpool table sequence → whirlpool.feeRate < 2 ^ 16 →
      swap m whirlpool sequence amount.toNat sqrtPriceLimit amountSpecifiedIsInput aToB timestamp ≠
        .error (.code .amountRemainingOverflow) := by
  constructor
  · intro rem feeRate liquidity current target isIn aToB remBound rate boundL currentRange
      targetRange onward
    have small : maxSqrtPriceX64 < 2 ^ 128 := by decide
    have positive := minSqrtPrice_pos.trans_le currentRange.1
    have targetPositive := minSqrtPrice_pos.trans_le targetRange.1
    have bound0 := lt_of_le_of_lt currentRange.2 small
    have bound1 := lt_of_le_of_lt targetRange.2 small
    refine ⟨fun step returned => ?_, fun checks => computeSwap_overflowChecks checks positive
      targetPositive bound0 bound1 boundL remBound onward⟩
    have contract := computeSwap_contract positive targetPositive bound0 bound1 boundL remBound
      onward returned
    have nextPositive := contract.leaves.pos contract.stops positive targetPositive
    obtain ⟨takes, gives⟩ := contract.amounts_exact positive nextPositive
    refine ⟨⟨contract.leaves, contract.stops⟩, ?_, takes, gives,
      contract.fee_covers nextPositive rate⟩
    cases isIn
    · exact contract.output_used
    · exact contract.input_used nextPositive rate
  · intro whirlpool table sequence amount sqrtPriceLimit timestamp isIn aToB tradable rate failed
    exact swap_undrawn tradable rate amount.toNat_lt sqrtPriceLimit timestamp isIn aToB _ failed rfl

/-- A thousand units of token A are used up before the price falls by ten ticks. -/
theorem computeSwap_sound_short : ∃ step,
    computeSwap (.exact true) 1000 3000 (10 ^ 9) (2 ^ 64) (sqrtPriceFromTickIndex (-10)) true true =
        .ok step ∧
      step.nextPrice ≠ sqrtPriceFromTickIndex (-10) ∧ step.amountIn + step.feeAmount = 1000 ∧
      swap (.exact true) (poolAtTick 8 0) ⟨[(singleTick 5 (-7) 7).arrayAt 1 0]⟩
          (1000 : UInt64).toNat (sqrtPriceFromTickIndex 3) true true 0 ≠
        .error (.code .amountRemainingOverflow) := by
  have ran : yields (computeSwap (.exact true) 1000 3000 (10 ^ 9) (2 ^ 64)
      (sqrtPriceFromTickIndex (-10)) true true)
      (fun step => decide (step.nextPrice ≠ sqrtPriceFromTickIndex (-10))) = true := by
    decide +kernel
  obtain ⟨step, returned, short⟩ := yields_iff.mp ran
  have short := of_decide_eq_true short
  obtain ⟨contract, loop⟩ := computeSwap_sound (.exact true)
  obtain ⟨-, used, -⟩ := (contract 1000 3000 (10 ^ 9) (2 ^ 64) (sqrtPriceFromTickIndex (-10)) true
    true (by norm_num) (by norm_num) (by norm_num) (by decide) (by decide)
    (onward_true.mpr (by decide))).1 step returned
  exact ⟨step, returned, short, used.2 short, loop _ _ _ 1000 _ _ _ _
    (poolAtTick_tradable (by decide) (by decide) (by decide) (by decide)) (by decide)⟩

end Whirlpools
