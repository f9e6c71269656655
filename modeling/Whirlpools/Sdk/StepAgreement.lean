import Whirlpools.Sdk.TokenAgreement

/-! # The swap step of the SDK and of the program

A step is the search for the price it reaches, the amounts up to that price, and the
settlement of the fee. Selling token A, the two steps agree on every input. Buying token A, they
agree exactly where the amount of token B is rounded up alike on the way to that price.
-/

namespace Whirlpools.Sdk

open Outcome Rounding

/-- The step of the SDK is the step of the program. -/
def SameStep (step : SwapStepComputation) (other : SwapStep) : Prop :=
  other = { amountIn := step.amountIn, amountOut := step.amountOut, nextPrice := step.nextPrice,
            feeAmount := step.feeAmount }

section Settlement

variable {rem feeRate target next unfixed fixed : ℕ} {isIn : Bool}

/-- The last part of the program's step: the amounts and the fee. -/
def chainSettle (m : Machine) (rem feeRate target next unfixed fixed : ℕ) (isIn : Bool) :
    Result SwapStepComputation :=
  let isMaxSwap := next = target
  let amountIn := if isIn then fixed else unfixed
  let uncappedOut := if isIn then unfixed else fixed
  let amountOut := if ¬ isIn ∧ uncappedOut > rem then rem else uncappedOut
  (if isIn ∧ ¬ isMaxSwap then m.plainSub 64 rem amountIn
    else checkedMulDivRoundUp amountIn feeRate (Whirlpools.feeRateMulValue - feeRate) >>=
      tryIntoU64)
    >>= fun feeAmount =>
  .ok { amountIn := amountIn, amountOut := amountOut, nextPrice := next, feeAmount := feeAmount }

/-- The last part of the SDK's step. -/
def settle (rem : BN) (feeRate : ℕ) (target next unfixed fixed : BN) (isIn : Bool) :
    Attempt SwapStep :=
  let isMaxSwap := next = target
  let amountIn := if isIn then fixed else unfixed
  let uncappedOut := if isIn then unfixed else fixed
  let amountOut := if ¬ isIn ∧ uncappedOut > rem then rem else uncappedOut
  (if isIn ∧ ¬ isMaxSwap then .ok (rem - amountIn)
    else mulDivRoundUp amountIn feeRate (feeRateMulValue - feeRate) 128) >>= fun feeAmount =>
  .ok { amountIn := amountIn, amountOut := amountOut, nextPrice := next, feeAmount := feeAmount }

/-- The fee of an amount is below the amount. -/
theorem feeOf_lt {amount : ℕ} (bound : amount < 2 ^ 64) (rate : feeRate < 2 ^ 16) :
    divRounded (amount * feeRate) (Whirlpools.feeRateMulValue - feeRate) true < 2 ^ 64 := by
  have covered : amount * feeRate ≤ (Whirlpools.feeRateMulValue - feeRate) * amount := by
    rw [Nat.mul_comm]
    exact Nat.mul_le_mul_right _ (by unfold Whirlpools.feeRateMulValue; omega)
  have positive : 0 < Whirlpools.feeRateMulValue - feeRate := by
    unfold Whirlpools.feeRateMulValue
    omega
  rw [divRounded_eq _ _ positive]
  refine lt_of_le_of_lt (roundTo_le_of_le _ ?_) bound
  rw [div_le_iff₀ (Nat.cast_pos.mpr positive), ← Nat.cast_mul, Nat.cast_le,
    Nat.mul_comm _ (Whirlpools.feeRateMulValue - feeRate)]
  exact covered

/-- The program settles every step whose amounts fit and are paid for. -/
theorem chainSettle_eq (checks : Bool) (fixedBound : fixed < 2 ^ 64)
    (unfixedBound : unfixed < 2 ^ 64)
    (rate : feeRate < 2 ^ 16) (paid : isIn = true → next ≠ target → fixed ≤ rem) :
    chainSettle (.exact checks) rem feeRate target next unfixed fixed isIn = .ok
      { amountIn := if isIn then fixed else unfixed
        amountOut := if ¬ isIn ∧ (if isIn then unfixed else fixed) > rem then rem
          else if isIn then unfixed else fixed
        nextPrice := next
        feeAmount := if isIn ∧ ¬ next = target then rem - (if isIn then fixed else unfixed)
          else divRounded ((if isIn then fixed else unfixed) * feeRate)
            (Whirlpools.feeRateMulValue - feeRate) true } := by
  have bound : (if isIn then fixed else unfixed) < 2 ^ 64 := by split_ifs <;> assumption
  have small : (if isIn then fixed else unfixed) * feeRate < 2 ^ 128 := by
    calc (if isIn then fixed else unfixed) * feeRate < 2 ^ 64 * 2 ^ 16 :=
      Nat.mul_lt_mul'' bound rate
      _ ≤ 2 ^ 128 := by norm_num
  unfold chainSettle
  dsimp only
  by_cases short : isIn = true ∧ ¬ next = target
  · rw [if_pos short, if_pos short, Machine.plainSub_of_le _
      (by rw [if_pos short.1]; exact paid short.1 short.2)]
    rfl
  · rw [if_neg short, if_neg short, checkedMulDivRoundUp,
      chainMulDivRoundUpIf_eq _ (by unfold Whirlpools.feeRateMulValue; omega) small, ok_bind,
      tryIntoU64, if_pos (feeOf_lt bound rate)]
    rfl

/-- The settlements agree. -/
theorem settle_agree (checks : Bool) (fixedBound : fixed < 2 ^ 64) (unfixedBound : unfixed < 2 ^ 64)
    (rate : feeRate < 2 ^ 16) (paid : isIn = true → next ≠ target → fixed ≤ rem) :
    Agree SameStep (chainSettle (.exact checks) rem feeRate target next unfixed fixed isIn)
      (settle rem feeRate target next unfixed fixed isIn) := by
  have bound : (if isIn then fixed else unfixed) < 2 ^ 64 := by split_ifs <;> assumption
  have small : (if isIn then fixed else unfixed) * feeRate < 2 ^ 128 := by
    calc (if isIn then fixed else unfixed) * feeRate < 2 ^ 64 * 2 ^ 16 :=
      Nat.mul_lt_mul'' bound rate
      _ ≤ 2 ^ 128 := by norm_num
  have divisor : feeRateMulValue - (feeRate : ℤ) =
      ((Whirlpools.feeRateMulValue - feeRate : ℕ) : ℤ) := by
    change (1000000 : ℤ) - feeRate = ((1000000 - feeRate : ℕ) : ℤ)
    omega
  rw [chainSettle_eq checks fixedBound unfixedBound rate paid]
  unfold settle
  dsimp only
  rw [divisor]
  simp only [← Nat.cast_ite, gt_iff_lt, Nat.cast_lt, Nat.cast_inj]
  generalize amountOut_eq :
    (if ¬ isIn = true ∧ rem < (if isIn = true then unfixed else fixed) then rem
    else if isIn = true then unfixed else fixed) = amountOut
  by_cases short : isIn = true ∧ ¬ next = target
  · rw [if_pos short, if_pos short, ok_bind, if_pos short.1,
      ← Nat.cast_sub (paid short.1 short.2)]
    exact .ok rfl
  · rw [if_neg short, if_neg short, mulDivRoundUp,
      mulDivRoundUpIf_eq _ _ _ _ (by unfold Whirlpools.feeRateMulValue; omega) small, ok_bind]
    exact .ok rfl

/-- What the SDK settles keeps the price and the amount taken in. -/
theorem settle_eq_ok {step : SwapStep} {rem target next unfixed fixed : BN}
    (returned : settle rem feeRate target next unfixed fixed isIn = .ok step) :
    step.nextPrice = next ∧ step.amountIn = if isIn then fixed else unfixed := by
  obtain ⟨fee, -, built⟩ := bind_eq_ok.mp returned
  obtain rfl := Except.ok.inj built
  exact ⟨rfl, rfl⟩

end Settlement

section Steps

variable {rem feeRate liquidity current target : ℕ} {isIn aToB : Bool}

/-- The price the program's step reaches, when the whole way takes an amount. -/
def chainReach (m : Machine) (rem feeRate liquidity current target : ℕ) (isIn aToB : Bool)
    (initial : ℕ) : Result ℕ :=
  if amountCalc rem feeRate isIn ≥ initial then .ok target
  else Whirlpools.getNextSqrtPrice m current liquidity (amountCalc rem feeRate isIn) isIn aToB

/-- The price the SDK's step reaches, when the whole way takes an amount. -/
def reach (rem feeRate : ℕ) (liquidity current target : BN) (isIn aToB : Bool) (initial : BN) :
    Attempt BN :=
  if amountCalc rem feeRate isIn ≥ initial then .ok target
  else getNextSqrtPrice current liquidity (amountCalc rem feeRate isIn) isIn aToB

/-- The program's step once the price it reaches is known. -/
def chainStepTo (m : Machine) (rem feeRate liquidity current target : ℕ) (isIn aToB : Bool)
    (next : ℕ) : Result SwapStepComputation :=
  Whirlpools.getAmountUnfixedDelta m current next liquidity isIn aToB >>= fun unfixed =>
  Whirlpools.getAmountFixedDelta m current next liquidity isIn aToB >>= fun fixed =>
  chainSettle m rem feeRate target next unfixed fixed isIn

/-- The SDK's step once the price it reaches is known. -/
def stepTo (lib : CommonSdk) (rem : BN) (feeRate : ℕ) (liquidity current target : BN)
    (isIn aToB : Bool) (next : BN) : Attempt SwapStep :=
  getAmountUnfixedDelta lib current next liquidity isIn aToB >>= fun unfixed =>
  getAmountFixedDelta lib current next liquidity isIn aToB >>= fun fixed =>
  settle rem feeRate target next unfixed fixed isIn

theorem chainBudget_eq (remBound : rem < 2 ^ 64) :
    (if isIn then checkedMulDiv rem (Whirlpools.feeRateMulValue - feeRate)
        Whirlpools.feeRateMulValue >>= tryIntoU64
      else .ok rem) = .ok (amountCalc rem feeRate isIn) := by
  cases isIn with
  | false => rfl
  | true =>
      have small : rem * (Whirlpools.feeRateMulValue - feeRate) < 2 ^ 128 := by
        calc rem * (Whirlpools.feeRateMulValue - feeRate) < 2 ^ 64 * 2 ^ 64 :=
              Nat.mul_lt_mul'' remBound (by unfold Whirlpools.feeRateMulValue; omega)
          _ = 2 ^ 128 := by norm_num
      have fits := lt_of_le_of_lt (amountCalc_le rem feeRate true) remBound
      rw [if_pos rfl, checkedMulDiv,
        chainMulDivRoundUpIf_eq _ (by unfold Whirlpools.feeRateMulValue; omega) small, ok_bind]
      exact if_pos fits

theorem budget_eq (remBound : rem < 2 ^ 64) (rate : feeRate < 2 ^ 16) :
    (if isIn then mulDiv rem (feeRateMulValue - feeRate) feeRateMulValue 128
      else .ok (rem : ℤ)) = .ok (amountCalc rem feeRate isIn : ℤ) := by
  cases isIn with
  | false => rfl
  | true =>
      have small : rem * (Whirlpools.feeRateMulValue - feeRate) < 2 ^ 128 := by
        calc rem * (Whirlpools.feeRateMulValue - feeRate) < 2 ^ 64 * 2 ^ 64 :=
              Nat.mul_lt_mul'' remBound (by unfold Whirlpools.feeRateMulValue; omega)
          _ = 2 ^ 128 := by norm_num
      have factor : feeRateMulValue - (feeRate : ℤ) =
          ((Whirlpools.feeRateMulValue - feeRate : ℕ) : ℤ) := by
        change (1000000 : ℤ) - feeRate = ((1000000 - feeRate : ℕ) : ℤ)
        omega
      have divisor : feeRateMulValue = ((Whirlpools.feeRateMulValue : ℕ) : ℤ) := rfl
      rw [if_pos rfl, factor, divisor, mulDiv,
        mulDivRoundUpIf_eq _ _ _ _ (by unfold Whirlpools.feeRateMulValue; omega) small]
      rfl

/-- The program's step: the price reached, and the step to this price. -/
theorem computeSwap_eq (m : Machine) (remBound : rem < 2 ^ 64) :
    computeSwap m rem feeRate liquidity current target isIn aToB =
      (Whirlpools.getAmountFixedDelta m current target liquidity isIn aToB >>= fun initial =>
        chainReach m rem feeRate liquidity current target isIn aToB initial
          >>= chainStepTo m rem feeRate liquidity current target isIn aToB) := by
  unfold computeSwap
  refine bind_congr fun initial fixed => ?_
  rw [chainBudget_eq remBound, ok_bind]
  refine bind_congr fun next moved => bind_congr fun unfixed _ => ?_
  by_cases full : next = target
  · subst full
    rw [if_pos rfl, fixed]
    rfl
  · rw [if_neg full]
    rfl

/-- The SDK's step: the price reached, and the step to this price. -/
theorem computeSwapStep_eq (lib : CommonSdk) (remBound : rem < 2 ^ 64) (rate : feeRate < 2 ^ 16) :
    computeSwapStep lib rem feeRate liquidity current target isIn aToB =
      (getAmountFixedDelta lib current target liquidity isIn aToB >>= fun initial =>
        reach rem feeRate liquidity current target isIn aToB initial
          >>= stepTo lib rem feeRate liquidity current target isIn aToB) := by
  unfold computeSwapStep
  refine bind_congr fun initial fixed => ?_
  rw [budget_eq remBound rate, ok_bind]
  refine bind_congr fun next moved => bind_congr fun unfixed _ => ?_
  by_cases full : next = target
  · subst full
    rw [if_neg (not_not.mpr rfl), fixed]
    rfl
  · rw [if_pos full]
    rfl

/-- The amounts of the specified token agree where an amount of token B that is rounded up is
rounded alike. -/
theorem getAmountFixedDelta_agree (lib : CommonSdk) (checks : Bool) (first : 0 < current)
    (second : 0 < target) (bound0 : current < 2 ^ 96) (bound1 : target < 2 ^ 96)
    (boundL : liquidity < 2 ^ 128)
    (alike : aToB = false → isIn = true →
      RoundsAlike (liquidity * (max current target - min current target))) :
    Agree SameNumber
      (Whirlpools.getAmountFixedDelta (.exact checks) current target liquidity isIn aToB)
      (getAmountFixedDelta lib current target liquidity isIn aToB) := by
  unfold Whirlpools.getAmountFixedDelta getAmountFixedDelta
  refine .ite Iff.rfl (fun _ => getAmountDeltaA_agree checks first second bound0 bound1 boundL)
    fun other => ?_
  cases isIn with
  | false => exact getAmountDeltaB_agree lib current target liquidity
  | true =>
      exact (getAmountDeltaB_agree_iff lib current target liquidity).mpr
        (alike (Bool.eq_false_of_not_eq_true other) rfl)

/-- The amounts of the other token agree where an amount of token B that is rounded up is
rounded alike. -/
theorem getAmountUnfixedDelta_agree (lib : CommonSdk) (checks : Bool) (first : 0 < current)
    (second : 0 < target) (bound0 : current < 2 ^ 96) (bound1 : target < 2 ^ 96)
    (boundL : liquidity < 2 ^ 128)
    (alike : aToB = false → isIn = false →
      RoundsAlike (liquidity * (max current target - min current target))) :
    Agree SameNumber
      (Whirlpools.getAmountUnfixedDelta (.exact checks) current target liquidity isIn aToB)
      (getAmountUnfixedDelta lib current target liquidity isIn aToB) := by
  unfold Whirlpools.getAmountUnfixedDelta getAmountUnfixedDelta
  refine .ite Iff.rfl (fun same => ?_)
    fun _ => getAmountDeltaA_agree checks first second bound0 bound1 boundL
  cases isIn with
  | true => exact getAmountDeltaB_agree lib current target liquidity
  | false => exact (getAmountDeltaB_agree_iff lib current target liquidity).mpr (alike same rfl)

end Steps

section Reaching

variable {rem feeRate liquidity current target initial next : ℕ} {isIn aToB checks : Bool}

/-- The inputs of a step: amounts and prices that the program's types and checks allow. -/
structure StepInputs (rem feeRate liquidity current target : ℕ) (aToB : Bool) : Prop where
  rem_lt : rem < 2 ^ 64
  feeRate_lt : feeRate < 2 ^ 16
  liquidity_lt : liquidity < 2 ^ 128
  current_ge : minSqrtPriceX64 ≤ current
  current_le : current ≤ maxSqrtPriceX64
  target_ge : minSqrtPriceX64 ≤ target
  target_le : target ≤ maxSqrtPriceX64
  onward : Onward aToB current target

namespace StepInputs

variable (inputs : StepInputs rem feeRate liquidity current target aToB)

include inputs

theorem current_pos : 0 < current := lt_of_lt_of_le (by decide) inputs.current_ge

theorem target_pos : 0 < target := lt_of_lt_of_le (by decide) inputs.target_ge

theorem current_lt : current < 2 ^ 96 := lt_of_le_of_lt inputs.current_le (by decide)

theorem target_lt : target < 2 ^ 96 := lt_of_le_of_lt inputs.target_le (by decide)

theorem current_wide : current < 2 ^ 128 := inputs.current_lt.trans (by norm_num)

theorem target_wide : target < 2 ^ 128 := inputs.target_lt.trans (by norm_num)

end StepInputs

/-- What holds of the price a step reaches. -/
structure ReachedPrice (m : Machine) (rem liquidity current target : ℕ) (isIn aToB : Bool)
    (next : ℕ) : Prop where
  leaves : Onward aToB current next
  stops : Onward aToB next target
  paid : isIn = true → next ≠ target → ∀ used,
    Whirlpools.getAmountFixedDelta m current next liquidity isIn aToB = .ok used → used ≤ rem

/-- The step to a price is defined by the amounts up to this price. -/
theorem reachedPrice_of_chainReach {m : Machine}
    (inputs : StepInputs rem feeRate liquidity current target aToB)
    (fixed : Whirlpools.getAmountFixedDelta m current target liquidity isIn aToB = .ok initial)
    (moved : chainReach m rem feeRate liquidity current target isIn aToB initial = .ok next) :
    ReachedPrice m rem liquidity current target isIn aToB next := by
  obtain ⟨fixed_eq, -⟩ := getAmountFixedDelta_eq_ok inputs.current_pos inputs.target_pos
    inputs.current_wide inputs.target_wide inputs.liquidity_lt fixed
  obtain ⟨leaves, stops, -, farthest, -⟩ := reached_place inputs.current_pos inputs.target_pos
    inputs.current_wide inputs.rem_lt inputs.liquidity_lt inputs.onward fixed_eq moved
  refine ⟨leaves, stops, fun isInput short used usedDelta => ?_⟩
  have nextPositive := leaves.pos stops inputs.current_pos inputs.target_pos
  have nextBound := leaves.lt stops inputs.current_wide inputs.target_wide
  obtain ⟨used_eq, -⟩ := getAmountFixedDelta_eq_ok inputs.current_pos nextPositive
    inputs.current_wide nextBound inputs.liquidity_lt usedDelta
  subst isInput
  have pays := (farthest short next nextPositive leaves).mp (.refl _ _)
  rw [used_eq, specifiedIsA, Bool.decide_eq_true, roundTo_true, Nat.ceil_le]
  exact le_trans pays (Nat.cast_le.mpr (amountCalc_le rem feeRate true))

/-- An amount below what a distance takes is covered by the distance. -/
theorem covered_of_lt {amount : ℕ} {roundUp : Bool}
    (short : amount < roundTo roundUp (amountOf false liquidity current target)) :
    amount * 2 ^ 64 ≤ liquidity * (max current target - min current target) := by
  have divided : _ = roundTo roundUp ((liquidity * (max current target - min current target) : ℕ) /
      ((2 ^ 64 : ℕ) : ℚ)) := div_round_eq roundUp (by norm_num)
  rw [← amountB_eq_div] at divided
  change amount < roundTo roundUp (amountB liquidity current target) at short
  rw [← divided] at short
  generalize liquidity * (max current target - min current target) = product at *
  split_ifs at short <;> omega

/-- The prices reached agree, when the whole way takes the same amount. -/
theorem reach_agree (inputs : StepInputs rem feeRate liquidity current target aToB)
    (fixed : Whirlpools.getAmountFixedDelta (.exact checks) current target liquidity isIn aToB =
      .ok initial) :
    Agree SameNumber
      (chainReach (.exact checks) rem feeRate liquidity current target isIn aToB initial)
      (reach rem feeRate liquidity current target isIn aToB initial) := by
  unfold chainReach reach
  refine .ite (by rw [ge_iff_le, ge_iff_le, Nat.cast_le]) (fun _ => .ok rfl) fun short => ?_
  rw [ge_iff_le, not_le] at short
  obtain ⟨fixed_eq, -⟩ := getAmountFixedDelta_eq_ok inputs.current_pos inputs.target_pos
    inputs.current_wide inputs.target_wide inputs.liquidity_lt fixed
  unfold Whirlpools.getNextSqrtPrice getNextSqrtPrice
  refine .ite Iff.rfl (fun _ => getNextSqrtPriceFromARoundUp_agree checks inputs.current_pos
    inputs.current_lt inputs.liquidity_lt
    (lt_of_le_of_lt (amountCalc_le _ _ _) inputs.rem_lt)) fun other => ?_
  have tokenB : specifiedIsA isIn aToB = false := by
    rw [specifiedIsA, decide_eq_false_iff_not]
    exact fun same => other same.symm
  rw [fixed_eq, tokenB] at short
  have covered := covered_of_lt short
  have liquid : liquidity ≠ 0 := by
    rintro rfl
    rw [amountOf_zero, roundTo_zero] at short
    exact Nat.not_lt_zero _ short
  refine getNextSqrtPriceFromBRoundDown_agree liquid covered ?_
  have onward := inputs.onward
  have wide := inputs.target_wide
  cases isIn with
  | true =>
      rw [Bool.eq_false_of_not_eq_true (fun same => other same.symm), onward_false] at onward
      rw [if_pos rfl, max_eq_right onward, min_eq_left onward]
      omega
  | false =>
      rw [Bool.eq_true_of_not_eq_false (fun same => other same.symm), onward_true] at onward
      rw [if_neg Bool.false_ne_true, max_eq_left onward, min_eq_right onward]
      omega

/-- The steps to a price agree where the amount of token B up to it is rounded alike. -/
theorem stepTo_agree (lib : CommonSdk)
    (inputs : StepInputs rem feeRate liquidity current target aToB)
    (reached : ReachedPrice (.exact checks) rem liquidity current target isIn aToB next)
    (alike : aToB = false → RoundsAlike (liquidity * (next - current))) :
    Agree SameStep
      (chainStepTo (.exact checks) rem feeRate liquidity current target isIn aToB next)
      (stepTo lib rem feeRate liquidity current target isIn aToB next) := by
  have nextPositive := reached.leaves.pos reached.stops inputs.current_pos inputs.target_pos
  have nextBound := reached.leaves.lt reached.stops inputs.current_lt inputs.target_lt
  have nextWide : next < 2 ^ 128 := nextBound.trans (by norm_num)
  have distance (buys : aToB = false) :
      RoundsAlike (liquidity * (max current next - min current next)) := by
    have forward := reached.leaves
    rw [buys, onward_false] at forward
    rw [max_eq_right forward, min_eq_left forward]
    exact alike buys
  refine (getAmountUnfixedDelta_agree lib checks inputs.current_pos nextPositive inputs.current_lt
    nextBound inputs.liquidity_lt fun buys _ => distance buys).bind
      fun unfixed other unfixedDelta same => ?_
  rw [same]
  refine (getAmountFixedDelta_agree lib checks inputs.current_pos nextPositive inputs.current_lt
    nextBound inputs.liquidity_lt fun buys _ => distance buys).bind
      fun fixed other fixedDelta same => ?_
  rw [same]
  exact settle_agree checks
    (getAmountFixedDelta_eq_ok inputs.current_pos nextPositive inputs.current_wide nextWide
      inputs.liquidity_lt fixedDelta).2
    (getAmountUnfixedDelta_eq_ok inputs.current_pos nextPositive inputs.current_wide nextWide
      inputs.liquidity_lt unfixedDelta).2
    inputs.feeRate_lt fun isInput short => reached.paid isInput short fixed fixedDelta

/-- Selling token A, the steps agree. -/
theorem computeSwapStep_agree_sell (lib : CommonSdk) (isIn checks : Bool)
    (inputs : StepInputs rem feeRate liquidity current target true) :
    Agree SameStep (computeSwap (.exact checks) rem feeRate liquidity current target isIn true)
      (computeSwapStep lib rem feeRate liquidity current target isIn true) := by
  rw [computeSwap_eq _ inputs.rem_lt, computeSwapStep_eq lib inputs.rem_lt inputs.feeRate_lt]
  refine (getAmountFixedDelta_agree lib checks inputs.current_pos inputs.target_pos
    inputs.current_lt inputs.target_lt inputs.liquidity_lt fun buys => by
      simp only [Bool.true_eq_false] at buys).bind fun initial other fixed same => ?_
  rw [same]
  refine (reach_agree inputs fixed).bind fun next other moved same => ?_
  rw [same]
  exact stepTo_agree lib inputs (reachedPrice_of_chainReach inputs fixed moved) fun buys => by
    simp only [Bool.true_eq_false] at buys

end Reaching

section Buying

variable {rem feeRate liquidity current target initial next : ℕ} {isIn checks : Bool}

/-- The whole amount of token A between two prices. -/
def amountABetween (liquidity lower upper : ℕ) : ℕ :=
  liquidity * (upper - lower) * 2 ^ 64 / (upper * lower)

/-- The price that an amount of token B put in reaches. -/
def priceAfterInput (liquidity current target amount : ℕ) : ℕ :=
  if liquidity * (target - current) ≤ amount * 2 ^ 64 then target
  else current + amount * 2 ^ 64 / liquidity

/-- The price that an amount of token A taken out reaches. -/
def priceAfterOutput (liquidity current target amount : ℕ) : ℕ :=
  if amountABetween liquidity current target ≤ amount then target
  else divRounded (liquidity * current * 2 ^ 64) (liquidity * 2 ^ 64 - current * amount) true

/-- The SDK's amount of token A is the exact one, rounded down. -/
theorem amountABetween_eq {lower upper : ℕ} (positive : 0 < lower) (forward : lower ≤ upper) :
    amountABetween liquidity lower upper = roundTo false (amountA liquidity lower upper) := by
  rw [amountA_eq_div positive (lt_of_lt_of_le positive forward), max_eq_right forward,
    min_eq_left forward, roundTo_false, Nat.floor_div_eq_div]
  rfl

/-- The program returns the amounts of token A that fit. -/
theorem chainAmountDeltaA_eq (checks : Bool) {lower upper : ℕ} (positive : 0 < lower)
    (forward : lower ≤ upper) (bound : upper < 2 ^ 96) (boundL : liquidity < 2 ^ 128)
    (fits : amountABetween liquidity lower upper < 2 ^ 64) :
    Whirlpools.getAmountDeltaA (.exact checks) lower upper liquidity false =
      .ok (amountABetween liquidity lower upper) := by
  have lowerBound := lt_of_le_of_lt forward bound
  have upperPositive := lt_of_lt_of_le positive forward
  rw [amountABetween_eq positive forward] at fits ⊢
  exact getAmountDeltaA_exact checks positive upperPositive (lowerBound.trans (by norm_num))
    (bound.trans (by norm_num)) boundL
    (product_lt_of_fits positive upperPositive lowerBound bound fits) fits

/-- The program returns the amounts of token B that fit. -/
theorem chainAmountDeltaB_eq_ok {lower upper : ℕ} (forward : lower ≤ upper)
    (fits : liquidity * (upper - lower) ≤ (2 ^ 64 - 1) * 2 ^ 64) :
    Whirlpools.getAmountDeltaB lower upper liquidity true =
      .ok (divRounded (liquidity * (upper - lower)) (2 ^ 64) true) := by
  rw [chainAmountDeltaB_eq, chainShiftRight_eq, max_eq_right forward, min_eq_left forward]
  generalize liquidity * (upper - lower) = product at *
  rw [if_neg (by omega), if_neg (by unfold Whirlpools.u64Max; omega)]

/-- The program returns the step to a price where it returns the amounts up to it. -/
theorem chainStepTo_eq_ok (inputs : StepInputs rem feeRate liquidity current target false)
    (reached : ReachedPrice (.exact checks) rem liquidity current target isIn false next)
    {unfixed fixed : ℕ}
    (unfixedDelta : Whirlpools.getAmountUnfixedDelta (.exact checks) current next liquidity isIn
      false = .ok unfixed)
    (fixedDelta : Whirlpools.getAmountFixedDelta (.exact checks) current next liquidity isIn
      false = .ok fixed) :
    ∃ step, chainStepTo (.exact checks) rem feeRate liquidity current target isIn false next =
        .ok step ∧
      step.nextPrice = next ∧ step.amountIn = if isIn then fixed else unfixed := by
  have nextPositive := reached.leaves.pos reached.stops inputs.current_pos inputs.target_pos
  have nextWide := reached.leaves.lt reached.stops inputs.current_wide inputs.target_wide
  have settled := @chainSettle_eq rem feeRate target next unfixed fixed isIn checks
    (getAmountFixedDelta_eq_ok inputs.current_pos nextPositive inputs.current_wide nextWide
      inputs.liquidity_lt fixedDelta).2
    (getAmountUnfixedDelta_eq_ok inputs.current_pos nextPositive inputs.current_wide nextWide
      inputs.liquidity_lt unfixedDelta).2
    inputs.feeRate_lt fun isInput short => reached.paid isInput short fixed fixedDelta
  exact ⟨_, bind_eq_ok.mpr ⟨unfixed, unfixedDelta, bind_eq_ok.mpr ⟨fixed, fixedDelta, settled⟩⟩,
    rfl, rfl⟩

/-- What the SDK's step to a price returns keeps the price and the amount taken in. -/
theorem stepTo_eq_ok {lib : CommonSdk} {rem target current liquidity next : BN} {step : SwapStep}
    (returned : stepTo lib rem feeRate liquidity current target isIn false next = .ok step) :
    step.nextPrice = next ∧ ∃ unfixed fixed,
      getAmountUnfixedDelta lib current next liquidity isIn false = .ok unfixed ∧
      getAmountFixedDelta lib current next liquidity isIn false = .ok fixed ∧
      step.amountIn = if isIn then fixed else unfixed := by
  obtain ⟨unfixed, unfixedDelta, returned⟩ := bind_eq_ok.mp returned
  obtain ⟨fixed, fixedDelta, returned⟩ := bind_eq_ok.mp returned
  obtain ⟨price, amountIn⟩ := settle_eq_ok returned
  exact ⟨price, unfixed, fixed, unfixedDelta, fixedDelta, amountIn⟩

/-- Where the program returns the amounts up to the price reached, the steps agree exactly when
the amount of token B is rounded alike. -/
theorem stepTo_agree_iff (lib : CommonSdk)
    (inputs : StepInputs rem feeRate liquidity current target false)
    (reached : ReachedPrice (.exact checks) rem liquidity current target isIn false next)
    {unfixed fixed : ℕ}
    (unfixedDelta : Whirlpools.getAmountUnfixedDelta (.exact checks) current next liquidity isIn
      false = .ok unfixed)
    (fixedDelta : Whirlpools.getAmountFixedDelta (.exact checks) current next liquidity isIn
      false = .ok fixed) :
    Agree SameStep
        (chainStepTo (.exact checks) rem feeRate liquidity current target isIn false next)
        (stepTo lib rem feeRate liquidity current target isIn false next) ↔
      RoundsAlike (liquidity * (next - current)) := by
  refine ⟨fun agree => ?_, fun alike => stepTo_agree lib inputs reached fun _ => alike⟩
  have forward := onward_false.mp reached.leaves
  obtain ⟨step, chainReturned, -, chainIn⟩ :=
    chainStepTo_eq_ok inputs reached unfixedDelta fixedDelta
  obtain ⟨other, returned, same⟩ := agree.exists_of_left chainReturned
  obtain ⟨-, unfixed', fixed', unfixedDelta', fixedDelta', amountIn⟩ := stepTo_eq_ok returned
  rw [same, chainIn] at amountIn
  have rounded : Agree SameNumber (Whirlpools.getAmountDeltaB current next liquidity true)
      (getAmountDeltaB lib current next liquidity true) := by
    cases isIn with
    | true =>
        change Whirlpools.getAmountDeltaB current next liquidity true = _ at fixedDelta
        change getAmountDeltaB lib current next liquidity true = _ at fixedDelta'
        rw [fixedDelta, fixedDelta']
        exact .ok amountIn.symm
    | false =>
        change Whirlpools.getAmountDeltaB current next liquidity true = _ at unfixedDelta
        change getAmountDeltaB lib current next liquidity true = _ at unfixedDelta'
        rw [unfixedDelta, unfixedDelta']
        exact .ok amountIn.symm
  have alike := (getAmountDeltaB_agree_iff lib current next liquidity).mp rounded
  rwa [max_eq_right forward, min_eq_left forward] at alike

/-- A step whose way is searched alike is computed alike exactly where it is settled alike. -/
theorem computeSwapStep_agree_iff_stepTo (lib : CommonSdk) {initial' : BN}
    (inputs : StepInputs rem feeRate liquidity current target false)
    (fixed : Whirlpools.getAmountFixedDelta (.exact checks) current target liquidity isIn false =
      .ok initial)
    (fixed' : getAmountFixedDelta lib current target liquidity isIn false = .ok initial')
    (moved : chainReach (.exact checks) rem feeRate liquidity current target isIn false initial =
      .ok next)
    (moved' : reach rem feeRate liquidity current target isIn false initial' = .ok (next : ℤ)) :
    Agree SameStep (computeSwap (.exact checks) rem feeRate liquidity current target isIn false)
        (computeSwapStep lib rem feeRate liquidity current target isIn false) ↔
      Agree SameStep
        (chainStepTo (.exact checks) rem feeRate liquidity current target isIn false next)
        (stepTo lib rem feeRate liquidity current target isIn false next) := by
  rw [computeSwap_eq _ inputs.rem_lt, computeSwapStep_eq lib inputs.rem_lt inputs.feeRate_lt,
    fixed, fixed', ok_bind, ok_bind, moved, moved', ok_bind, ok_bind]

/-- The SDK's price after an amount of token A taken out. -/
theorem getNextSqrtPriceFromARoundUp_eq {price amount : ℕ} (nonzero : amount ≠ 0)
    (remains : price * amount < liquidity * 2 ^ 64) (volume : liquidity * price < 2 ^ 192)
    (product : price * amount < 2 ^ 256)
    (least : minSqrtPriceX64 ≤
      divRounded (liquidity * price * 2 ^ 64) (liquidity * 2 ^ 64 - price * amount) true)
    (greatest : divRounded (liquidity * price * 2 ^ 64) (liquidity * 2 ^ 64 - price * amount) true ≤
      maxSqrtPriceX64) :
    getNextSqrtPriceFromARoundUp price liquidity amount false =
      .ok (divRounded (liquidity * price * 2 ^ 64) (liquidity * 2 ^ 64 - price * amount) true :
        ℤ) := by
  have numeratorCast : ((liquidity * price : ℕ) : ℤ) * 2 ^ 64 =
      ((liquidity * price * 2 ^ 64 : ℕ) : ℤ) := by push_cast; rfl
  have shiftCast : (liquidity : ℤ) * 2 ^ 64 = ((liquidity * 2 ^ 64 : ℕ) : ℤ) := by push_cast; rfl
  have leastCast : minSqrtPrice = ((minSqrtPriceX64 : ℕ) : ℤ) := rfl
  have greatestCast : maxSqrtPrice = ((maxSqrtPriceX64 : ℕ) : ℤ) := rfl
  unfold getNextSqrtPriceFromARoundUp
  rw [if_neg (Nat.cast_ne_zero.mpr nonzero), mul_eq, if_neg (not_le.mpr product), ok_bind, mul_eq,
    if_neg (not_le.mpr (volume.trans (by norm_num))), ok_bind]
  dsimp only
  rw [numeratorCast, shiftCast,
    if_neg (mt isOverLimit_iff.mp (by generalize liquidity * price = product at *; omega)),
    if_neg (by rw [Nat.cast_le]; exact fun covers => absurd covers.2 (not_le.mpr remains)),
    if_neg Bool.false_ne_true, ← Nat.cast_sub remains.le, divRoundUp,
    divRoundUpIf_eq _ _ (Nat.sub_ne_zero_of_lt remains), ok_bind, leastCast, greatestCast,
    if_neg (by rw [Nat.cast_lt, not_lt]; exact least),
    if_neg (by rw [gt_iff_lt, Nat.cast_lt, not_lt]; exact greatest)]

/-- The SDK rejects a volume that the program cannot hold. -/
theorem getNextSqrtPriceFromARoundUp_error {price amount : ℕ} (nonzero : amount ≠ 0)
    (product : price * amount < 2 ^ 256) (bound : liquidity * price < 2 ^ 256)
    (volume : 2 ^ 192 ≤ liquidity * price) :
    ∃ failure, getNextSqrtPriceFromARoundUp price liquidity amount isIn = .error failure := by
  have numeratorCast : ((liquidity * price : ℕ) : ℤ) * 2 ^ 64 =
      ((liquidity * price * 2 ^ 64 : ℕ) : ℤ) := by push_cast; rfl
  unfold getNextSqrtPriceFromARoundUp
  rw [if_neg (Nat.cast_ne_zero.mpr nonzero), mul_eq, if_neg (not_le.mpr product), ok_bind, mul_eq,
    if_neg (not_le.mpr bound), ok_bind]
  dsimp only
  rw [numeratorCast,
    if_pos (isOverLimit_iff.mpr (by generalize liquidity * price = product at *; omega))]
  exact ⟨_, rfl⟩

/-- An amount of token A below what the way to the target yields leaves the price inside it. -/
theorem outputPrice_bounds {amount : ℕ} (positive : 0 < current) (forward : current ≤ target)
    (short : amount < amountABetween liquidity current target) :
    current * amount < liquidity * 2 ^ 64 ∧
      current ≤ divRounded (liquidity * current * 2 ^ 64) (liquidity * 2 ^ 64 - current * amount)
        true ∧
      divRounded (liquidity * current * 2 ^ 64) (liquidity * 2 ^ 64 - current * amount) true ≤
        target := by
  obtain ⟨distance, rfl⟩ := Nat.exists_eq_add_of_le forward
  unfold amountABetween at short
  rw [Nat.add_sub_cancel_left] at short
  have denominator : 0 < (current + distance) * current := Nat.mul_pos (by omega) positive
  have liquid : 0 < liquidity := by
    rcases Nat.eq_zero_or_pos liquidity with rfl | liquid
    · rw [Nat.zero_mul, Nat.zero_mul, Nat.zero_div] at short
      exact absurd short (Nat.not_lt_zero _)
    · exact liquid
  have covered : amount * ((current + distance) * current) ≤ liquidity * distance * 2 ^ 64 :=
    (Nat.le_div_iff_mul_le denominator).mp short.le
  generalize (2 : ℕ) ^ 64 = unit at *
  have unitPositive : 0 < unit := by
    rcases Nat.eq_zero_or_pos unit with rfl | positive
    · rw [Nat.mul_zero, Nat.zero_div] at short
      exact absurd short (Nat.not_lt_zero _)
    · exact positive
  have remains : current * amount < liquidity * unit := by
    refine Nat.lt_of_mul_lt_mul_right (a := current + distance) ?_
    calc current * amount * (current + distance) =
      amount * ((current + distance) * current) := by ring
      _ ≤ liquidity * distance * unit := covered
      _ < liquidity * unit * (current + distance) := by
        have := Nat.mul_pos (Nat.mul_pos liquid unitPositive) positive
        linarith
  obtain ⟨rest, split⟩ := Nat.exists_eq_add_of_lt remains
  rw [split, Nat.add_assoc, Nat.add_sub_cancel_left]
  refine ⟨by rw [← Nat.add_assoc]; omega, ?_, ?_⟩
  · have whole : current ≤ liquidity * current * unit / (rest + 1) := by
      rw [Nat.le_div_iff_mul_le (Nat.succ_pos rest)]
      calc current * (rest + 1) ≤ current * (current * amount + rest + 1) :=
            Nat.mul_le_mul_left _ (by omega)
        _ = liquidity * current * unit := by rw [← split]; ring
    unfold divRounded
    split_ifs <;> omega
  · rw [divRounded_eq _ _ (Nat.succ_pos rest)]
    refine roundTo_le_of_le _ ?_
    rw [div_le_iff₀ (Nat.cast_pos.mpr (Nat.succ_pos rest)), ← Nat.cast_mul, Nat.cast_le]
    have whole : (current + distance) * (current * amount + rest + 1) =
        (current + distance) * (liquidity * unit) := by rw [split]
    linarith

/-- Where an exact amount of token A taken out is paid for alike. -/
def OutputAlike (rem liquidity current target : ℕ) : Prop :=
  2 ^ 64 ≤ amountABetween liquidity current target ∨
  (rem < amountABetween liquidity current target ∧ 2 ^ 192 ≤ liquidity * current) ∨
  RoundsAlike (liquidity * (priceAfterOutput liquidity current target rem - current))

/-- Where an exact amount of token B put in is used alike. -/
def InputAlike (rem feeRate liquidity current target : ℕ) : Prop :=
  (2 ^ 64 - 1) * 2 ^ 64 < liquidity * (target - current) ∨
  2 ^ 64 ≤ amountABetween liquidity current
    (priceAfterInput liquidity current target (amountCalc rem feeRate true)) ∨
  (RoundsAlike (liquidity *
      (priceAfterInput liquidity current target (amountCalc rem feeRate true) - current)) ∧
    liquidity * (target - current) ≠ (2 ^ 64 - 1) * 2 ^ 64 ∧
    ¬ (amountCalc rem feeRate true = 0 ∧ 0 < liquidity * (target - current) ∧
      liquidity * (target - current) < 2 ^ 64))

/-- Nothing taken out leaves the price where it is. -/
theorem priceAfterOutput_zero (positive : 0 < current) (forward : current ≤ target)
    (liquid : 0 < amountABetween liquidity current target) :
    priceAfterOutput liquidity current target 0 = current := by
  have remains := (outputPrice_bounds positive forward liquid).1
  rw [Nat.mul_zero] at remains
  rw [priceAfterOutput, if_neg (not_le.mpr liquid), Nat.mul_zero, Nat.sub_zero,
    show liquidity * current * 2 ^ 64 = current * (liquidity * 2 ^ 64) by ring, divRounded,
    Nat.mul_mod_left, Nat.mul_div_cancel _ remains, if_neg (fun up => absurd up.2 (lt_irrefl 0))]

/-- The SDK reaches the price the amount taken out leads to. -/
theorem reach_output (inputs : StepInputs rem feeRate liquidity current target false)
    (volume : rem < amountABetween liquidity current target → rem ≠ 0 →
      liquidity * current < 2 ^ 192) :
    reach rem feeRate liquidity current target false false
        (amountABetween liquidity current target : ℤ) =
      .ok (priceAfterOutput liquidity current target rem : ℤ) := by
  have forward := onward_false.mp inputs.onward
  unfold reach priceAfterOutput
  change (if (rem : ℤ) ≥ (amountABetween liquidity current target : ℤ) then _ else
    getNextSqrtPriceFromARoundUp current liquidity rem false) = _
  by_cases enough : amountABetween liquidity current target ≤ rem
  · rw [if_pos (Nat.cast_le.mpr enough), if_pos enough]
  · rw [if_neg (mt Nat.cast_le.mp enough), if_neg enough]
    rw [not_le] at enough
    obtain ⟨remains, least, greatest⟩ := outputPrice_bounds inputs.current_pos forward enough
    by_cases zero : rem = 0
    · have stays := priceAfterOutput_zero inputs.current_pos forward (zero ▸ enough)
      rw [priceAfterOutput, if_neg (not_le.mpr (zero ▸ enough))] at stays
      rw [zero, stays, getNextSqrtPriceFromARoundUp, if_pos Nat.cast_zero]
    · have product : current * rem < 2 ^ 256 := by
        calc current * rem < 2 ^ 96 * 2 ^ 64 := Nat.mul_lt_mul'' inputs.current_lt inputs.rem_lt
          _ ≤ 2 ^ 256 := by norm_num
      exact getNextSqrtPriceFromARoundUp_eq zero remains (volume enough zero) product
        (inputs.current_ge.trans least) (greatest.trans inputs.target_le)

/-- A shorter way yields at most the amount of token A of a longer one. -/
theorem amountABetween_mono {lower upper farther : ℕ} (positive : 0 < lower)
    (forward : lower ≤ upper)
    (beyond : upper ≤ farther) :
    amountABetween liquidity lower upper ≤ amountABetween liquidity lower farther := by
  rw [amountABetween_eq positive forward, amountABetween_eq positive (forward.trans beyond)]
  refine roundTo_mono _ ?_
  rw [amountA_of_le forward, amountA_of_le (forward.trans beyond)]
  refine mul_le_mul_of_nonneg_left ?_ (Nat.cast_nonneg _)
  exact sub_le_sub_right (coordA_le (lt_of_lt_of_le positive forward) beyond) _

/-- Where the way is searched alike and rejected, the steps agree. -/
theorem computeSwapStep_agree_of_rejected (lib : CommonSdk)
    (inputs : StepInputs rem feeRate liquidity current target false)
    (fixedAgree : Agree SameNumber
      (Whirlpools.getAmountFixedDelta (.exact checks) current target liquidity isIn false)
      (getAmountFixedDelta lib current target liquidity isIn false))
    (rejected : ∀ initial next,
      Whirlpools.getAmountFixedDelta (.exact checks) current target liquidity isIn false =
        .ok initial →
      chainReach (.exact checks) rem feeRate liquidity current target isIn false initial ≠
        .ok next) :
    Agree SameStep (computeSwap (.exact checks) rem feeRate liquidity current target isIn false)
      (computeSwapStep lib rem feeRate liquidity current target isIn false) := by
  rw [computeSwap_eq _ inputs.rem_lt, computeSwapStep_eq lib inputs.rem_lt inputs.feeRate_lt]
  refine fixedAgree.bind fun initial other fixed same => ?_
  rw [same]
  exact (reach_agree inputs fixed).bind fun next other moved _ =>
    absurd moved (rejected initial next fixed)

/-- A product too large for the amount of token B is rejected by both. -/
theorem roundsAlike_of_lt {product : ℕ} (large : (2 ^ 64 - 1) * 2 ^ 64 < product) :
    RoundsAlike product := by
  unfold RoundsAlike
  omega

/-- Taking out an exact amount of token A, the steps agree exactly under `OutputAlike`. -/
theorem computeSwapStep_agree_output (lib : CommonSdk) (checks : Bool)
    (inputs : StepInputs rem feeRate liquidity current target false) :
    Agree SameStep (computeSwap (.exact checks) rem feeRate liquidity current target false false)
        (computeSwapStep lib rem feeRate liquidity current target false false) ↔
      OutputAlike rem liquidity current target := by
  have forward := onward_false.mp inputs.onward
  have fixedAgree := @getAmountFixedDelta_agree liquidity current target false false lib checks
    inputs.current_pos inputs.target_pos inputs.current_lt inputs.target_lt inputs.liquidity_lt
    fun _ input => absurd input Bool.false_ne_true
  unfold OutputAlike
  by_cases fits : amountABetween liquidity current target < 2 ^ 64
  · have fixed : Whirlpools.getAmountFixedDelta (.exact checks) current target liquidity
        false false = .ok (amountABetween liquidity current target) :=
      chainAmountDeltaA_eq checks inputs.current_pos forward inputs.target_lt
        inputs.liquidity_lt fits
    obtain ⟨_, fixed', rfl⟩ := fixedAgree.exists_of_left fixed
    by_cases overflow : rem < amountABetween liquidity current target ∧ rem ≠ 0 ∧
      2 ^ 192 ≤ liquidity * current
    · -- The volume does not fit the program's words, and both reject.
      obtain ⟨short, present, large⟩ := overflow
      refine ⟨fun _ => .inr (.inl ⟨short, large⟩), fun _ =>
        computeSwapStep_agree_of_rejected lib inputs fixedAgree fun initial next
          fixed'' moved => ?_⟩
      obtain rfl := Except.ok.inj (fixed.symm.trans fixed'')
      obtain ⟨other, moved', -⟩ := (reach_agree inputs fixed).exists_of_left moved
      have product : current * rem < 2 ^ 256 := by
        calc current * rem < 2 ^ 96 * 2 ^ 64 := Nat.mul_lt_mul'' inputs.current_lt inputs.rem_lt
          _ ≤ 2 ^ 256 := by norm_num
      have bound : liquidity * current < 2 ^ 256 := by
        calc liquidity * current < 2 ^ 128 * 2 ^ 96 :=
              Nat.mul_lt_mul'' inputs.liquidity_lt inputs.current_lt
          _ ≤ 2 ^ 256 := by norm_num
      obtain ⟨failure, failed⟩ := @getNextSqrtPriceFromARoundUp_error liquidity false current rem
        present product bound large
      change (if (rem : ℤ) ≥ (amountABetween liquidity current target : ℤ) then _ else
        getNextSqrtPriceFromARoundUp current liquidity rem false) = _ at moved'
      rw [if_neg (by rw [ge_iff_le, Nat.cast_le, not_le]; exact short), failed] at moved'
      simp only [reduceCtorEq] at moved'
    · have moved' := reach_output inputs fun short present => by
        by_contra large
        exact overflow ⟨short, present, not_lt.mp large⟩
      obtain ⟨next, moved, same⟩ := (reach_agree inputs fixed).exists_of_right moved'
      have same := Nat.cast_injective same
      have reached := reachedPrice_of_chainReach inputs fixed moved
      rw [same] at moved'
      rw [same, computeSwapStep_agree_iff_stepTo lib inputs fixed fixed' moved moved']
      have leaves := onward_false.mp reached.leaves
      have stops := onward_false.mp reached.stops
      have alike_iff : Agree SameStep
          (chainStepTo (.exact checks) rem feeRate liquidity current target false false next)
          (stepTo lib rem feeRate liquidity current target false false next) ↔
          RoundsAlike (liquidity * (next - current)) := by
        by_cases returns : liquidity * (next - current) ≤ (2 ^ 64 - 1) * 2 ^ 64
        · exact stepTo_agree_iff lib inputs reached (chainAmountDeltaB_eq_ok leaves returns)
            (chainAmountDeltaA_eq checks inputs.current_pos leaves
              (lt_of_le_of_lt stops inputs.target_lt) inputs.liquidity_lt
              (lt_of_le_of_lt (amountABetween_mono inputs.current_pos leaves stops) fits))
        · have alike := roundsAlike_of_lt (not_le.mp returns)
          exact ⟨fun _ => alike, fun _ => stepTo_agree lib inputs reached fun _ => alike⟩
      rw [alike_iff]
      refine ⟨fun alike => .inr (.inr alike), ?_⟩
      rintro (large | ⟨short, large⟩ | alike)
      · exact absurd fits (not_lt.mpr large)
      · -- Nothing is left to take out, and the price stays.
        have zero : rem = 0 := by
          by_contra present
          exact overflow ⟨short, present, large⟩
        have stays : next = current := by
          rw [← same, zero]
          exact priceAfterOutput_zero inputs.current_pos forward (zero ▸ short)
        rw [stays, Nat.sub_self, Nat.mul_zero]
        exact .inl rfl
      · exact alike
  · refine ⟨fun _ => .inl (not_lt.mp fits), fun _ =>
      computeSwapStep_agree_of_rejected lib inputs fixedAgree fun initial next fixed _ => ?_⟩
    obtain ⟨value_eq, small⟩ := getAmountFixedDelta_eq_ok inputs.current_pos inputs.target_pos
      inputs.current_wide inputs.target_wide inputs.liquidity_lt fixed
    rw [amountABetween_eq inputs.current_pos forward] at fits
    exact fits (value_eq ▸ small)

/-- A product rounded up is within an amount exactly when the product itself is. -/
theorem divRounded_le_iff (product amount : ℕ) :
    divRounded product (2 ^ 64) true ≤ amount ↔ product ≤ amount * 2 ^ 64 := by
  unfold divRounded
  simp only [true_and]
  split_ifs <;> omega

/-- The program reaches the price the amount put in leads to. -/
theorem chainReach_input (inputs : StepInputs rem feeRate liquidity current target false) :
    chainReach (.exact checks) rem feeRate liquidity current target true false
        (divRounded (liquidity * (target - current)) (2 ^ 64) true) =
      .ok (priceAfterInput liquidity current target (amountCalc rem feeRate true)) := by
  have forward := onward_false.mp inputs.onward
  have wide := inputs.target_wide
  unfold chainReach priceAfterInput
  by_cases enough : liquidity * (target - current) ≤ amountCalc rem feeRate true * 2 ^ 64
  · rw [if_pos ((divRounded_le_iff _ _).mpr enough), if_pos enough]
  · rw [if_neg (mt (divRounded_le_iff _ _).mp enough), if_neg enough]
    have liquid : liquidity ≠ 0 := by
      rintro rfl
      rw [Nat.zero_mul] at enough
      exact enough (Nat.zero_le _)
    change Whirlpools.getNextSqrtPriceFromBRoundDown _ _ _ _ = _
    rw [chainNextSqrtPriceFromB_eq liquid (not_le.mp enough).le (by rw [if_pos rfl]; omega),
      if_pos rfl, divRounded, if_neg (fun up => absurd up.1 Bool.false_ne_true)]

/-- The SDK reaches the same price, unless it finds the target within one unit of token B where
nothing is put in. -/
theorem reach_input (inputs : StepInputs rem feeRate liquidity current target false)
    (present : ¬ (amountCalc rem feeRate true = 0 ∧ 0 < liquidity * (target - current) ∧
      liquidity * (target - current) < 2 ^ 64)) :
    reach rem feeRate liquidity current target true false
        ((if liquidity * (target - current) / 2 ^ 64 > 0 then
          liquidity * (target - current) / 2 ^ 64 + 1
          else liquidity * (target - current) / 2 ^ 64 : ℕ) : ℤ) =
      .ok (priceAfterInput liquidity current target (amountCalc rem feeRate true) : ℤ) := by
  have forward := onward_false.mp inputs.onward
  have wide := inputs.target_wide
  unfold reach priceAfterInput
  generalize amountCalc rem feeRate true = amount at *
  by_cases found : (if liquidity * (target - current) / 2 ^ 64 > 0 then
      liquidity * (target - current) / 2 ^ 64 + 1
      else liquidity * (target - current) / 2 ^ 64) ≤ amount
  · have enough : liquidity * (target - current) ≤ amount * 2 ^ 64 := by
      generalize liquidity * (target - current) = needed at *
      split_ifs at found <;> omega
    rw [if_pos (Nat.cast_le.mpr found), if_pos enough]
  · rw [if_neg (mt Nat.cast_le.mp found)]
    have covered : amount * 2 ^ 64 ≤ liquidity * (target - current) := by
      generalize liquidity * (target - current) = needed at *
      split_ifs at found <;> omega
    have nonempty : liquidity ≠ 0 := by
      rintro rfl
      rw [Nat.zero_mul, Nat.zero_div, if_neg (lt_irrefl 0)] at found
      exact found (Nat.zero_le _)
    have inRange : if true = true then current + (target - current) < 2 ^ 128
        else target - current ≤ current := by
      rw [if_pos rfl]
      omega
    have moved := chainNextSqrtPriceFromB_eq nonempty covered inRange
    rw [if_pos rfl, divRounded, if_neg (fun up => absurd up.1 Bool.false_ne_true)] at moved
    obtain ⟨other, moved', same⟩ :=
      (getNextSqrtPriceFromBRoundDown_agree nonempty covered inRange).exists_of_left moved
    change getNextSqrtPriceFromBRoundDown _ _ _ _ = _
    rw [moved', same]
    by_cases enough : liquidity * (target - current) ≤ amount * 2 ^ 64
    · rw [if_pos enough, le_antisymm covered enough,
        Nat.mul_div_cancel_left _ (Nat.pos_of_ne_zero nonempty), Nat.add_sub_cancel' forward]
    · rw [if_neg enough]

/-- The SDK's amount of token B for the whole way, rounded as the SDK rounds. -/
theorem getAmountFixedDelta_input (lib : CommonSdk) (forward : current ≤ target)
    (fits : liquidity * (target - current) < (2 ^ 64 - 1) * 2 ^ 64) :
    getAmountFixedDelta lib current target liquidity true false =
      .ok ((if liquidity * (target - current) / 2 ^ 64 > 0 then
          liquidity * (target - current) / 2 ^ 64 + 1
          else liquidity * (target - current) / 2 ^ 64 : ℕ) : ℤ) := by
  change getAmountDeltaB lib current target liquidity true = _
  rw [getAmountDeltaB_eq, shiftRight_eq, max_eq_right forward, min_eq_left forward]
  generalize liquidity * (target - current) = needed at *
  simp only [true_and]
  rw [if_neg (by omega), if_neg (by unfold Whirlpools.u64Max; omega)]

/-- The SDK rejects the largest amount of token B. -/
theorem getAmountFixedDelta_full (lib : CommonSdk) (forward : current ≤ target)
    (full : liquidity * (target - current) = (2 ^ 64 - 1) * 2 ^ 64) :
    ∃ failure, getAmountFixedDelta lib current target liquidity true false = .error failure := by
  change ∃ failure, getAmountDeltaB lib current target liquidity true = _
  rw [getAmountDeltaB_eq, shiftRight_eq, max_eq_right forward, min_eq_left forward, full]
  exact ⟨_, rfl⟩

/-- The steps to a price reached by an exact input agree exactly when the program cannot return
the amount of token A, or rounds the amount of token B alike. -/
theorem stepTo_agree_input (lib : CommonSdk)
    (inputs : StepInputs rem feeRate liquidity current target false)
    (reached : ReachedPrice (.exact checks) rem liquidity current target true false next)
    (fits : liquidity * (next - current) ≤ (2 ^ 64 - 1) * 2 ^ 64) :
    Agree SameStep
        (chainStepTo (.exact checks) rem feeRate liquidity current target true false next)
        (stepTo lib rem feeRate liquidity current target true false next) ↔
      2 ^ 64 ≤ amountABetween liquidity current next ∨
        RoundsAlike (liquidity * (next - current)) := by
  have leaves := onward_false.mp reached.leaves
  have nextPositive := lt_of_lt_of_le inputs.current_pos leaves
  have nextBound := lt_of_le_of_lt (onward_false.mp reached.stops) inputs.target_lt
  by_cases returns : amountABetween liquidity current next < 2 ^ 64
  · rw [stepTo_agree_iff lib inputs reached
      (chainAmountDeltaA_eq checks inputs.current_pos leaves nextBound inputs.liquidity_lt returns)
      (chainAmountDeltaB_eq_ok leaves fits)]
    exact ⟨.inr, fun either => either.resolve_left (not_le.mpr returns)⟩
  · refine ⟨fun _ => .inl (not_lt.mp returns), fun _ => ?_⟩
    refine (getAmountUnfixedDelta_agree lib checks inputs.current_pos nextPositive inputs.current_lt
      nextBound inputs.liquidity_lt fun _ output =>
        absurd output.symm Bool.false_ne_true).bind fun unfixed other unfixedDelta _ => ?_
    obtain ⟨value_eq, small⟩ := getAmountUnfixedDelta_eq_ok inputs.current_pos nextPositive
      inputs.current_wide (nextBound.trans (by norm_num)) inputs.liquidity_lt unfixedDelta
    rw [amountABetween_eq inputs.current_pos leaves] at returns
    exact absurd (value_eq ▸ small) returns

/-- Putting in an exact amount of token B, the steps agree exactly under `InputAlike`. -/
theorem computeSwapStep_agree_input (lib : CommonSdk) (checks : Bool)
    (inputs : StepInputs rem feeRate liquidity current target false) :
    Agree SameStep (computeSwap (.exact checks) rem feeRate liquidity current target true false)
        (computeSwapStep lib rem feeRate liquidity current target true false) ↔
      InputAlike rem feeRate liquidity current target := by
  have forward := onward_false.mp inputs.onward
  unfold InputAlike
  by_cases fits : liquidity * (target - current) ≤ (2 ^ 64 - 1) * 2 ^ 64
  · have fixed : Whirlpools.getAmountFixedDelta (.exact checks) current target
        liquidity true false = .ok (divRounded (liquidity * (target - current)) (2 ^ 64) true) :=
      chainAmountDeltaB_eq_ok forward fits
    have moved := @chainReach_input rem feeRate liquidity current target checks inputs
    generalize next_eq : priceAfterInput liquidity current target (amountCalc rem feeRate true) =
      next
      at moved ⊢
    have reached := reachedPrice_of_chainReach inputs fixed moved
    have leaves := onward_false.mp reached.leaves
    have stops := onward_false.mp reached.stops
    have nextFits : liquidity * (next - current) ≤ (2 ^ 64 - 1) * 2 ^ 64 :=
      le_trans (Nat.mul_le_mul_left _ (Nat.sub_le_sub_right stops _)) fits
    by_cases full : liquidity * (target - current) = (2 ^ 64 - 1) * 2 ^ 64
    · -- The SDK rejects the whole way, which the program can still hold.
      obtain ⟨failure, failed⟩ := getAmountFixedDelta_full lib forward full
      rw [computeSwap_eq _ inputs.rem_lt, computeSwapStep_eq lib inputs.rem_lt inputs.feeRate_lt,
        fixed, failed, ok_bind, moved, ok_bind, error_bind]
      constructor
      · intro agree
        refine .inr (.inl (not_lt.mp fun returns => ?_))
        obtain ⟨step, returned, -⟩ := chainStepTo_eq_ok inputs reached
          (chainAmountDeltaA_eq checks inputs.current_pos leaves
            (lt_of_le_of_lt stops inputs.target_lt) inputs.liquidity_lt returns)
          (chainAmountDeltaB_eq_ok leaves nextFits)
        rw [returned] at agree
        cases agree
      · rintro (large | large | ⟨-, apart, -⟩)
        · exact absurd fits (not_le.mpr large)
        · cases stepped : chainStepTo (.exact checks) rem feeRate liquidity current target true
              false next with
          | error failure => exact .error _ _
          | ok step =>
              obtain ⟨unfixed, unfixedDelta, -⟩ := bind_eq_ok.mp stepped
              obtain ⟨value_eq, small⟩ := getAmountUnfixedDelta_eq_ok inputs.current_pos
                (lt_of_lt_of_le inputs.current_pos leaves) inputs.current_wide
                (lt_of_le_of_lt stops inputs.target_wide) inputs.liquidity_lt unfixedDelta
              rw [amountABetween_eq inputs.current_pos leaves] at large
              exact absurd (value_eq ▸ small) (not_lt.mpr large)
        · exact absurd full apart
    · have below : liquidity * (target - current) < (2 ^ 64 - 1) * 2 ^ 64 :=
        lt_of_le_of_ne fits full
      have fixed' := getAmountFixedDelta_input lib forward below
      by_cases idle : amountCalc rem feeRate true = 0 ∧ 0 < liquidity * (target - current) ∧
        liquidity * (target - current) < 2 ^ 64
      · -- The SDK goes to the target at no price, the program stays.
        obtain ⟨nothing, present, small⟩ := idle
        have stays : next = current := by
          rw [← next_eq, priceAfterInput, nothing, Nat.zero_mul, if_neg (not_le.mpr present),
            Nat.zero_div, Nat.add_zero]
        have emptyA : amountABetween liquidity current next = 0 := by
          rw [stays, amountABetween, Nat.sub_self, Nat.mul_zero, Nat.zero_mul, Nat.zero_div]
        constructor
        · intro agree
          obtain ⟨step, stepped, price, -⟩ := chainStepTo_eq_ok inputs reached
            (chainAmountDeltaA_eq checks inputs.current_pos leaves
              (lt_of_le_of_lt stops inputs.target_lt) inputs.liquidity_lt
                (by rw [emptyA]; norm_num))
            (chainAmountDeltaB_eq_ok leaves nextFits)
          rw [computeSwap_eq _ inputs.rem_lt, computeSwapStep_eq lib inputs.rem_lt
            inputs.feeRate_lt, fixed, fixed', ok_bind, moved, ok_bind, stepped, ok_bind, reach,
            Nat.div_eq_of_lt small, nothing, if_neg (lt_irrefl 0), if_pos (le_refl _),
            ok_bind] at agree
          obtain ⟨other, returned, same⟩ := agree.exists_of_left rfl
          have target_eq := (stepTo_eq_ok returned).1
          rw [same, price, stays] at target_eq
          rw [Nat.cast_injective target_eq, Nat.sub_self, Nat.mul_zero] at present
          exact absurd present (lt_irrefl 0)
        · rintro (large | large | ⟨-, -, moves⟩)
          · exact absurd fits (not_le.mpr large)
          · rw [emptyA] at large
            exact absurd large (by norm_num)
          · exact absurd ⟨nothing, present, small⟩ moves
      · have moved' := reach_input inputs idle
        rw [next_eq] at moved'
        rw [computeSwapStep_agree_iff_stepTo lib inputs fixed fixed' moved moved',
          stepTo_agree_input lib inputs reached nextFits]
        constructor
        · rintro (large | alike)
          · exact .inr (.inl large)
          · exact .inr (.inr ⟨alike, full, idle⟩)
        · rintro (large | large | ⟨alike, -, -⟩)
          · exact absurd fits (not_le.mpr large)
          · exact .inl large
          · exact .inr alike
  · have alike := roundsAlike_of_lt (not_le.mp fits)
    have distance : max current target - min current target = target - current := by
      rw [max_eq_right forward, min_eq_left forward]
    have fixedAgree := @getAmountFixedDelta_agree liquidity current target true false lib checks
      inputs.current_pos inputs.target_pos inputs.current_lt inputs.target_lt inputs.liquidity_lt
      fun _ _ => distance ▸ alike
    refine ⟨fun _ => .inl (not_le.mp fits), fun _ =>
      computeSwapStep_agree_of_rejected lib inputs fixedAgree fun initial next fixed _ => ?_⟩
    change Whirlpools.getAmountDeltaB current target liquidity true = _ at fixed
    rw [chainAmountDeltaB_eq, chainShiftRight_eq, distance, guard_eq_ok, guard_eq_ok] at fixed
    obtain ⟨small, room, -⟩ := fixed
    generalize liquidity * (target - current) = needed at *
    simp only [true_and, Whirlpools.u64Max] at room
    omega

end Buying

/-- Where the steps of the SDK and of the program agree. -/
def StepsAlike (rem feeRate liquidity current target : ℕ) (isIn aToB : Bool) : Prop :=
  aToB = true ∨ if isIn then InputAlike rem feeRate liquidity current target
    else OutputAlike rem liquidity current target

instance (rem feeRate liquidity current target : ℕ) (isIn aToB : Bool) :
    Decidable (StepsAlike rem feeRate liquidity current target isIn aToB) := by
  unfold StepsAlike InputAlike OutputAlike
  infer_instance

/-- The swap step of the SDK returns what the program returns and throws where it fails, exactly
where they round the amount of token B alike. -/
theorem computeSwapStep_agree_iff (lib : CommonSdk) (checks : Bool)
    {rem feeRate liquidity current target : ℕ} (isIn : Bool) {aToB : Bool}
    (inputs : StepInputs rem feeRate liquidity current target aToB) :
    Agree SameStep (computeSwap (.exact checks) rem feeRate liquidity current target isIn aToB)
        (computeSwapStep lib rem feeRate liquidity current target isIn aToB) ↔
      StepsAlike rem feeRate liquidity current target isIn aToB := by
  cases aToB with
  | true =>
      exact ⟨fun _ => .inl rfl, fun _ => computeSwapStep_agree_sell lib isIn checks inputs⟩
  | false =>
      simp only [StepsAlike, Bool.false_eq_true, false_or]
      cases isIn with
      | true => simpa only [↓reduceIte] using computeSwapStep_agree_input lib checks inputs
      | false =>
          simpa only [Bool.false_eq_true, ↓reduceIte] using
            computeSwapStep_agree_output lib checks inputs

/-- The functions of the common library, as plain arithmetic. -/
def CommonSdk.plain : CommonSdk where
  fromX64BN := fun num => num / 2 ^ 64
  fromX64BN_eq := fun _ _ => rfl
  subUnderflowU128 := fun n0 n1 => (n0 - n1) % 2 ^ 128
  subUnderflowU128_eq := fun _ _ _ _ _ _ => rfl

/-- A thousand units of token B buy token A alike. -/
theorem computeSwapStep_agree_iff_buy :
    Agree SameStep
      (computeSwap (.exact true) 1000 3000 (10 ^ 9) (2 ^ 64) (sqrtPriceFromTickIndex 10) true false)
      (computeSwapStep .plain (1000 : ℕ) 3000 ((10 ^ 9 : ℕ) : ℤ) ((2 ^ 64 : ℕ) : ℤ)
        (sqrtPriceFromTickIndex 10 : ℕ) true false) :=
  (computeSwapStep_agree_iff .plain true true
    ⟨by norm_num, by norm_num, by norm_num, by decide, by decide, by decide, by decide,
      onward_false.mpr (by decide)⟩).mpr (by decide +kernel)

/-- One unit of liquidity takes less than one unit of token B to the next tick, which the SDK
rounds to nothing. -/
theorem not_computeSwapStep_agree :
    ¬ ∀ rem feeRate liquidity current target isIn aToB,
      StepInputs rem feeRate liquidity current target aToB →
        Agree SameStep (computeSwap (.exact true) rem feeRate liquidity current target isIn aToB)
          (computeSwapStep .plain rem feeRate liquidity current target isIn aToB) := by
  intro agree
  have agrees := agree 1000 3000 1 (2 ^ 64) (sqrtPriceFromTickIndex 1) true false
    ⟨by norm_num, by norm_num, by norm_num, by decide, by decide, by decide, by decide,
      onward_false.mpr (by decide)⟩
  have chain : yields (computeSwap (.exact true) 1000 3000 1 (2 ^ 64) (sqrtPriceFromTickIndex 1)
      true false) (fun step => decide (step.amountIn = 1)) = true := by decide +kernel
  have sdk : yields (computeSwapStep .plain (1000 : ℕ) 3000 (1 : ℕ) ((2 ^ 64 : ℕ) : ℤ)
      (sqrtPriceFromTickIndex 1 : ℕ) true false) (fun step => decide (step.amountIn = 0)) =
        true := by
    decide +kernel
  obtain ⟨step, returned, takes⟩ := yields_iff.mp chain
  obtain ⟨other, returned', nothing⟩ := yields_iff.mp sdk
  have same := agrees.of_ok returned returned'
  have amountIn := of_decide_eq_true nothing
  rw [same, of_decide_eq_true takes] at amountIn
  exact absurd amountIn (by norm_num)

end Whirlpools.Sdk
