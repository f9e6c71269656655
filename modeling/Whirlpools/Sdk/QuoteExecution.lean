import Whirlpools.Instructions.V2.SwapV2
import Whirlpools.Sdk.SwapAgreement
import Whirlpools.Sdk.SwapQuote
import Whirlpools.Sdk.TransferFeeAgreement

/-! # A quote holds and can be executed

Where the swap with transfer fees succeeds on the fetched arrays, its quote is refused exactly for
the threshold that the instruction checks, or for too many arrays. Otherwise the instruction with
the arrays named by the quote does the same swap: the trader pays and receives what was quoted, and
no slippage tolerance makes it miss its threshold. -/

namespace Whirlpools.Sdk

open Outcome
open SwapManager (SwapResult)

section Fetched

variable {Address : Type}

/-- The arrays up to the first one without data. -/
def fetchedArrays (listed : List (Address × Option TickArray)) : List (Address × TickArray) :=
  (listed.takeWhile fun tickArray => tickArray.2.isSome).filterMap fun tickArray =>
    tickArray.2.map (Prod.mk tickArray.1)

/-- A sequence is built from the arrays up to the first one without data. -/
theorem new_fetchedArrays (listed : List (Address × Option TickArray)) (tickSpacing : ℤ)
    (aToB : Bool) :
    TickArraySequence.new listed tickSpacing aToB = TickArraySequence.new
      ((fetchedArrays listed).map fun tickArray => (tickArray.1, some tickArray.2)) tickSpacing
      aToB := by
  have kept : ((listed.map fun tickArray => tickArray.2.map
      (InitializedTickArray.mk tickArray.1)).takeWhile Option.isSome).reduceOption =
        (fetchedArrays listed).map fun tickArray =>
          InitializedTickArray.mk tickArray.1 tickArray.2 := by
    unfold fetchedArrays
    induction listed with
    | nil => rfl
    | cons tickArray rest ih =>
        obtain ⟨address, data⟩ := tickArray
        cases data with
        | none => rfl
        | some array =>
            change InitializedTickArray.mk address array :: List.reduceOption _ = _ :: List.map _ _
            rw [ih]
  unfold TickArraySequence.new
  dsimp only
  rw [kept, fetched_eq]

/-- The sequence of fetched arrays can be built, and the first one is searched first. -/
theorem Quotable.exists_new {whirlpool : Whirlpool} {table : TickTable}
    {listed : List (Address × Option TickArray)} {aToB : Bool}
    (quotable : Quotable whirlpool table (fetchedArrays listed) aToB) :
    ∃ sdk, TickArraySequence.new listed whirlpool.tickSpacing aToB = .ok sdk ∧
      sdk.isValidTickArray0 whirlpool.tickCurrentIndex = true := by
  have nonempty := quotable.nonempty
  have first := quotable.first
  rw [new_fetchedArrays]
  unfold TickArraySequence.new
  dsimp only
  rw [fetched_eq]
  generalize fetchedArrays listed = tickArrays at *
  cases tickArrays with
  | nil => exact absurd rfl nonempty
  | cons tickArray rest =>
      simp only [List.map_cons, fromTickIndex_eq quotable.tradable.spacing, ok_bind]
      refine ⟨_, rfl, ?_⟩
      obtain ⟨above, below⟩ := inSearchRange_iff.mp (first tickArray.2 rfl)
      unfold searchTick at above below
      unfold arrayWidth at below
      unfold TickArraySequence.isValidTickArray0 TickArraySequence.checkIfIndexIsInTickArrayRange
      dsimp only
      rw [decide_eq_true_eq]
      exact ⟨above, by linarith⟩

end Fetched

section Quote

variable {Address : Type} {checks : Bool} {lib : CommonSdk} {spl : SplToken}
  {tokenLib : TokenLibrary} {whirlpool : Whirlpool} {table : TickTable}
  {listed : List (Address × Option TickArray)} {tickArrays : List (Address × TickArray)}
  {sdk touched : TickArraySequence Address}
  {amount otherAmountThreshold sqrtPriceLimit timestamp : ℕ} {amountSpecifiedIsInput aToB : Bool}
  {mints : TokenExtensionContextForPool} {outcome raw : SwapOutcome} {result : SwapResult}
  {count : ℕ}

/-- The ticks of a swap lie in the arrays the SDK has read. -/
theorem ReadsFor.inFirst (quotable : Quotable whirlpool table tickArrays aToB)
    (built : TickArraySequence.new (tickArrays.map fun tickArray =>
      (tickArray.1, some tickArray.2)) whirlpool.tickSpacing aToB = .ok sdk)
    (reads : ReadsFor whirlpool.tickSpacing aToB sdk outcome touched count) :
    ∀ entry ∈ outcome.iterations, InFirst whirlpool.tickSpacing
      ((tickArrays.map Prod.snd).map TickArray.startTickIndex) count entry.nextTickIndex := by
  obtain ⟨startArrayIndex, mirrors⟩ := new_mirrors quotable.tradable.spacing
    quotable.contiguous built
  intro entry member position start found above below
  obtain ⟨read, before, here⟩ := reads.reads entry member
  rw [List.getElem?_map, Option.map_eq_some_iff] at found
  obtain ⟨array, place, rfl⟩ := found
  have there := mirrors.arrayIndexAt_eq quotable.tradable.spacing place ⟨above, below⟩
  rw [here, mirrors.start_eq] at there
  unfold arrayIndexAt at there
  split_ifs at there <;> omega

/-- The parameters of a quote in natural numbers. -/
def quoteParam (whirlpool : Whirlpool) (listed : List (Address × Option TickArray))
    (amount otherAmountThreshold sqrtPriceLimit : ℕ) (amountSpecifiedIsInput aToB : Bool)
    (mints : TokenExtensionContextForPool) : SwapQuoteParam Address where
  whirlpoolData := whirlpool
  tokenAmount := amount
  otherAmountThreshold := otherAmountThreshold
  sqrtPriceLimit := sqrtPriceLimit
  aToB := aToB
  amountSpecifiedIsInput := amountSpecifiedIsInput
  tickArrays := listed
  tokenExtensionCtx := mints

section Param

variable (whirlpool : Whirlpool) (listed : List (Address × Option TickArray))
  (amount otherAmountThreshold sqrtPriceLimit : ℕ) (amountSpecifiedIsInput aToB : Bool)
  (mints : TokenExtensionContextForPool)

@[simp] theorem quoteParam_whirlpoolData : (quoteParam whirlpool listed amount otherAmountThreshold
    sqrtPriceLimit amountSpecifiedIsInput aToB mints).whirlpoolData = whirlpool := rfl

@[simp] theorem quoteParam_tokenAmount : (quoteParam whirlpool listed amount otherAmountThreshold
    sqrtPriceLimit amountSpecifiedIsInput aToB mints).tokenAmount = (amount : ℤ) := rfl

@[simp] theorem quoteParam_otherAmountThreshold : (quoteParam whirlpool listed amount
    otherAmountThreshold sqrtPriceLimit amountSpecifiedIsInput aToB mints).otherAmountThreshold =
      (otherAmountThreshold : ℤ) := rfl

@[simp] theorem quoteParam_sqrtPriceLimit : (quoteParam whirlpool listed amount otherAmountThreshold
    sqrtPriceLimit amountSpecifiedIsInput aToB mints).sqrtPriceLimit = (sqrtPriceLimit : ℤ) := rfl

@[simp] theorem quoteParam_amountSpecifiedIsInput : (quoteParam whirlpool listed amount
    otherAmountThreshold sqrtPriceLimit amountSpecifiedIsInput aToB mints).amountSpecifiedIsInput =
      amountSpecifiedIsInput := rfl

@[simp] theorem quoteParam_aToB : (quoteParam whirlpool listed amount otherAmountThreshold
    sqrtPriceLimit amountSpecifiedIsInput aToB mints).aToB = aToB := rfl

@[simp] theorem quoteParam_tickArrays : (quoteParam whirlpool listed amount otherAmountThreshold
    sqrtPriceLimit amountSpecifiedIsInput aToB mints).tickArrays = listed := rfl

end Param

/-- The amounts of the two results. -/
theorem SameSwap.inputAndOutput (same : SameSwap raw result) (aToB : Bool) :
    Sdk.inputAndOutput result aToB =
      (((raw.update.inputAndOutput aToB).1 : ℤ), ((raw.update.inputAndOutput aToB).2 : ℤ)) := by
  unfold Sdk.inputAndOutput PostSwapUpdate.inputAndOutput
  cases aToB
  · exact Prod.ext same.amountB same.amountA
  · exact Prod.ext same.amountA same.amountB

/-- The fees of the mints of the input and of the output. -/
abbrev TokenExtensionContextForPool.inputFee (mints : TokenExtensionContextForPool) (aToB : Bool) :
    TransferFee := Whirlpools.inputFee mints.tokenMintWithProgramA mints.tokenMintWithProgramB aToB

abbrev TokenExtensionContextForPool.outputFee (mints : TokenExtensionContextForPool) (aToB : Bool) :
    TransferFee := Whirlpools.outputFee mints.tokenMintWithProgramA mints.tokenMintWithProgramB aToB

/-- An amount with its fee. -/
def includedOf (fee : TransferFee) (amount : ℕ) : TransferFeeIncludedAmount :=
  ⟨amount, fee.feeOf amount⟩

/-- What is left of an amount, with its fee. -/
def excludedOf (fee : TransferFee) (amount : ℕ) : TransferFeeExcludedAmount :=
  ⟨fee.net amount, fee.feeOf amount⟩

/-- The amount that is left is what arrives. -/
@[simp] theorem excludedOf_amount (fee : TransferFee) (amount : ℕ) :
    (excludedOf fee amount).amount = (fee.net amount : ℕ) := rfl

@[simp] theorem excludedOf_fee (fee : TransferFee) (amount : ℕ) :
    (excludedOf fee amount).fee = (fee.feeOf amount : ℕ) := rfl

/-- The amount included is the one asked about. -/
@[simp] theorem includedOf_amount (fee : TransferFee) (amount : ℕ) :
    (includedOf fee amount).amount = (amount : ℕ) := rfl

@[simp] theorem ok_inQuote {α : Type} (value : α) :
    Attempt.inQuote (.ok value : Attempt α) = .ok value := rfl

/-- Whether the other amount of a swap, as far as it arrives, misses a threshold. -/
def Misses (output : TransferFee) (paid sent threshold : ℕ) (amountSpecifiedIsInput : Bool) :
    Prop :=
  if amountSpecifiedIsInput = true then output.net sent < threshold else threshold < paid

instance (output : TransferFee) (paid sent threshold : ℕ) (amountSpecifiedIsInput : Bool) :
    Decidable (Misses output paid sent threshold amountSpecifiedIsInput) := by
  unfold Misses
  infer_instance

/-- What a quote throws for its threshold. -/
def thresholdMissed (amountSpecifiedIsInput : Bool) : QuoteThrown :=
  if amountSpecifiedIsInput then
    .whirlpoolsError "Quoted amount for the other token is below the otherAmountThreshold."
      .amountOutBelowMinimum
  else
    .whirlpoolsError "Quoted amount for the other token is above the otherAmountThreshold."
      .amountInAboveMaximum

/-- The SDK takes the fees of the two mints from their accounts. -/
theorem inputTokenMint_excluded (amount' : ℕ) :
    TokenExtensionUtil.calculateTransferFeeExcludedAmount spl amount' (quoteParam whirlpool listed
      amount otherAmountThreshold sqrtPriceLimit amountSpecifiedIsInput aToB mints).inputTokenMint =
      excludedOf (mints.inputFee aToB) amount' := sdkExcludedOfMint_eq spl _ amount'

/-- The quote takes the fee of the output mint off the output. -/
theorem outputTokenMint_excluded (amount' : ℕ) :
    TokenExtensionUtil.calculateTransferFeeExcludedAmount spl amount' (quoteParam whirlpool listed
      amount otherAmountThreshold sqrtPriceLimit amountSpecifiedIsInput aToB
        mints).outputTokenMint =
      excludedOf (mints.outputFee aToB) amount' := sdkExcludedOfMint_eq spl _ amount'

/-- Adding the fee to an amount of `u64`, where the sum is one. -/
theorem sdkIncludedOfMint_eq {tokenMint : Option TransferFee} (fits : amount < 2 ^ 64)
    (small : (TransferFee.ofMint tokenMint).gross amount < 2 ^ 64) :
    TokenExtensionUtil.calculateTransferFeeIncludedAmount amount tokenMint =
      .ok (includedOf (TransferFee.ofMint tokenMint)
        ((TransferFee.ofMint tokenMint).gross amount)) := by
  have agree := (feesInverse .formulas .formulas tokenMint).sdkIncluded (.ofNat amount)
  rw [UInt64.toNat_ofNat_of_lt' fits] at agree
  obtain ⟨included, computed, same⟩ := agree.exists_of_left
    ((calculateTransferFeeIncludedAmount_eq fits).trans (if_pos small))
  rw [computed, includedOf, TransferFee.feeOf_gross]
  exact congrArg Except.ok same

/-- The quote adds the fee of the input mint to the input. -/
theorem inputTokenMint_included {amount' : ℕ} (fits : amount' < 2 ^ 64)
    (small : (mints.inputFee aToB).gross amount' < 2 ^ 64) :
    TokenExtensionUtil.calculateTransferFeeIncludedAmount amount' (quoteParam whirlpool listed
      amount otherAmountThreshold sqrtPriceLimit amountSpecifiedIsInput aToB mints).inputTokenMint =
      .ok (includedOf (mints.inputFee aToB) ((mints.inputFee aToB).gross amount')) :=
  sdkIncludedOfMint_eq fits small

/-- The quote adds the fee of the output mint to the output asked for. -/
theorem outputTokenMint_included {amount' : ℕ} (fits : amount' < 2 ^ 64)
    (small : (mints.outputFee aToB).gross amount' < 2 ^ 64) :
    TokenExtensionUtil.calculateTransferFeeIncludedAmount amount' (quoteParam whirlpool listed
      amount otherAmountThreshold sqrtPriceLimit amountSpecifiedIsInput aToB
        mints).outputTokenMint =
      .ok (includedOf (mints.outputFee aToB) ((mints.outputFee aToB).gross amount')) :=
  sdkIncludedOfMint_eq fits small

/-- A quote of an exact input, by the result of its loop. -/
theorem simulateExactIn_eq (nonzero : (mints.inputFee aToB).net amount ≠ 0)
    (computed : SwapManager.computeSwap lib whirlpool sdk ((mints.inputFee aToB).net amount : ℕ)
      sqrtPriceLimit true aToB = .ok (result, touched)) {taken sent : ℕ}
    (same : inputAndOutput result aToB = ((taken : ℤ), (sent : ℤ))) (used : taken < 2 ^ 64)
    (small : paidInput (mints.inputFee aToB) amount taken true < 2 ^ 64) :
    simulateExactIn lib spl (quoteParam whirlpool listed amount otherAmountThreshold sqrtPriceLimit
        true aToB mints) sdk =
      if Misses (mints.outputFee aToB) (paidInput (mints.inputFee aToB) amount taken true) sent
          otherAmountThreshold true then .error (thresholdMissed true)
      else quoteOf (quoteParam whirlpool listed amount otherAmountThreshold sqrtPriceLimit true aToB
        mints) result touched
        (includedOf (mints.inputFee aToB) (paidInput (mints.inputFee aToB) amount taken true))
        (excludedOf (mints.outputFee aToB) sent) := by
  unfold simulateExactIn quotedSwap
  simp only [quoteParam_whirlpoolData, quoteParam_tokenAmount, quoteParam_otherAmountThreshold,
    quoteParam_sqrtPriceLimit, quoteParam_amountSpecifiedIsInput, quoteParam_aToB,
    inputTokenMint_excluded, excludedOf_amount, excludedOf_fee, computed, ok_inQuote, ok_bind]
  rw [if_neg (Nat.cast_ne_zero.mpr nonzero), same]
  simp only [outputTokenMint_excluded, excludedOf_amount, Nat.cast_lt, Nat.cast_inj]
  refine if_congr (iff_of_eq (if_pos rfl)).symm rfl ?_
  unfold paidInput at small ⊢
  by_cases fullfilled : taken = (mints.inputFee aToB).net amount
  · rw [if_pos fullfilled, ok_bind, if_pos ⟨rfl, fullfilled⟩]
    rfl
  · have beyond : ¬ (true = true ∧ taken = (mints.inputFee aToB).net amount) :=
      fun both => fullfilled both.2
    rw [if_neg beyond] at small
    rw [if_neg fullfilled, inputTokenMint_included used small, ok_inQuote, ok_bind, if_neg beyond]

/-- A quote of an exact output, by the result of its loop. -/
theorem simulateExactOut_eq (fits : amount < 2 ^ 64)
    (requested : (mints.outputFee aToB).gross amount < 2 ^ 64)
    (computed : SwapManager.computeSwap lib whirlpool sdk ((mints.outputFee aToB).gross amount : ℕ)
      sqrtPriceLimit false aToB = .ok (result, touched)) {taken sent : ℕ}
    (same : inputAndOutput result aToB = ((taken : ℤ), (sent : ℤ))) (used : taken < 2 ^ 64)
    (small : paidInput (mints.inputFee aToB) amount taken false < 2 ^ 64) :
    simulateExactOut lib spl (quoteParam whirlpool listed amount otherAmountThreshold sqrtPriceLimit
        false aToB mints) sdk =
      if Misses (mints.outputFee aToB) (paidInput (mints.inputFee aToB) amount taken false) sent
          otherAmountThreshold false then .error (thresholdMissed false)
      else quoteOf (quoteParam whirlpool listed amount otherAmountThreshold
        sqrtPriceLimit false aToB mints) result touched
        (includedOf (mints.inputFee aToB) (paidInput (mints.inputFee aToB) amount taken false))
        (excludedOf (mints.outputFee aToB) sent) := by
  have gross : paidInput (mints.inputFee aToB) amount taken false =
      (mints.inputFee aToB).gross taken := if_neg fun both => Bool.false_ne_true both.1
  rw [gross] at small ⊢
  unfold simulateExactOut quotedSwap
  simp only [quoteParam_whirlpoolData, quoteParam_tokenAmount, quoteParam_otherAmountThreshold,
    quoteParam_sqrtPriceLimit, quoteParam_amountSpecifiedIsInput, quoteParam_aToB,
    outputTokenMint_included fits requested, includedOf_amount, computed, ok_inQuote, ok_bind, same,
    inputTokenMint_included used small, outputTokenMint_excluded, gt_iff_lt, Nat.cast_lt]
  exact if_congr (iff_of_eq (if_neg Bool.false_ne_true)).symm rfl rfl

/-- The loop and the amounts of a quote, where the swap with transfer fees succeeds. -/
structure Simulated (lib : CommonSdk) (spl : SplToken) (params : SwapQuoteParam Address)
    (mints : TokenExtensionContextForPool) (sdk touched : TickArraySequence Address)
    (result : SwapResult) (outcome : SwapOutcome) (otherAmountThreshold count : ℕ) : Prop where
  built : TickArraySequence.new params.tickArrays params.whirlpoolData.tickSpacing params.aToB =
    .ok sdk
  nextSqrtPrice : result.nextSqrtPrice = outcome.update.nextSqrtPrice
  totalFeeAmount : result.totalFeeAmount =
    ((outcome.iterations.map fun entry => entry.computation.feeAmount).sum : ℕ)
  nextTickIndex : TickQuoted outcome.update.nextSqrtPrice outcome.update.nextTickIndex
    result.nextTickIndex
  reads : ReadsFor params.whirlpoolData.tickSpacing params.aToB sdk outcome touched count
  returns : simulateSwap lib spl params =
    if Misses (mints.outputFee params.aToB) (outcome.update.inputAndOutput params.aToB).1
        (outcome.update.inputAndOutput params.aToB).2 otherAmountThreshold
        params.amountSpecifiedIsInput then
      .error (thresholdMissed params.amountSpecifiedIsInput)
    else quoteOf params result touched
      (includedOf (mints.inputFee params.aToB) (outcome.update.inputAndOutput params.aToB).1)
      (excludedOf (mints.outputFee params.aToB) (outcome.update.inputAndOutput params.aToB).2)

/-- A quote is simulated with the result of the program. -/
theorem simulateSwap_simulated (lib : CommonSdk) (spl : SplToken)
    (quotable : Quotable whirlpool table (fetchedArrays listed) aToB) (fits : amount < 2 ^ 64)
    (alike : ∀ rewardInfos, RunsAlike (.exact checks)
      (whirlpool.swapContext sqrtPriceLimit amountSpecifiedIsInput aToB rewardInfos)
      ((whirlpool.swapContext sqrtPriceLimit amountSpecifiedIsInput aToB rewardInfos).initialState
        ⟨(fetchedArrays listed).map Prod.snd⟩
        (rawAmount (mints.inputFee aToB) (mints.outputFee aToB) amount amountSpecifiedIsInput)))
    (returned : swapWithTransferFeeExtension (.exact checks) tokenLib whirlpool
      mints.tokenMintWithProgramA mints.tokenMintWithProgramB
      ⟨(fetchedArrays listed).map Prod.snd⟩ amount sqrtPriceLimit amountSpecifiedIsInput aToB
      timestamp = .ok outcome) (otherAmountThreshold : ℕ) :
    ∃ sdk touched result count, Simulated lib spl (quoteParam whirlpool listed amount
      otherAmountThreshold sqrtPriceLimit amountSpecifiedIsInput aToB mints) mints
        sdk touched result
      outcome otherAmountThreshold count := by
  obtain ⟨raw, requested, swapped, small, rfl⟩ :=
    (swapWithTransferFeeExtension_eq_ok fits).mp returned
  obtain ⟨sdk, built, valid⟩ := quotable.exists_new
  obtain ⟨result, touched, count, computed, same, reads⟩ :=
    computeSwap_follows lib quotable requested
    ((new_fetchedArrays _ _ _).symm.trans built) alike swapped
  have amounts := same.inputAndOutput aToB
  have used := (swap_amounts requested swapped).2.1
  refine ⟨sdk, touched, result, count, built, same.nextSqrtPrice, same.totalFeeAmount,
    same.nextTickIndex, ⟨reads.rest, reads.first, reads.reads⟩, ?_⟩
  -- The checks of the program are those of the quote.
  have accepted := swapped
  simp only [Whirlpools.swap, guard_eq_ok] at accepted
  obtain ⟨bounds, direction, nonzero, -⟩ := accepted
  have inBounds : ¬ ((sqrtPriceLimit : ℤ) > maxSqrtPrice ∨ (sqrtPriceLimit : ℤ) <
    minSqrtPrice) := by
    rintro (above | below)
    · exact bounds (.inr (Int.ofNat_lt.mp above))
    · exact bounds (.inl (Int.ofNat_lt.mp below))
  have someAmount : ¬ ((amount : ℕ) : BN) = 0 := by
    intro zero
    rw [Nat.cast_eq_zero] at zero
    unfold rawAmount at nonzero
    rw [zero, TransferFee.net_zero, TransferFee.gross_zero, ite_self] at nonzero
    exact nonzero rfl
  unfold simulateSwap
  simp only [quoteParam_whirlpoolData, quoteParam_tokenAmount, quoteParam_sqrtPriceLimit,
    quoteParam_amountSpecifiedIsInput, quoteParam_aToB, quoteParam_tickArrays,
    gt_iff_lt, Nat.cast_lt, inputAndOutput_withAmounts]
  rw [if_neg inBounds, if_neg direction]
  refine (if_neg someAmount).trans ?_
  rw [built, ok_inQuote, ok_bind]
  refine (if_neg (not_not.mpr valid)).trans ?_
  cases amountSpecifiedIsInput with
  | true =>
      refine (if_pos rfl).trans ?_
      exact simulateExactIn_eq nonzero computed amounts used small
  | false =>
      refine (if_neg Bool.false_ne_true).trans ?_
      exact simulateExactOut_eq fits requested computed amounts used small

/-- What a quote throws for its tick arrays. -/
def tooManyArrays (count : ℕ) : QuoteThrown :=
  .whirlpoolsError
    ("Input amount causes the quote to traverse more than the allowable amount of tick-arrays " ++
      s!"{count}") .tickArrayCrossingAboveMax

/-- The quote of a swap of the program: what the trader pays, what arrives, and where the swap
ends. -/
def quoteOfOutcome (params : SwapQuoteParam Address) (mints : TokenExtensionContextForPool)
    (outcome : SwapOutcome) (endTickIndex : ℤ) (names : List Address) : SwapQuote Address where
  estimatedAmountIn := (outcome.update.inputAndOutput params.aToB).1
  estimatedAmountOut :=
    ((mints.outputFee params.aToB).net (outcome.update.inputAndOutput params.aToB).2 : ℕ)
  estimatedEndTickIndex := endTickIndex
  estimatedEndSqrtPrice := outcome.update.nextSqrtPrice
  estimatedFeeAmount := ((outcome.iterations.map fun entry => entry.computation.feeAmount).sum : ℕ)
  deductingFromEstimatedAmountIn :=
    ((mints.inputFee params.aToB).feeOf (outcome.update.inputAndOutput params.aToB).1 : ℕ)
  deductedFromEstimatedAmountOut :=
    ((mints.outputFee params.aToB).feeOf (outcome.update.inputAndOutput params.aToB).2 : ℕ)
  amount := params.tokenAmount
  amountSpecifiedIsInput := params.amountSpecifiedIsInput
  aToB := params.aToB
  otherAmountThreshold := params.otherAmountThreshold
  sqrtPriceLimit := params.sqrtPriceLimit
  tickArray0 := names[0]?
  tickArray1 := names[1]?
  tickArray2 := names[2]?

/-- A quote, and the swap with the first arrays only. -/
structure Executable (m : Machine) (lib : CommonSdk) (spl : SplToken) (tokenLib : TokenLibrary)
    (params : SwapQuoteParam Address) (amount otherAmountThreshold sqrtPriceLimit timestamp : ℕ)
    (outcome : SwapOutcome) (endTickIndex : ℤ) (count : ℕ) : Prop where
  within : count ≤ (fetchedArrays params.tickArrays).length
  /-- A swap that has run a step needs an array. -/
  some : outcome.iterations ≠ [] → 0 < count
  endTick : TickQuoted outcome.update.nextSqrtPrice outcome.update.nextTickIndex endTickIndex
  /-- The quote is refused for the threshold or for too many arrays, or names the first arrays. -/
  quoted : simulateSwap lib spl params =
    if Misses (params.tokenExtensionCtx.outputFee params.aToB)
        (outcome.update.inputAndOutput params.aToB).1 (outcome.update.inputAndOutput params.aToB).2
        otherAmountThreshold params.amountSpecifiedIsInput then
      .error (thresholdMissed params.amountSpecifiedIsInput)
    else if maxSwapTickArrays < count then .error (tooManyArrays count)
    else .ok (quoteOfOutcome params params.tokenExtensionCtx outcome endTickIndex
      (TickArraySequence.padWithLast (((fetchedArrays params.tickArrays).take count).map Prod.fst)
        maxSwapTickArrays))
  /-- With the first arrays the program does the same swap. -/
  executes : swapWithTransferFeeExtension m tokenLib params.whirlpoolData
      params.tokenExtensionCtx.tokenMintWithProgramA params.tokenExtensionCtx.tokenMintWithProgramB
      (SwapTickSequence.first ⟨(fetchedArrays params.tickArrays).map Prod.snd⟩ count) amount
      sqrtPriceLimit params.amountSpecifiedIsInput params.aToB timestamp =
    .ok { outcome with sequence := outcome.sequence.first count }
  /-- It leaves the others as they are. -/
  unchanged : outcome.sequence.arrays.drop count =
    ((fetchedArrays params.tickArrays).map Prod.snd).drop count

/-- Where the swap succeeds on the fetched arrays, its quote states what it does, and it can be
executed with the arrays the quote names. -/
theorem simulateSwap_executable (lib : CommonSdk) (spl : SplToken)
    (quotable : Quotable whirlpool table (fetchedArrays listed) aToB) (fits : amount < 2 ^ 64)
    (alike : ∀ rewardInfos, RunsAlike (.exact checks)
      (whirlpool.swapContext sqrtPriceLimit amountSpecifiedIsInput aToB rewardInfos)
      ((whirlpool.swapContext sqrtPriceLimit amountSpecifiedIsInput aToB rewardInfos).initialState
        ⟨(fetchedArrays listed).map Prod.snd⟩
        (rawAmount (mints.inputFee aToB) (mints.outputFee aToB) amount amountSpecifiedIsInput)))
    (returned : swapWithTransferFeeExtension (.exact checks) tokenLib whirlpool
      mints.tokenMintWithProgramA mints.tokenMintWithProgramB
      ⟨(fetchedArrays listed).map Prod.snd⟩ amount sqrtPriceLimit amountSpecifiedIsInput aToB
      timestamp = .ok outcome) (otherAmountThreshold : ℕ) :
    ∃ endTickIndex count, Executable (.exact checks) lib spl tokenLib (quoteParam whirlpool listed
      amount otherAmountThreshold sqrtPriceLimit amountSpecifiedIsInput aToB mints) amount
      otherAmountThreshold sqrtPriceLimit timestamp outcome endTickIndex count := by
  obtain ⟨sdk, touched, result, count, simulated⟩ := simulateSwap_simulated lib spl
    quotable fits alike
    returned otherAmountThreshold
  have built := (new_fetchedArrays _ _ _).symm.trans simulated.built
  obtain ⟨executes, unchanged⟩ := swapWithTransferFeeExtension_first quotable.tradable quotable.rate
    fits returned (simulated.reads.inFirst quotable built)
  have sequence_eq : touched.sequence = sdk.sequence := by rw [simulated.reads.rest]
  have fetched_eq := (new_eq built).1
  have within := simulated.reads.first.within
  rw [sequence_eq, fetched_eq, List.length_map] at within
  refine ⟨result.nextTickIndex, count, within, fun ran => ?_, simulated.nextTickIndex, ?_, executes,
    unchanged⟩
  · obtain ⟨entry, rest, ran⟩ := List.exists_cons_of_ne_nil ran
    obtain ⟨read, before, -⟩ := simulated.reads.reads entry (ran ▸ List.mem_cons_self)
    exact Nat.zero_lt_of_lt before
  · refine simulated.returns.trans (if_congr Iff.rfl rfl ?_)
    unfold quoteOf quoteOfOutcome
    dsimp only
    rw [simulated.reads.first.getNumOfTouchedArrays, simulated.reads.first.getTouchedArrays,
      sequence_eq, fetched_eq, List.map_take, List.map_map, ← List.map_take,
      simulated.totalFeeAmount, simulated.nextSqrtPrice]
    rfl

/-- The array filed under its start, and a mint of token A that withholds a tenth. -/
def singleListed : List (ℤ × Option TickArray) := [(0, some ((singleTick 5 (-7) 7).arrayAt 1 0))]

def taxedInput : TokenExtensionContextForPool := ⟨some tenPercent, none⟩

/-- A tenth of the input is withheld, and tick 5 is crossed with the one array there is. -/
theorem simulateSwap_executable_leftward : ∃ outcome endTickIndex count,
    Executable (.exact true) .plain .formulas .formulas
        (quoteParam (poolAtTick 8 0) singleListed 1000 0 (sqrtPriceFromTickIndex 3) true true
          taxedInput) 1000 0 (sqrtPriceFromTickIndex 3) 0
        outcome endTickIndex count ∧ crossings outcome.iterations = [5] := by
  have ran : yields (swapWithTransferFeeExtension (.exact true) .formulas (poolAtTick 8 0)
      taxedInput.tokenMintWithProgramA taxedInput.tokenMintWithProgramB
      ⟨(fetchedArrays singleListed).map Prod.snd⟩ 1000 (sqrtPriceFromTickIndex 3) true true 0)
      (fun outcome => crossings outcome.iterations == [5]) = true := by decide +kernel
  obtain ⟨outcome, returned, crossed⟩ := yields_iff.mp ran
  have quotable : Quotable (poolAtTick 8 0) (singleTick 5 (-7) 7)
    (fetchedArrays singleListed) true :=
    singleFetched_quotable 0 (by decide)
  obtain ⟨endTickIndex, count, executable⟩ := simulateSwap_executable .plain .formulas quotable
    (by decide) (fun _ => runsAlike_left rfl) returned 0
  exact ⟨outcome, endTickIndex, count, executable, eq_of_beq crossed⟩

end Quote

end Whirlpools.Sdk
