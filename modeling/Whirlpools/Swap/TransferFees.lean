import Whirlpools.Instructions.V2.Swap
import Whirlpools.Math.TransferFees
import Whirlpools.Swap.Termination

/-! # What a swap with transfer fees reports

The reported input is the one whose fee leaves the input of the raw swap, and the reported
output is that of the raw swap. The trader pays at most what was specified, or receives
after the fee at most what was requested, and all of it when the raw swap is filled.
-/

namespace Whirlpools

open Outcome

section Raw

variable {m : Machine} {context : SwapContext} {state state' final : SwapState}
  {entry : SwapIteration} {entries : List SwapIteration}

/-- An iteration accounts for the amounts of its step. -/
theorem swapIteration_accounts (returned : swapIteration m context state = .ok (state', entry)) :
    accountAmounts context.amountSpecifiedIsInput state.amountRemaining state.amountCalculated
      entry.computation = .ok (state'.amountRemaining, state'.amountCalculated) := by
  simp only [swapIteration, bind_eq_ok] at returned
  obtain ⟨found, -, computation, -, amounts, accounted, fees, -, returned⟩ := returned
  split at returned
  · simp only [bind_eq_ok] at returned
    obtain ⟨crossing, -, offset, -, returned⟩ := returned
    obtain ⟨rfl, rfl⟩ := Prod.mk.inj (Except.ok.inj returned)
    exact accounted
  · split at returned <;> obtain ⟨rfl, rfl⟩ := Prod.mk.inj (Except.ok.inj returned) <;>
      exact accounted

/-- The remaining amount is within the specified one, and the calculated amount in `u64`. -/
def SwapState.Accounted (amount : ℕ) (state : SwapState) : Prop :=
  state.amountRemaining ≤ amount ∧ state.amountCalculated < 2 ^ 64

/-- Every run of the loop accounts for the amount that it was given. -/
theorem iterations_accounted {amount : ℕ}
    (iterations : Iterations (swapContinues context) (swapIteration m context) state entries final)
    (initially : state.Accounted amount) : final.Accounted amount := by
  refine iterations.invariant ?_ initially
  intro state next entry accounted _ returned
  have amounts := swapIteration_accounts returned
  refine ⟨(accountAmounts_le amounts).trans accounted.1, ?_⟩
  have spec := accountAmounts_eq_ok amounts
  split_ifs at spec
  · exact spec.2.2
  · exact spec.2.2

end Raw

/-- Whatever the pool and the ticks are, a swap uses at most the specified amount, and both
its amounts are in `u64`. -/
theorem swap_amounts {m : Machine} {whirlpool : Whirlpool} {sequence : SwapTickSequence}
    {amount sqrtPriceLimit timestamp : ℕ} {isIn aToB : Bool} {outcome : SwapOutcome}
    (fits : amount < 2 ^ 64)
    (returned : swap m whirlpool sequence amount sqrtPriceLimit isIn aToB timestamp =
      .ok outcome) :
    (if isIn then (outcome.update.inputAndOutput aToB).1
      else (outcome.update.inputAndOutput aToB).2) ≤ amount ∧
    (outcome.update.inputAndOutput aToB).1 < 2 ^ 64 ∧
    (outcome.update.inputAndOutput aToB).2 < 2 ^ 64 := by
  simp only [swap, guard_eq_ok, bind_eq_ok, Except.ok.injEq] at returned
  obtain ⟨-, -, -, infos, -, ⟨final, entries⟩, looped, update, posted, rfl⟩ := returned
  obtain ⟨left, calculated⟩ := iterations_accounted (whileLogged_iterations looped).1
    (show SwapState.Accounted amount _ from ⟨le_refl amount, Nat.two_pow_pos 64⟩)
  simp only [SwapContext.postSwapUpdate, bind_eq_ok, Except.ok.injEq,
    Machine.plainSub_of_le _ left] at posted
  obtain ⟨used, rfl, -, -, rfl⟩ := posted
  have used := Nat.sub_le amount final.amountRemaining
  cases isIn <;> cases aToB <;>
    simp only [PostSwapUpdate.inputAndOutput, Bool.false_eq_true, Bool.true_eq_false, ↓reduceIte]
      <;>
    omega

/-- Whatever the pool and the ticks are, a swap that stops short of its limit uses its amount up. -/
theorem swap_fills {m : Machine} {whirlpool : Whirlpool} {sequence : SwapTickSequence}
    {amount sqrtPriceLimit timestamp : ℕ} {isIn aToB : Bool} {outcome : SwapOutcome}
    (returned : swap m whirlpool sequence amount sqrtPriceLimit isIn aToB timestamp =
      .ok outcome) (short : outcome.update.nextSqrtPrice ≠ sqrtPriceLimit) :
    (if isIn then (outcome.update.inputAndOutput aToB).1
      else (outcome.update.inputAndOutput aToB).2) = amount := by
  simp only [swap, guard_eq_ok, bind_eq_ok, Except.ok.injEq] at returned
  obtain ⟨-, -, -, infos, -, ⟨final, entries⟩, looped, update, posted, rfl⟩ := returned
  have stopped := (whileLogged_iterations looped).2
  simp only [SwapContext.postSwapUpdate, Machine.plainSub, bind_eq_ok, Except.ok.injEq] at posted
  obtain ⟨used, spent, -, -, rfl⟩ := posted
  have zero : final.amountRemaining = 0 := by
    by_contra some
    simp only [swapContinues, decide_eq_false_iff_not, not_and, ne_eq, not_not] at stopped
    exact short (stopped (Nat.pos_of_ne_zero some)).symm
  rw [zero, if_pos (Nat.zero_le amount), Nat.sub_zero] at spent
  obtain rfl := Except.ok.inj spent
  cases isIn <;> cases aToB <;> rfl

/-- The amounts of an outcome are read as input and output in its direction. -/
@[simp] theorem inputAndOutput_withAmounts (update : PostSwapUpdate) (aToB : Bool)
    (input output : ℕ) :
    (update.withAmounts aToB input output).inputAndOutput aToB = (input, output) := by
  cases aToB <;> rfl

/-- An included amount that is returned is the least one, and in `u64`. -/
theorem includedAmount_eq {lib : TokenLibrary} {tokenMint : Option TransferFee} {amount : ℕ}
    {included : TransferFeeIncludedAmount} (fits : amount < 2 ^ 64)
    (returned : calculateTransferFeeIncludedAmount lib tokenMint amount = .ok included) :
    included.amount = (TransferFee.ofMint tokenMint).gross amount ∧ included.amount < 2 ^ 64 := by
  rw [calculateTransferFeeIncludedAmount_eq fits] at returned
  split_ifs at returned with small
  obtain rfl := Except.ok.inj returned
  exact ⟨rfl, small⟩

section Modes

variable {m : Machine} {lib : TokenLibrary} {whirlpool : Whirlpool}
  {tokenMintA tokenMintB : Option TransferFee} {sequence : SwapTickSequence}
  {amount sqrtPriceLimit timestamp : ℕ} {aToB : Bool} {outcome : SwapOutcome}

/-- An exact-input swap runs on what the fee leaves of the amount, and reports an input within the
amount that leaves what the pool used. -/
theorem swapWithTransferFeeExtension_exactIn (fits : amount < 2 ^ 64)
    (returned : swapWithTransferFeeExtension m lib whirlpool tokenMintA tokenMintB sequence amount
      sqrtPriceLimit true aToB timestamp = .ok outcome) :
    ∃ raw reportedInput,
      swap m whirlpool sequence
        ((TransferFee.ofMint (if aToB then tokenMintA else tokenMintB)).net amount) sqrtPriceLimit
        true aToB timestamp = .ok raw ∧
      outcome = { raw with
        update := raw.update.withAmounts aToB reportedInput (raw.update.inputAndOutput aToB).2 } ∧
      reportedInput ≤ amount ∧
      (TransferFee.ofMint (if aToB then tokenMintA else tokenMintB)).net reportedInput =
        (raw.update.inputAndOutput aToB).1 := by
  unfold swapWithTransferFeeExtension at returned
  generalize (if aToB then tokenMintA else tokenMintB) = inputTokenMint at returned ⊢
  simp only [↓reduceIte, calculateTransferFeeExcludedAmount_eq fits, ok_bind, bind_eq_ok,
    Except.ok.injEq] at returned
  obtain ⟨raw, swapped, adjusted, adjusting, rfl⟩ := returned
  have left : (TransferFee.ofMint inputTokenMint).net amount ≤ amount := Nat.sub_le _ _
  obtain ⟨used, inputFits, -⟩ := swap_amounts (lt_of_le_of_lt left fits) swapped
  rw [if_pos rfl] at used
  refine ⟨raw, adjusted, swapped, rfl, ?_⟩
  split at adjusting
  · rename_i fullfilled
    rw [decide_eq_true_eq] at fullfilled
    obtain rfl := Except.ok.inj adjusting
    exact ⟨le_refl _, fullfilled.symm⟩
  · obtain ⟨included, computed, same⟩ := bind_eq_ok.mp adjusting
    obtain rfl := Except.ok.inj same
    obtain ⟨least, -⟩ := includedAmount_eq inputFits computed
    rw [least, TransferFee.net_gross]
    exact ⟨((TransferFee.ofMint inputTokenMint).gross_adjoint _ _).mpr used, rfl⟩

/-- An exact-output swap runs on the amount with the fee of the output, and reports the input with
its fee. -/
theorem swapWithTransferFeeExtension_exactOut (fits : amount < 2 ^ 64)
    (returned : swapWithTransferFeeExtension m lib whirlpool tokenMintA tokenMintB sequence amount
      sqrtPriceLimit false aToB timestamp = .ok outcome) :
    ∃ raw,
      calculateTransferFeeIncludedAmount lib (if aToB then tokenMintB else tokenMintA) amount =
        .ok ⟨(TransferFee.ofMint (if aToB then tokenMintB else tokenMintA)).gross amount,
          (TransferFee.ofMint (if aToB then tokenMintB else tokenMintA)).gross amount - amount⟩ ∧
      swap m whirlpool sequence
        ((TransferFee.ofMint (if aToB then tokenMintB else tokenMintA)).gross amount)
        sqrtPriceLimit false aToB timestamp = .ok raw ∧
      outcome = { raw with
        update := raw.update.withAmounts aToB
          ((TransferFee.ofMint (if aToB then tokenMintA else tokenMintB)).gross
            (raw.update.inputAndOutput aToB).1) (raw.update.inputAndOutput aToB).2 } ∧
      (raw.update.inputAndOutput aToB).2 ≤
        (TransferFee.ofMint (if aToB then tokenMintB else tokenMintA)).gross amount ∧
      (raw.update.inputAndOutput aToB).2 < 2 ^ 64 ∧
      (TransferFee.ofMint (if aToB then tokenMintA else tokenMintB)).gross
        (raw.update.inputAndOutput aToB).1 < 2 ^ 64 := by
  unfold swapWithTransferFeeExtension at returned
  generalize (if aToB then tokenMintA else tokenMintB) = inputTokenMint at returned ⊢
  generalize (if aToB then tokenMintB else tokenMintA) = outputTokenMint at returned ⊢
  simp only [Bool.false_eq_true, ↓reduceIte, bind_eq_ok, Except.ok.injEq] at returned
  obtain ⟨requested, requesting, raw, swapped, paying, included, rfl⟩ := returned
  obtain ⟨requested_eq, requestedFits⟩ := includedAmount_eq fits requesting
  obtain ⟨used, inputFits, outputFits⟩ := swap_amounts requestedFits swapped
  rw [if_neg Bool.false_ne_true] at used
  obtain ⟨paying_eq, payingFits⟩ := includedAmount_eq inputFits included
  rw [requested_eq] at used swapped requestedFits
  rw [paying_eq] at payingFits ⊢
  refine ⟨raw, ?_, swapped, rfl, used, outputFits, payingFits⟩
  rw [calculateTransferFeeIncludedAmount_eq fits, if_pos requestedFits]

end Modes

/-- What a swap with transfer fees that returns reports, against the raw swap it ran: its
amount `rawAmount` is what the specified amount leaves of the input, or asks of the output. -/
structure FeesHonoured (m : Machine) (lib : TokenLibrary) (whirlpool : Whirlpool)
    (inputTokenMint outputTokenMint : Option TransferFee) (sequence : SwapTickSequence)
    (amount sqrtPriceLimit : ℕ) (isIn aToB : Bool) (timestamp : ℕ) (reported : PostSwapUpdate)
    (rawAmount : ℕ) (raw : SwapOutcome) : Prop where
  swapped : swap m whirlpool sequence rawAmount sqrtPriceLimit isIn aToB timestamp = .ok raw
  specified : if isIn then
      ∃ fee, calculateTransferFeeExcludedAmount lib inputTokenMint amount = .ok ⟨rawAmount, fee⟩
    else
      ∃ fee, calculateTransferFeeIncludedAmount lib outputTokenMint amount = .ok ⟨rawAmount, fee⟩
  /-- What is left of the reported input is the raw input. -/
  input : ∃ fee, calculateTransferFeeExcludedAmount lib inputTokenMint
    (reported.inputAndOutput aToB).1 = .ok ⟨(raw.update.inputAndOutput aToB).1, fee⟩
  output : (reported.inputAndOutput aToB).2 = (raw.update.inputAndOutput aToB).2
  paid : isIn = true → (reported.inputAndOutput aToB).1 ≤ amount
  /-- What is left of the reported output is at most the request, and all of it when filled. -/
  received : isIn = false → ∃ net fee, calculateTransferFeeExcludedAmount lib outputTokenMint
      (reported.inputAndOutput aToB).2 = .ok ⟨net, fee⟩ ∧ net ≤ amount ∧
        ((raw.update.inputAndOutput aToB).2 = rawAmount → net = amount)

/-- A swap with transfer fees honours the bound of the trader and the claim of the pool. -/
theorem swapWithTransferFeeExtension_honoured {m : Machine} {lib : TokenLibrary}
    {whirlpool : Whirlpool} {tokenMintA tokenMintB : Option TransferFee}
    {sequence : SwapTickSequence} {amount : UInt64} {sqrtPriceLimit timestamp : ℕ}
    {isIn aToB : Bool} {outcome : SwapOutcome}
    (returned : swapWithTransferFeeExtension m lib whirlpool tokenMintA tokenMintB sequence
      amount.toNat sqrtPriceLimit isIn aToB timestamp = .ok outcome) :
    ∃ rawAmount raw, FeesHonoured m lib whirlpool (if aToB then tokenMintA else tokenMintB)
      (if aToB then tokenMintB else tokenMintA) sequence amount.toNat sqrtPriceLimit isIn aToB
      timestamp outcome.update rawAmount raw := by
  have fits := amount.toNat_lt
  cases isIn with
  | true =>
      obtain ⟨raw, reported, swapped, rfl, paid, left⟩ :=
        swapWithTransferFeeExtension_exactIn fits returned
      refine ⟨_, raw, swapped, ?_, ?_, ?_, fun _ => ?_, fun exactOut => ?_⟩
      · rw [if_pos rfl]
        exact ⟨_, calculateTransferFeeExcludedAmount_eq fits⟩
      · rw [inputAndOutput_withAmounts,
          calculateTransferFeeExcludedAmount_eq (lt_of_le_of_lt paid fits), left]
        exact ⟨_, rfl⟩
      · rw [inputAndOutput_withAmounts]
      · rw [inputAndOutput_withAmounts]
        exact paid
      · exact absurd exactOut (by decide)
  | false =>
      obtain ⟨raw, requesting, swapped, rfl, used, outputFits, payingFits⟩ :=
        swapWithTransferFeeExtension_exactOut fits returned
      refine ⟨_, raw, swapped, ?_, ?_, ?_, fun exactIn => ?_, fun _ => ?_⟩
      · rw [if_neg Bool.false_ne_true]
        exact ⟨_, requesting⟩
      · rw [inputAndOutput_withAmounts, calculateTransferFeeExcludedAmount_eq payingFits,
          TransferFee.net_gross]
        exact ⟨_, rfl⟩
      · rw [inputAndOutput_withAmounts]
      · exact absurd exactIn (by decide)
      · rw [inputAndOutput_withAmounts, calculateTransferFeeExcludedAmount_eq outputFits]
        generalize (if aToB then tokenMintB else tokenMintA) = outputTokenMint at used ⊢
        have left := (TransferFee.ofMint outputTokenMint).net_gross amount.toNat
        refine ⟨_, _, rfl, ?_, fun filled => ?_⟩
        · exact ((TransferFee.ofMint outputTokenMint).gross_adjoint.monotone_u used).trans left.le
        · rw [filled, left]

/-- A tenth of every transfer. -/
def tenPercent : TransferFee := ⟨1000, 10 ^ 9, by decide, by decide⟩

/-- A swap that stops at its limit takes less than specified: the input that leaves what the
pool used. -/
theorem swapWithTransferFeeExtension_honoured_limit : ∃ outcome,
    swapWithTransferFeeExtension (.exact false) .formulas (poolAtTick 8 (10 ^ 6)) (some tenPercent)
        none ⟨[(singleTick 5 (-7) 7).arrayAt 1 0]⟩ (1000 : UInt64).toNat (sqrtPriceFromTickIndex 3)
        true true 0 = .ok outcome ∧
      outcome.update.amountA = 278 ∧
      ∃ rawAmount raw, FeesHonoured (.exact false) .formulas (poolAtTick 8 (10 ^ 6))
        (some tenPercent) none ⟨[(singleTick 5 (-7) 7).arrayAt 1 0]⟩ (1000 : UInt64).toNat
        (sqrtPriceFromTickIndex 3) true true 0 outcome.update rawAmount raw := by
  have ran : yields (swapWithTransferFeeExtension (.exact false) .formulas (poolAtTick 8 (10 ^ 6))
      (some tenPercent) none ⟨[(singleTick 5 (-7) 7).arrayAt 1 0]⟩ (1000 : UInt64).toNat
      (sqrtPriceFromTickIndex 3) true true 0) (fun outcome => outcome.update.amountA == 278) =
        true := by decide +kernel
  obtain ⟨outcome, returned, takes⟩ := yields_iff.mp ran
  exact ⟨outcome, returned, eq_of_beq takes, swapWithTransferFeeExtension_honoured returned⟩

end Whirlpools
