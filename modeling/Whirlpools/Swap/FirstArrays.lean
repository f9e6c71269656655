import Whirlpools.Foundation.Agreement
import Whirlpools.Swap.TransferFees

/-! # A swap on the first tick arrays

A swap whose searches all end in the first arrays of its sequence runs the same on those arrays
alone, and leaves the others as they are. The search is what could tell the difference: at the end
of the sequence it returns the last tick, where it would go on to a further array.
-/

namespace Whirlpools

open Outcome

namespace SwapTickSequence

variable {sequence sequence' : SwapTickSequence} {count arrayIndex tickSpacing : ℕ} {aToB : Bool}
  {tick next : ℤ} {update : TickUpdate}

/-- The first arrays of a sequence. -/
def first (sequence : SwapTickSequence) (count : ℕ) :
    SwapTickSequence := ⟨sequence.arrays.take count⟩

/-- The first arrays are those of the whole sequence. -/
theorem getArray_first (before : arrayIndex < count) :
    (sequence.first count).getArray arrayIndex = sequence.getArray arrayIndex := by
  unfold getArray first
  rw [List.getElem?_take_of_lt before]

/-- A tick in the first arrays is read the same. -/
theorem getTick_first (before : arrayIndex < count) :
    (sequence.first count).getTick arrayIndex tick tickSpacing =
      sequence.getTick arrayIndex tick tickSpacing := by
  rw [getTick, getTick, getArray_first before]

/-- A tick in the first arrays has the same place. -/
theorem getTickOffset_first (before : arrayIndex < count) :
    (sequence.first count).getTickOffset arrayIndex tick tickSpacing =
      sequence.getTickOffset arrayIndex tick tickSpacing := by
  rw [getTickOffset, getTickOffset, getArray_first before]

/-- Updating a tick of the first arrays. -/
theorem updateTick_first (before : arrayIndex < count)
    (returned : sequence.updateTick arrayIndex tick tickSpacing update = .ok sequence') :
    (sequence.first count).updateTick arrayIndex tick tickSpacing update =
        .ok (sequence'.first count) ∧
      sequence'.arrays.drop count = sequence.arrays.drop count := by
  simp only [updateTick, bind_eq_ok, Except.ok.injEq] at returned
  obtain ⟨array, found, updated, written, rfl⟩ := returned
  refine ⟨?_, List.drop_set_of_lt before⟩
  rw [updateTick, getArray_first before, found, ok_bind, written, ok_bind]
  unfold first
  rw [List.take_set]

/-- A search that ends in the first arrays is the same on them alone. -/
theorem searchArrays_first {arrays : List TickArray} {index : ℕ}
    (returned : searchArrays tickSpacing aToB arrays index tick = .ok (arrayIndex, next))
    (before : arrayIndex < index + count) :
    searchArrays tickSpacing aToB (arrays.take count) index tick = .ok (arrayIndex, next) := by
  induction arrays generalizing index tick count with
  | nil => simp only [searchArrays, reduceCtorEq] at returned
  | cons array rest ih =>
      obtain ⟨position, rfl, -⟩ := searchArrays_answered returned
      obtain ⟨count, rfl⟩ := Nat.exists_eq_add_one.mpr (by omega : 0 < count)
      rw [List.take_succ_cons]
      simp only [searchArrays, bind_eq_ok] at returned ⊢
      obtain ⟨found, answered, returned⟩ := returned
      refine ⟨found, answered, ?_⟩
      cases found with
      | some found => exact returned
      | none =>
          dsimp only at returned ⊢
          by_cases left : aToB = true ∧ array.isMinTickArray = true
          · rwa [if_pos left] at returned ⊢
          rw [if_neg left] at returned ⊢
          by_cases right : ¬ aToB = true ∧ array.isMaxTickArray tickSpacing = true
          · rwa [if_pos right] at returned ⊢
          rw [if_neg right] at returned ⊢
          cases rest with
          | nil => rwa [List.take_nil]
          | cons second rest =>
              rw [if_neg (List.cons_ne_nil _ _)] at returned
              cases count with
              | zero =>
                  obtain ⟨further, after, -⟩ := searchArrays_answered returned
                  omega
              | succ count =>
                  have answered' :=
                    ih returned (by omega : index + position < index + 1 + (count + 1))
                  rw [List.take_succ_cons] at answered' ⊢
                  rwa [if_neg (List.cons_ne_nil _ _)]

/-- A search that ends within the first arrays needs no more than these. -/
theorem getNextInitializedTickIndex_first {cursor : ℕ}
    (returned : sequence.getNextInitializedTickIndex tick tickSpacing aToB cursor =
      .ok (arrayIndex, next)) (before : arrayIndex < count) :
    (sequence.first count).getNextInitializedTickIndex tick tickSpacing aToB cursor =
      .ok (arrayIndex, next) := by
  unfold getNextInitializedTickIndex first at *
  obtain ⟨position, rfl, -⟩ := searchArrays_answered returned
  rw [List.drop_take]
  exact searchArrays_first returned (by omega)

end SwapTickSequence

section Loop

variable {m : Machine} {context : SwapContext} {table : TickTable} {state next final : SwapState}
  {entry : SwapIteration} {entries : List SwapIteration} {count : ℕ}

/-- The state of a loop that only has the first arrays. -/
def SwapState.first (state : SwapState) (count : ℕ) : SwapState :=
  { state with swapTickSequence := state.swapTickSequence.first count }

/-- Crossing a tick of the first arrays. -/
theorem crossTick_first {arrayIndex growth liquidity : ℕ} {tick : ℤ} {sequence : SwapTickSequence}
    {crossed : Option ℤ} (before : arrayIndex < count)
    (returned : crossTick m context state arrayIndex tick growth =
      .ok (liquidity, sequence, crossed)) :
    crossTick m context (state.first count) arrayIndex tick growth =
        .ok (liquidity, sequence.first count, crossed) ∧
      sequence.arrays.drop count = state.swapTickSequence.arrays.drop count := by
  unfold crossTick at returned ⊢
  dsimp only [SwapState.first]
  rw [SwapTickSequence.getTick_first before]
  cases found : state.swapTickSequence.getTick arrayIndex tick context.whirlpool.tickSpacing with
  | error failure =>
      simp only [found, Except.ok.injEq, Prod.mk.injEq] at returned
      obtain ⟨rfl, rfl, rfl⟩ := returned
      exact ⟨rfl, rfl⟩
  | ok full =>
      simp only [found] at returned
      dsimp only
      by_cases initialized : full.initialized = true
      · simp only [if_pos initialized, bind_eq_ok, Except.ok.injEq, Prod.mk.injEq] at returned
        obtain ⟨⟨update, liquidity'⟩, calculated, updated, written, rfl, rfl, rfl⟩ := returned
        obtain ⟨written', same⟩ := SwapTickSequence.updateTick_first before written
        rw [if_pos initialized, calculated, ok_bind]
        dsimp only
        rw [written', ok_bind]
        exact ⟨rfl, same⟩
      · simp only [if_neg initialized, Except.ok.injEq, Prod.mk.injEq] at returned
        obtain ⟨rfl, rfl, rfl⟩ := returned
        exact ⟨if_neg initialized, rfl⟩

/-- What an iteration of the program searched and computed, and the tick it left. -/
theorem swapIteration_computed (returned : swapIteration m context state = .ok (next, entry)) :
    (∃ arrayIndex, state.swapTickSequence.getNextInitializedTickIndex state.currTickIndex
        context.whirlpool.tickSpacing context.aToB state.currArrayIndex =
          .ok (arrayIndex, entry.nextTickIndex)) ∧
      computeSwap m state.amountRemaining context.whirlpool.feeRate state.currLiquidity
        state.currSqrtPrice (entry.target context) context.amountSpecifiedIsInput context.aToB =
          .ok entry.computation ∧
      next.currTickIndex =
        if entry.computation.nextPrice = sqrtPriceFromTickIndex entry.nextTickIndex then
          entry.beyond context.aToB
        else if entry.computation.nextPrice ≠ entry.sqrtPrice then
          tickIndexFromSqrtPrice entry.computation.nextPrice
        else state.currTickIndex := by
  simp only [swapIteration, bind_eq_ok] at returned
  obtain ⟨⟨arrayIndex, nextTick⟩, searched, computation, computed, amounts, -, fees, -, returned⟩ :=
    returned
  change (if computation.nextPrice = sqrtPriceFromTickIndex nextTick then _ else _) = _ at returned
  by_cases reached : computation.nextPrice = sqrtPriceFromTickIndex nextTick
  · rw [if_pos reached] at returned
    simp only [bind_eq_ok] at returned
    obtain ⟨crossing, -, offset, -, returned⟩ := returned
    obtain ⟨rfl, rfl⟩ := Prod.mk.inj (Except.ok.inj returned)
    exact ⟨⟨arrayIndex, searched⟩, computed, (if_pos reached).symm⟩
  · rw [if_neg reached] at returned
    by_cases moved : computation.nextPrice ≠ state.currSqrtPrice
    · rw [if_pos moved] at returned
      obtain ⟨rfl, rfl⟩ := Prod.mk.inj (Except.ok.inj returned)
      exact ⟨⟨arrayIndex, searched⟩, computed, ((if_neg reached).trans (if_pos moved)).symm⟩
    · rw [if_neg moved] at returned
      obtain ⟨rfl, rfl⟩ := Prod.mk.inj (Except.ok.inj returned)
      exact ⟨⟨arrayIndex, searched⟩, computed, ((if_neg reached).trans (if_neg moved)).symm⟩

/-- An iteration whose search ends in the first arrays. -/
theorem swapIteration_first (returned : swapIteration m context state = .ok (next, entry))
    (before : ∀ arrayIndex, state.swapTickSequence.getNextInitializedTickIndex state.currTickIndex
      context.whirlpool.tickSpacing context.aToB state.currArrayIndex =
        .ok (arrayIndex, entry.nextTickIndex) → arrayIndex < count) :
    swapIteration m context (state.first count) = .ok (next.first count, entry) ∧
      next.swapTickSequence.arrays.drop count = state.swapTickSequence.arrays.drop count := by
  obtain ⟨⟨arrayIndex, searched⟩, computed, -⟩ := swapIteration_computed returned
  have inside := before arrayIndex searched
  have searched' := SwapTickSequence.getNextInitializedTickIndex_first searched inside
  unfold swapIteration at returned ⊢
  unfold SwapIteration.target at computed
  unfold SwapState.first
  dsimp only at returned ⊢
  rw [searched, ok_bind] at returned
  rw [searched', ok_bind]
  dsimp only at returned ⊢
  rw [computed, ok_bind] at returned ⊢
  obtain ⟨⟨remaining, calculated⟩, amounts, returned⟩ := bind_eq_ok.mp returned
  obtain ⟨⟨protocolFee, growth, delta, growthDelta⟩, charged, returned⟩ := bind_eq_ok.mp returned
  rw [amounts, ok_bind]
  dsimp only
  rw [charged, ok_bind]
  dsimp only at returned ⊢
  by_cases reached : entry.computation.nextPrice =
      (getNextSqrtPrices entry.nextTickIndex context.sqrtPriceLimit context.aToB).1
  · rw [if_pos reached] at returned ⊢
    obtain ⟨⟨liquidity, sequence, crossed⟩, crossing, returned⟩ := bind_eq_ok.mp returned
    obtain ⟨offset, located, returned⟩ := bind_eq_ok.mp returned
    obtain ⟨rfl, logged⟩ := Prod.mk.inj (Except.ok.inj returned)
    obtain ⟨crossing', same⟩ := crossTick_first inside crossing
    unfold SwapState.first at crossing'
    refine ⟨?_, same⟩
    rw [crossing', ok_bind]
    dsimp only at located ⊢
    rw [SwapTickSequence.getTickOffset_first inside, located]
    exact congrArg Except.ok (Prod.ext rfl logged)
  · rw [if_neg reached] at returned ⊢
    by_cases moved : entry.computation.nextPrice ≠ state.currSqrtPrice
    · rw [if_pos moved] at returned ⊢
      obtain ⟨rfl, logged⟩ := Prod.mk.inj (Except.ok.inj returned)
      exact ⟨congrArg Except.ok (Prod.ext rfl logged), rfl⟩
    · rw [if_neg moved] at returned ⊢
      obtain ⟨rfl, logged⟩ := Prod.mk.inj (Except.ok.inj returned)
      exact ⟨congrArg Except.ok (Prod.ext rfl logged), rfl⟩

/-- A tick that lies in none but the first arrays. -/
def InFirst (tickSpacing : ℕ) (starts : List ℤ) (count : ℕ) (tick : ℤ) : Prop :=
  ∀ (position : ℕ) (start : ℤ), starts[position]? = some start → start ≤ tick →
    tick < start + arrayWidth tickSpacing → position < count

/-- A loop that only goes to ticks of the first arrays. -/
theorem iterations_first (sound : context.Sound) (holds : LoopInvariant context table state)
    (iterations : Iterations (swapContinues context) (swapIteration m context) state entries final)
    (within : ∀ entry ∈ entries, InFirst context.whirlpool.tickSpacing
      (state.swapTickSequence.arrays.map TickArray.startTickIndex) count entry.nextTickIndex) :
    Iterations (swapContinues context) (swapIteration m context) (state.first count) entries
        (final.first count) ∧
      final.swapTickSequence.arrays.drop count = state.swapTickSequence.arrays.drop count := by
  induction iterations generalizing table with
  | done state => exact ⟨.done _, rfl⟩
  | @step state middle final entry entries runs stepped _ ih =>
      obtain ⟨table', traverses, holds'⟩ := swapIteration_traverses sound holds runs stepped
      obtain ⟨stepped', same⟩ := swapIteration_first stepped fun arrayIndex searched => by
        obtain ⟨array, place, above, below⟩ := (search_spec sound holds runs searched).1.inside
        refine within entry List.mem_cons_self arrayIndex array.startTickIndex ?_ above below
        rw [List.getElem?_map, place]
        rfl
      obtain ⟨rest, unchanged⟩ := ih holds' fun later member => by
        rw [traverses.starts]
        exact within later (List.mem_cons_of_mem entry member)
      exact ⟨.step runs stepped' rest, unchanged.trans same⟩

end Loop

/-- The first arrays carry the table the sequence carries. -/
theorem Tradable.first {whirlpool : Whirlpool} {table : TickTable} {sequence : SwapTickSequence}
    (tradable : Tradable whirlpool table sequence) (count : ℕ) :
    Tradable whirlpool table (sequence.first count) :=
  { tradable with
    carried := ⟨fun array member => tradable.carried.arrays array (List.mem_of_mem_take member),
      tradable.carried.distinct.sublist ((List.take_sublist _ _).map _)⟩ }

/-- A swap that only goes to ticks of the first arrays does the same without the others, which it
leaves as they are. -/
theorem swap_first {m : Machine} {whirlpool : Whirlpool} {table : TickTable}
    {sequence : SwapTickSequence} {amount sqrtPriceLimit timestamp count : ℕ}
    {amountSpecifiedIsInput aToB : Bool} {outcome : SwapOutcome}
    (tradable : Tradable whirlpool table sequence) (rate : whirlpool.feeRate < 2 ^ 16)
    (fits : amount < 2 ^ 64)
    (returned : swap m whirlpool sequence amount sqrtPriceLimit amountSpecifiedIsInput aToB
      timestamp = .ok outcome)
    (within : ∀ entry ∈ outcome.iterations, InFirst whirlpool.tickSpacing
      (sequence.arrays.map TickArray.startTickIndex) count entry.nextTickIndex) :
    swap m whirlpool (sequence.first count) amount sqrtPriceLimit amountSpecifiedIsInput aToB
        timestamp = .ok { outcome with sequence := outcome.sequence.first count } ∧
      outcome.sequence.arrays.drop count = sequence.arrays.drop count := by
  simp only [swap, guard_eq_ok, bind_eq_ok, Except.ok.injEq] at returned
  obtain ⟨bounds, direction, nonzero, rewardInfos, accrued, ⟨final, entries⟩, looped,
    update, posted, rfl⟩ := returned
  obtain ⟨iterations, stops⟩ := whileLogged_iterations looped
  have range := bounds
  simp only [not_or, not_lt, gt_iff_lt] at range
  have sound : (whirlpool.swapContext sqrtPriceLimit amountSpecifiedIsInput aToB
      rewardInfos).Sound := ⟨tradable.spacing, range⟩
  have holds (sequence : SwapTickSequence) (tradable : Tradable whirlpool table sequence) :=
    LoopInvariant.initial (whirlpool.swapContext sqrtPriceLimit amountSpecifiedIsInput aToB
      rewardInfos) table sequence tradable fits direction
  obtain ⟨iterations', same⟩ := iterations_first sound (holds sequence tradable) iterations within
  have enough : entries.length ≤ swapFuel (sequence.first count) := by
    have length := iterations_length_le sound rate iterations' (holds _ (tradable.first count))
    have ticks := initializedTicks_length_le (sequence.first count) whirlpool.tickSpacing
    unfold swapFuel
    exact length.trans ((Nat.succ_le_succ ticks).trans (by omega))
  refine ⟨?_, same⟩
  have looped' := @whileLogged_of_iterations _ _ _ _ _ _ _ _ (.outOfFuel : Failure) _
    iterations' stops
    enough
  unfold swap
  rw [if_neg bounds, if_neg direction, if_neg nonzero, accrued, ok_bind]
  exact bind_eq_ok.mpr ⟨_, looped', bind_eq_ok.mpr ⟨update, posted, rfl⟩⟩

section TransferFees

variable {m : Machine} {lib : TokenLibrary} {whirlpool : Whirlpool} {table : TickTable}
  {tokenMintA tokenMintB : Option TransferFee} {sequence : SwapTickSequence}
  {amount sqrtPriceLimit timestamp count : ℕ} {amountSpecifiedIsInput aToB : Bool}
  {outcome : SwapOutcome}

/-- The fees of the mints of the input and of the output. -/
def inputFee (tokenMintA tokenMintB : Option TransferFee) (aToB : Bool) : TransferFee :=
  TransferFee.ofMint (if aToB then tokenMintA else tokenMintB)

def outputFee (tokenMintA tokenMintB : Option TransferFee) (aToB : Bool) : TransferFee :=
  TransferFee.ofMint (if aToB then tokenMintB else tokenMintA)

/-- The amount the pool is to take or to give for a specified one. -/
def rawAmount (input output : TransferFee) (amount : ℕ) (amountSpecifiedIsInput : Bool) : ℕ :=
  if amountSpecifiedIsInput then input.net amount else output.gross amount

/-- What the trader pays so that the pool takes an amount: what was specified, where the pool takes
all that is left of it. -/
def paidInput (input : TransferFee) (amount taken : ℕ) (amountSpecifiedIsInput : Bool) : ℕ :=
  if amountSpecifiedIsInput = true ∧ taken = input.net amount then amount else input.gross taken

/-- Adding the fee to an amount fails beyond `u64`. -/
theorem includedAmount_bind_eq_ok {α : Type} {tokenMint : Option TransferFee} {taken : ℕ}
    {next : TransferFeeIncludedAmount → Result α} {value : α} (fits : taken < 2 ^ 64) :
    (calculateTransferFeeIncludedAmount lib tokenMint taken >>= next) = .ok value ↔
      (TransferFee.ofMint tokenMint).gross taken < 2 ^ 64 ∧
        next ⟨(TransferFee.ofMint tokenMint).gross taken,
          (TransferFee.ofMint tokenMint).gross taken - taken⟩ = .ok value := by
  rw [calculateTransferFeeIncludedAmount_eq fits]
  by_cases small : (TransferFee.ofMint tokenMint).gross taken < 2 ^ 64
  · rw [if_pos small, ok_bind, and_iff_right small]
  · rw [if_neg small, bind_eq_ok]
    exact iff_of_false (fun ⟨_, failed, _⟩ => by simp only [err, reduceCtorEq] at failed)
      fun ⟨fits, _⟩ => small fits

/-- A swap with transfer fees, by the swap it runs. -/
theorem swapWithTransferFeeExtension_eq_ok (fits : amount < 2 ^ 64) :
    swapWithTransferFeeExtension m lib whirlpool tokenMintA tokenMintB sequence amount
      sqrtPriceLimit
        amountSpecifiedIsInput aToB timestamp = .ok outcome ↔
      ∃ raw, rawAmount (inputFee tokenMintA tokenMintB aToB) (outputFee tokenMintA tokenMintB aToB)
          amount amountSpecifiedIsInput < 2 ^ 64 ∧
        swap m whirlpool sequence (rawAmount (inputFee tokenMintA tokenMintB aToB)
          (outputFee tokenMintA tokenMintB aToB) amount amountSpecifiedIsInput) sqrtPriceLimit
          amountSpecifiedIsInput aToB timestamp = .ok raw ∧
        paidInput (inputFee tokenMintA tokenMintB aToB) amount (raw.update.inputAndOutput aToB).1
          amountSpecifiedIsInput < 2 ^ 64 ∧
        outcome = { raw with
          update := raw.update.withAmounts aToB
            (paidInput (inputFee tokenMintA tokenMintB aToB) amount
              (raw.update.inputAndOutput aToB).1 amountSpecifiedIsInput)
            (raw.update.inputAndOutput aToB).2 } := by
  unfold swapWithTransferFeeExtension inputFee outputFee
  generalize (if aToB then tokenMintA else tokenMintB) = input
  generalize (if aToB then tokenMintB else tokenMintA) = output
  cases amountSpecifiedIsInput with
  | true =>
      have left : (TransferFee.ofMint input).net amount < 2 ^ 64 := (Nat.sub_le _ _).trans_lt fits
      simp only [↓reduceIte, calculateTransferFeeExcludedAmount_eq fits, ok_bind, rawAmount, left,
        true_and, paidInput]
      rw [bind_eq_ok]
      refine exists_congr fun raw => and_congr_right fun swapped => ?_
      have inputFits := (swap_amounts left swapped).2.1
      by_cases fullfilled : (raw.update.inputAndOutput aToB).1 =
        (TransferFee.ofMint input).net amount
      · simp only [fullfilled, decide_true, ↓reduceIte, ok_bind, Except.ok.injEq, fits, true_and,
          eq_comm]
      · simp only [fullfilled, decide_false, Bool.false_eq_true, ↓reduceIte]
        rw [bind_assoc, includedAmount_bind_eq_ok inputFits, ok_bind, Except.ok.injEq, eq_comm]
  | false =>
      simp only [Bool.false_eq_true, ↓reduceIte, rawAmount, paidInput, false_and]
      rw [includedAmount_bind_eq_ok fits]
      constructor
      · rintro ⟨requested, returned⟩
        obtain ⟨raw, swapped, returned⟩ := bind_eq_ok.mp returned
        rw [includedAmount_bind_eq_ok (swap_amounts requested swapped).2.1, Except.ok.injEq]
          at returned
        exact ⟨raw, requested, swapped, returned.1, returned.2.symm⟩
      · rintro ⟨raw, requested, swapped, small, rfl⟩
        refine ⟨requested, bind_eq_ok.mpr ⟨raw, swapped, ?_⟩⟩
        rw [includedAmount_bind_eq_ok (swap_amounts requested swapped).2.1]
        exact ⟨small, rfl⟩

/-- What the trader pays and what the pool sends are amounts of `u64`. -/
theorem swapWithTransferFeeExtension_amounts (fits : amount < 2 ^ 64)
    (returned : swapWithTransferFeeExtension m lib whirlpool tokenMintA tokenMintB sequence amount
      sqrtPriceLimit amountSpecifiedIsInput aToB timestamp = .ok outcome) :
    (outcome.update.inputAndOutput aToB).1 < 2 ^ 64 ∧
      (outcome.update.inputAndOutput aToB).2 < 2 ^ 64 := by
  obtain ⟨raw, requested, swapped, small, rfl⟩ :=
    (swapWithTransferFeeExtension_eq_ok fits).mp returned
  rw [inputAndOutput_withAmounts]
  exact ⟨small, (swap_amounts requested swapped).2.2⟩

/-- A swap away from its limit runs a step. -/
theorem swapWithTransferFeeExtension_iterations_ne_nil (fits : amount < 2 ^ 64)
    (returned : swapWithTransferFeeExtension m lib whirlpool tokenMintA tokenMintB sequence amount
      sqrtPriceLimit amountSpecifiedIsInput aToB timestamp = .ok outcome)
    (movable : whirlpool.sqrtPrice ≠ sqrtPriceLimit) : outcome.iterations ≠ [] := by
  obtain ⟨raw, -, swapped, -, rfl⟩ := (swapWithTransferFeeExtension_eq_ok fits).mp returned
  simp only [swap, guard_eq_ok, bind_eq_ok, Except.ok.injEq] at swapped
  obtain ⟨-, -, nonzero, rewardInfos, -, ⟨final, entries⟩, looped, update, -, rfl⟩ := swapped
  obtain ⟨iterations, stops⟩ := whileLogged_iterations looped
  rintro (rfl : entries = [])
  cases iterations
  simp only [swapContinues, SwapContext.initialState, decide_eq_false_iff_not, not_and, not_not]
    at stops
  exact movable (stops (Nat.pos_of_ne_zero nonzero)).symm

/-- The arrays of a swap keep different starts. -/
theorem swapWithTransferFeeExtension_distinct (tradable : Tradable whirlpool table sequence)
    (fits : amount < 2 ^ 64)
    (returned : swapWithTransferFeeExtension m lib whirlpool tokenMintA tokenMintB sequence amount
      sqrtPriceLimit amountSpecifiedIsInput aToB timestamp = .ok outcome) :
    (outcome.sequence.arrays.map TickArray.startTickIndex).Nodup := by
  obtain ⟨raw, requested, swapped, -, rfl⟩ := (swapWithTransferFeeExtension_eq_ok fits).mp returned
  obtain ⟨-, rewardInfos, -, last, final, traded⟩ := swap_traded tradable requested swapped
  change (raw.sequence.arrays.map TickArray.startTickIndex).Nodup
  rw [traded.sequence]
  exact traded.ends.carried.distinct

/-- A swap with transfer fees that only goes to ticks of the first arrays. -/
theorem swapWithTransferFeeExtension_first (tradable : Tradable whirlpool table sequence)
    (rate : whirlpool.feeRate < 2 ^ 16) (fits : amount < 2 ^ 64)
    (returned : swapWithTransferFeeExtension m lib whirlpool tokenMintA tokenMintB sequence amount
      sqrtPriceLimit amountSpecifiedIsInput aToB timestamp = .ok outcome)
    (within : ∀ entry ∈ outcome.iterations, InFirst whirlpool.tickSpacing
      (sequence.arrays.map TickArray.startTickIndex) count entry.nextTickIndex) :
    swapWithTransferFeeExtension m lib whirlpool tokenMintA tokenMintB (sequence.first count) amount
          sqrtPriceLimit amountSpecifiedIsInput aToB timestamp =
        .ok { outcome with sequence := outcome.sequence.first count } ∧
      outcome.sequence.arrays.drop count = sequence.arrays.drop count := by
  obtain ⟨raw, requested, swapped, small, rfl⟩ :=
    (swapWithTransferFeeExtension_eq_ok fits).mp returned
  obtain ⟨swapped', unchanged⟩ := swap_first tradable rate requested swapped within
  exact ⟨(swapWithTransferFeeExtension_eq_ok fits).mpr ⟨_, requested, swapped', small, rfl⟩,
    unchanged⟩

end TransferFees

end Whirlpools
