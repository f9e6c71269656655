import Whirlpools.Pools.Terms
import Whirlpools.Pools.Solvency
import Whirlpools.Sdk.QuoteExecution
import Whirlpools.Sdk.StartingArrays

/-! # The quotes of a pool

A quote by one token fetches the tick arrays of the pool itself. In every reachable pool these are
as the swap loop expects them, and the names of a quote supply the arrays it has read. So the
instruction with the arguments of a quote does what was quoted.
-/

namespace Whirlpools

open Outcome Ledger

/-- The tick arrays a quote by one token looks for, as stored in the pool under their starts. -/
def Pool.listedArrays (pool : Pool) (aToB : Bool) : List (ℤ × Option TickArray) :=
  (Sdk.SwapUtils.getTickArrayPublicKeys id pool.whirlpool.tickCurrentIndex
    pool.whirlpool.tickSpacing aToB).map fun start => (start, pool.tickArrays start)

namespace Sdk

/-- The arguments of the instruction for a quote that names three arrays, by their starts. -/
def getSwapParamsFromQuote (quote : SwapQuote ℤ) (unixTimestamp : ℤ) : Option SwapArgs :=
  match quote.tickArray0, quote.tickArray1, quote.tickArray2 with
  | some tickArray0, some tickArray1, some tickArray2 => some {
      amount := .ofNat quote.amount.toNat
      otherAmountThreshold := quote.otherAmountThreshold.toNat
      sqrtPriceLimit := quote.sqrtPriceLimit.toNat
      amountSpecifiedIsInput := quote.amountSpecifiedIsInput
      aToB := quote.aToB
      tickArray0 := tickArray0
      tickArray1 := tickArray1
      tickArray2 := tickArray2
      unixTimestamp := unixTimestamp }
  | _, _, _ => none

section Fetched

variable {Address : Type} {listed : List (Address × Option TickArray)} {position : ℕ}

/-- The fetched arrays are the first ones listed. -/
theorem fetchedArrays_getElem? {tickArray : Address × TickArray}
    (found : (fetchedArrays listed)[position]? = some tickArray) :
    listed[position]? = some (tickArray.1, some tickArray.2) := by
  induction listed generalizing position with
  | nil => exact absurd found (by simp only [fetchedArrays, List.takeWhile_nil, List.filterMap_nil,
      List.getElem?_nil, reduceCtorEq, not_false_eq_true])
  | cons first rest ih =>
      obtain ⟨address, data⟩ := first
      cases data with
      | none => exact absurd found (by simp only [fetchedArrays, Option.isSome_none,
          Bool.false_eq_true, not_false_eq_true, List.takeWhile_cons_of_neg, List.filterMap_nil,
          List.getElem?_nil, reduceCtorEq])
      | some array =>
          have split : fetchedArrays ((address, some array) :: rest) =
              (address, array) :: fetchedArrays rest := rfl
          rw [split] at found
          cases position with
          | zero =>
              obtain rfl := Option.some.inj found
              rfl
          | succ position => exact ih found

theorem fetchedArrays_length_le : (fetchedArrays listed).length ≤ listed.length :=
  (List.length_filterMap_le _ _).trans (List.takeWhile_sublist _).length_le

end Fetched
end Sdk

namespace Pool

variable {m : Machine} {pool : Pool} {aToB : Bool}

/-- The start listed at a place is that of a neighbour of the first one. -/
theorem listedArrays_getElem? {position : ℕ} {start : ℤ} {data : Option TickArray}
    (found : (pool.listedArrays aToB)[position]? = some (start, data))
    (positive : 0 < pool.whirlpool.tickSpacing) :
    start = Sdk.neighbour pool.whirlpool.tickSpacing aToB (startOf pool.whirlpool.tickSpacing
        (Sdk.searchTick pool.whirlpool.tickSpacing aToB pool.whirlpool.tickCurrentIndex)) position ∧
      data = pool.tickArrays start := by
  unfold listedArrays at found
  rw [Sdk.getTickArrayPublicKeys_eq id positive, List.map_id, List.getElem?_map,
    Option.map_eq_some_iff] at found
  obtain ⟨name, place, same⟩ := found
  obtain ⟨rfl, rfl⟩ := Prod.mk.inj same
  obtain ⟨inside, here⟩ := List.getElem?_eq_some_iff.mp place
  have listed := List.prefix_iff_getElem?.mp (List.takeWhile_prefix _) position inside
  rw [here, List.getElem?_map, Option.map_eq_some_iff] at listed
  obtain ⟨distance, ranged, named⟩ := listed
  obtain ⟨_, rfl⟩ := List.getElem?_eq_some_iff.mp ranged
  rw [List.getElem_range] at named
  exact ⟨named.symm, rfl⟩

/-- The SDK asks for as many arrays as a swap takes, at most. -/
theorem listedArrays_length_le (positive : 0 < pool.whirlpool.tickSpacing) :
    (pool.listedArrays aToB).length ≤ Sdk.maxSwapTickArrays := by
  unfold listedArrays
  rw [Sdk.getTickArrayPublicKeys_eq id positive, List.length_map, List.length_map]
  refine (List.takeWhile_sublist _).length_le.trans ?_
  rw [List.length_map, List.length_range]

/-- What is known of an array that has been fetched. -/
structure FetchedAt (pool : Pool) (aToB : Bool) (position : ℕ) (tickArray : ℤ × TickArray) :
    Prop where
  stored : pool.tickArrays tickArray.1 = some tickArray.2
  start : tickArray.2.startTickIndex = tickArray.1
  place : tickArray.1 = Sdk.neighbour pool.whirlpool.tickSpacing aToB
    (startOf pool.whirlpool.tickSpacing
      (Sdk.searchTick pool.whirlpool.tickSpacing aToB pool.whirlpool.tickCurrentIndex)) position

/-- The array fetched at a place is the pool's own one there. -/
theorem ArraysFiled.fetchedAt (filed : pool.ArraysFiled) {position : ℕ}
    {tickArray : ℤ × TickArray} (positive : 0 < pool.whirlpool.tickSpacing)
    (found : (Sdk.fetchedArrays (pool.listedArrays aToB))[position]? = some tickArray) :
    pool.FetchedAt aToB position tickArray := by
  obtain ⟨place, stored⟩ := listedArrays_getElem? (Sdk.fetchedArrays_getElem? found) positive
  exact ⟨stored.symm, filed.start stored.symm, place⟩

/-- An array that is fetched is stored under its start. -/
theorem ArraysFiled.fetched_stored (filed : pool.ArraysFiled)
    (positive : 0 < pool.whirlpool.tickSpacing) {tickArray : ℤ × TickArray}
    (member : tickArray ∈ Sdk.fetchedArrays (pool.listedArrays aToB)) :
    pool.tickArrays tickArray.1 = some tickArray.2 ∧
      tickArray.2.startTickIndex = tickArray.1 := by
  obtain ⟨position, found⟩ := List.mem_iff_getElem?.mp member
  exact ⟨(filed.fetchedAt positive found).stored, (filed.fetchedAt positive found).start⟩

/-- Neighbours of the same array at different distances are different. -/
theorem neighbour_injective {tickSpacing : ℕ} (positive : 0 < tickSpacing) (aToB : Bool)
    (start : ℤ) : Function.Injective (Sdk.neighbour tickSpacing aToB start) := by
  intro first second same
  have width := arrayWidth_pos positive
  have scaled : (first : ℤ) * arrayWidth tickSpacing = second * arrayWidth tickSpacing := by
    unfold Sdk.neighbour at same
    cases aToB <;> simp only [Bool.false_eq_true, ↓reduceIte] at same <;> linarith
  exact Int.ofNat_inj.mp (mul_right_cancel₀ width.ne' scaled)

/-- The names of the fetched arrays are different. -/
theorem ArraysFiled.fetched_nodup (filed : pool.ArraysFiled)
    (positive : 0 < pool.whirlpool.tickSpacing) :
    ((Sdk.fetchedArrays (pool.listedArrays aToB)).map Prod.fst).Nodup := by
  rw [List.nodup_iff_getElem?_ne_getElem?]
  intro first second ordered inside same
  rw [List.length_map] at inside
  obtain ⟨tickArray, found⟩ : ∃ tickArray,
      (Sdk.fetchedArrays (pool.listedArrays aToB))[first]? = some tickArray :=
    ⟨_, List.getElem?_eq_getElem (ordered.trans inside)⟩
  obtain ⟨other, found'⟩ : ∃ tickArray,
      (Sdk.fetchedArrays (pool.listedArrays aToB))[second]? = some tickArray :=
    ⟨_, List.getElem?_eq_getElem inside⟩
  rw [List.getElem?_map, List.getElem?_map, found, found', Option.map_some, Option.map_some,
    Option.some.injEq, (filed.fetchedAt positive found).place,
    (filed.fetchedAt positive found').place] at same
  exact absurd (neighbour_injective positive aToB _ same) ordered.ne

/-- The arrays fetched for a quote of a consistent pool are as a swap from its tick expects them. -/
theorem Consistent.quotable (consistent : pool.Consistent) (capped : pool.Capped)
    (nonempty : Sdk.fetchedArrays (pool.listedArrays aToB) ≠ [])
    (positive : 0 < pool.whirlpool.tickSpacing) :
    Sdk.Quotable pool.whirlpool pool.tickAt (Sdk.fetchedArrays (pool.listedArrays aToB)) aToB := by
  have fetchedAt {position : ℕ} {array : TickArray}
      (found : ((Sdk.fetchedArrays (pool.listedArrays aToB)).map Prod.snd)[position]? =
        some array) :
      pool.FetchedAt aToB position (array.startTickIndex, array) := by
    rw [List.getElem?_map, Option.map_eq_some_iff] at found
    obtain ⟨tickArray, found, rfl⟩ := found
    have fetched := consistent.filed.fetchedAt positive found
    rwa [fetched.start]
  have stored (array : TickArray)
      (member : array ∈ (Sdk.fetchedArrays (pool.listedArrays aToB)).map Prod.snd) :
      pool.tickArrays array.startTickIndex = some array := by
    obtain ⟨tickArray, fetched, rfl⟩ := List.mem_map.mp member
    obtain ⟨stored, start⟩ := consistent.filed.fetched_stored positive fetched
    rwa [start]
  exact {
    nonempty := nonempty
    tradable := {
      spacing := positive
      usable := consistent.booked.usableOnly
      place := consistent.place
      liquidity := consistent.ready.liquidity
      carried := {
        arrays := fun array member => consistent.filed.carries (stored array member)
        distinct := by
          have same : ((Sdk.fetchedArrays (pool.listedArrays aToB)).map Prod.snd).map
              TickArray.startTickIndex = (Sdk.fetchedArrays (pool.listedArrays aToB)).map
                Prod.fst := by
            rw [List.map_map]
            exact List.map_congr_left fun tickArray member =>
              (consistent.filed.fetched_stored positive member).2
          change (((Sdk.fetchedArrays (pool.listedArrays aToB)).map Prod.snd).map
            TickArray.startTickIndex).Nodup
          rw [same]
          exact consistent.filed.fetched_nodup positive } }
    rate := capped.feeRate.trans_lt (by unfold maxFeeRate; norm_num)
    bounded := fun tick _ => by
      have net := abs_le.mp (consistent.booked.abs_net_le tick)
      have total := consistent.totalLiquidity_lt
      change _ ≤ (pool.tickAt tick).liquidityNet ∧ _ at net
      omega
    contiguous := {
      valid := fun array member => consistent.filed.valid (stored array member)
      adjacent := fun position array next found following => by
        have here := (fetchedAt found).place
        have there := (fetchedAt following).place
        unfold Sdk.neighbour at here there
        cases aToB <;> simp only [Bool.false_eq_true, ↓reduceIte] at here there ⊢ <;>
          push_cast at there <;> linarith }
    first := fun array found => by
      have place := (fetchedAt found).place
      have here : Sdk.neighbour pool.whirlpool.tickSpacing aToB (startOf pool.whirlpool.tickSpacing
          (Sdk.searchTick pool.whirlpool.tickSpacing aToB pool.whirlpool.tickCurrentIndex)) 0 =
            startOf pool.whirlpool.tickSpacing
              (Sdk.searchTick pool.whirlpool.tickSpacing aToB pool.whirlpool.tickCurrentIndex) := by
        unfold Sdk.neighbour
        rw [Nat.cast_zero, zero_mul, sub_zero, add_zero, ite_self]
      change array.startTickIndex = _ at place
      rw [Sdk.inSearchRange_iff, place, here]
      exact startOf_spec positive _ }

section Named

variable {tickArrays : List (ℤ × TickArray)}

/-- The names of up to three stored arrays supply them, the last one repeated. -/
theorem swapTickSequence_padded
    (stored : ∀ tickArray ∈ tickArrays, pool.tickArrays tickArray.1 = some tickArray.2)
    (distinct : (tickArrays.map Prod.fst).Nodup) (nonempty : tickArrays ≠ [])
    (few : tickArrays.length ≤ Sdk.maxSwapTickArrays) :
    ∃ tickArray0 tickArray1 tickArray2, Sdk.TickArraySequence.padWithLast (tickArrays.map Prod.fst)
        Sdk.maxSwapTickArrays = [tickArray0, tickArray1, tickArray2] ∧
      pool.swapTickSequence tickArray0 tickArray1 tickArray2 = .ok ⟨tickArrays.map Prod.snd⟩ := by
  match tickArrays with
  | [] => exact absurd rfl nonempty
  | [first] =>
      have here := stored first List.mem_cons_self
      refine ⟨first.1, first.1, first.1, rfl, ?_⟩
      simp only [swapTickSequence, tickArray, here, okOr, ok_bind, true_or]
      rfl
  | [first, second] =>
      have here := stored first List.mem_cons_self
      have there := stored second (List.mem_cons_of_mem _ List.mem_cons_self)
      simp only [List.map_cons, List.map_nil, List.nodup_cons, List.mem_singleton] at distinct
      refine ⟨first.1, second.1, second.1, rfl, ?_⟩
      simp only [swapTickSequence, tickArray, here, there, okOr, ok_bind, or_true,
        if_neg (Ne.symm distinct.1)]
      rfl
  | [first, second, third] =>
      have here := stored first List.mem_cons_self
      have there := stored second (List.mem_cons_of_mem _ List.mem_cons_self)
      have last := stored third (List.mem_cons_of_mem _ (List.mem_cons_of_mem _ List.mem_cons_self))
      simp only [List.map_cons, List.map_nil, List.nodup_cons, List.mem_cons, not_or,
        List.not_mem_nil, or_false] at distinct
      refine ⟨first.1, second.1, third.1, rfl, ?_⟩
      simp only [swapTickSequence, tickArray, here, there, last, okOr, ok_bind,
        if_neg (Ne.symm distinct.1.1),
        if_neg (not_or.mpr ⟨Ne.symm distinct.1.2, Ne.symm distinct.2.1⟩)]
      rfl
  | _ :: _ :: _ :: _ :: rest => exact absurd few (by unfold Sdk.maxSwapTickArrays; simp)

end Named

/-- A swap is supplied at least one array. -/
theorem swapTickSequence_ne_nil {tickArray0 tickArray1 tickArray2 : ℤ} {arrays : List TickArray}
    (supplied : pool.swapTickSequence tickArray0 tickArray1 tickArray2 = .ok ⟨arrays⟩) :
    arrays ≠ [] := by
  rintro rfl
  simp only [swapTickSequence, bind_eq_ok, Except.ok.injEq] at supplied
  obtain ⟨_, -, _, -, _, -, same⟩ := supplied
  exact absurd (congrArg SwapTickSequence.arrays same) (by
    simp only [SwapTickSequence.new, List.cons_append, reduceCtorEq, not_false_eq_true])

/-- The names of the first arrays fetched supply them. -/
theorem ArraysFiled.swapTickSequence_first (filed : pool.ArraysFiled)
    (positive : 0 < pool.whirlpool.tickSpacing)
    (nonempty : Sdk.fetchedArrays (pool.listedArrays aToB) ≠ []) {count : ℕ} (nonzero : 0 < count)
    (few : count ≤ Sdk.maxSwapTickArrays) :
    ∃ tickArray0 tickArray1 tickArray2, Sdk.TickArraySequence.padWithLast
        (((Sdk.fetchedArrays (pool.listedArrays aToB)).take count).map Prod.fst)
          Sdk.maxSwapTickArrays = [tickArray0, tickArray1, tickArray2] ∧
      pool.swapTickSequence tickArray0 tickArray1 tickArray2 = .ok (SwapTickSequence.first
        ⟨(Sdk.fetchedArrays (pool.listedArrays aToB)).map Prod.snd⟩ count) := by
  obtain ⟨tickArray0, tickArray1, tickArray2, named, supplied⟩ := @swapTickSequence_padded pool
    ((Sdk.fetchedArrays (pool.listedArrays aToB)).take count)
    (fun tickArray member => (filed.fetched_stored positive (List.mem_of_mem_take member)).1)
    ((filed.fetched_nodup positive).sublist ((List.take_sublist _ _).map _))
    (by
      rw [ne_eq, List.take_eq_nil_iff, not_or]
      exact ⟨nonzero.ne', nonempty⟩)
    ((List.length_take_le _ _).trans few)
  refine ⟨tickArray0, tickArray1, tickArray2, named, supplied.trans ?_⟩
  rw [List.map_take]
  rfl

/-- Writing stored arrays once more changes nothing. -/
theorem setTickArrays_stored {arrays : List TickArray}
    (stored : ∀ array ∈ arrays, pool.tickArrays array.startTickIndex = some array) :
    pool.setTickArrays ⟨arrays⟩ = pool := by
  induction arrays with
  | nil => rfl
  | cons first rest ih =>
      have unchanged : pool.setTickArrays ⟨[first]⟩ = pool := by
        change { pool with
          tickArrays := Function.update pool.tickArrays first.startTickIndex (some first) } = pool
        rw [← stored first List.mem_cons_self, Function.update_eq_self]
      change (pool.setTickArrays ⟨[first]⟩).setTickArrays ⟨rest⟩ = pool
      rw [unchanged]
      exact ih fun array member => stored array (List.mem_cons_of_mem _ member)

/-- Writing arrays with other starts leaves an array as it is. -/
theorem setTickArrays_other {arrays : List TickArray} {start : ℤ}
    (other : start ∉ arrays.map TickArray.startTickIndex) :
    (pool.setTickArrays ⟨arrays⟩).tickArrays start = pool.tickArrays start := by
  induction arrays generalizing pool with
  | nil => rfl
  | cons first rest ih =>
      rw [List.map_cons, List.mem_cons, not_or] at other
      change ((pool.setTickArrays ⟨[first]⟩).setTickArrays ⟨rest⟩).tickArrays start = _
      rw [ih other.2]
      exact Function.update_of_ne other.1 _ _

/-- The last arrays of a swap need not be written back where they are stored. -/
theorem setTickArrays_first {sequence : SwapTickSequence} {count : ℕ}
    (distinct : (sequence.arrays.map TickArray.startTickIndex).Nodup)
    (stored : ∀ array ∈ sequence.arrays.drop count,
      pool.tickArrays array.startTickIndex = some array) :
    pool.setTickArrays (sequence.first count) = pool.setTickArrays sequence := by
  have split := List.take_append_drop count sequence.arrays
  rw [← split, List.map_append, List.nodup_append] at distinct
  have both : pool.setTickArrays sequence =
    (pool.setTickArrays (sequence.first count)).setTickArrays
      ⟨sequence.arrays.drop count⟩ := by
    unfold setTickArrays
    conv_lhs => rw [← split, List.foldl_append]
    rfl
  refine (both.trans (setTickArrays_stored fun array member => ?_)).symm
  refine (setTickArrays_other fun inside => ?_).trans (stored array member)
  exact distinct.2.2 _ inside _ (List.mem_map_of_mem member) rfl

end Pool

/-- The input is the amount of the token that is sold. -/
theorem PostSwapUpdate.input_eq (update : PostSwapUpdate) (aToB : Bool) :
    (update.inputAndOutput aToB).1 = if aToB then update.amountA else update.amountB := by
  cases aToB <;> rfl

/-- The output is the amount of the other token. -/
theorem PostSwapUpdate.output_eq (update : PostSwapUpdate) (aToB : Bool) :
    (update.inputAndOutput aToB).2 = if aToB then update.amountB else update.amountA := by
  cases aToB <;> rfl

section Threshold

variable {lib : TokenLibrary} {tokenMintA tokenMintB : Option TransferFee} {update : PostSwapUpdate}
  {args : SwapArgs}

/-- The check of the program refuses exactly the amounts that miss the threshold. -/
theorem checkThresholdV2_eq_ok (fits : (update.inputAndOutput args.aToB).2 < 2 ^ 64) :
    Pool.checkThresholdV2 lib tokenMintA tokenMintB update args = .ok () ↔
      ¬ Sdk.Misses (outputFee tokenMintA tokenMintB args.aToB) (update.inputAndOutput args.aToB).1
        (update.inputAndOutput args.aToB).2 args.otherAmountThreshold
        args.amountSpecifiedIsInput := by
  have sent : (if args.aToB then calculateTransferFeeExcludedAmount lib tokenMintB update.amountB
      else calculateTransferFeeExcludedAmount lib tokenMintA update.amountA) =
        .ok (⟨(outputFee tokenMintA tokenMintB args.aToB).net (update.inputAndOutput args.aToB).2,
          (outputFee tokenMintA tokenMintB args.aToB).feeOf (update.inputAndOutput args.aToB).2⟩ :
            TransferFeeExcludedAmount) := by
    rw [outputFee, ← calculateTransferFeeExcludedAmount_eq fits]
    cases args.aToB <;> rfl
  unfold Pool.checkThresholdV2 Sdk.Misses
  rw [sent, ok_bind, ← update.input_eq]
  cases args.amountSpecifiedIsInput with
  | true => simp only [↓reduceIte, guard_eq_ok, and_true]
  | false => simp only [Bool.false_eq_true, ↓reduceIte, guard_eq_ok, and_true, gt_iff_lt]

end Threshold

namespace Sdk

/-- The threshold of a quote that states none is not missed. -/
theorem not_misses_default (output : TransferFee) {paid : ℕ} (fits : paid < 2 ^ 64) (sent : ℕ)
    (amountSpecifiedIsInput : Bool) : ¬ Misses output paid sent
      (if amountSpecifiedIsInput then 0 else 2 ^ 64 - 1) amountSpecifiedIsInput := by
  unfold Misses
  cases amountSpecifiedIsInput with
  | true => exact Nat.not_lt_zero _
  | false => exact not_lt.mpr (Nat.le_sub_one_of_lt fits)

/-- A threshold with slippage lies on the side of the estimate that is not missed. -/
theorem calculateSwapAmountsFromQuote_spec {slippageTolerance : Percentage}
    (nonneg : 0 ≤ slippageTolerance.numerator) (positive : 0 < slippageTolerance.denominator)
    (output : TransferFee) (paid sent : ℕ) (amountSpecifiedIsInput : Bool) :
    ∃ threshold : ℕ, calculateSwapAmountsFromQuote paid (output.net sent : ℕ) slippageTolerance
        amountSpecifiedIsInput = .ok (threshold : ℤ) ∧
      ¬ Misses output paid sent threshold amountSpecifiedIsInput := by
  have sum : 0 < slippageTolerance.denominator + slippageTolerance.numerator := by linarith
  have computed (n : ℕ) (up : Bool) : ∃ adjusted : ℕ,
      adjustForSlippage n slippageTolerance up = .ok (adjusted : ℤ) ∧
        if up then n ≤ adjusted else adjusted ≤ n := by
    have amount : (0 : ℤ) ≤ n := Int.natCast_nonneg n
    unfold adjustForSlippage BN.div
    cases up with
    | true =>
        have product : 0 ≤
          (n : ℤ) * (slippageTolerance.denominator + slippageTolerance.numerator) :=
          mul_nonneg amount sum.le
        have least : (n : ℤ) ≤ (n * (slippageTolerance.denominator + slippageTolerance.numerator)) /
            slippageTolerance.denominator :=
          Int.le_ediv_of_mul_le positive (mul_le_mul_of_nonneg_left (by linarith) amount)
        obtain ⟨adjusted, same⟩ := Int.eq_ofNat_of_zero_le (amount.trans least)
        refine ⟨adjusted, ?_, ?_⟩
        · rw [if_pos rfl, if_neg positive.ne', Int.tdiv_eq_ediv_of_nonneg product, same]
        · rw [same] at least
          exact (if_pos rfl).mpr (Int.ofNat_le.mp least)
    | false =>
        have product : 0 ≤ (n : ℤ) * slippageTolerance.denominator := mul_nonneg amount positive.le
        have greatest : (n : ℤ) * slippageTolerance.denominator /
            (slippageTolerance.denominator + slippageTolerance.numerator) ≤ n :=
          Int.ediv_le_of_le_mul sum (mul_le_mul_of_nonneg_left (by linarith) amount)
        obtain ⟨adjusted, same⟩ := Int.eq_ofNat_of_zero_le (Int.ediv_nonneg product sum.le)
        refine ⟨adjusted, ?_, ?_⟩
        · rw [if_neg Bool.false_ne_true, if_neg sum.ne', Int.tdiv_eq_ediv_of_nonneg product, same]
        · rw [same] at greatest
          exact (if_neg Bool.false_ne_true).mpr (Int.ofNat_le.mp greatest)
  unfold calculateSwapAmountsFromQuote Misses
  cases amountSpecifiedIsInput with
  | true =>
      obtain ⟨threshold, adjusted, below⟩ := computed (output.net sent) false
      exact ⟨threshold, adjusted, not_lt.mpr below⟩
  | false =>
      obtain ⟨threshold, adjusted, above⟩ := computed paid true
      exact ⟨threshold, adjusted, not_lt.mpr above⟩

end Sdk

namespace Pool

variable {m : Machine} {checks : Bool} {lib : TokenLibrary} {pool pool' : Pool}
  {tokenMintA tokenMintB : Option TransferFee} {args : SwapArgs} {paid received : ℕ}

/-- What the trader pays and receives, and what becomes of the pool. -/
theorem performSwapV2_eq_ok {update : PostSwapUpdate} {aToB : Bool}
    (fits : (update.inputAndOutput aToB).2 < 2 ^ 64)
    (returned : pool.performSwapV2 lib tokenMintA tokenMintB update.amountA update.amountB aToB =
      .ok (pool', paid, received)) :
    pool'.whirlpool = pool.whirlpool ∧ paid = (update.inputAndOutput aToB).1 ∧
      received = (outputFee tokenMintA tokenMintB aToB).net (update.inputAndOutput aToB).2 := by
  rw [update.input_eq, update.output_eq]
  rw [update.output_eq] at fits
  simp only [performSwapV2, transferDelivers, calculateTransferFeeExcludedAmount_eq fits, ok_bind,
    bind_eq_ok, Except.ok.injEq, Prod.mk.injEq] at returned
  obtain ⟨_, -, _, -, _, -, rfl, rfl, rfl⟩ := returned
  exact ⟨rfl, rfl, rfl⟩

/-- The pool after a swap of the first arrays only. -/
theorem updateAfterSwap_first {outcome : SwapOutcome} {aToB : Bool} {timestamp count : ℕ}
    (same : pool.setTickArrays (outcome.sequence.first count) =
      pool.setTickArrays outcome.sequence) :
    pool.updateAfterSwap m { outcome with sequence := outcome.sequence.first count }
      aToB timestamp = pool.updateAfterSwap m outcome aToB timestamp := by
  unfold updateAfterSwap
  dsimp only
  rw [same]

/-- The limit of a quote that states none. -/
def defaultLimit (aToB : Bool) : ℕ := if aToB then minSqrtPriceX64 else maxSqrtPriceX64

/-- A quote by one token, in natural numbers. -/
theorem swapQuoteByToken_eq (pool : Pool) (amount : ℕ) (amountSpecifiedIsInput aToB : Bool)
    (mints : Sdk.TokenExtensionContextForPool) :
    Sdk.swapQuoteByToken id pool.tickArrays pool.whirlpool amount amountSpecifiedIsInput
      aToB mints = Sdk.quoteParam pool.whirlpool (pool.listedArrays aToB) amount
        (if amountSpecifiedIsInput then 0 else 2 ^ 64 - 1) (defaultLimit aToB)
        amountSpecifiedIsInput
        aToB mints := by
  cases amountSpecifiedIsInput <;> cases aToB <;> rfl

end Pool

/-- What a quote states is what a swap has done. -/
structure Sdk.SwapQuote.Holds {Address : Type} (quote : Sdk.SwapQuote Address) (pool' : Pool)
    (paid received : ℕ) : Prop where
  paid : quote.estimatedAmountIn = paid
  received : quote.estimatedAmountOut = received
  sqrtPrice : quote.estimatedEndSqrtPrice = pool'.whirlpool.sqrtPrice
  tick : Sdk.TickQuoted pool'.whirlpool.sqrtPrice pool'.whirlpool.tickCurrentIndex
    quote.estimatedEndTickIndex

section Executes

variable {checks : Bool} {tokenLib : TokenLibrary} {pool pool' : Pool} {args : SwapArgs}
  {paid received : ℕ}

/-- Whenever the swap with all arrays fetched succeeds on a reachable pool, the quote by one token
states what it does, and the instruction with its threshold and its arrays does the same. -/
theorem reachable_quote_executes (reachable : Reachable (.exact checks) pool)
    (lib : Sdk.CommonSdk) (spl : Sdk.SplToken) (mints : Sdk.TokenExtensionContextForPool)
    {slippageTolerance : Sdk.Percentage} (nonneg : 0 ≤ slippageTolerance.numerator)
    (positive : 0 < slippageTolerance.denominator)
    (unlimited : args.sqrtPriceLimit = Pool.defaultLimit args.aToB)
    (movable : pool.whirlpool.sqrtPrice ≠ args.sqrtPriceLimit)
    (supplied : pool.swapTickSequence args.tickArray0 args.tickArray1 args.tickArray2 =
      .ok ⟨(Sdk.fetchedArrays (pool.listedArrays args.aToB)).map Prod.snd⟩)
    (alike : ∀ rewardInfos, Sdk.RunsAlike (.exact checks)
      (pool.whirlpool.swapContext args.sqrtPriceLimit args.amountSpecifiedIsInput
        args.aToB rewardInfos)
      ((pool.whirlpool.swapContext args.sqrtPriceLimit args.amountSpecifiedIsInput args.aToB
        rewardInfos).initialState ⟨(Sdk.fetchedArrays (pool.listedArrays args.aToB)).map Prod.snd⟩
        (rawAmount (mints.inputFee args.aToB) (mints.outputFee args.aToB) args.amount.toNat
          args.amountSpecifiedIsInput)))
    (returned : pool.swapV2 (.exact checks) tokenLib mints.tokenMintWithProgramA
      mints.tokenMintWithProgramB args = .ok (pool', paid, received)) :
    ∃ quote params,
      Sdk.swapQuoteWithParams lib spl (Sdk.swapQuoteByToken id pool.tickArrays pool.whirlpool
        args.amount.toNat args.amountSpecifiedIsInput args.aToB mints) slippageTolerance =
          .ok quote ∧
      quote.Holds pool' paid received ∧
      Sdk.getSwapParamsFromQuote quote args.unixTimestamp = some params ∧
      pool.swapV2 (.exact checks) tokenLib mints.tokenMintWithProgramA mints.tokenMintWithProgramB
        params = .ok (pool', paid, received) := by
  have consistent := Pool.Consistent.of_reachable reachable
  obtain ⟨-, spacing, -⟩ := Pool.swapTickSequence_eq_ok consistent.filed supplied
  have nonempty : Sdk.fetchedArrays (pool.listedArrays args.aToB) ≠ [] := fun empty =>
    Pool.swapTickSequence_ne_nil supplied (congrArg (List.map Prod.snd) empty)
  have quotable := consistent.quotable reachable.capped nonempty spacing
  simp only [Pool.swapV2, Pool.computeSwapV2, supplied, bind_eq_ok, Except.ok.injEq] at returned
  obtain ⟨⟨_, _⟩, ⟨timestamp, stamped, _, rfl, outcome, swapped, _, -, same⟩, updated, recorded,
    moved⟩ := returned
  obtain ⟨rfl, rfl⟩ := Prod.mk.inj same
  have fits := args.amount.toNat_lt
  obtain ⟨paidFits, sentFits⟩ := swapWithTransferFeeExtension_amounts fits swapped
  obtain ⟨endTickIndex, count, executable⟩ := Sdk.simulateSwap_executable lib spl
    quotable fits alike
    swapped (if args.amountSpecifiedIsInput then 0 else 2 ^ 64 - 1)
  -- The default threshold refuses nothing, and no more than three arrays are listed.
  have few : count ≤ Sdk.maxSwapTickArrays := executable.within.trans
    (Sdk.fetchedArrays_length_le.trans (Pool.listedArrays_length_le spacing))
  have quoted := executable.quoted
  have quoted := quoted.trans ((if_neg (Sdk.not_misses_default _ paidFits _ _)).trans
    (if_neg (not_lt.mpr few)))
  -- The quote names arrays that supply the first ones.
  obtain ⟨tickArray0, tickArray1, tickArray2, named, supplied'⟩ :=
    @Pool.ArraysFiled.swapTickSequence_first _ args.aToB consistent.filed spacing nonempty count
      (executable.some (swapWithTransferFeeExtension_iterations_ne_nil fits swapped movable)) few
  have stored : pool.setTickArrays (outcome.sequence.first count) =
      pool.setTickArrays outcome.sequence := by
    refine Pool.setTickArrays_first ?_ fun array member => ?_
    · exact swapWithTransferFeeExtension_distinct quotable.tradable fits swapped
    · rw [executable.unchanged] at member
      obtain ⟨tickArray, fetched, rfl⟩ := List.mem_map.mp (List.mem_of_mem_drop member)
      obtain ⟨stored, start⟩ := consistent.filed.fetched_stored spacing fetched
      rwa [start]
  obtain ⟨threshold, adjusted, enough⟩ := Sdk.calculateSwapAmountsFromQuote_spec nonneg positive
    (mints.outputFee args.aToB) (outcome.update.inputAndOutput args.aToB).1
    (outcome.update.inputAndOutput args.aToB).2 args.amountSpecifiedIsInput
  obtain ⟨-, whirlpool_eq, -⟩ := Pool.updateAfterSwap_eq_ok recorded
  obtain ⟨final_eq, paid_eq, received_eq⟩ := Pool.performSwapV2_eq_ok sentFits moved
  have place : pool'.whirlpool.sqrtPrice = outcome.update.nextSqrtPrice ∧
      pool'.whirlpool.tickCurrentIndex = outcome.update.nextTickIndex := by
    rw [final_eq, whirlpool_eq]
    exact ⟨rfl, rfl⟩
  refine ⟨{ Sdk.quoteOfOutcome (Sdk.quoteParam pool.whirlpool (pool.listedArrays args.aToB)
      args.amount.toNat (if args.amountSpecifiedIsInput then 0 else 2 ^ 64 - 1) args.sqrtPriceLimit
      args.amountSpecifiedIsInput args.aToB mints) mints outcome endTickIndex
      [tickArray0, tickArray1, tickArray2] with otherAmountThreshold := threshold },
    { args with
      otherAmountThreshold := threshold
      tickArray0 := tickArray0
      tickArray1 := tickArray1
      tickArray2 := tickArray2 }, ?_, ?_, ?_, ?_⟩
  · rw [Pool.swapQuoteByToken_eq, ← unlimited, Sdk.swapQuoteWithParams, quoted, ok_bind]
    change (Sdk.calculateSwapAmountsFromQuote ((outcome.update.inputAndOutput args.aToB).1 : ℕ)
      ((mints.outputFee args.aToB).net (outcome.update.inputAndOutput args.aToB).2 : ℕ)
      slippageTolerance args.amountSpecifiedIsInput).inQuote >>= _ = _
    rw [adjusted, Sdk.ok_inQuote, ok_bind]
    refine congrArg Except.ok ?_
    have names : Sdk.TickArraySequence.padWithLast
        (((Sdk.fetchedArrays
          (Sdk.quoteParam pool.whirlpool (pool.listedArrays args.aToB) args.amount.toNat
            (if args.amountSpecifiedIsInput then 0
          else 2 ^ 64 - 1) args.sqrtPriceLimit args.amountSpecifiedIsInput args.aToB
            mints).tickArrays).take count).map Prod.fst) Sdk.maxSwapTickArrays =
              [tickArray0, tickArray1, tickArray2] := named
    rw [names]
    rfl
  · rw [paid_eq, received_eq]
    exact ⟨rfl, rfl,
      congrArg Nat.cast place.1.symm, by rw [place.1, place.2]; exact executable.endTick⟩
  · have amount_eq : UInt64.ofNat args.amount.toNat = args.amount := UInt64.ofNat_toNat
    change some _ = some _
    simp only [Sdk.quoteOfOutcome, Sdk.quoteParam_tokenAmount, Int.toNat_natCast,
      Sdk.quoteParam_sqrtPriceLimit, Sdk.quoteParam_amountSpecifiedIsInput, Sdk.quoteParam_aToB,
      amount_eq]
  · have accepted := (@checkThresholdV2_eq_ok tokenLib mints.tokenMintWithProgramA
      mints.tokenMintWithProgramB outcome.update { args with
        otherAmountThreshold := threshold
        tickArray0 := tickArray0
        tickArray1 := tickArray1
        tickArray2 := tickArray2 } sentFits).mpr enough
    have executes := executable.executes
    simp only [Pool.swapV2, Pool.computeSwapV2, bind_eq_ok, Except.ok.injEq]
    refine ⟨⟨timestamp, { outcome with sequence := outcome.sequence.first count }⟩,
      ⟨timestamp, stamped, _, supplied', _, executes, (), accepted, rfl⟩, updated, ?_, moved⟩
    exact (Pool.updateAfterSwap_first stored).trans recorded

end Executes

def onePercent : Sdk.Percentage := ⟨1, 100⟩

/-- A trade on the pool of the sample run, which has one array left of the price. -/
def sampleTrade : SwapArgs := ⟨20000, 0, minSqrtPriceX64, true, true, -5632, -5632, -5632, 50⟩

/-- A quote with a tolerance of one percent for the trade, and its execution. -/
theorem reachable_quote_executes_sampleRun : ∃ pool pool' paid received quote params,
    Reachable (.exact false) pool ∧ 0 < received ∧
    Sdk.swapQuoteWithParams .plain .formulas (Sdk.swapQuoteByToken id pool.tickArrays pool.whirlpool
      (20000 : UInt64).toNat true true Sdk.taxedInput) onePercent = .ok quote ∧
    quote.Holds pool' paid received ∧
    Sdk.getSwapParamsFromQuote quote 50 = some params ∧
    pool.swapV2 (.exact false) .formulas Sdk.taxedInput.tokenMintWithProgramA
      Sdk.taxedInput.tokenMintWithProgramB params = .ok (pool', paid, received) := by
  have ran : (run (execute (.exact false)) none sampleRun).1.any (fun pool =>
      decide (pool.whirlpool.tickCurrentIndex = -74 ∧ pool.whirlpool.tickSpacing = 64 ∧
        (pool.tickArrays (-5632)).isSome = true ∧ (pool.tickArrays (-11264)).isNone = true ∧
        pool.whirlpool.sqrtPrice ≠ minSqrtPriceX64) &&
      yields (pool.swapV2 (.exact false) .formulas Sdk.taxedInput.tokenMintWithProgramA
        Sdk.taxedInput.tokenMintWithProgramB sampleTrade) (fun traded => 0 < traded.2.2)) =
          true := by
    decide +kernel
  obtain ⟨pool, reached, checked⟩ := (Option.any_eq_true _ _).mp ran
  rw [Bool.and_eq_true, decide_eq_true_eq] at checked
  obtain ⟨⟨tick, spacing, left, beyond, movable⟩, traded⟩ := checked
  obtain ⟨⟨pool', paid, received⟩, returned, present⟩ := yields_iff.mp traded
  obtain ⟨array, stored⟩ := Option.isSome_iff_exists.mp left
  have reachable : Reachable (.exact false) pool := ⟨sampleRun, reached⟩
  have listed : Sdk.fetchedArrays (pool.listedArrays true) = [(-5632, array)] := by
    have names : Sdk.SwapUtils.getTickArrayPublicKeys id (-74) 64 true =
      [-5632, -11264, -16896] := by
      decide +kernel
    rw [Pool.listedArrays, tick, spacing, names, List.map_cons, List.map_cons, stored,
      Option.isNone_iff_eq_none.mp beyond]
    rfl
  have supplied : pool.swapTickSequence (-5632) (-5632) (-5632) =
      .ok ⟨(Sdk.fetchedArrays (pool.listedArrays true)).map Prod.snd⟩ := by
    rw [listed, Pool.swapTickSequence, Pool.tickArray, stored]
    rfl
  obtain ⟨quote, params, quoted, holds, named, executes⟩ := reachable_quote_executes
    reachable .plain
    .formulas Sdk.taxedInput (show 0 ≤ onePercent.numerator by decide)
    (show 0 < onePercent.denominator by decide) rfl movable supplied
    (fun _ => Sdk.runsAlike_left rfl) returned
  exact ⟨pool, pool', paid, received, quote, params, reachable, of_decide_eq_true present,
    quoted, holds, named, executes⟩

end Whirlpools
