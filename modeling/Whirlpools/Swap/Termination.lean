import Mathlib.Data.List.Perm.Subperm
import Whirlpools.Swap.Steps

/-! # The swap loop ends

An iteration that crosses no tick is the last one: it reaches the limit, uses up the
amount, or runs out of supplied arrays, so that the next search is refused. The ticks
crossed are distinct initialized ticks of the supplied arrays, which bounds the loop.
A swap that returns fills the amount unless it stops at its limit.
-/

namespace Whirlpools

open Outcome

/-- The initialized ticks of the supplied arrays. -/
def SwapTickSequence.initializedTicks (sequence : SwapTickSequence) (tickSpacing : ℕ) : List ℤ :=
  sequence.arrays.flatMap fun array =>
    ((List.finRange 88).filter fun position => (array.ticks position).initialized).map
      fun position => array.startTickIndex + (position.val : ℤ) * tickSpacing

section Search

variable {tickSpacing : ℕ} {aToB : Bool} {next : ℤ}

/-- Why a search returned a tick. -/
inductive Answered (tickSpacing : ℕ) (aToB : Bool) (arrays : List TickArray) (position : ℕ)
    (next : ℤ) : Prop
  /-- An array has it initialized. -/
  | found {array : TickArray} (tick : ℤ) (member : array ∈ arrays)
      (answer : array.getNextInitTickIndex tick tickSpacing aToB = .ok (some next))
  /-- The tick range ends there. -/
  | extreme (end_eq : next = if aToB then minTickIndex else maxTickIndex)
  /-- The last array ends there. -/
  | exhausted {array : TickArray} (last : arrays.length ≤ position + 1)
      (place : arrays[position]? = some array)
      (end_eq : next = if aToB then array.startTickIndex
        else array.startTickIndex + tickArraySize * tickSpacing - 1)

/-- The search answers from one of the arrays, and says which. -/
theorem searchArrays_answered {arrays : List TickArray} {index arrayIndex : ℕ} {tick : ℤ}
    (returned : SwapTickSequence.searchArrays tickSpacing aToB arrays index tick =
      .ok (arrayIndex, next)) :
    ∃ position, arrayIndex = index + position ∧
      Answered tickSpacing aToB arrays position next := by
  induction arrays generalizing index tick with
  | nil => simp only [SwapTickSequence.searchArrays, reduceCtorEq] at returned
  | cons array rest ih =>
      simp only [SwapTickSequence.searchArrays, bind_eq_ok] at returned
      obtain ⟨found, answered, returned⟩ := returned
      cases found with
      | some found =>
          obtain ⟨rfl, rfl⟩ := Prod.mk.inj (Except.ok.inj returned)
          exact ⟨0, rfl, .found tick List.mem_cons_self answered⟩
      | none =>
          dsimp only at returned
          split_ifs at returned with least greatest last left
          · obtain ⟨rfl, rfl⟩ := Prod.mk.inj (Except.ok.inj returned)
            exact ⟨0, rfl, .extreme (by rw [if_pos least.1])⟩
          · obtain ⟨rfl, rfl⟩ := Prod.mk.inj (Except.ok.inj returned)
            exact ⟨0, rfl, .extreme (by rw [if_neg greatest.1])⟩
          · obtain ⟨rfl, rfl⟩ := Prod.mk.inj (Except.ok.inj returned)
            exact ⟨0, rfl, .exhausted (by rw [last]; exact le_refl _) rfl (by rw [if_pos left])⟩
          · obtain ⟨rfl, rfl⟩ := Prod.mk.inj (Except.ok.inj returned)
            exact ⟨0, rfl, .exhausted (by rw [last]; exact le_refl _) rfl (by rw [if_neg left])⟩
          all_goals
            obtain ⟨position, rfl, answer⟩ := ih returned
            refine ⟨position + 1, by omega, ?_⟩
            rcases answer with ⟨tick, member, answer⟩ | ⟨end_eq⟩ | ⟨last, place, end_eq⟩
            · exact .found tick (List.mem_cons_of_mem _ member) answer
            · exact .extreme end_eq
            · exact .exhausted (by rw [List.length_cons]; omega) place end_eq

end Search

section Step

variable {m : Machine} {context : SwapContext} {table table' : TickTable}
  {state state' : SwapState} {entry : SwapIteration}

/-- A state after which no iteration succeeds: the loop ends, or no array is left to search. -/
def Exhausted (context : SwapContext) (state : SwapState) : Prop :=
  swapContinues context state = false ∨
    state.swapTickSequence.arrays.length ≤ state.currArrayIndex

/-- From an exhausted sequence the loop can only fail. -/
theorem Exhausted.stuck (exhausted : Exhausted context state)
    (runs : swapContinues context state = true) :
    swapIteration m context state ≠ .ok (state', entry) := by
  intro returned
  rcases exhausted with ended | empty
  · exact Bool.false_ne_true (ended.symm.trans runs)
  · simp only [swapIteration, bind_eq_ok] at returned
    obtain ⟨found, searched, -⟩ := returned
    simp only [SwapTickSequence.getNextInitializedTickIndex, List.drop_eq_nil_of_le empty,
      SwapTickSequence.searchArrays, err, reduceCtorEq] at searched

/-- A loop at its limit ends. -/
theorem swapContinues_limit (reached : state.currSqrtPrice = context.sqrtPriceLimit) :
    swapContinues context state = false := by
  simp only [swapContinues, reached, ne_eq, not_true_eq_false, and_false, decide_false]

theorem swapContinues_used (used : state.amountRemaining = 0) :
    swapContinues context state = false := by
  simp only [swapContinues, used, gt_iff_lt, lt_self_iff_false, false_and, decide_false]

/-- An iteration that stops short of the next tick is the last one. -/
theorem Traverses.short_stops (traverses : Traverses m context table state entry table' state')
    (place : PriceTick state'.currSqrtPrice state'.currTickIndex)
    (rate : context.whirlpool.feeRate < 2 ^ 16)
    (apart : entry.computation.nextPrice ≠ tickPrice entry.nextTickIndex) :
    swapContinues context state' = false := by
  have contract := traverses.contract
  have amounts := accountAmounts_eq_ok traverses.amounts
  by_cases reached : entry.computation.nextPrice = entry.target context
  · apply swapContinues_limit
    rw [traverses.nextPrice]
    rw [tickPrice_of_range traverses.range.1 traverses.range.2] at apart
    unfold SwapIteration.target getNextSqrtPrices at reached
    dsimp only at reached
    split_ifs at reached
    · rcases max_choice context.sqrtPriceLimit (sqrtPriceFromTickIndex entry.nextTickIndex) with
        limit | next
      · rw [reached, limit]
      · exact absurd (reached.trans next) apart
    · rcases min_choice context.sqrtPriceLimit (sqrtPriceFromTickIndex entry.nextTickIndex) with
        limit | next
      · rw [reached, limit]
      · exact absurd (reached.trans next) apart
  · apply swapContinues_used
    cases isIn : context.amountSpecifiedIsInput <;>
      simp only [isIn, Bool.false_eq_true, ↓reduceIte] at contract amounts
    · have spent := contract.output_used.2 reached
      omega
    · have positive : 0 < entry.computation.nextPrice := traverses.nextPrice ▸ place.price_pos
      have spent := (contract.input_used positive rate).2 reached
      omega

/-- The offset of a tick in an array depends on the start of the array only. -/
theorem getTickOffset_eq {sequence sequence' : SwapTickSequence} {tickSpacing arrayIndex : ℕ}
    (positive : 0 < tickSpacing) (starts : sequence'.arrays.map TickArray.startTickIndex =
      sequence.arrays.map TickArray.startTickIndex) {array : TickArray}
    (found : sequence.arrays[arrayIndex]? = some array) (tick : ℤ) :
    sequence'.getTickOffset arrayIndex tick tickSpacing =
      .ok ((tick - array.startTickIndex) / tickSpacing) := by
  have start : (sequence'.arrays.map TickArray.startTickIndex)[arrayIndex]? =
      some array.startTickIndex := by
    rw [starts, List.getElem?_map, found]
    rfl
  rw [List.getElem?_map, Option.map_eq_some_iff] at start
  obtain ⟨other, place, same⟩ := start
  rw [SwapTickSequence.getTickOffset, SwapTickSequence.getArray_eq_ok.mpr place, ok_bind,
    TickArray.tickOffset, if_neg positive.ne', getOffset_eq positive, same]

/-- Where an iteration leaves the tick and the cursor that arrives at the next tick. -/
structure ArrivesAt (context : SwapContext) (state : SwapState) (entry : SwapIteration)
    (state' : SwapState) (arrayIndex : ℕ) (array : TickArray) : Prop where
  searched : state.swapTickSequence.getNextInitializedTickIndex state.currTickIndex
    context.whirlpool.tickSpacing context.aToB state.currArrayIndex =
      .ok (arrayIndex, entry.nextTickIndex)
  place : state.swapTickSequence.arrays[arrayIndex]? = some array
  inside : array.startTickIndex ≤ entry.nextTickIndex ∧
    entry.nextTickIndex < array.startTickIndex + arrayWidth context.whirlpool.tickSpacing
  tick : state'.currTickIndex = entry.beyond context.aToB
  cursor : state'.currArrayIndex =
    if (context.aToB = true ∧
        (entry.nextTickIndex - array.startTickIndex) / (context.whirlpool.tickSpacing : ℤ) = 0) ∨
      (¬ context.aToB = true ∧
        (entry.nextTickIndex - array.startTickIndex) / (context.whirlpool.tickSpacing : ℤ) =
          tickArraySize - 1) then arrayIndex + 1 else arrayIndex

/-- An iteration that reaches the price of its tick arrives in the array that holds it. -/
theorem swapIteration_arrivesAt (sound : context.Sound)
    (traverses : Traverses m context table state entry table' state')
    (holds : LoopInvariant context table state) (runs : swapContinues context state = true)
    (returned : swapIteration m context state = .ok (state', entry))
    (reached : entry.computation.nextPrice = tickPrice entry.nextTickIndex) :
    ∃ arrayIndex array, ArrivesAt context state entry state' arrayIndex array := by
  simp only [swapIteration, bind_eq_ok] at returned
  obtain ⟨⟨arrayIndex, next⟩, searched, computation, -, amounts, -, fees, -, returned⟩ :=
    returned
  obtain ⟨result, -⟩ := search_spec sound holds runs searched
  obtain ⟨array, place, inside⟩ := result.inside
  have nextPrice := tickPrice_of_range result.range.1 result.range.2
  have starts := traverses.starts
  change (if computation.nextPrice = sqrtPriceFromTickIndex next then _ else _) = _ at returned
  by_cases arrived : computation.nextPrice = sqrtPriceFromTickIndex next
  · rw [if_pos arrived] at returned
    simp only [bind_eq_ok] at returned
    obtain ⟨⟨liquidity, sequence, crossed⟩, -, offset, placed, returned⟩ := returned
    obtain ⟨rfl, rfl⟩ := Prod.mk.inj (Except.ok.inj returned)
    rw [getTickOffset_eq sound.spacing starts place] at placed
    obtain rfl := Except.ok.inj placed
    exact ⟨arrayIndex, array, searched, place, inside, rfl, rfl⟩
  · rw [if_neg arrived] at returned
    split_ifs at returned <;> obtain ⟨rfl, rfl⟩ := Prod.mk.inj (Except.ok.inj returned) <;>
      exact absurd (reached.trans nextPrice) arrived

/-- The slot before the end of an array is its last one. -/
theorem lastSlot_ediv {tickSpacing : ℕ} (positive : 0 < tickSpacing) (start : ℤ) :
    (start + tickArraySize * tickSpacing - 1 - start) / (tickSpacing : ℤ) = tickArraySize - 1 := by
  have spacing : (0 : ℤ) < tickSpacing := by exact_mod_cast positive
  rw [show start + tickArraySize * tickSpacing - 1 - start =
    (tickSpacing - 1 : ℤ) + (tickArraySize - 1) * tickSpacing by ring,
    Int.add_mul_ediv_right _ _ spacing.ne', Int.ediv_eq_zero_of_lt (by omega) (by omega), zero_add]

/-- A search that returned the extreme tick leads to the limit. -/
theorem extreme_stops (sound : context.Sound) (holds' : LoopInvariant context table' state')
    {next : ℤ} (end_eq : next = if context.aToB then minTickIndex else maxTickIndex)
    (price : state'.currSqrtPrice = tickPrice next) : swapContinues context state' = false := by
  apply swapContinues_limit
  have limit := holds'.limit
  rw [price, end_eq] at limit ⊢
  cases aToB : context.aToB
  · simp only [aToB, Bool.false_eq_true, ↓reduceIte, onward_false, tickPrice_of_ge le_rfl]
      at limit ⊢
    exact le_antisymm limit sound.limit.2
  · simp only [aToB, ↓reduceIte, onward_true, tickPrice_of_le le_rfl] at limit ⊢
    exact le_antisymm sound.limit.1 limit

/-- An iteration that crosses no tick is the last one that succeeds. -/
theorem uncrossed_exhausted (sound : context.Sound) (holds : LoopInvariant context table state)
    (rate : context.whirlpool.feeRate < 2 ^ 16) (runs : swapContinues context state = true)
    (returned : swapIteration m context state = .ok (state', entry))
    (uncrossed : entry.crossed = none) : Exhausted context state' := by
  obtain ⟨table', traverses, holds'⟩ := swapIteration_traverses sound holds runs returned
  obtain ⟨apart⟩ | ⟨reached, empty⟩ | ⟨-, -, crossed⟩ := traverses.arrives
  · exact .inl (traverses.short_stops holds'.place rate apart)
  · obtain ⟨arrayIndex, array, arrives⟩ :=
      swapIteration_arrivesAt sound traverses holds runs returned reached
    obtain ⟨position, rfl, answered⟩ := searchArrays_answered arrives.searched
    rcases answered with ⟨tick, member, answer⟩ | ⟨end_eq⟩ | @⟨last, final, place, end_eq⟩
    · have carried := holds.carried.arrays _ (List.mem_of_mem_drop member)
      refine absurd (empty.symm.trans ?_) Bool.false_ne_true
      cases aToB : context.aToB <;> rw [aToB] at answer
      · exact (carried.getNextInitTickIndex_right holds.usable sound.spacing answer).2.2.2.2.1
      · exact (carried.getNextInitTickIndex_left holds.usable sound.spacing answer).2.2.2.1
    · exact .inl (extreme_stops sound holds' end_eq (traverses.nextPrice.trans reached))
    · right
      rw [List.getElem?_drop] at place
      rw [List.length_drop] at final
      obtain rfl := Option.some.inj (arrives.place.symm.trans place)
      have length := congrArg List.length traverses.starts
      rw [List.length_map, List.length_map] at length
      rw [length, arrives.cursor, if_pos]
      · omega
      · rw [end_eq]
        cases aToB : context.aToB
        · exact .inr ⟨Bool.false_ne_true, lastSlot_ediv sound.spacing _⟩
        · refine .inl ⟨rfl, ?_⟩
          rw [if_pos rfl, sub_self, Int.zero_ediv]
  · exact absurd (uncrossed.symm.trans crossed) (by simp only [reduceCtorEq, not_false_eq_true])

end Step

section Run

variable {m : Machine} {context : SwapContext} {table last : TickTable}
  {state final : SwapState} {entries : List SwapIteration}

/-- All iterations but the last one cross a tick. -/
theorem length_le_crossings (sound : context.Sound) (rate : context.whirlpool.feeRate < 2 ^ 16)
    (iterations : Iterations (swapContinues context) (swapIteration m context) state entries final)
    (holds : LoopInvariant context table state) :
    entries.length ≤ (crossings entries).length + 1 := by
  induction iterations generalizing table with
  | done state => exact Nat.zero_le _
  | @step state middle final entry entries runs stepped rest ih =>
      obtain ⟨table', -, holds'⟩ := swapIteration_traverses sound holds runs stepped
      have tail := ih holds'
      rw [crossings_cons, List.length_append, List.length_cons]
      cases crossed : entry.crossed with
      | some tick =>
          rw [Option.toList_some, List.length_singleton]
          omega
      | none =>
          have exhausted := uncrossed_exhausted sound holds rate runs stepped crossed
          cases rest with
          | done => exact Nat.le_add_left _ _
          | step more again _ => exact absurd again (exhausted.stuck more)

/-- The crossed ticks are initialized ticks of the supplied arrays. -/
theorem Traversal.crossings_subset
    (traversal : Traversal m context table state entries last final) (sound : context.Sound)
    (holds : LoopInvariant context table state) :
    crossings entries ⊆ state.swapTickSequence.initializedTicks context.whirlpool.tickSpacing := by
  intro tick crossed
  have full := (traversal.mem_crossings.mp crossed).1
  obtain ⟨array, member, above, below⟩ := traversal.window crossed
  have carried := holds.carried.arrays array member
  obtain ⟨offset, nonneg, small, same⟩ := carried.exists_offset sound.spacing
    (checkIsUsableTick_iff.mp (holds.usable tick full)).2 above below
  have place : ((offset.toNat : ℕ) : ℤ) = offset := Int.toNat_of_nonneg nonneg
  refine List.mem_flatMap.mpr ⟨array, member, List.mem_map.mpr
    ⟨⟨offset.toNat, by omega⟩, List.mem_filter.mpr ⟨List.mem_finRange _, ?_⟩, ?_⟩⟩
  · rw [carried.ticks]
    dsimp only
    rw [place, ← same, full]
  · dsimp only
    rw [place, same]

/-- A tick is crossed at most once. -/
theorem Traversal.crossings_nodup
    (traversal : Traversal m context table state entries last final) :
    (crossings entries).Nodup := by
  refine traversal.crossings_pairwise.imp fun {first second} before same => ?_
  unfold MetBefore at before
  split_ifs at before <;> omega

/-- The iterations of a loop are at most the initialized ticks and one more. -/
theorem iterations_length_le (sound : context.Sound) (rate : context.whirlpool.feeRate < 2 ^ 16)
    (iterations : Iterations (swapContinues context) (swapIteration m context) state entries final)
    (holds : LoopInvariant context table state) :
    entries.length ≤
      (state.swapTickSequence.initializedTicks context.whirlpool.tickSpacing).length + 1 := by
  obtain ⟨last, traversal, -⟩ := iterations_traversal sound iterations holds
  have count := (traversal.crossings_nodup.subperm
    (traversal.crossings_subset sound holds)).length_le
  have bound := length_le_crossings sound rate iterations holds
  omega

/-- The price moves in the direction of the trade. -/
theorem Traversal.price_onward (traversal : Traversal m context table state entries last final) :
    Onward context.aToB state.currSqrtPrice final.currSqrtPrice := by
  induction traversal with
  | done => exact .refl _ _
  | step _ traverses _ _ ih =>
      have leaves := traverses.contract.leaves
      rw [← traverses.nextPrice] at leaves
      exact leaves.trans ih

end Run

/-- The arrays hold at most 88 initialized ticks each. -/
theorem initializedTicks_length_le (sequence : SwapTickSequence) (tickSpacing : ℕ) :
    (sequence.initializedTicks tickSpacing).length ≤ 88 * sequence.arrays.length := by
  unfold SwapTickSequence.initializedTicks
  rw [List.length_flatMap]
  refine (List.sum_le_card_nsmul _ 88 ?_).trans ?_
  · intro count member
    obtain ⟨array, -, rfl⟩ := List.mem_map.mp member
    rw [List.length_map]
    exact (List.length_filter_le _ _).trans (List.length_finRange).le
  · rw [List.length_map, smul_eq_mul, mul_comm]

/-- The reported amount of the specified side. -/
def PostSwapUpdate.specified (update : PostSwapUpdate) (amountSpecifiedIsInput aToB : Bool) : ℕ :=
  if specifiedIsA amountSpecifiedIsInput aToB then update.amountA else update.amountB

/-- The outcome reports as specified what the loop has used. -/
theorem postSwapUpdate_specified {m : Machine} {context : SwapContext} {amount : ℕ}
    {state : SwapState} {update : PostSwapUpdate} (left : state.amountRemaining ≤ amount)
    (returned : context.postSwapUpdate m amount state = .ok update) :
    update.specified context.amountSpecifiedIsInput context.aToB =
      amount - state.amountRemaining := by
  simp only [SwapContext.postSwapUpdate, bind_eq_ok, Except.ok.injEq,
    Machine.plainSub_of_le _ left] at returned
  obtain ⟨used, rfl, -, -, rfl⟩ := returned
  unfold PostSwapUpdate.specified specifiedIsA
  by_cases same : context.aToB = context.amountSpecifiedIsInput <;>
    simp only [same, decide_true, decide_false, Bool.false_eq_true, ↓reduceIte]

/-- The loop of a swap ends by itself: every started iteration, also one that fails, is
among the first ones, and the fuel of the loop is never spent. -/
structure LoopEnds (m : Machine) (context : SwapContext) (sequence : SwapTickSequence)
    (amount : ℕ) : Prop where
  bounded : ∀ entries state, Iterations (swapContinues context) (swapIteration m context)
      (context.initialState sequence amount) entries state →
    entries.length + 1 ≤ (sequence.initializedTicks context.whirlpool.tickSpacing).length + 2
  terminates : ∀ spent fuel,
    (sequence.initializedTicks context.whirlpool.tickSpacing).length + 2 ≤ fuel →
    whileLogged (swapContinues context) (swapIteration m context) spent fuel
        (context.initialState sequence amount) =
      whileLogged (swapContinues context) (swapIteration m context) .outOfFuel (swapFuel sequence)
        (context.initialState sequence amount)

/-- A swap that returns has moved towards its limit, never beyond it, and has filled the
amount unless it stopped at the limit. -/
structure Filled (whirlpool : Whirlpool) (sequence : SwapTickSequence)
    (amount sqrtPriceLimit : ℕ) (amountSpecifiedIsInput aToB : Bool) (outcome : SwapOutcome) :
    Prop where
  iterations : outcome.iterations.length ≤
    (sequence.initializedTicks whirlpool.tickSpacing).length + 2
  price : if aToB then
      sqrtPriceLimit ≤ outcome.update.nextSqrtPrice ∧
        outcome.update.nextSqrtPrice ≤ whirlpool.sqrtPrice
    else
      whirlpool.sqrtPrice ≤ outcome.update.nextSqrtPrice ∧
        outcome.update.nextSqrtPrice ≤ sqrtPriceLimit
  tick : if aToB then outcome.update.nextTickIndex ≤ whirlpool.tickCurrentIndex
    else whirlpool.tickCurrentIndex ≤ outcome.update.nextTickIndex
  within : outcome.update.specified amountSpecifiedIsInput aToB ≤ amount
  filled : outcome.update.nextSqrtPrice ≠ sqrtPriceLimit →
    outcome.update.specified amountSpecifiedIsInput aToB = amount

section Swap

variable {m : Machine} {whirlpool : Whirlpool} {table : TickTable} {sequence : SwapTickSequence}
  {amount : ℕ} {sqrtPriceLimit : ℕ} {amountSpecifiedIsInput aToB : Bool}

/-- The loop of a tradable pool ends, by a full amount, at the limit or at the end of its arrays. -/
theorem loopEnds (tradable : Tradable whirlpool table sequence)
    (rate : whirlpool.feeRate < 2 ^ 16) (fits : amount < 2 ^ 64)
    (bounds : minSqrtPriceX64 ≤ sqrtPriceLimit ∧ sqrtPriceLimit ≤ maxSqrtPriceX64)
    (direction : ¬ ((aToB ∧ sqrtPriceLimit > whirlpool.sqrtPrice) ∨
      (¬ aToB ∧ sqrtPriceLimit < whirlpool.sqrtPrice)))
    (rewardInfos : Fin numRewards → WhirlpoolRewardInfo) :
    LoopEnds m (whirlpool.swapContext sqrtPriceLimit amountSpecifiedIsInput aToB rewardInfos)
      sequence amount := by
  have sound : (whirlpool.swapContext sqrtPriceLimit amountSpecifiedIsInput aToB
      rewardInfos).Sound := ⟨tradable.spacing, bounds⟩
  have starts := LoopInvariant.initial (whirlpool.swapContext sqrtPriceLimit
    amountSpecifiedIsInput aToB rewardInfos) table sequence tradable fits direction
  have bounded : ∀ middle entries, Iterations _ (swapIteration m _) _ entries middle →
      entries.length ≤ (sequence.initializedTicks whirlpool.tickSpacing).length + 1 :=
    fun middle entries iterations => iterations_length_le sound rate iterations starts
  refine ⟨fun entries state iterations => Nat.succ_le_succ (bounded state entries iterations),
    fun spent fuel enough => whileLogged_enough bounded enough ?_⟩
  have count := initializedTicks_length_le sequence whirlpool.tickSpacing
  unfold swapFuel
  omega

/-- The iterations of a swap that returns are those of its loop, which is not refused. -/
theorem swap_iterations {timestamp : ℕ} {outcome : SwapOutcome}
    (returned : swap m whirlpool sequence amount sqrtPriceLimit amountSpecifiedIsInput aToB
      timestamp = .ok outcome) :
    (minSqrtPriceX64 ≤ sqrtPriceLimit ∧ sqrtPriceLimit ≤ maxSqrtPriceX64) ∧
    ¬ ((aToB ∧ sqrtPriceLimit > whirlpool.sqrtPrice) ∨
      (¬ aToB ∧ sqrtPriceLimit < whirlpool.sqrtPrice)) ∧
    ∃ rewardInfos final,
      Iterations
        (swapContinues
          (whirlpool.swapContext sqrtPriceLimit amountSpecifiedIsInput aToB rewardInfos))
        (swapIteration m
          (whirlpool.swapContext sqrtPriceLimit amountSpecifiedIsInput aToB rewardInfos))
        ((whirlpool.swapContext sqrtPriceLimit amountSpecifiedIsInput aToB
          rewardInfos).initialState sequence amount) outcome.iterations final := by
  simp only [swap, guard_eq_ok, bind_eq_ok, Except.ok.injEq] at returned
  obtain ⟨bounds, direction, -, rewardInfos, -, ⟨final, entries⟩, looped, update, -, rfl⟩ :=
    returned
  simp only [not_or, not_lt, gt_iff_lt] at bounds
  exact ⟨bounds, direction, rewardInfos, final, (whileLogged_iterations looped).1⟩

/-- A swap that succeeds has used its whole amount, or stopped at the limit. -/
theorem swap_filled (tradable : Tradable whirlpool table sequence)
    (rate : whirlpool.feeRate < 2 ^ 16) (fits : amount < 2 ^ 64) {timestamp : ℕ}
    {outcome : SwapOutcome} (returned : swap m whirlpool sequence amount sqrtPriceLimit
      amountSpecifiedIsInput aToB timestamp = .ok outcome) :
    Filled whirlpool sequence amount sqrtPriceLimit amountSpecifiedIsInput aToB outcome := by
  obtain ⟨-, rewardInfos, -, last, final, traded⟩ := swap_traded tradable fits returned
  obtain ⟨-, tick, price, -⟩ := postSwapUpdate_eq_ok traded.update
  have left : final.amountRemaining ≤ amount := traded.traversal.remaining_le
  have specified : outcome.update.specified amountSpecifiedIsInput aToB =
      amount - final.amountRemaining := postSwapUpdate_specified left traded.update
  have moved : Onward aToB whirlpool.sqrtPrice final.currSqrtPrice := traded.traversal.price_onward
  have limit : Onward aToB final.currSqrtPrice sqrtPriceLimit := traded.ends.limit
  have onward : TickOnward aToB whirlpool.tickCurrentIndex final.currTickIndex :=
    traded.traversal.onward
  refine ⟨?_, ?_, ?_, ?_, fun apart => ?_⟩
  · obtain ⟨bounds, direction, rewardInfos, final, iterations⟩ := swap_iterations returned
    have count := (loopEnds tradable rate fits bounds direction rewardInfos).bounded _ _ iterations
    exact (Nat.le_succ _).trans count
  · rw [price]
    cases aToB
    · exact ⟨onward_false.mp moved, onward_false.mp limit⟩
    · exact ⟨onward_true.mp limit, onward_true.mp moved⟩
  · rw [tick]
    exact onward
  · rw [specified]
    exact Nat.sub_le _ _
  · have stops := traded.stops
    rw [price] at apart
    have used : ¬ final.amountRemaining > 0 := by
      intro more
      simp only [swapContinues, decide_eq_false_iff_not, not_and, ne_eq, not_not] at stops
      exact apart (stops more).symm
    rw [specified, Nat.eq_zero_of_not_pos used, Nat.sub_zero]

end Swap

/-- The loop of a swap ends after at most two iterations more than there are initialized
ticks in the supplied arrays, and a swap that returns stops short of its limit only when
the amount is used up. -/
theorem swap_ends {m : Machine} {whirlpool : Whirlpool} {table : TickTable}
    {sequence : SwapTickSequence} (amount : UInt64) (sqrtPriceLimit timestamp : ℕ)
    (amountSpecifiedIsInput aToB : Bool) (tradable : Tradable whirlpool table sequence)
    (rate : whirlpool.feeRate < 2 ^ 16) :
    (minSqrtPriceX64 ≤ sqrtPriceLimit → sqrtPriceLimit ≤ maxSqrtPriceX64 →
      ¬ ((aToB ∧ sqrtPriceLimit > whirlpool.sqrtPrice) ∨
        (¬ aToB ∧ sqrtPriceLimit < whirlpool.sqrtPrice)) →
      ∀ rewardInfos, LoopEnds m
        (whirlpool.swapContext sqrtPriceLimit amountSpecifiedIsInput aToB rewardInfos) sequence
        amount.toNat) ∧
    ∀ outcome, swap m whirlpool sequence amount.toNat sqrtPriceLimit amountSpecifiedIsInput aToB
        timestamp = .ok outcome →
      Filled whirlpool sequence amount.toNat sqrtPriceLimit amountSpecifiedIsInput aToB outcome :=
  ⟨fun least greatest direction rewardInfos => loopEnds tradable rate amount.toNat_lt
    ⟨least, greatest⟩ direction rewardInfos,
    fun _ returned => swap_filled tradable rate amount.toNat_lt returned⟩

/-- One initialized tick, two iterations: the tick is crossed, and then the limit reached. -/
theorem swap_ends_leftward : ∃ outcome,
    swap (.exact false) (poolAtTick 8 0) ⟨[(singleTick 5 (-7) 7).arrayAt 1 0]⟩
        (1000 : UInt64).toNat (sqrtPriceFromTickIndex 3) true true 0 = .ok outcome ∧
      outcome.iterations.length = 2 ∧
      Filled (poolAtTick 8 0) ⟨[(singleTick 5 (-7) 7).arrayAt 1 0]⟩ (1000 : UInt64).toNat
        (sqrtPriceFromTickIndex 3) true true outcome := by
  have ran : yields (swap (.exact false) (poolAtTick 8 0) ⟨[(singleTick 5 (-7) 7).arrayAt 1 0]⟩
      (1000 : UInt64).toNat (sqrtPriceFromTickIndex 3) true true 0)
      (fun outcome => outcome.iterations.length == 2) = true := by decide +kernel
  obtain ⟨outcome, returned, count⟩ := yields_iff.mp ran
  refine ⟨outcome, returned, eq_of_beq count, ?_⟩
  exact (swap_ends 1000 _ 0 true true (poolAtTick_tradable (by decide) (by decide) (by decide)
    (by decide)) (by decide)).2 outcome returned

end Whirlpools
