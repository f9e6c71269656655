import Whirlpools.Sdk.PriceAgreement
import Whirlpools.Sdk.SearchAgreement
import Whirlpools.Sdk.StepAgreement
import Whirlpools.Sdk.SwapManager
import Whirlpools.Swap.FirstArrays

/-! # The swap loop of the SDK follows the program

While the program goes on, the SDK is at the same tick with the same liquidity, and its sequence
marks the arrays up to the one the program has searched last. The two only part in a last iteration
that leaves the price where it is: the program keeps its tick, and the SDK takes that of the price.
-/

namespace Whirlpools.Sdk

open Outcome
open SwapManager (LoopState)

section Touch

variable {Address : Type} {sdk : TickArraySequence Address} {count position : ℕ}

/-- The arrays of a sequence carry a table of ticks. -/
def Fetched (table : TickTable) (tickSpacing : ℕ) (sdk : TickArraySequence Address) : Prop :=
  ∀ fetched ∈ sdk.sequence, Carries table tickSpacing fetched.data

/-- The arrays that have been read are the first ones. -/
structure TouchedTo (sdk : TickArraySequence Address) (count : ℕ) : Prop where
  within : count ≤ sdk.sequence.length
  length : sdk.touchedArrays.length = sdk.sequence.length
  flags : ∀ position < sdk.sequence.length,
    sdk.touchedArrays[position]? = some (decide (position < count))

/-- Reading the next array, or one before it. -/
theorem TouchedTo.touch (touched : TouchedTo sdk count) (next : position ≤ count)
    (inside : position < sdk.sequence.length) :
    TouchedTo { sdk with touchedArrays := sdk.touchedArrays.set position true }
      (max count (position + 1)) := by
  have within := touched.within
  refine ⟨max_le within inside, by rw [List.length_set, touched.length], fun other bounded => ?_⟩
  change (sdk.touchedArrays.set position true)[other]? = _
  rw [List.getElem?_set, touched.flags other bounded, touched.length]
  by_cases same : position = other
  · rw [if_pos same, if_pos inside, Option.some.injEq, eq_comm, decide_eq_true_eq]
    omega
  · rw [if_neg same, Option.some.injEq, decide_eq_decide]
    omega

/-- The read arrays make up the start of the sequence. -/
theorem TouchedTo.touchedArrays_eq (touched : TouchedTo sdk count) :
    sdk.touchedArrays = List.replicate count true ++
      List.replicate (sdk.sequence.length - count) false := by
  have within := touched.within
  refine List.ext_getElem? fun position => ?_
  by_cases inside : position < sdk.sequence.length
  · rw [touched.flags position inside, List.getElem?_append, List.length_replicate]
    by_cases before : position < count
    · rw [if_pos before, List.getElem?_replicate, if_pos before, decide_eq_true before]
    · rw [if_neg before, List.getElem?_replicate, if_pos (by omega), decide_eq_false before]
  · rw [List.getElem?_eq_none (by rw [touched.length]; omega), List.getElem?_eq_none]
    rw [List.length_append, List.length_replicate, List.length_replicate]
    omega

/-- The addresses of the first arrays, the last of them repeated. -/
theorem TouchedTo.getTouchedArrays (touched : TouchedTo sdk count) (minArraySize : ℕ) :
    sdk.getTouchedArrays minArraySize = TickArraySequence.padWithLast
      ((sdk.sequence.take count).map InitializedTickArray.address) minArraySize := by
  have within := touched.within
  have read : ((sdk.sequence.zip sdk.touchedArrays).filter Prod.snd).map (fun touched =>
      touched.1.address) = (sdk.sequence.take count).map InitializedTickArray.address := by
    have split : sdk.sequence.zip sdk.touchedArrays =
        ((sdk.sequence.take count).zip (List.replicate count true)) ++
          (sdk.sequence.drop count).zip
            (List.replicate (sdk.sequence.length - count) false) := by
      rw [touched.touchedArrays_eq, ← List.zip_append, List.take_append_drop]
      rw [List.length_take, List.length_replicate, min_eq_left within]
    rw [split, List.filter_append, List.map_append]
    have first : ((sdk.sequence.take count).zip (List.replicate count true)).filter Prod.snd =
        (sdk.sequence.take count).zip (List.replicate count true) := by
      refine List.filter_eq_self.mpr fun pair member => ?_
      exact (List.mem_replicate.mp (List.of_mem_zip member).2).2
    have others : ((sdk.sequence.drop count).zip
        (List.replicate (sdk.sequence.length - count) false)).filter Prod.snd = [] := by
      refine List.filter_eq_nil_iff.mpr fun pair member => ?_
      rw [(List.mem_replicate.mp (List.of_mem_zip member).2).2]
      exact Bool.false_ne_true
    rw [first, others, List.map_nil, List.append_nil]
    have addresses := @List.map_fst_zip _ _ (sdk.sequence.take count) (List.replicate count true)
      (by rw [List.length_take, List.length_replicate]; omega)
    conv_rhs => rw [← addresses, List.map_map]
    rfl
  rw [TickArraySequence.getTouchedArrays, read]

/-- The number of touched arrays is how far the touching went. -/
theorem TouchedTo.getNumOfTouchedArrays (touched : TouchedTo sdk count) :
    sdk.getNumOfTouchedArrays = count := by
  unfold TickArraySequence.getNumOfTouchedArrays
  rw [touched.touchedArrays_eq, List.count_append, List.count_replicate_self,
    List.count_replicate]
  rfl

end Touch

section Search

variable {Address : Type} {sdk other : TickArraySequence Address} {arrays : List TickArray}
  {table : TickTable} {tickSpacing : ℕ} {aToB : Bool} {startArrayIndex : ℤ} {array : TickArray}
  {position remaining count : ℕ} {tick next : ℤ}

/-- A tick lies in an array. -/
def Within (tickSpacing : ℕ) (array : TickArray) (tick : ℤ) : Prop :=
  array.startTickIndex ≤ tick ∧ tick < array.startTickIndex + arrayWidth tickSpacing

/-- The number of the slot of a tick gives the place of its array in the row. -/
theorem Mirrors.arrayIndexAt_eq (mirrors : Mirrors sdk arrays tickSpacing aToB startArrayIndex)
    (positive : 0 < tickSpacing) (found : arrays[position]? = some array)
    (inside : Within tickSpacing array tick) :
    tick / tickSpacing / 88 = arrayIndexAt aToB startArrayIndex position := by
  have spacing : (0 : ℤ) < tickSpacing := by exact_mod_cast positive
  obtain ⟨above, below⟩ := inside
  unfold arrayWidth tickArraySize at below
  rw [mirrors.row found] at above below
  have least := (Int.le_ediv_iff_mul_le spacing).mpr above
  have greatest : tick / (tickSpacing : ℤ) < arrayIndexAt aToB startArrayIndex position * 88 + 88 :=
    (Int.ediv_lt_iff_lt_mul spacing).mpr (by linarith)
  omega

/-- The arrays of a row do not overlap. -/
theorem Mirrors.position_unique (mirrors : Mirrors sdk arrays tickSpacing aToB startArrayIndex)
    (positive : 0 < tickSpacing) {position' : ℕ} {array' : TickArray}
    (found : arrays[position]? = some array) (found' : arrays[position']? = some array')
    (inside : Within tickSpacing array tick) (inside' : Within tickSpacing array' tick) :
    position = position' := by
  have same := (mirrors.arrayIndexAt_eq positive found inside).symm.trans
    (mirrors.arrayIndexAt_eq positive found' inside')
  unfold arrayIndexAt at same
  split_ifs at same <;> omega

/-- The SDK reads the slot of a tick from the array the tick lies in, and touches that array. -/
theorem Mirrors.getTick_eq (mirrors : Mirrors sdk arrays tickSpacing aToB startArrayIndex)
    (positive : 0 < tickSpacing) (fetched : Fetched table tickSpacing sdk)
    (found : arrays[position]? = some array) (inside : Within tickSpacing array tick) :
    sdk.getTick tick = .ok (table (tick / tickSpacing * tickSpacing),
      { sdk with touchedArrays := sdk.touchedArrays.set position true }) := by
  obtain ⟨copy, copied, same⟩ := mirrors.slots found
  have bounded := (List.getElem?_eq_some_iff.mp found).1
  have place := mirrors.arrayIndexAt_eq positive found inside
  have local_eq : sdk.getLocalArrayIndex (slot tickSpacing (tick / tickSpacing)).arrayIndex =
      position := by
    dsimp only [slot]
    rw [place, mirrors.getLocalArrayIndex]
  have inBounds : sdk.isArrayIndexInBounds (slot tickSpacing (tick / tickSpacing)) = true := by
    unfold TickArraySequence.isArrayIndexInBounds
    dsimp only
    rw [local_eq, mirrors.length_eq, decide_eq_true_eq]
    omega
  have inRange : sdk.checkIfIndexIsInTickArrayRange copy.data.startTickIndex tick = true := by
    obtain ⟨above, below⟩ := inside
    unfold arrayWidth at below
    unfold TickArraySequence.checkIfIndexIsInTickArrayRange
    rw [same.start, mirrors.spacing_eq, decide_eq_true_eq]
    exact ⟨above, by linarith⟩
  have start : array.startTickIndex + tick / tickSpacing % 88 * tickSpacing =
      tick / tickSpacing * tickSpacing := by
    rw [mirrors.row found, ← place, ← add_mul, mul_comm (tick / (tickSpacing : ℤ) / 88),
      Int.mul_ediv_add_emod]
  unfold TickArraySequence.getTick
  rw [mirrors.spacing_eq, fromTickIndex_eq positive, ok_bind, if_neg (not_not.mpr inBounds)]
  dsimp only
  rw [local_eq, Int.toNat_natCast, copied]
  dsimp only
  rw [if_neg (not_not.mpr inRange)]
  dsimp only [slot]
  rw [(fetched copy (List.mem_of_getElem? copied)).tick_eq (by omega) (by omega), same.start, start]

/-- The next slot of a walk. -/
theorem toOnward_slot (positive : 0 < tickSpacing) (aToB : Bool) (number : ℤ) :
    (if aToB then (slot tickSpacing number).toPrevInitializableTickIndex
      else (slot tickSpacing number).toNextInitializableTickIndex) =
      .ok (slot tickSpacing (if aToB then number - 1 else number + 1)) := by
  cases aToB
  · exact toNext_slot positive number
  · exact toPrev_slot positive number

/-- What a search reads: the arrays up to a new count, in one of which its result lies. -/
structure Reads (tickSpacing : ℕ) (arrays : List TickArray) (sdk : TickArraySequence Address)
    (count : ℕ) (next : ℤ) (other : TickArraySequence Address) (count' : ℕ) : Prop where
  rest : other = { sdk with touchedArrays := other.touchedArrays }
  more : count ≤ count'
  touched : TouchedTo other count'
  read : ∀ position array, arrays[position]? = some array → Within tickSpacing array next →
    position < count'

/-- The walk over the slots touches the arrays it comes through, and the one it ends in. -/
theorem Mirrors.searchSlots_reads (mirrors : Mirrors sdk arrays tickSpacing aToB startArrayIndex)
    (positive : 0 < tickSpacing) (fetched : Fetched table tickSpacing sdk)
    (touched : TouchedTo sdk count) (within : position ≤ count) (inside : remaining < 88)
    {fuel : ℕ} {data : Option Tick}
    (returned : TickArraySequence.searchSlots fuel sdk
      (slot tickSpacing (numberAt aToB startArrayIndex position remaining)) =
        .ok (next, data, other)) :
    ∃ count', Reads tickSpacing arrays sdk count next other count' := by
  have spacing : (0 : ℤ) < tickSpacing := by exact_mod_cast positive
  induction fuel generalizing sdk position remaining count with
  | zero => simp only [TickArraySequence.searchSlots, reduceCtorEq] at returned
  | succ fuel ih =>
      have bounds := @Mirrors.inBounds _ _ _ _ _ _ position _ mirrors inside
      rw [TickArraySequence.searchSlots] at returned
      by_cases bounded : position < arrays.length
      · have found : arrays[position]? = some arrays[position] := List.getElem?_eq_getElem bounded
        have range := @offsetAt_range aToB _ inside
        have here : Within tickSpacing arrays[position]
            (numberAt aToB startArrayIndex position remaining * tickSpacing) := by
          rw [Within, mirrors.tick_eq found]
          unfold arrayWidth tickArraySize
          constructor <;> nlinarith
        have marked := touched.touch within (mirrors.length_eq ▸ bounded)
        rw [if_pos (bounds.mpr bounded), toTickIndex_slot, mirrors.getTick_eq positive fetched found
          here, ok_bind] at returned
        dsimp only at returned
        by_cases full : (table (numberAt aToB startArrayIndex position remaining * tickSpacing /
            tickSpacing * tickSpacing)).initialized = true
        · rw [if_pos full] at returned
          obtain ⟨rfl, -, rfl⟩ : _ = next ∧ _ ∧ _ = other := by
            simpa only [Except.ok.injEq, Prod.mk.injEq] using returned
          refine ⟨_, rfl, le_max_left _ _, marked, fun place array found' inside' => ?_⟩
          rw [mirrors.position_unique positive found' found inside' here]
          exact lt_max_of_lt_right (Nat.lt_succ_self position)
        · have onward : ∃ position' remaining', position' ≤ position + 1 ∧ remaining' < 88 ∧
              (if sdk.aToB then numberAt aToB startArrayIndex position remaining - 1
                else numberAt aToB startArrayIndex position remaining + 1) =
                  numberAt aToB startArrayIndex position' remaining' := by
            rw [mirrors.direction_eq]
            cases remaining with
            | zero => exact ⟨position + 1, 87, le_rfl, by norm_num, numberAt_zero⟩
            | succ remaining => exact ⟨position, remaining, by omega, by omega, numberAt_succ⟩
          obtain ⟨position', remaining', near, inside', number⟩ := onward
          rw [if_neg full, toOnward_slot positive, ok_bind, number] at returned
          obtain ⟨count', reads⟩ := ih (mirrors.touch (sdk.touchedArrays.set position true)) fetched
            marked (near.trans (le_max_right _ _)) inside' returned
          exact ⟨count', reads.rest, (le_max_left _ _).trans reads.more, reads.touched, reads.read⟩
      · rw [if_neg (mt bounds.mp bounded)] at returned
        obtain ⟨-, -, rfl⟩ : _ = next ∧ _ ∧ _ = other := by
          simpa only [Except.ok.injEq, Prod.mk.injEq] using returned
        refine ⟨count, rfl, le_rfl, touched, fun place array found' inside' => ?_⟩
        have before := (List.getElem?_eq_some_iff.mp found').1
        omega

/-- A search touches the arrays it comes through, and the one its result lies in. -/
theorem Mirrors.findNext_reads (mirrors : Mirrors sdk arrays tickSpacing aToB startArrayIndex)
    (positive : 0 < tickSpacing) (fetched : Fetched table tickSpacing sdk)
    (touched : TouchedTo sdk count) (within : position ≤ count)
    (place : AtCursor tickSpacing aToB startArrayIndex arrays.length position tick)
    {data : Option Tick}
    (returned : sdk.findNextInitializedTickIndex tick = .ok (next, data, other)) :
    ∃ count', Reads tickSpacing arrays sdk count next other count' := by
  obtain ⟨remaining, inside, number⟩ := place.exists_remaining positive
  have index : (if aToB then tick else tick + tickSpacing) = searchTick tickSpacing aToB tick := by
    unfold searchTick
    split_ifs
    · exact (add_zero tick).symm
    · rfl
  unfold TickArraySequence.findNextInitializedTickIndex at returned
  dsimp only at returned
  rw [mirrors.direction_eq, mirrors.spacing_eq, index, fromTickIndex_eq positive, ok_bind,
    ← number] at returned
  split_ifs at returned
  exact mirrors.searchSlots_reads positive fetched touched within inside returned

end Search

section Iteration

variable {Address : Type} {checks : Bool} {m : Machine} {context : SwapContext} {lib : CommonSdk}
  {origin table : TickTable} {startArrayIndex : ℤ} {initial state next : SwapState}
  {entries : List SwapIteration} {entry : SwapIteration} {other : LoopState Address}

/-- The prices of the SDK are those of the program. -/
theorem getNextSqrtPrices_eq {nextTick : ℤ} (below : nextTick ≤ maxTickIndex) (sqrtPriceLimit : ℕ)
    (aToB : Bool) :
    SwapManager.getNextSqrtPrices nextTick sqrtPriceLimit aToB =
      ((sqrtPriceFromTickIndex nextTick : ℤ),
        ((Whirlpools.getNextSqrtPrices nextTick sqrtPriceLimit aToB).2 : ℤ)) := by
  unfold SwapManager.getNextSqrtPrices Whirlpools.getNextSqrtPrices
  rw [tickIndexToSqrtPriceX64_eq below]
  cases aToB <;> simp only [Bool.false_eq_true, ↓reduceIte, Nat.cast_max, Nat.cast_min]

/-- The fees of the SDK are never an obstacle. -/
theorem calculateFees_ok (feeAmount : BN) (protocolFeeRate : ℕ)
    (currLiquidity currProtocolFee currFeeGrowthGlobalInput : BN) :
    ∃ fees, SwapManager.calculateFees feeAmount protocolFeeRate currLiquidity currProtocolFee
      currFeeGrowthGlobalInput = .ok fees := by
  have share : BN.div protocolFeeRate SwapManager.protocolFeeRateMulValue =
      .ok ((protocolFeeRate : ℤ).tdiv SwapManager.protocolFeeRateMulValue) := if_neg (by decide)
  have grow (globalFee nextProtocolFee : BN) : ∃ fees, (if currLiquidity > 0 then
      BN.div (globalFee * 2 ^ 64) currLiquidity >>= fun globalFeeIncrement =>
      .ok (currFeeGrowthGlobalInput + globalFeeIncrement)
    else .ok currFeeGrowthGlobalInput : Attempt BN) >>= (fun nextFeeGrowthGlobalInput =>
      .ok (nextProtocolFee, nextFeeGrowthGlobalInput)) = .ok fees := by
    by_cases present : currLiquidity > 0
    · rw [if_pos present, BN.div, if_neg (ne_of_gt present), ok_bind, ok_bind]
      exact ⟨_, rfl⟩
    · rw [if_neg present, ok_bind]
      exact ⟨_, rfl⟩
  unfold SwapManager.calculateFees SwapManager.calculateProtocolFee
  rw [share]
  by_cases charged : protocolFeeRate > 0
  · rw [if_pos charged, ok_bind, ok_bind, ok_bind]
    exact grow _ _
  · rw [if_neg charged, ok_bind]
    exact grow _ _

/-- The amounts of the SDK are those of the program. -/
theorem accountAmounts_eq {isIn : Bool} {remaining calculated remaining' calculated' : ℕ}
    {computation : SwapStepComputation} {step : SwapStep} (same : SameStep computation step)
    (accounted : Whirlpools.accountAmounts isIn remaining calculated computation =
      .ok (remaining', calculated')) :
    SwapManager.accountAmounts isIn remaining calculated step =
      ((remaining' : ℤ), (calculated' : ℤ)) := by
  have amounts := accountAmounts_eq_ok accounted
  unfold SameStep at same
  subst same
  cases isIn with
  | false =>
      obtain ⟨rest, sum, -⟩ := amounts
      refine Prod.ext ?_ ?_
      · change (remaining : ℤ) - computation.amountOut = remaining'
        omega
      · change (calculated : ℤ) + computation.amountIn + computation.feeAmount = calculated'
        omega
  | true =>
      obtain ⟨rest, sum, -⟩ := amounts
      refine Prod.ext ?_ ?_
      · change (remaining : ℤ) - computation.amountIn - computation.feeAmount = remaining'
        omega
      · change (calculated : ℤ) + computation.amountOut = calculated'
        omega

end Iteration

section Simulation

variable {Address : Type} {checks : Bool} {m : Machine} {context : SwapContext} {lib : CommonSdk}
  {origin table table' : TickTable} {startArrayIndex : ℤ} {initial state next : SwapState}
  {entries : List SwapIteration} {entry : SwapIteration} {other : LoopState Address}
  {sdk sequence : TickArraySequence Address} {count : ℕ}

/-- Two tables with the same ticks initialized, and with the same net liquidity. -/
structure SameTicks (origin table : TickTable) : Prop where
  initialized : ∀ tick, (table tick).initialized = (origin tick).initialized
  liquidityNet : ∀ tick, (table tick).liquidityNet = (origin tick).liquidityNet

/-- An iteration keeps the ticks at which liquidity changes. -/
theorem SameTicks.step (same : SameTicks origin table)
    (traverses : Traverses m context table state entry table' next) : SameTicks origin table' :=
  ⟨fun tick => (traverses.initialized_eq tick).trans (same.initialized tick),
    fun tick => (traverses.liquidityNet_eq tick).trans (same.liquidityNet tick)⟩

/-- The tick of a quote: that of the program, or the next one exactly at its price. -/
def TickQuoted (price : ℕ) (tick quoted : ℤ) : Prop :=
  quoted = tick ∨ quoted = tick + 1 ∧ price = tickPrice quoted

/-- The tick of a price is the one of the program, or the next one exactly at its price. -/
theorem tickQuoted_of_price {price : ℕ} {tick : ℤ} (place : PriceTick price tick) :
    TickQuoted price tick (tickIndexFromSqrtPrice price) := by
  have computed := PriceTick.of_sqrtPrice place.priceAbove place.priceBelow
  have least := computed.le_tickIndex place.tickBelow place.tickPrice_le
  rcases least.eq_or_lt with same | beyond
  · exact .inl same.symm
  · have upper := place.le_tickPrice
    have lower := computed.tickPrice_le
    have next : tickIndexFromSqrtPrice price = tick + 1 := by
      by_contra apart
      have above := place.tickAbove
      have strict := sqrtPriceFromTickIndex_lt (by omega : minTickIndex ≤ tick + 1)
        (by omega : tick + 1 < tickIndexFromSqrtPrice price) computed.tickBelow
      rw [← tickPrice_of_range (by omega) computed.tickBelow,
        ← tickPrice_of_range (by omega) (by have := computed.tickBelow; omega)] at strict
      omega
    rw [← next] at upper
    exact .inr ⟨next, le_antisymm upper lower⟩

/-- After a step the SDK moves its tick and its liquidity with the program when a tick is crossed,
and its tick to the one of the price anyway. -/
theorem moveTick_follows (sound : context.Sound)
    (bounded : ∀ tick, (origin tick).initialized = true → -2 ^ 127 < (origin tick).liquidityNet)
    (holds : LoopInvariant context table state) (ticks : SameTicks origin table)
    (traverses : Traverses m context table state entry table' next)
    (holds' : LoopInvariant context table' next)
    (returned : swapIteration m context state = .ok (next, entry))
    (mirrors : Mirrors sequence state.swapTickSequence.arrays context.whirlpool.tickSpacing
      context.aToB startArrayIndex)
    (fetched : Fetched origin context.whirlpool.tickSpacing sequence)
    (touched : TouchedTo sequence count) {position : ℕ} {array : TickArray}
    (read : position < count)
    (found : state.swapTickSequence.arrays[position]? = some array)
    (inside : Within context.whirlpool.tickSpacing array entry.nextTickIndex) :
    ∃ liquidity tick flags,
      SwapManager.moveTick entry.computation.nextPrice (sqrtPriceFromTickIndex entry.nextTickIndex)
          state.currLiquidity entry.nextTickIndex context.aToB sequence =
        .ok (liquidity, tick, { sequence with touchedArrays := flags }) ∧
      TouchedTo { sequence with touchedArrays := flags } count ∧
      TickQuoted next.currSqrtPrice next.currTickIndex tick ∧
      (entry.crossed ≠ none → liquidity = next.currLiquidity ∧ tick = next.currTickIndex) := by
  obtain ⟨-, -, moved⟩ := swapIteration_computed returned
  have nextPrice := tickPrice_of_range traverses.range.1 traverses.range.2
  by_cases reached : entry.computation.nextPrice = sqrtPriceFromTickIndex entry.nextTickIndex
  · have marked := touched.touch read.le
      (mirrors.length_eq ▸ (List.getElem?_eq_some_iff.mp found).1)
    rw [max_eq_left read] at marked
    rw [if_pos reached] at moved
    unfold SwapManager.moveTick
    rw [if_pos (congrArg Nat.cast reached), mirrors.getTick_eq sound.spacing fetched found inside,
      ok_bind]
    refine ⟨_, _, _, rfl, marked, .inl moved.symm, fun crossed => ⟨?_, moved.symm⟩⟩
    obtain ⟨-, -, absent⟩ | ⟨-, -, absent⟩ | ⟨-, full, -, -, -, calculated⟩ := traverses.arrives
    · exact absurd absent crossed
    · exact absurd absent crossed
    · have aligned : entry.nextTickIndex / (context.whirlpool.tickSpacing : ℤ) *
          context.whirlpool.tickSpacing = entry.nextTickIndex :=
        Int.ediv_mul_cancel (checkIsUsableTick_iff.mp (holds.usable _ full)).2
      have full' := (ticks.initialized entry.nextTickIndex).symm.trans full
      have least := bounded _ full'
      rw [← ticks.liquidityNet] at least
      have liquidity := calculateUpdate_liquidity calculated least
      rw [aligned, if_pos full', liquidity, traverses.liquidity, ticks.liquidityNet]
      unfold SwapManager.calculateNextLiquidity crossingSign
      cases context.aToB
      · simp only [Bool.false_eq_true, ↓reduceIte, one_mul]
      · simp only [↓reduceIte, neg_one_mul, sub_eq_add_neg]
  · have place := holds'.place
    rw [traverses.nextPrice] at place
    unfold SwapManager.moveTick
    rw [if_neg (mt Nat.cast_inj.mp reached), sqrtPriceX64ToTickIndex_eq place.priceAbove
      place.priceBelow, ok_bind, traverses.nextPrice]
    refine ⟨_, _, sequence.touchedArrays, rfl, touched, tickQuoted_of_price place,
      fun crossed => ?_⟩
    rw [← nextPrice] at reached
    obtain ⟨-, -, absent⟩ | ⟨-, -, absent⟩ | ⟨arrived⟩ := traverses.arrives
    · exact absurd absent crossed
    · exact absurd absent crossed
    · exact absurd arrived reached

/-- Where both loops go on: the SDK is at the tick and the liquidity of the program, whose cursor is
at most one past the arrays the SDK has read. -/
structure Alongside (context : SwapContext) (startArrayIndex : ℤ) (state : SwapState)
    (other : LoopState Address) (count : ℕ) : Prop where
  liquidity : other.currLiquidity = state.currLiquidity
  tick : other.currTickIndex = state.currTickIndex
  placed : Placed context startArrayIndex state
  cursor : state.currArrayIndex ≤ count

/-- The loop of the SDK has come as far as that of the program: its amounts, price and fee are the
same, and it has read the arrays of all ticks the program went to. -/
structure Follows (context : SwapContext) (origin : TickTable) (sdk : TickArraySequence Address)
    (startArrayIndex : ℤ) (table : TickTable) (state : SwapState) (entries : List SwapIteration)
    (other : LoopState Address) (count : ℕ) : Prop where
  holds : LoopInvariant context table state
  ticks : SameTicks origin table
  remaining : other.amountRemaining = state.amountRemaining
  calculated : other.amountCalculated = state.amountCalculated
  price : other.currSqrtPrice = state.currSqrtPrice
  fee : other.totalFeeAmount = ((entries.map fun entry => entry.computation.feeAmount).sum : ℕ)
  tick : TickQuoted state.currSqrtPrice state.currTickIndex other.currTickIndex
  mirrors : Mirrors other.tickSequence state.swapTickSequence.arrays context.whirlpool.tickSpacing
    context.aToB startArrayIndex
  rest : other.tickSequence = { sdk with touchedArrays := other.tickSequence.touchedArrays }
  touched : TouchedTo other.tickSequence count
  read : ∀ entry ∈ entries, ∃ position < count,
    entry.nextTickIndex / context.whirlpool.tickSpacing / 88 =
      arrayIndexAt context.aToB startArrayIndex position
  running : swapContinues context state = true →
    Exhausted context state ∨ Alongside context startArrayIndex state other count

/-- Both loops go on alike. -/
theorem Follows.continues (follows : Follows context origin sdk startArrayIndex table state entries
    other count) : SwapManager.continues context.sqrtPriceLimit other =
      swapContinues context state := by
  unfold SwapManager.continues swapContinues
  rw [follows.remaining, follows.price, decide_eq_decide, Nat.cast_inj]
  exact and_congr Nat.cast_pos Iff.rfl

/-- The rows of a mirrored sequence. -/
theorem Mirrors.rowStarts {arrays : List TickArray} {tickSpacing : ℕ} {aToB : Bool}
    (mirrors : Mirrors sequence arrays tickSpacing aToB startArrayIndex) :
    RowStarts tickSpacing aToB startArrayIndex arrays := by
  intro position start found
  rw [List.getElem?_map, Option.map_eq_some_iff] at found
  obtain ⟨array, place, rfl⟩ := found
  rw [mirrors.row place, mul_assoc]
  rfl

/-- An iteration that goes on leaves the cursor at most one past the array of its tick. -/
theorem alongside_step (sound : context.Sound) (rate : context.whirlpool.feeRate < 2 ^ 16)
    (holds : LoopInvariant context table state) (runs : swapContinues context state = true)
    (returned : swapIteration m context state = .ok (next, entry))
    (traverses : Traverses m context table state entry table' next)
    (holds' : LoopInvariant context table' next)
    (row : RowStarts context.whirlpool.tickSpacing context.aToB startArrayIndex
      state.swapTickSequence.arrays)
    (read : ∀ position array, state.swapTickSequence.arrays[position]? = some array →
      Within context.whirlpool.tickSpacing array entry.nextTickIndex → position < count)
    (moved : entry.crossed ≠ none → other.currLiquidity = next.currLiquidity ∧
      other.currTickIndex = next.currTickIndex) (more : swapContinues context next = true) :
    Exhausted context next ∨ Alongside context startArrayIndex next other count := by
  by_cases crossed : entry.crossed = none
  · exact .inl (uncrossed_exhausted sound holds rate runs returned crossed)
  · have reached : entry.computation.nextPrice = tickPrice entry.nextTickIndex := by
      by_contra apart
      rw [traverses.short_stops holds'.place rate apart] at more
      exact Bool.false_ne_true more
    obtain ⟨arrayIndex, array, arrives⟩ :=
      swapIteration_arrivesAt sound traverses holds runs returned reached
    have before := read arrayIndex array arrives.place arrives.inside
    have cursor := arrives.cursor
    obtain ⟨liquidity, tick⟩ := moved crossed
    refine .inr ⟨liquidity, tick, placed_step sound rate holds runs returned row more, ?_⟩
    split_ifs at cursor <;> omega

/-- Every iteration of the program is followed by one of the SDK, where the step is rounded
alike. -/
theorem Follows.step (lib : CommonSdk) (sound : context.Sound)
    (rate : context.whirlpool.feeRate < 2 ^ 16)
    (bounded : ∀ tick, (origin tick).initialized = true → -2 ^ 127 < (origin tick).liquidityNet)
    (fetched : Fetched origin context.whirlpool.tickSpacing sdk)
    (follows : Follows context origin sdk startArrayIndex table state entries other count)
    (runs : swapContinues context state = true)
    (returned : swapIteration (.exact checks) context state = .ok (next, entry))
    (alike : StepsAlike state.amountRemaining context.whirlpool.feeRate state.currLiquidity
      state.currSqrtPrice (entry.target context) context.amountSpecifiedIsInput context.aToB) :
    ∃ table' next' entry' count',
      SwapManager.iteration lib context.whirlpool context.sqrtPriceLimit
          context.amountSpecifiedIsInput context.aToB other = .ok (next', entry') ∧
      Follows context origin sdk startArrayIndex table' next (entries ++ [entry]) next' count' := by
  have holds := follows.holds
  have positive := sound.spacing
  obtain alongside := (follows.running runs).resolve_left fun exhausted =>
    exhausted.stuck runs returned
  obtain ⟨table', traverses, holds'⟩ := swapIteration_traverses sound holds runs returned
  obtain ⟨⟨arrayIndex, searched⟩, computed, -⟩ := swapIteration_computed returned
  -- The search finds the same tick, and reads the array it lies in.
  have search := follows.mirrors.search_agree positive
    (fun array member => (holds.carried.arrays array member).valid) alongside.placed
  obtain ⟨⟨nextTickIndex, data, sequence⟩, searched', same⟩ := search.exists_of_left searched
  obtain rfl : nextTickIndex = entry.nextTickIndex := same
  have followed : Fetched origin context.whirlpool.tickSpacing other.tickSequence := by
    rw [follows.rest]
    exact fetched
  obtain ⟨count', rest, more, touched, read⟩ := follows.mirrors.findNext_reads positive
    followed follows.touched alongside.cursor alongside.placed searched'
  have mirrors : Mirrors sequence state.swapTickSequence.arrays context.whirlpool.tickSpacing
      context.aToB startArrayIndex := rest ▸ follows.mirrors.touch sequence.touchedArrays
  rw [follows.rest] at rest
  have reading : Fetched origin context.whirlpool.tickSpacing sequence := by
    rw [rest]
    exact fetched
  -- The step is the same.
  obtain ⟨range, -, -, onward⟩ := step_prices sound holds runs searched
  obtain ⟨step, computed', sameStep⟩ := ((computeSwapStep_agree_iff lib checks
    context.amountSpecifiedIsInput ⟨holds.remaining, rate, holds.liquidity, holds.place.priceAbove,
      holds.place.priceBelow, range.1, range.2, onward⟩).mpr alike).exists_of_left computed
  have amounts := accountAmounts_eq sameStep traverses.amounts
  obtain ⟨fees, charged⟩ := calculateFees_ok step.feeAmount context.whirlpool.protocolFeeRate
    state.currLiquidity other.currProtocolFee other.currFeeGrowthGlobalInput
  -- The tick the search returned is in an array that has been read.
  obtain ⟨array, place, inside⟩ := (search_spec sound holds runs searched).1.inside
  have position := read arrayIndex array place inside
  obtain ⟨liquidity, tick, flags, moved, touched', tickQuoted, crossing⟩ := moveTick_follows sound
    bounded holds follows.ticks traverses holds' returned mirrors reading touched
      position place inside
  unfold SameStep at sameStep
  subst sameStep
  have iterated : SwapManager.iteration lib context.whirlpool context.sqrtPriceLimit
      context.amountSpecifiedIsInput context.aToB other =
        .ok (⟨next.amountRemaining, next.amountCalculated, entry.computation.nextPrice,
          liquidity, tick, other.totalFeeAmount + entry.computation.feeAmount, fees.1, fees.2,
          { sequence with touchedArrays := flags }⟩, ⟨entry.computation.amountIn,
            entry.computation.amountOut, entry.computation.nextPrice,
            entry.computation.feeAmount⟩) := by
    unfold SwapManager.iteration
    rw [alongside.tick, searched', ok_bind]
    dsimp only
    rw [getNextSqrtPrices_eq traverses.range.2]
    dsimp only
    rw [follows.remaining, follows.price, alongside.liquidity, computed', ok_bind,
      follows.calculated, amounts]
    dsimp only
    rw [charged, ok_bind, moved, ok_bind]
  have starts := traverses.starts
  refine ⟨table', _, _, count', iterated, ?_⟩
  exact {
    holds := holds'
    ticks := follows.ticks.step traverses
    remaining := rfl
    calculated := rfl
    price := congrArg Nat.cast traverses.nextPrice.symm
    fee := by
      rw [List.map_append, List.sum_append, List.map_singleton, List.sum_singleton, Nat.cast_add,
        ← follows.fee]
    tick := tickQuoted
    mirrors := (mirrors.touch flags).of_carries holds.carried holds'.carried starts
      traverses.initialized_eq
    rest := congrArg (fun read : TickArraySequence Address => { read with touchedArrays := flags })
      rest
    touched := touched'
    read := fun passed member => by
      rcases List.mem_append.mp member with before | last
      · obtain ⟨place, inside, here⟩ := follows.read passed before
        exact ⟨place, inside.trans_le more, here⟩
      · rw [List.mem_singleton.mp last]
        exact ⟨arrayIndex, position, mirrors.arrayIndexAt_eq positive place inside⟩
    running := alongside_step sound rate holds runs returned traverses holds' mirrors.rowStarts read
      crossing }

end Simulation

section Run

variable {Address : Type} {checks : Bool} {m : Machine} {context : SwapContext} {lib : CommonSdk}
  {whirlpool : Whirlpool} {table : TickTable} {tickArrays : List (Address × TickArray)}
  {sdk : TickArraySequence Address} {state : SwapState} {amount sqrtPriceLimit timestamp : ℕ}
  {amountSpecifiedIsInput aToB : Bool} {outcome : SwapOutcome}

/-- The steps of a loop that the SDK rounds as the program does. -/
def RunsAlike (m : Machine) (context : SwapContext) (state : SwapState) : Prop :=
  ∀ entries middle next entry,
    Iterations (swapContinues context) (swapIteration m context) state entries middle →
    swapContinues context middle = true → swapIteration m context middle = .ok (next, entry) →
    StepsAlike middle.amountRemaining context.whirlpool.feeRate middle.currLiquidity
      middle.currSqrtPrice (entry.target context) context.amountSpecifiedIsInput context.aToB

/-- All steps from right to left are rounded alike. -/
theorem runsAlike_left (left : context.aToB = true) : RunsAlike m context state :=
  fun _ _ _ _ _ _ _ => .inl left

/-- A pool and the tick arrays fetched for a swap: in a row in the direction of the trade, from the
one that is searched first. -/
structure Quotable (whirlpool : Whirlpool) (table : TickTable)
    (tickArrays : List (Address × TickArray)) (aToB : Bool) : Prop where
  nonempty : tickArrays ≠ []
  tradable : Tradable whirlpool table ⟨tickArrays.map Prod.snd⟩
  rate : whirlpool.feeRate < 2 ^ 16
  bounded : ∀ tick, (table tick).initialized = true → -2 ^ 127 < (table tick).liquidityNet
  contiguous : Contiguous whirlpool.tickSpacing aToB (tickArrays.map Prod.snd)
  first : ∀ array, (tickArrays.map Prod.snd)[0]? = some array →
    array.inSearchRange whirlpool.tickCurrentIndex whirlpool.tickSpacing (!aToB) = true

/-- The result of the SDK is that of the program. -/
structure SameSwap (outcome : SwapOutcome) (result : SwapManager.SwapResult) : Prop where
  amountA : result.amountA = outcome.update.amountA
  amountB : result.amountB = outcome.update.amountB
  nextSqrtPrice : result.nextSqrtPrice = outcome.update.nextSqrtPrice
  totalFeeAmount : result.totalFeeAmount =
    ((outcome.iterations.map fun entry => entry.computation.feeAmount).sum : ℕ)
  nextTickIndex : TickQuoted outcome.update.nextSqrtPrice outcome.update.nextTickIndex
    result.nextTickIndex

/-- The arrays the SDK has read: the first ones, among them those of all ticks the program went
to. -/
structure ReadsFor (tickSpacing : ℕ) (aToB : Bool) (sdk : TickArraySequence Address)
    (outcome : SwapOutcome) (touched : TickArraySequence Address) (count : ℕ) : Prop where
  rest : touched = { sdk with touchedArrays := touched.touchedArrays }
  first : TouchedTo touched count
  reads : ∀ entry ∈ outcome.iterations, ∃ position < count,
    entry.nextTickIndex / tickSpacing / 88 = arrayIndexAt aToB sdk.startArrayIndex position

/-- A built sequence holds the arrays as fetched, none of them read. -/
theorem new_eq {tickSpacing : ℕ} (built : TickArraySequence.new (tickArrays.map fun tickArray =>
      (tickArray.1, some tickArray.2)) tickSpacing aToB = .ok sdk) :
    sdk.sequence = tickArrays.map
      (fun tickArray => InitializedTickArray.mk tickArray.1 tickArray.2) ∧ TouchedTo sdk 0 := by
  unfold TickArraySequence.new at built
  dsimp only at built
  rw [fetched_eq] at built
  cases tickArrays with
  | nil => simp only [List.map_nil, reduceCtorEq] at built
  | cons first rest =>
      simp only [List.map_cons, bind_eq_ok, Except.ok.injEq] at built
      obtain ⟨start, -, rfl⟩ := built
      refine ⟨rfl, Nat.zero_le _, List.length_replicate, fun position inside => ?_⟩
      rw [List.getElem?_replicate, if_pos inside, decide_eq_false (Nat.not_lt_zero position)]

/-- Both loops start alike. -/
theorem Follows.start (quotable : Quotable whirlpool table tickArrays aToB)
    (built : TickArraySequence.new (tickArrays.map fun tickArray =>
      (tickArray.1, some tickArray.2)) whirlpool.tickSpacing aToB = .ok sdk)
    (context_eq : context.whirlpool = whirlpool ∧ context.aToB = aToB)
    (holds : LoopInvariant context table
      (context.initialState ⟨tickArrays.map Prod.snd⟩ amount)) :
    Follows context table sdk sdk.startArrayIndex table
      (context.initialState ⟨tickArrays.map Prod.snd⟩ amount) []
      (SwapManager.initialState context.whirlpool sdk amount context.aToB) 0 := by
  obtain ⟨rfl, rfl⟩ := context_eq
  obtain ⟨startArrayIndex, mirrors⟩ := new_mirrors quotable.tradable.spacing
    quotable.contiguous built
  obtain rfl := mirrors.start_eq
  have placed : Placed context sdk.startArrayIndex
      (context.initialState ⟨tickArrays.map Prod.snd⟩ amount) := by
    cases tickArrays with
    | nil =>
        have refused : Except.error _ = Except.ok sdk := built
        simp only [reduceCtorEq] at refused
    | cons tickArray rest =>
        have head : ((tickArray :: rest).map Prod.snd)[0]? = some tickArray.2 := rfl
        exact mirrors.atCursor head (quotable.first tickArray.2 head)
  exact {
    holds := holds
    ticks := ⟨fun _ => rfl, fun _ => rfl⟩
    remaining := rfl
    calculated := rfl
    price := rfl
    fee := rfl
    tick := .inl rfl
    mirrors := mirrors
    rest := rfl
    touched := (new_eq built).2
    read := fun _ member => absurd member List.not_mem_nil
    running := fun _ => .inr ⟨rfl, rfl, placed, le_rfl⟩ }

/-- The SDK reads its estimates off the direction and the kind of amount. -/
theorem calculateEstTokens_eq (amount remaining calculated : BN) (aToB isIn : Bool) :
    SwapManager.calculateEstTokens amount remaining calculated aToB isIn =
      (if aToB = isIn then amount - remaining else calculated,
        if aToB = isIn then calculated else amount - remaining) := by
  unfold SwapManager.calculateEstTokens
  split_ifs <;> rfl

/-- The loop of the SDK follows that of the program to its end. -/
theorem Follows.run (lib : CommonSdk) {other : LoopState Address} {count fuel : ℕ}
    {startArrayIndex : ℤ} {origin : TickTable} {final : SwapState} {entries : List SwapIteration}
    (sound : context.Sound) (rate : context.whirlpool.feeRate < 2 ^ 16)
    (bounded : ∀ tick, (origin tick).initialized = true → -2 ^ 127 < (origin tick).liquidityNet)
    (fetched : Fetched origin context.whirlpool.tickSpacing sdk)
    (follows : Follows context origin sdk startArrayIndex table state [] other count)
    (alike : RunsAlike (.exact checks) context state)
    (iterations : Iterations (swapContinues context) (swapIteration (.exact checks) context) state
      entries final) (stops : swapContinues context final = false)
      (enough : entries.length ≤ fuel) :
    ∃ final' entries' table' count',
      whileLogged (SwapManager.continues context.sqrtPriceLimit)
          (SwapManager.iteration lib context.whirlpool context.sqrtPriceLimit
            context.amountSpecifiedIsInput context.aToB) .outOfFuel fuel other =
        .ok (final', entries') ∧
      Follows context origin sdk startArrayIndex table' final entries final' count' := by
  -- The relation also keeps that the state is reached, for the rounding of its step.
  obtain ⟨final', entries', looped, ⟨table', count', follows'⟩, -⟩ := whileLogged_simulates
    (fun middle entries (other : LoopState Address) => (∃ table' count', Follows context origin sdk
      startArrayIndex table' middle entries other count') ∧ Iterations (swapContinues context)
        (swapIteration (.exact checks) context) state entries middle)
    (fun _ _ _ ⟨⟨_, _, follows⟩, _⟩ => follows.continues)
    (fun middle entries other next entry ⟨⟨table', count', follows⟩, before⟩ runs stepped => by
      obtain ⟨table'', next', entry', count'', stepped', follows'⟩ := follows.step lib sound rate
        bounded fetched runs stepped (alike entries middle next entry before runs stepped)
      exact ⟨next', entry', stepped', ⟨table'', count'', follows'⟩,
        before.append (.step runs stepped (.done next))⟩)
    iterations stops enough ⟨⟨table, count, follows⟩, .done state⟩
  exact ⟨final', entries', table', count', looped, follows'⟩

/-- Whenever a swap over fetched arrays succeeds, the loop of the SDK returns its result, and has
read the arrays it went to. -/
theorem computeSwap_follows (lib : CommonSdk) (quotable : Quotable whirlpool table tickArrays aToB)
    (fits : amount < 2 ^ 64)
    (built : TickArraySequence.new (tickArrays.map fun tickArray =>
      (tickArray.1, some tickArray.2)) whirlpool.tickSpacing aToB = .ok sdk)
    (alike : ∀ rewardInfos, RunsAlike (.exact checks)
      (whirlpool.swapContext sqrtPriceLimit amountSpecifiedIsInput aToB rewardInfos)
      ((whirlpool.swapContext sqrtPriceLimit amountSpecifiedIsInput aToB rewardInfos).initialState
        ⟨tickArrays.map Prod.snd⟩ amount))
    (returned : Whirlpools.swap (.exact checks) whirlpool ⟨tickArrays.map Prod.snd⟩ amount
      sqrtPriceLimit amountSpecifiedIsInput aToB timestamp = .ok outcome) :
    ∃ result touched count,
      SwapManager.computeSwap lib whirlpool sdk amount sqrtPriceLimit amountSpecifiedIsInput aToB =
        .ok (result, touched) ∧
      SameSwap outcome result ∧ ReadsFor whirlpool.tickSpacing aToB sdk outcome touched count := by
  simp only [Whirlpools.swap, guard_eq_ok, bind_eq_ok, Except.ok.injEq] at returned
  obtain ⟨bounds, direction, -, rewardInfos, -, ⟨final, entries⟩, looped, update, posted, rfl⟩ :=
    returned
  simp only [not_or, not_lt, gt_iff_lt] at bounds
  obtain ⟨iterations, stops⟩ := whileLogged_iterations looped
  replace alike := alike rewardInfos
  unfold Whirlpool.swapContext at alike
  generalize context_eq : SwapContext.mk whirlpool sqrtPriceLimit amountSpecifiedIsInput aToB
    rewardInfos = context at alike posted iterations stops
  obtain ⟨rfl, rfl, rfl, rfl⟩ : context.whirlpool = whirlpool ∧ context.aToB = aToB ∧
      context.sqrtPriceLimit = sqrtPriceLimit ∧
      context.amountSpecifiedIsInput = amountSpecifiedIsInput := by
    rw [← context_eq]
    exact ⟨rfl, rfl, rfl, rfl⟩
  have sound : context.Sound := ⟨quotable.tradable.spacing, bounds⟩
  have holds := LoopInvariant.initial context table ⟨tickArrays.map Prod.snd⟩ quotable.tradable fits
    direction
  have fetched : Fetched table context.whirlpool.tickSpacing sdk := by
    intro array member
    rw [(new_eq built).1] at member
    obtain ⟨tickArray, supplied, rfl⟩ := List.mem_map.mp member
    exact quotable.tradable.carried.arrays _ (List.mem_map_of_mem supplied)
  obtain ⟨last, traversal, -⟩ := iterations_traversal sound iterations holds
  have left : final.amountRemaining ≤ amount := traversal.remaining_le
  have enough : entries.length ≤ 88 * sdk.sequence.length + 3 := by
    have length := iterations_length_le sound quotable.rate iterations holds
    have ticks := initializedTicks_length_le ⟨tickArrays.map Prod.snd⟩ context.whirlpool.tickSpacing
    rw [List.length_map] at ticks
    rw [(new_eq built).1, List.length_map]
    exact length.trans ((Nat.succ_le_succ ticks).trans (by omega))
  obtain ⟨final', entries', table', count, looped', follows⟩ := (Follows.start quotable built
    ⟨rfl, rfl⟩ holds).run lib sound quotable.rate quotable.bounded fetched alike
      iterations stops enough
  simp only [SwapContext.postSwapUpdate, bind_eq_ok, Except.ok.injEq,
    Machine.plainSub_of_le _ left] at posted
  obtain ⟨used, rfl, -, -, rfl⟩ := posted
  have spent : ((amount - final.amountRemaining : ℕ) : ℤ) = amount - final'.amountRemaining := by
    rw [follows.remaining, Nat.cast_sub left]
  unfold SwapManager.computeSwap
  rw [looped', ok_bind]
  dsimp only
  rw [calculateEstTokens_eq, follows.calculated, ← spent]
  exact ⟨_, _, count, rfl, ⟨(apply_ite Nat.cast _ _ _).symm, (apply_ite Nat.cast _ _ _).symm,
    follows.price, follows.fee, follows.tick⟩, follows.rest, follows.touched, follows.read⟩

end Run

/-- One fetched array, filed under its start. -/
def singleFetched : List (ℤ × TickArray) := [(0, (singleTick 5 (-7) 7).arrayAt 1 0)]

/-- The sequence built from it. -/
def singleSequence : TickArraySequence ℤ :=
  ⟨[⟨0, (singleTick 5 (-7) 7).arrayAt 1 0⟩], [false], 0, 1, true⟩

/-- The pool with a single tick can be quoted. -/
theorem singleFetched_quotable (liquidity : ℕ) (fits : liquidity < 2 ^ 128) :
    Quotable (poolAtTick 8 liquidity) (singleTick 5 (-7) 7) singleFetched true where
  nonempty := List.cons_ne_nil _ _
  tradable := poolAtTick_tradable (by decide) (by decide) fits (by decide)
  rate := by
    change 0 < 2 ^ 16
    decide
  bounded := fun tick _ => by
    unfold singleTick
    split_ifs <;> decide
  contiguous := by
    refine ⟨fun array member => ?_, fun position array next found last => ?_⟩
    · obtain rfl := List.mem_singleton.mp member
      change Tick.checkIsValidStartTick 0 1 = true
      decide
    · have inside : position + 1 < 1 := (List.getElem?_eq_some_iff.mp last).1
      omega
  first := fun array found => by
    obtain rfl := Option.some.inj found
    refine inSearchRange_iff.mpr ?_
    change (0 : ℤ) ≤ 8 + 0 ∧ (8 : ℤ) + 0 < 0 + 88 * 1
    decide

/-- Crossing tick 5 from right to left, and stopping at the limit. -/
theorem computeSwap_follows_leftward : ∃ outcome result touched count,
    Whirlpools.swap (.exact true) (poolAtTick 8 0) ⟨singleFetched.map Prod.snd⟩ 1000
        (sqrtPriceFromTickIndex 3) true true 0 = .ok outcome ∧
      crossings outcome.iterations = [5] ∧
      SwapManager.computeSwap .plain (poolAtTick 8 0) singleSequence (1000 : ℕ)
          (sqrtPriceFromTickIndex 3 : ℕ) true true = .ok (result, touched) ∧
      SameSwap outcome result ∧ ReadsFor 1 true singleSequence outcome touched count := by
  have ran : yields
      (Whirlpools.swap (.exact true) (poolAtTick 8 0) ⟨singleFetched.map Prod.snd⟩ 1000
        (sqrtPriceFromTickIndex 3) true true 0)
      (fun outcome => crossings outcome.iterations == [5]) = true := by decide +kernel
  obtain ⟨outcome, returned, crossed⟩ := yields_iff.mp ran
  have built : TickArraySequence.new (singleFetched.map fun tickArray =>
      (tickArray.1, some tickArray.2)) (poolAtTick 8 0).tickSpacing true = .ok singleSequence := rfl
  obtain ⟨result, touched, count, computed, same, reads⟩ := computeSwap_follows .plain
    (singleFetched_quotable 0 (by decide)) (by decide) built (fun _ => runsAlike_left rfl) returned
  exact ⟨outcome, result, touched, count, returned, eq_of_beq crossed, computed, same, reads⟩

end Whirlpools.Sdk
