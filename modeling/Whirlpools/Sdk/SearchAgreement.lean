import Whirlpools.Foundation.Agreement
import Whirlpools.Sdk.StartingArrays
import Whirlpools.Sdk.TickArraySequence
import Whirlpools.Swap.Termination

/-! # The chain and the SDK search the same ticks

Slots are numbered by the quotient of their tick and the spacing. The SDK walks over these
numbers, the program over the offsets of one array after the other. From a slot of an array
both find the same tick there, or both arrive at the first slot of the next array.
-/

namespace Whirlpools.Sdk

open Outcome

section Slots

variable {tickSpacing : ℕ}

/-- The slot of a number. -/
def slot (tickSpacing : ℕ) (number : ℤ) : TickArrayIndex := ⟨number / 88, number % 88, tickSpacing⟩

/-- A slot stands for a multiple of the spacing. -/
theorem toTickIndex_slot (number : ℤ) : (slot tickSpacing number).toTickIndex =
    number * tickSpacing := by
  have split := Int.mul_ediv_add_emod number 88
  change number / 88 * 88 * (tickSpacing : ℤ) + number % 88 * tickSpacing = _
  rw [← add_mul]
  congr 1
  omega

/-- The SDK finds the slot of a tick by its quotient. -/
theorem fromTickIndex_eq (positive : 0 < tickSpacing) (index : ℤ) :
    TickArrayIndex.fromTickIndex index tickSpacing =
      .ok (slot tickSpacing (index / tickSpacing)) := by
  have spacing : (0 : ℤ) < tickSpacing := by exact_mod_cast positive
  have width : (0 : ℤ) < tickSpacing * 88 := by omega
  have split := Int.mul_tdiv_add_tmod index (tickSpacing * 88)
  have below := Int.tmod_lt_of_pos index width
  have above := Int.lt_tmod_of_pos index width
  have quotient : index / tickSpacing = index.tdiv (tickSpacing * 88) * 88 +
      index.tmod (tickSpacing * 88) / tickSpacing := by
    have regroup : index = index.tmod (tickSpacing * 88) +
        index.tdiv (tickSpacing * 88) * 88 * tickSpacing := by linarith
    conv_lhs => rw [regroup]
    rw [Int.add_mul_ediv_right _ _ spacing.ne', add_comm]
  have small : index.tmod (tickSpacing * 88) / tickSpacing < 88 :=
    Int.ediv_lt_of_lt_mul spacing (by linarith)
  have large : -88 ≤ index.tmod (tickSpacing * 88) / (tickSpacing : ℤ) :=
    (Int.le_ediv_iff_mul_le spacing).mpr (by linarith)
  have offset : (if index.tmod (tickSpacing * 88) / (tickSpacing : ℤ) < 0 then
      88 + index.tmod (tickSpacing * 88) / tickSpacing
      else index.tmod (tickSpacing * 88) / tickSpacing) = index / tickSpacing % 88 := by
    rw [quotient]
    split_ifs <;> omega
  unfold TickArrayIndex.fromTickIndex
  dsimp only
  have inside := Int.emod_lt_of_pos (index / tickSpacing) (show (0 : ℤ) < 88 by norm_num)
  have nonneg := Int.emod_nonneg (index / tickSpacing) (show (88 : ℤ) ≠ 0 by norm_num)
  rw [show tickArraySize = 88 from rfl, offset, TickArrayIndex.new,
    if_neg (by unfold tickArraySize; omega), if_neg (by omega), if_neg (by omega), slot]

/-- The SDK finds the slot of a usable tick. -/
theorem fromTickIndex_mul (positive : 0 < tickSpacing) (number : ℤ) :
    TickArrayIndex.fromTickIndex (number * tickSpacing) tickSpacing =
      .ok (slot tickSpacing number) := by
  rw [fromTickIndex_eq positive, Int.mul_ediv_cancel _ (by exact_mod_cast positive.ne')]

theorem toNext_slot (positive : 0 < tickSpacing) (number : ℤ) :
    (slot tickSpacing number).toNextInitializableTickIndex =
      .ok (slot tickSpacing (number + 1)) := by
  have next : number * (tickSpacing : ℤ) + tickSpacing = (number + 1) * tickSpacing := by ring
  rw [TickArrayIndex.toNextInitializableTickIndex, toTickIndex_slot]
  change TickArrayIndex.fromTickIndex (number * (tickSpacing : ℤ) + tickSpacing) tickSpacing = _
  rw [next, fromTickIndex_mul positive]

/-- The slot before has the number before. -/
theorem toPrev_slot (positive : 0 < tickSpacing) (number : ℤ) :
    (slot tickSpacing number).toPrevInitializableTickIndex =
      .ok (slot tickSpacing (number - 1)) := by
  have previous : number * (tickSpacing : ℤ) - tickSpacing = (number - 1) * tickSpacing := by ring
  rw [TickArrayIndex.toPrevInitializableTickIndex, toTickIndex_slot]
  change TickArrayIndex.fromTickIndex (number * (tickSpacing : ℤ) - tickSpacing) tickSpacing = _
  rw [previous, fromTickIndex_mul positive]

/-- The offset in an array that has some more offsets after it in the direction of the trade. -/
def offsetAt (aToB : Bool) (remaining : ℕ) : ℤ := if aToB then remaining else 87 - remaining

/-- The index of an array at a position of a row. -/
def arrayIndexAt (aToB : Bool) (startArrayIndex : ℤ) (position : ℕ) : ℤ :=
  if aToB then startArrayIndex - position else startArrayIndex + position

/-- The number of a slot of an array of a row. -/
def numberAt (aToB : Bool) (startArrayIndex : ℤ) (position remaining : ℕ) : ℤ :=
  arrayIndexAt aToB startArrayIndex position * 88 + offsetAt aToB remaining

variable {aToB : Bool} {startArrayIndex : ℤ} {position remaining : ℕ}

/-- The offset of a slot is inside its array. -/
theorem offsetAt_range (inside : remaining < 88) :
    0 ≤ offsetAt aToB remaining ∧ offsetAt aToB remaining < 88 := by
  unfold offsetAt
  split_ifs <;> omega

/-- The number of a slot tells the array it is in. -/
theorem numberAt_ediv (inside : remaining < 88) :
    numberAt aToB startArrayIndex position remaining / 88 =
      arrayIndexAt aToB startArrayIndex position := by
  have range := @offsetAt_range aToB _ inside
  unfold numberAt
  omega

theorem numberAt_emod (inside : remaining < 88) :
    numberAt aToB startArrayIndex position remaining % 88 = offsetAt aToB remaining := by
  have range := @offsetAt_range aToB _ inside
  unfold numberAt
  omega

/-- The slot after one with offsets left is in the same array. -/
theorem numberAt_succ :
    (if aToB then numberAt aToB startArrayIndex position (remaining + 1) - 1
      else numberAt aToB startArrayIndex position (remaining + 1) + 1) =
      numberAt aToB startArrayIndex position remaining := by
  unfold numberAt offsetAt
  split_ifs <;> push_cast <;> omega

/-- The slot after the last one of an array is the first one of the next array. -/
theorem numberAt_zero :
    (if aToB then numberAt aToB startArrayIndex position 0 - 1
      else numberAt aToB startArrayIndex position 0 + 1) =
      numberAt aToB startArrayIndex (position + 1) 87 := by
  unfold numberAt offsetAt arrayIndexAt
  split_ifs <;> push_cast <;> omega

end Slots

section Row

/-- Two arrays with the same slots initialized. -/
structure SameSlots (chain sdk : TickArray) : Prop where
  start : sdk.startTickIndex = chain.startTickIndex
  initialized : ∀ offset, (sdk.tick offset).initialized = (chain.tick offset).initialized

/-- A sequence of the SDK whose arrays have the slots of given arrays, which lie in a row in
the direction of the trade. -/
structure Mirrors {Address : Type} (sdk : TickArraySequence Address) (arrays : List TickArray)
    (tickSpacing : ℕ) (aToB : Bool) (startArrayIndex : ℤ) : Prop where
  spacing_eq : sdk.tickSpacing = tickSpacing
  direction_eq : sdk.aToB = aToB
  start_eq : sdk.startArrayIndex = startArrayIndex
  length_eq : sdk.sequence.length = arrays.length
  slots : ∀ {position : ℕ} {array : TickArray}, arrays[position]? = some array →
    ∃ fetched, sdk.sequence[position]? = some fetched ∧ SameSlots array fetched.data
  row : ∀ {position : ℕ} {array : TickArray}, arrays[position]? = some array →
    array.startTickIndex = arrayIndexAt aToB startArrayIndex position * 88 * tickSpacing

variable {Address : Type} {sdk : TickArraySequence Address} {arrays : List TickArray}
  {tickSpacing : ℕ} {aToB : Bool} {startArrayIndex : ℤ} {array : TickArray}
  {position remaining : ℕ}

/-- Which arrays are touched does not matter to the sequence. -/
theorem Mirrors.touch (mirrors : Mirrors sdk arrays tickSpacing aToB startArrayIndex)
    (touched : List Bool) :
    Mirrors { sdk with touchedArrays := touched } arrays tickSpacing aToB startArrayIndex :=
  ⟨mirrors.spacing_eq, mirrors.direction_eq, mirrors.start_eq, mirrors.length_eq, mirrors.slots,
    mirrors.row⟩

/-- The SDK locates an array of the row at its position. -/
theorem Mirrors.getLocalArrayIndex (mirrors : Mirrors sdk arrays tickSpacing aToB startArrayIndex) :
    sdk.getLocalArrayIndex (arrayIndexAt aToB startArrayIndex position) = position := by
  unfold TickArraySequence.getLocalArrayIndex arrayIndexAt
  rw [mirrors.direction_eq, mirrors.start_eq]
  split_ifs <;> omega

/-- A slot is in bounds when its array is among those given. -/
theorem Mirrors.inBounds (mirrors : Mirrors sdk arrays tickSpacing aToB startArrayIndex)
    (inside : remaining < 88) :
    sdk.isArrayIndexInBounds (slot tickSpacing
      (numberAt aToB startArrayIndex position remaining)) = true ↔ position < arrays.length := by
  unfold TickArraySequence.isArrayIndexInBounds
  dsimp only [slot]
  rw [numberAt_ediv inside, mirrors.getLocalArrayIndex, mirrors.length_eq, decide_eq_true_eq]
  omega

/-- The tick of a slot of the row. -/
theorem Mirrors.tick_eq (mirrors : Mirrors sdk arrays tickSpacing aToB startArrayIndex)
    (found : arrays[position]? = some array) :
    numberAt aToB startArrayIndex position remaining * tickSpacing =
      offsetAt aToB remaining * tickSpacing + array.startTickIndex := by
  rw [mirrors.row found]
  unfold numberAt
  ring

/-- The SDK reads the slot of a number, and touches its array. -/
theorem Mirrors.getTick (mirrors : Mirrors sdk arrays tickSpacing aToB startArrayIndex)
    (positive : 0 < tickSpacing) (found : arrays[position]? = some array)
    (inside : remaining < 88) :
    ∃ tick touched,
      sdk.getTick (numberAt aToB startArrayIndex position remaining * tickSpacing) =
        .ok (tick, { sdk with touchedArrays := touched }) ∧
      tick.initialized = (array.tick (offsetAt aToB remaining)).initialized := by
  obtain ⟨fetched, fetched_eq, same⟩ := mirrors.slots found
  have spacing : (0 : ℤ) < tickSpacing := by exact_mod_cast positive
  have bounded := (mirrors.inBounds inside).mpr (List.getElem?_eq_some_iff.mp found).1
  have range := @offsetAt_range aToB _ inside
  unfold TickArraySequence.getTick
  rw [mirrors.spacing_eq, fromTickIndex_mul positive, ok_bind, if_neg (not_not.mpr bounded)]
  have place : (sdk.getLocalArrayIndex (slot tickSpacing
      (numberAt aToB startArrayIndex position remaining)).arrayIndex).toNat = position := by
    dsimp only [slot]
    rw [numberAt_ediv inside, mirrors.getLocalArrayIndex, Int.toNat_natCast]
  dsimp only
  rw [place, fetched_eq]
  dsimp only
  rw [if_neg]
  · refine ⟨_, _, rfl, ?_⟩
    dsimp only [slot]
    rw [numberAt_emod inside, same.initialized]
  · rw [not_not, TickArraySequence.checkIfIndexIsInTickArrayRange, same.start,
      mirrors.tick_eq found, mirrors.spacing_eq]
    unfold tickArraySize
    rw [decide_eq_true_eq]
    constructor <;> nlinarith

/-- One slot of the walk of the SDK: it is returned, or the walk goes on from the next one. -/
theorem Mirrors.searchSlots_step (mirrors : Mirrors sdk arrays tickSpacing aToB startArrayIndex)
    (positive : 0 < tickSpacing) (found : arrays[position]? = some array)
    (inside : remaining < 88) (fuel : ℕ) :
    ∃ tick touched, tick.initialized = (array.tick (offsetAt aToB remaining)).initialized ∧
      TickArraySequence.searchSlots (fuel + 1) sdk
          (slot tickSpacing (numberAt aToB startArrayIndex position remaining)) =
        if tick.initialized then
          .ok (offsetAt aToB remaining * tickSpacing + array.startTickIndex, some tick,
            { sdk with touchedArrays := touched })
        else
          TickArraySequence.searchSlots fuel { sdk with touchedArrays := touched }
            (slot tickSpacing
              (if aToB then numberAt aToB startArrayIndex position remaining - 1
                else numberAt aToB startArrayIndex position remaining + 1)) := by
  obtain ⟨tick, touched, read, same⟩ := mirrors.getTick positive found inside
  refine ⟨tick, touched, same, ?_⟩
  rw [TickArraySequence.searchSlots, if_pos ((mirrors.inBounds inside).mpr
    (List.getElem?_eq_some_iff.mp found).1), toTickIndex_slot, read, ok_bind]
  dsimp only
  rw [mirrors.tick_eq found, mirrors.direction_eq, toNext_slot positive, toPrev_slot positive]
  cases aToB <;> rfl

/-- From a slot of an array both searches find the same tick in it, or the SDK goes on with
the first slot of the next array. -/
theorem Mirrors.searchSlots_array (mirrors : Mirrors sdk arrays tickSpacing aToB startArrayIndex)
    (positive : 0 < tickSpacing) (found : arrays[position]? = some array)
    (inside : remaining < 88) {scanFuel : ℕ} (enough : remaining < scanFuel) (fuel : ℕ) :
    ∃ touched,
      match array.scanOffsets tickSpacing aToB scanFuel (offsetAt aToB remaining) with
      | some next => ∃ tick,
          TickArraySequence.searchSlots (fuel + (remaining + 1)) sdk
              (slot tickSpacing (numberAt aToB startArrayIndex position remaining)) =
            .ok (next, some tick, { sdk with touchedArrays := touched })
      | none =>
          TickArraySequence.searchSlots (fuel + (remaining + 1)) sdk
              (slot tickSpacing (numberAt aToB startArrayIndex position remaining)) =
            TickArraySequence.searchSlots fuel { sdk with touchedArrays := touched }
              (slot tickSpacing (numberAt aToB startArrayIndex (position + 1) 87)) := by
  induction remaining generalizing sdk scanFuel with
  | zero =>
      obtain ⟨scanFuel, rfl⟩ := Nat.exists_eq_add_one.mpr enough
      obtain ⟨tick, touched, same, step⟩ := mirrors.searchSlots_step positive found inside fuel
      refine ⟨touched, ?_⟩
      rw [numberAt_zero] at step
      have range : offsetAt aToB 0 ≥ 0 ∧ offsetAt aToB 0 < tickArraySize := offsetAt_range inside
      rw [TickArray.scanOffsets, if_pos range, ← same]
      cases full : tick.initialized with
      | true =>
          rw [full, if_pos rfl] at step
          exact ⟨tick, step⟩
      | false =>
          rw [full, if_neg Bool.false_ne_true] at step
          have ends : array.scanOffsets tickSpacing aToB scanFuel
              (if aToB then offsetAt aToB 0 - 1 else offsetAt aToB 0 + 1) = none := by
            cases scanFuel with
            | zero => rfl
            | succ scanFuel =>
                rw [TickArray.scanOffsets, if_neg]
                unfold offsetAt tickArraySize
                cases aToB <;> simp only [Bool.false_eq_true, ↓reduceIte] <;> omega
          rw [if_neg Bool.false_ne_true, ends]
          exact step
  | succ remaining ih =>
      obtain ⟨scanFuel, rfl⟩ := Nat.exists_eq_add_one.mpr (Nat.zero_lt_of_lt enough)
      obtain ⟨tick, touched, same, step⟩ :=
        mirrors.searchSlots_step positive found inside (fuel + (remaining + 1))
      rw [numberAt_succ] at step
      have range : offsetAt aToB (remaining + 1) ≥ 0 ∧
          offsetAt aToB (remaining + 1) < tickArraySize := offsetAt_range inside
      have onward : (if aToB then offsetAt aToB (remaining + 1) - 1
          else offsetAt aToB (remaining + 1) + 1) = offsetAt aToB remaining := by
        unfold offsetAt
        split_ifs <;> push_cast <;> omega
      rw [TickArray.scanOffsets, if_pos range, onward, ← same]
      cases full : tick.initialized with
      | true =>
          rw [full, if_pos rfl] at step
          exact ⟨touched, tick, step⟩
      | false =>
          rw [full, if_neg Bool.false_ne_true] at step
          obtain ⟨touched', rest⟩ := ih (mirrors.touch touched) (by omega)
            (show remaining < scanFuel by omega)
          refine ⟨touched', ?_⟩
          rw [if_neg Bool.false_ne_true, ← Nat.add_assoc fuel, step]
          exact rest

/-- The tick at which a search ends that finds nothing in the last array. -/
def rowEnd (tickSpacing : ℕ) (aToB : Bool) (array : TickArray) : ℤ :=
  max (min (if aToB then array.startTickIndex
    else array.startTickIndex + arrayWidth tickSpacing - 1) maxTickIndex) minTickIndex

/-- The last index of an array is the end of its row. -/
theorem Mirrors.lastIndexInArray (mirrors : Mirrors sdk arrays tickSpacing aToB startArrayIndex)
    (found : arrays[position]? = some array) :
    sdk.lastIndexInArray (slot tickSpacing (numberAt aToB startArrayIndex (position + 1) 87)) =
      rowEnd tickSpacing aToB array := by
  unfold TickArraySequence.lastIndexInArray rowEnd
  rw [toTickIndex_slot, mirrors.direction_eq, mirrors.spacing_eq, mirrors.row found]
  unfold numberAt arrayIndexAt offsetAt arrayWidth tickArraySize
  congr 2
  cases aToB <;> simp only [Bool.false_eq_true, ↓reduceIte] <;> push_cast <;> ring

/-- No valid start is at the edge of the range. -/
theorem start_ne_min (valid : Tick.checkIsValidStartTick array.startTickIndex tickSpacing = true) :
    array.startTickIndex ≠ minTickIndex ∧
      array.startTickIndex + arrayWidth tickSpacing ≠ minTickIndex := by
  have width : (88 : ℤ) ∣ arrayWidth tickSpacing := Dvd.intro _ rfl
  have divides : (88 : ℤ) ∣ array.startTickIndex := width.trans (checkIsValidStartTick_dvd valid).1
  unfold minTickIndex
  omega

/-- The program ends a search in the last array where the SDK does. -/
theorem searchArrays_last (positive : 0 < tickSpacing)
    (valid : Tick.checkIsValidStartTick array.startTickIndex tickSpacing = true) :
    (if aToB = true ∧ array.isMinTickArray = true then Except.ok (position, minTickIndex)
      else if ¬ aToB = true ∧ array.isMaxTickArray tickSpacing = true then
        .ok (position, maxTickIndex)
      else if aToB = true then .ok (position, array.startTickIndex)
      else .ok (position, array.startTickIndex + tickArraySize * tickSpacing - 1) :
        Result (ℕ × ℤ)) = .ok (position, rowEnd tickSpacing aToB array) := by
  obtain ⟨-, above, below⟩ := (checkIsValidStartTick_iff positive).mp valid
  obtain ⟨-, edge⟩ := start_ne_min valid
  have least : minTickIndex ≤ maxTickIndex := minTickIndex_le_max
  unfold rowEnd
  cases aToB with
  | true =>
      simp only [true_and, not_true_eq_false, false_and, ↓reduceIte, TickArray.isMinTickArray,
        decide_eq_true_eq]
      rw [min_eq_left below]
      split_ifs with extreme
      · rw [max_eq_right extreme]
      · rw [max_eq_left (not_le.mp extreme).le]
  | false =>
      simp only [Bool.false_eq_true, false_and, not_false_eq_true, true_and, ↓reduceIte,
        TickArray.isMaxTickArray, decide_eq_true_eq]
      change (if array.startTickIndex + arrayWidth tickSpacing > maxTickIndex then _ else
        Except.ok (position, array.startTickIndex + arrayWidth tickSpacing - 1)) = _
      split_ifs with extreme
      · rw [min_eq_right (by omega), max_eq_left least]
      · rw [min_eq_left (by omega), max_eq_left (by omega)]

end Row

section Search

variable {Address : Type} {sdk : TickArraySequence Address} {arrays : List TickArray}
  {tickSpacing : ℕ} {aToB : Bool} {startArrayIndex : ℤ} {array : TickArray}
  {position remaining : ℕ}

/-- The same tick found. -/
def SameNext (chain : ℕ × ℤ) (found : ℤ × Option Tick × TickArraySequence Address) : Prop :=
  found.1 = chain.2

/-- A tick from which a search starts at a slot of an array. -/
structure SearchesFrom (tickSpacing : ℕ) (aToB : Bool) (startArrayIndex : ℤ) (array : TickArray)
    (position : ℕ) (tick : ℤ) (remaining : ℕ) : Prop where
  searched : array.inSearchRange tick tickSpacing (!aToB) = true
  inside : remaining < 88
  number : numberAt aToB startArrayIndex position remaining =
    if aToB then tick / tickSpacing else tick / tickSpacing + 1

/-- The program scans an array from the slot of the search. -/
theorem Mirrors.getNextInitTickIndex
    (mirrors : Mirrors sdk arrays tickSpacing aToB startArrayIndex) (positive : 0 < tickSpacing)
    (found : arrays[position]? = some array) {tick : ℤ}
    (begins : SearchesFrom tickSpacing aToB startArrayIndex array position tick remaining) :
    array.getNextInitTickIndex tick tickSpacing aToB =
      .ok (array.scanOffsets tickSpacing aToB 89 (offsetAt aToB remaining)) := by
  have spacing : (tickSpacing : ℤ) ≠ 0 := by exact_mod_cast positive.ne'
  have distance : (tick - array.startTickIndex) / (tickSpacing : ℤ) =
      tick / tickSpacing - arrayIndexAt aToB startArrayIndex position * 88 := by
    rw [mirrors.row found, sub_eq_add_neg, ← neg_mul, Int.add_mul_ediv_right _ _ spacing]
    omega
  have place : (if aToB then (tick - array.startTickIndex) / (tickSpacing : ℤ)
      else (tick - array.startTickIndex) / (tickSpacing : ℤ) + 1) = offsetAt aToB remaining := by
    have number := begins.number
    unfold numberAt at number
    rw [distance]
    split_ifs at number ⊢ <;> omega
  unfold TickArray.getNextInitTickIndex
  rw [if_neg (not_not.mpr begins.searched), TickArray.tickOffset, if_neg positive.ne',
    getOffset_eq positive, ok_bind]
  dsimp only
  rw [place]

/-- The quotient just below a multiple. -/
private theorem mul_sub_one_ediv {width : ℤ} (positive : 0 < width) (multiple : ℤ) :
    (multiple * width - 1) / width = multiple - 1 := by
  rw [show multiple * width - 1 = (width - 1) + (multiple - 1) * width by ring,
    Int.add_mul_ediv_right _ _ positive.ne', Int.ediv_eq_zero_of_lt (by omega) (by omega), zero_add]

/-- The program goes on where the next array of the row is searched from its first slot. -/
theorem Mirrors.searchesNext (mirrors : Mirrors sdk arrays tickSpacing aToB startArrayIndex)
    (positive : 0 < tickSpacing) {next : TickArray} (found : arrays[position]? = some array)
    (foundNext : arrays[position + 1]? = some next) :
    SearchesFrom tickSpacing aToB startArrayIndex next (position + 1)
      (if aToB then array.startTickIndex - 1
        else array.startTickIndex + tickArraySize * tickSpacing - 1) 87 := by
  have spacing : (0 : ℤ) < tickSpacing := by exact_mod_cast positive
  have here := mirrors.row found
  have there := mirrors.row foundNext
  refine ⟨inSearchRange_iff.mpr ?_, by norm_num, ?_⟩
  · rw [there, here]
    unfold searchTick arrayIndexAt arrayWidth tickArraySize
    push_cast
    cases aToB <;> simp only [Bool.false_eq_true, ↓reduceIte] <;> constructor <;> nlinarith
  · rw [here]
    unfold numberAt offsetAt arrayIndexAt tickArraySize
    cases aToB <;> simp only [Bool.false_eq_true, ↓reduceIte]
    · rw [show (startArrayIndex + (position : ℤ)) * 88 * tickSpacing + 88 * tickSpacing - 1 =
        ((startArrayIndex + position) * 88 + 88) * tickSpacing - 1 by ring,
        mul_sub_one_ediv spacing]
      push_cast
      ring
    · rw [mul_sub_one_ediv spacing]
      push_cast
      ring

/-- The arrays of a search lie next to each other, so that none but the last reaches the edge
of the range. -/
theorem Mirrors.not_extreme (mirrors : Mirrors sdk arrays tickSpacing aToB startArrayIndex)
    (positive : 0 < tickSpacing) {next : TickArray} (found : arrays[position]? = some array)
    (foundNext : arrays[position + 1]? = some next)
    (valid : Tick.checkIsValidStartTick array.startTickIndex tickSpacing = true)
    (validNext : Tick.checkIsValidStartTick next.startTickIndex tickSpacing = true) :
    ¬ (aToB = true ∧ array.isMinTickArray = true) ∧
      ¬ (¬ aToB = true ∧ array.isMaxTickArray tickSpacing = true) := by
  obtain ⟨-, above, below⟩ := (checkIsValidStartTick_iff positive).mp validNext
  obtain ⟨edge, -⟩ := start_ne_min valid
  have adjacent : next.startTickIndex = if aToB then array.startTickIndex - arrayWidth tickSpacing
      else array.startTickIndex + arrayWidth tickSpacing := by
    rw [mirrors.row found, mirrors.row foundNext]
    unfold arrayIndexAt arrayWidth tickArraySize
    push_cast
    split_ifs <;> ring
  cases aToB with
  | true =>
      simp only [↓reduceIte] at adjacent
      simp only [true_and, not_true_eq_false, false_and, not_false_eq_true, and_true,
        TickArray.isMinTickArray, decide_eq_true_eq]
      omega
  | false =>
      simp only [Bool.false_eq_true, ↓reduceIte] at adjacent
      simp only [Bool.false_eq_true, false_and, not_false_eq_true, true_and,
        TickArray.isMaxTickArray, decide_eq_true_eq]
      change ¬ array.startTickIndex + arrayWidth tickSpacing > maxTickIndex
      omega

/-- In one array, both searches find the same tick or none. -/
theorem Mirrors.searchArray_agree (mirrors : Mirrors sdk arrays tickSpacing aToB startArrayIndex)
    (positive : 0 < tickSpacing) (found : arrays[position]? = some array) {tick : ℤ}
    (begins : SearchesFrom tickSpacing aToB startArrayIndex array position tick remaining)
    {fuel : ℕ} (enough : remaining < fuel) :
    ∃ touched,
      (∃ next data,
        array.getNextInitTickIndex tick tickSpacing aToB = .ok (some next) ∧
        TickArraySequence.searchSlots fuel sdk
            (slot tickSpacing (numberAt aToB startArrayIndex position remaining)) =
          .ok (next, some data, { sdk with touchedArrays := touched })) ∨
      (array.getNextInitTickIndex tick tickSpacing aToB = .ok none ∧
        TickArraySequence.searchSlots fuel sdk
            (slot tickSpacing (numberAt aToB startArrayIndex position remaining)) =
          TickArraySequence.searchSlots (fuel - (remaining + 1))
            { sdk with touchedArrays := touched }
            (slot tickSpacing (numberAt aToB startArrayIndex (position + 1) 87))) := by
  have inside := begins.inside
  obtain ⟨touched, answer⟩ := mirrors.searchSlots_array positive found inside
    (show remaining < 89 by omega) (fuel - (remaining + 1))
  rw [Nat.sub_add_cancel enough] at answer
  rw [mirrors.getNextInitTickIndex positive found begins]
  refine ⟨touched, ?_⟩
  cases scan : array.scanOffsets tickSpacing aToB 89 (offsetAt aToB remaining) with
  | some next =>
      rw [scan] at answer
      obtain ⟨data, run⟩ := answer
      exact .inl ⟨next, data, rfl, run⟩
  | none =>
      rw [scan] at answer
      exact .inr ⟨rfl, answer⟩

/-- From a slot of the row, both searches find the same tick. -/
theorem Mirrors.searchArrays_agree (mirrors : Mirrors sdk arrays tickSpacing aToB startArrayIndex)
    (positive : 0 < tickSpacing)
    (valid : ∀ array ∈ arrays, Tick.checkIsValidStartTick array.startTickIndex tickSpacing = true)
    {rest : List TickArray} (dropped : arrays.drop position = array :: rest) {tick : ℤ}
    (begins : SearchesFrom tickSpacing aToB startArrayIndex array position tick remaining)
    {fuel : ℕ} (enough : 88 * (rest.length + 1) < fuel) :
    Agree SameNext (SwapTickSequence.searchArrays tickSpacing aToB (array :: rest) position tick)
      (TickArraySequence.searchSlots fuel sdk
        (slot tickSpacing (numberAt aToB startArrayIndex position remaining))) := by
  induction rest generalizing sdk array position tick remaining fuel with
  | nil =>
      have inside := begins.inside
      have found : arrays[position]? = some array := by
        rw [← Nat.add_zero position, ← List.getElem?_drop, dropped]
        rfl
      have validHere := valid array (List.mem_of_getElem? found)
      rw [List.length_nil] at enough
      obtain ⟨touched, ⟨next, data, answered, run⟩ | ⟨answered, run⟩⟩ :=
        mirrors.searchArray_agree positive found begins (show remaining < fuel by omega)
      · rw [SwapTickSequence.searchArrays, answered, run]
        exact .ok rfl
      · have length := congrArg List.length dropped
        rw [List.length_drop, List.length_singleton] at length
        have beyond : ¬ position + 1 < arrays.length := by omega
        obtain ⟨further, fuel_eq⟩ := Nat.exists_eq_add_one.mpr
          (show 0 < fuel - (remaining + 1) by omega)
        rw [run, fuel_eq, TickArraySequence.searchSlots,
          if_neg (mt ((mirrors.touch touched).inBounds (by norm_num)).mp beyond),
          (mirrors.touch touched).lastIndexInArray found, SwapTickSequence.searchArrays, answered]
        have last := @searchArrays_last tickSpacing aToB array position positive validHere
        simp only [ok_bind, ↓reduceIte]
        rw [last]
        exact .ok rfl
  | cons next rest ih =>
      have inside := begins.inside
      have found : arrays[position]? = some array := by
        rw [← Nat.add_zero position, ← List.getElem?_drop, dropped]
        rfl
      have foundNext : arrays[position + 1]? = some next := by
        rw [← List.getElem?_drop, dropped]
        rfl
      have droppedNext : arrays.drop (position + 1) = next :: rest := by
        rw [← List.drop_drop, dropped]
        rfl
      obtain ⟨notMin, notMax⟩ := mirrors.not_extreme positive found foundNext
        (valid array (List.mem_of_getElem? found)) (valid next (List.mem_of_getElem? foundNext))
      rw [List.length_cons] at enough
      obtain ⟨touched, ⟨result, data, answered, run⟩ | ⟨answered, run⟩⟩ :=
        mirrors.searchArray_agree positive found begins (show remaining < fuel by omega)
      · rw [SwapTickSequence.searchArrays, answered, run]
        exact .ok rfl
      · rw [SwapTickSequence.searchArrays, answered, run]
        simp only [ok_bind]
        rw [if_neg notMin, if_neg notMax, if_neg (List.cons_ne_nil _ _)]
        exact ih (mirrors.touch touched) droppedNext
          (mirrors.searchesNext positive found foundNext) (by omega)

/-- The search tick lies in the array at the cursor of the program, or right after the row
when the cursor is at its end. -/
structure AtCursor (tickSpacing : ℕ) (aToB : Bool) (startArrayIndex : ℤ) (length cursor : ℕ)
    (tick : ℤ) : Prop where
  within : cursor ≤ length
  above : arrayIndexAt aToB startArrayIndex cursor * arrayWidth tickSpacing ≤
    searchTick tickSpacing aToB tick
  below : searchTick tickSpacing aToB tick <
    arrayIndexAt aToB startArrayIndex cursor * arrayWidth tickSpacing + arrayWidth tickSpacing

/-- The slot of a search is in the array at the cursor. -/
theorem AtCursor.exists_remaining {length : ℕ} {tick : ℤ} (positive : 0 < tickSpacing)
    (place : AtCursor tickSpacing aToB startArrayIndex length position tick) :
    ∃ remaining < 88, numberAt aToB startArrayIndex position remaining =
      searchTick tickSpacing aToB tick / tickSpacing := by
  have spacing : (0 : ℤ) < tickSpacing := by exact_mod_cast positive
  have above : arrayIndexAt aToB startArrayIndex position * 88 ≤
      searchTick tickSpacing aToB tick / tickSpacing := by
    rw [Int.le_ediv_iff_mul_le spacing, mul_assoc]
    exact place.above
  have below : searchTick tickSpacing aToB tick / tickSpacing <
      arrayIndexAt aToB startArrayIndex position * 88 + 88 := by
    rw [Int.ediv_lt_iff_lt_mul spacing, add_mul, mul_assoc]
    exact place.below
  generalize searchTick tickSpacing aToB tick / (tickSpacing : ℤ) = number at above below
  unfold numberAt offsetAt
  cases aToB
  · refine ⟨(arrayIndexAt false startArrayIndex position * 88 + 87 - number).toNat, by omega, ?_⟩
    rw [if_neg Bool.false_ne_true, Int.toNat_of_nonneg (by omega)]
    omega
  · refine ⟨(number - arrayIndexAt true startArrayIndex position * 88).toNat, by omega, ?_⟩
    rw [if_pos rfl, Int.toNat_of_nonneg (by omega)]
    omega

/-- A search to the right starts at the next slot. -/
theorem searchTick_ediv (positive : 0 < tickSpacing) (tick : ℤ) :
    searchTick tickSpacing aToB tick / tickSpacing =
      if aToB then tick / tickSpacing else tick / tickSpacing + 1 := by
  have spacing : (tickSpacing : ℤ) ≠ 0 := by exact_mod_cast positive.ne'
  unfold searchTick
  split_ifs
  · rw [add_zero]
  · rw [← Int.add_mul_ediv_right _ _ spacing, one_mul]

/-- The program at its cursor, and the SDK without one, find the same tick or both fail. -/
theorem Mirrors.search_agree (mirrors : Mirrors sdk arrays tickSpacing aToB startArrayIndex)
    (positive : 0 < tickSpacing)
    (valid : ∀ array ∈ arrays, Tick.checkIsValidStartTick array.startTickIndex tickSpacing = true)
    {tick : ℤ} (place : AtCursor tickSpacing aToB startArrayIndex arrays.length position tick) :
    Agree SameNext
      (SwapTickSequence.getNextInitializedTickIndex ⟨arrays⟩ tick tickSpacing aToB position)
      (sdk.findNextInitializedTickIndex tick) := by
  obtain ⟨remaining, inside, number⟩ := place.exists_remaining positive
  have index : (if aToB then tick else tick + tickSpacing) = searchTick tickSpacing aToB tick := by
    unfold searchTick
    split_ifs
    · exact (add_zero tick).symm
    · rfl
  unfold TickArraySequence.findNextInitializedTickIndex SwapTickSequence.getNextInitializedTickIndex
  dsimp only
  rw [mirrors.direction_eq, mirrors.spacing_eq, index, fromTickIndex_eq positive, ok_bind, ← number]
  cases dropped : arrays.drop position with
  | nil =>
      have beyond := List.drop_eq_nil_iff.mp dropped
      rw [if_pos (mt (mirrors.inBounds inside).mp (not_lt.mpr beyond))]
      exact .error _ _
  | cons array rest =>
      have length := congrArg List.length dropped
      rw [List.length_drop, List.length_cons] at length
      have found : arrays[position]? = some array := by
        rw [← Nat.add_zero position, ← List.getElem?_drop, dropped]
        rfl
      have start_eq : array.startTickIndex =
          arrayIndexAt aToB startArrayIndex position * arrayWidth tickSpacing := by
        rw [mirrors.row found, mul_assoc]
        rfl
      rw [if_neg (not_not.mpr ((mirrors.inBounds inside).mpr (by omega)))]
      refine mirrors.searchArrays_agree positive valid dropped
        ⟨inSearchRange_iff.mpr ?_, inside, ?_⟩
        ?_
      · rw [start_eq]
        exact ⟨place.above, place.below⟩
      · rw [number, searchTick_ediv positive]
      · rw [mirrors.length_eq]
        omega

end Search

/-- Valid arrays that lie one after the other in the direction of the trade. -/
structure Contiguous (tickSpacing : ℕ) (aToB : Bool) (arrays : List TickArray) : Prop where
  valid : ∀ array ∈ arrays, Tick.checkIsValidStartTick array.startTickIndex tickSpacing = true
  adjacent : ∀ (position : ℕ) (array next : TickArray), arrays[position]? = some array →
    arrays[position + 1]? = some next → next.startTickIndex =
      if aToB then array.startTickIndex - arrayWidth tickSpacing
      else array.startTickIndex + arrayWidth tickSpacing

section Built

variable {Address : Type} {sdk : TickArraySequence Address}
  {tickArrays : List (Address × TickArray)} {tickSpacing : ℕ} {aToB : Bool}

/-- All arrays that have data are kept. -/
theorem fetched_eq (tickArrays : List (Address × TickArray)) :
    (((tickArrays.map fun tickArray => (tickArray.1, some tickArray.2)).map fun tickArray =>
      tickArray.2.map (InitializedTickArray.mk tickArray.1)).takeWhile
        Option.isSome).reduceOption =
      tickArrays.map fun tickArray => InitializedTickArray.mk tickArray.1 tickArray.2 := by
  induction tickArrays with
  | nil => rfl
  | cons tickArray rest ih =>
      rw [List.map_cons, List.map_cons, List.map_cons, ← ih]
      rfl

/-- The arrays of a contiguous list start at the multiples that follow the first one. -/
theorem Contiguous.row {arrays : List TickArray} (contiguous : Contiguous tickSpacing aToB arrays)
    {startArrayIndex : ℤ} (first : ∀ array, arrays[0]? = some array →
      array.startTickIndex = startArrayIndex * 88 * tickSpacing) {position : ℕ} {array : TickArray}
    (found : arrays[position]? = some array) :
    array.startTickIndex = arrayIndexAt aToB startArrayIndex position * 88 * tickSpacing := by
  induction position generalizing array with
  | zero =>
      rw [first array found]
      unfold arrayIndexAt
      split_ifs <;> push_cast <;> ring
  | succ position ih =>
      obtain ⟨inside, -⟩ := List.getElem?_eq_some_iff.mp found
      have before : arrays[position]? = some arrays[position] := List.getElem?_eq_getElem (by omega)
      rw [contiguous.adjacent position _ array before found, ih before]
      unfold arrayIndexAt arrayWidth tickArraySize
      split_ifs <;> push_cast <;> ring

/-- The sequence the SDK builds mirrors the arrays. -/
theorem new_mirrors (positive : 0 < tickSpacing)
    (contiguous : Contiguous tickSpacing aToB (tickArrays.map Prod.snd))
    (built : TickArraySequence.new (tickArrays.map fun tickArray =>
      (tickArray.1, some tickArray.2)) tickSpacing aToB = .ok sdk) :
    ∃ startArrayIndex, Mirrors sdk (tickArrays.map Prod.snd) tickSpacing aToB startArrayIndex := by
  unfold TickArraySequence.new at built
  dsimp only at built
  rw [fetched_eq] at built
  cases tickArrays with
  | nil => simp only [List.map_nil, reduceCtorEq] at built
  | cons first rest =>
      simp only [List.map_cons, fromTickIndex_eq positive, ok_bind, Except.ok.injEq] at built
      subst built
      refine ⟨first.2.startTickIndex / tickSpacing / 88, rfl, rfl, rfl, ?_, ?_, ?_⟩
      · simp only [List.length_cons, List.length_map]
      · intro position array found
        rw [List.getElem?_map, Option.map_eq_some_iff] at found
        obtain ⟨tickArray, place, rfl⟩ := found
        refine ⟨⟨tickArray.1, tickArray.2⟩, ?_, ⟨rfl, fun _ => rfl⟩⟩
        change ((first :: rest).map fun tickArray =>
          InitializedTickArray.mk tickArray.1 tickArray.2)[position]? = _
        rw [List.getElem?_map, place]
        rfl
      · intro position array found
        refine contiguous.row (fun other same => ?_) found
        obtain rfl := Option.some.inj same
        have spacing : (tickSpacing : ℤ) ≠ 0 := by exact_mod_cast positive.ne'
        obtain ⟨multiple, start_eq⟩ := (checkIsValidStartTick_dvd
          (contiguous.valid first.2 List.mem_cons_self)).1
        have regroup : arrayWidth tickSpacing * multiple = multiple * 88 * tickSpacing := by
          unfold arrayWidth tickArraySize
          ring
        rw [start_eq, regroup, Int.mul_ediv_cancel _ spacing, Int.mul_ediv_cancel _ (by norm_num)]

end Built

section Run

variable {m : Machine} {context : SwapContext} {table table' : TickTable}
  {state state' final : SwapState} {entry : SwapIteration} {entries : List SwapIteration}
  {startArrayIndex : ℤ}

/-- The starts of the arrays of a row. -/
def RowStarts (tickSpacing : ℕ) (aToB : Bool) (startArrayIndex : ℤ) (arrays : List TickArray) :
    Prop :=
  ∀ (position : ℕ) (start : ℤ), (arrays.map TickArray.startTickIndex)[position]? = some start →
    start = arrayIndexAt aToB startArrayIndex position * arrayWidth tickSpacing

/-- The cursor of the swap is at the array its next search starts in. -/
def Placed (context : SwapContext) (startArrayIndex : ℤ) (state : SwapState) : Prop :=
  AtCursor context.whirlpool.tickSpacing context.aToB startArrayIndex
    state.swapTickSequence.arrays.length state.currArrayIndex state.currTickIndex

/-- From an initialized tick in the first slot the search goes on in the array to the left. -/
theorem firstSlot_eq (sound : context.Sound) (holds : LoopInvariant context table state)
    (holds' : LoopInvariant context table' state') {arrayIndex : ℕ} {array : TickArray}
    (arrives : ArrivesAt context state entry state' arrayIndex array)
    (price : state'.currSqrtPrice = tickPrice entry.nextTickIndex)
    (more : swapContinues context state' = true) (aToB : context.aToB = true)
    (zero : (entry.nextTickIndex - array.startTickIndex) / (context.whirlpool.tickSpacing : ℤ) =
      0) :
    entry.nextTickIndex = array.startTickIndex := by
  have spacing : (0 : ℤ) < context.whirlpool.tickSpacing := by exact_mod_cast sound.spacing
  have carried := holds.carried.arrays array (List.mem_of_getElem? arrives.place)
  obtain ⟨position, rfl, answered⟩ := searchArrays_answered arrives.searched
  rcases answered with ⟨tick, member, answer⟩ | ⟨end_eq⟩ | @⟨last, final, place, end_eq⟩
  · have usable := holds.usable entry.nextTickIndex (by
      have answering := holds.carried.arrays _ (List.mem_of_mem_drop member)
      rw [aToB] at answer
      exact (answering.getNextInitTickIndex_left holds.usable sound.spacing answer).2.2.2.1)
    have divides := Int.dvd_sub (checkIsUsableTick_iff.mp usable).2 carried.spacing_dvd
    have distance := Int.ediv_mul_cancel divides
    rw [zero, zero_mul] at distance
    omega
  · exact absurd (extreme_stops sound holds' end_eq price) (by rw [more]; decide)
  · rw [List.getElem?_drop] at place
    obtain rfl := Option.some.inj (arrives.place.symm.trans place)
    rw [end_eq, if_pos aToB]

/-- After an iteration that is not the last one, the cursor is where the next search starts. -/
theorem placed_step (sound : context.Sound) (rate : context.whirlpool.feeRate < 2 ^ 16)
    (holds : LoopInvariant context table state) (runs : swapContinues context state = true)
    (returned : swapIteration m context state = .ok (state', entry))
    (row : RowStarts context.whirlpool.tickSpacing context.aToB startArrayIndex
      state.swapTickSequence.arrays) (more : swapContinues context state' = true) :
    Placed context startArrayIndex state' := by
  obtain ⟨table', traverses, holds'⟩ := swapIteration_traverses sound holds runs returned
  have reached : entry.computation.nextPrice = tickPrice entry.nextTickIndex := by
    by_contra apart
    rw [traverses.short_stops holds'.place rate apart] at more
    exact Bool.false_ne_true more
  obtain ⟨arrayIndex, array, arrives⟩ :=
    swapIteration_arrivesAt sound traverses holds runs returned reached
  have price := traverses.nextPrice.trans reached
  have spacing : (0 : ℤ) < context.whirlpool.tickSpacing := by exact_mod_cast sound.spacing
  have width : arrayWidth context.whirlpool.tickSpacing = 88 * context.whirlpool.tickSpacing := rfl
  have start := row arrayIndex array.startTickIndex (by
    rw [List.getElem?_map, arrives.place]
    rfl)
  have length := congrArg List.length traverses.starts
  rw [List.length_map, List.length_map] at length
  have bounded := (List.getElem?_eq_some_iff.mp arrives.place).1
  obtain ⟨above, below⟩ := arrives.inside
  have next : arrayIndexAt context.aToB startArrayIndex (arrayIndex + 1) *
      arrayWidth context.whirlpool.tickSpacing = if context.aToB
        then array.startTickIndex - arrayWidth context.whirlpool.tickSpacing
        else array.startTickIndex + arrayWidth context.whirlpool.tickSpacing := by
    rw [start]
    unfold arrayIndexAt
    push_cast
    split_ifs <;> ring
  have floor := Int.ediv_mul_le (entry.nextTickIndex - array.startTickIndex) spacing.ne'
  have ceil := Int.lt_ediv_add_one_mul_self (entry.nextTickIndex - array.startTickIndex) spacing
  unfold Placed
  rw [arrives.tick, arrives.cursor, length]
  cases aToB : context.aToB with
  | true =>
      rw [aToB] at next start
      simp only [↓reduceIte] at next
      by_cases zero : (entry.nextTickIndex - array.startTickIndex) /
          (context.whirlpool.tickSpacing : ℤ) = 0
      · have first := firstSlot_eq sound holds holds' arrives price more aToB zero
        rw [if_pos (.inl ⟨rfl, zero⟩)]
        refine ⟨by omega, ?_, ?_⟩ <;> rw [next, searchTick, SwapIteration.beyond] <;>
          simp only [↓reduceIte] <;> omega
      · have further : (context.whirlpool.tickSpacing : ℤ) ≤
            entry.nextTickIndex - array.startTickIndex := by
          by_contra short
          exact zero (Int.ediv_eq_zero_of_lt (by omega) (by omega))
        rw [if_neg (by simp only [zero, and_false, not_true_eq_false, false_and, or_self,
          not_false_eq_true])]
        refine ⟨bounded.le, ?_, ?_⟩ <;> rw [← start, searchTick, SwapIteration.beyond] <;>
          simp only [↓reduceIte] <;> omega
  | false =>
      rw [aToB] at next start
      simp only [Bool.false_eq_true, ↓reduceIte] at next
      by_cases last : (entry.nextTickIndex - array.startTickIndex) /
          (context.whirlpool.tickSpacing : ℤ) = tickArraySize - 1
      · rw [if_pos (.inr ⟨Bool.false_ne_true, last⟩)]
        rw [last] at floor
        unfold tickArraySize at floor
        refine ⟨by omega, ?_, ?_⟩ <;> rw [next, searchTick, SwapIteration.beyond] <;>
          simp only [Bool.false_eq_true, ↓reduceIte] <;> omega
      · have small := Int.ediv_lt_of_lt_mul spacing
          (show entry.nextTickIndex - array.startTickIndex < 88 * _ by omega)
        have before : (entry.nextTickIndex - array.startTickIndex) /
            (context.whirlpool.tickSpacing : ℤ) + 1 ≤ 87 := by
          unfold tickArraySize at last
          omega
        have further : entry.nextTickIndex - array.startTickIndex <
            87 * context.whirlpool.tickSpacing :=
          ceil.trans_le (mul_le_mul_of_nonneg_right before spacing.le)
        rw [if_neg (by simp only [Bool.false_eq_true, false_and, last, and_false, or_self,
          not_false_eq_true])]
        refine ⟨bounded.le, ?_, ?_⟩ <;> rw [← start, searchTick, SwapIteration.beyond] <;>
          simp only [Bool.false_eq_true, ↓reduceIte] <;> omega

/-- In every state from which the swap goes on, the cursor is where the next search starts. -/
theorem iterations_placed (sound : context.Sound) (rate : context.whirlpool.feeRate < 2 ^ 16)
    (iterations : Iterations (swapContinues context) (swapIteration m context) state entries final)
    (holds : LoopInvariant context table state)
    (row : RowStarts context.whirlpool.tickSpacing context.aToB startArrayIndex
      state.swapTickSequence.arrays) (initially : Placed context startArrayIndex state)
    (more : swapContinues context final = true) : Placed context startArrayIndex final := by
  induction iterations generalizing table with
  | done => exact initially
  | @step state middle final entry entries runs stepped rest ih =>
      obtain ⟨table', traverses, holds'⟩ := swapIteration_traverses sound holds runs stepped
      have goes : swapContinues context middle = true := by
        cases rest with
        | done => exact more
        | step runs _ _ => exact runs
      have starts := traverses.starts
      refine ih holds' ?_ (placed_step sound rate holds runs stepped row goes) more
      unfold RowStarts
      rw [starts]
      exact row

/-- Arrays of one start that carry tables with the same ticks initialized have the same slots. -/
theorem initialized_eq {tickSpacing : ℕ} {array array' : TickArray}
    (carried : Carries table tickSpacing array) (carried' : Carries table' tickSpacing array')
    (start : array'.startTickIndex = array.startTickIndex)
    (same : ∀ tick, (table' tick).initialized = (table tick).initialized) (offset : ℤ) :
    (array'.tick offset).initialized = (array.tick offset).initialized := by
  by_cases inside : 0 ≤ offset ∧ offset < 88
  · rw [carried.tick_eq inside.1 inside.2, carried'.tick_eq inside.1 inside.2, start, same]
  · rw [TickArray.tick, dif_neg inside, TickArray.tick, dif_neg inside]

/-- The sequence of the SDK also mirrors the arrays a swap has changed. -/
theorem Mirrors.of_carries {Address : Type} {sdk : TickArraySequence Address} {tickSpacing : ℕ}
    {aToB : Bool} {sequence sequence' : SwapTickSequence}
    (mirrors : Mirrors sdk sequence.arrays tickSpacing aToB startArrayIndex)
    (carried : sequence.Carries table tickSpacing) (carried' : sequence'.Carries table' tickSpacing)
    (starts : sequence'.arrays.map TickArray.startTickIndex =
      sequence.arrays.map TickArray.startTickIndex)
    (same : ∀ tick, (table' tick).initialized = (table tick).initialized) :
    Mirrors sdk sequence'.arrays tickSpacing aToB startArrayIndex := by
  have back {position : ℕ} {array' : TickArray}
    (found : sequence'.arrays[position]? = some array') :
      ∃ array, sequence.arrays[position]? = some array ∧
        array'.startTickIndex = array.startTickIndex := by
    have start := congrArg (fun starts => starts[position]?) starts
    rw [List.getElem?_map, found, List.getElem?_map, Option.map_some, eq_comm,
      Option.map_eq_some_iff] at start
    obtain ⟨array, place, equal⟩ := start
    exact ⟨array, place, equal.symm⟩
  have length := congrArg List.length starts
  rw [List.length_map, List.length_map] at length
  refine ⟨mirrors.spacing_eq, mirrors.direction_eq, mirrors.start_eq,
    by rw [mirrors.length_eq, length], fun {position array'} found => ?_,
    fun {position array'} found => ?_⟩
  · obtain ⟨array, place, start⟩ := back found
    obtain ⟨fetched, fetched_eq, alike⟩ := mirrors.slots place
    refine ⟨fetched, fetched_eq, ⟨alike.start.trans start.symm, fun offset => ?_⟩⟩
    rw [alike.initialized, initialized_eq (carried.arrays array (List.mem_of_getElem? place))
      (carried'.arrays array' (List.mem_of_getElem? found)) start same]
  · obtain ⟨array, place, start⟩ := back found
    rw [start, mirrors.row place]

end Run

/-- The program and the SDK search the same ticks: from every tick in the search range of one
of the arrays, and in every state from which a swap that starts in the first array goes on. -/
structure SearchesAgree {Address : Type} (tickSpacing : ℕ) (aToB : Bool) (arrays : List TickArray)
    (sdk : TickArraySequence Address) : Prop where
  anywhere : ∀ (position : ℕ) (array : TickArray) (tick : ℤ), arrays[position]? = some array →
    array.inSearchRange tick tickSpacing (!aToB) = true →
    Agree SameNext
      (SwapTickSequence.getNextInitializedTickIndex ⟨arrays⟩ tick tickSpacing aToB position)
      (sdk.findNextInitializedTickIndex tick)
  swapping : ∀ (m : Machine) (context : SwapContext) (table : TickTable) (amount : UInt64),
    context.whirlpool.tickSpacing = tickSpacing → context.aToB = aToB →
    Tradable context.whirlpool table ⟨arrays⟩ → context.whirlpool.feeRate < 2 ^ 16 →
    (minSqrtPriceX64 ≤ context.sqrtPriceLimit ∧ context.sqrtPriceLimit ≤ maxSqrtPriceX64) →
    ¬ ((context.aToB ∧ context.sqrtPriceLimit > context.whirlpool.sqrtPrice) ∨
      (¬ context.aToB ∧ context.sqrtPriceLimit < context.whirlpool.sqrtPrice)) →
    (∀ array, arrays[0]? = some array →
      array.inSearchRange context.whirlpool.tickCurrentIndex tickSpacing (!aToB) = true) →
    ∀ entries state, Iterations (swapContinues context) (swapIteration m context)
      (context.initialState ⟨arrays⟩ amount.toNat) entries state →
    swapContinues context state = true →
    Agree SameNext
      (state.swapTickSequence.getNextInitializedTickIndex state.currTickIndex tickSpacing aToB
        state.currArrayIndex)
      (sdk.findNextInitializedTickIndex state.currTickIndex)

/-- A tick in the search range of an array of the row is at its cursor. -/
theorem Mirrors.atCursor {Address : Type} {sdk : TickArraySequence Address}
    {arrays : List TickArray} {tickSpacing : ℕ} {aToB : Bool} {startArrayIndex : ℤ}
    (mirrors : Mirrors sdk arrays tickSpacing aToB startArrayIndex) {position : ℕ}
    {array : TickArray} (found : arrays[position]? = some array) {tick : ℤ}
    (searched : array.inSearchRange tick tickSpacing (!aToB) = true) :
    AtCursor tickSpacing aToB startArrayIndex arrays.length position tick := by
  obtain ⟨above, below⟩ := inSearchRange_iff.mp searched
  have start_eq : array.startTickIndex =
      arrayIndexAt aToB startArrayIndex position * arrayWidth tickSpacing := by
    rw [mirrors.row found, mul_assoc]
    rfl
  exact ⟨(List.getElem?_eq_some_iff.mp found).1.le, start_eq ▸ above, start_eq ▸ below⟩

/-- For every contiguous sequence of valid arrays, and whichever arrays the SDK has touched
before, it finds the tick the program finds, or both fail. -/
theorem findNextInitializedTickIndex_agree {Address : Type} {tickSpacing : ℕ} {aToB : Bool}
    {tickArrays : List (Address × TickArray)} {sdk : TickArraySequence Address}
    (positive : 0 < tickSpacing)
    (contiguous : Contiguous tickSpacing aToB (tickArrays.map Prod.snd))
    (built : TickArraySequence.new (tickArrays.map fun tickArray =>
      (tickArray.1, some tickArray.2)) tickSpacing aToB = .ok sdk) (touched : List Bool) :
    SearchesAgree tickSpacing aToB (tickArrays.map Prod.snd)
      { sdk with touchedArrays := touched } := by
  obtain ⟨startArrayIndex, mirrors⟩ := new_mirrors positive contiguous built
  replace mirrors := mirrors.touch touched
  refine ⟨fun position array tick found searched =>
    mirrors.search_agree positive contiguous.valid (mirrors.atCursor found searched), ?_⟩
  rintro m context table amount rfl rfl tradable rate bounds direction first entries state
    iterations more
  have sound : context.Sound := ⟨positive, bounds⟩
  have starts := LoopInvariant.initial context table ⟨tickArrays.map Prod.snd⟩ tradable
    amount.toNat_lt direction
  obtain ⟨last, traversal, ends⟩ := iterations_traversal sound iterations starts
  have changed : Mirrors _ state.swapTickSequence.arrays context.whirlpool.tickSpacing context.aToB
      startArrayIndex := Mirrors.of_carries mirrors tradable.carried ends.carried
        traversal.starts traversal.initialized_eq
  have row : RowStarts context.whirlpool.tickSpacing context.aToB startArrayIndex
      (tickArrays.map Prod.snd) := by
    intro position start found
    rw [List.getElem?_map, Option.map_eq_some_iff] at found
    obtain ⟨array, place, rfl⟩ := found
    rw [mirrors.row place, mul_assoc]
    rfl
  have initially : Placed context startArrayIndex
      (context.initialState ⟨tickArrays.map Prod.snd⟩ amount.toNat) := by
    cases tickArrays with
    | nil =>
        have refused : Except.error _ = Except.ok sdk := built
        simp only [reduceCtorEq] at refused
    | cons tickArray rest =>
        have head : ((tickArray :: rest).map Prod.snd)[0]? = some tickArray.2 := rfl
        exact mirrors.atCursor head (first tickArray.2 head)
  have placed := iterations_placed sound rate iterations starts row initially more
  exact changed.search_agree positive (fun array member => (ends.carried.arrays array member).valid)
    placed

/-- Two adjacent arrays, of which the SDK has touched the second; the one initialized tick is in
that one. -/
theorem findNextInitializedTickIndex_agree_pair :
    SearchesAgree 1 true
      [(singleTick (-95) 7 7).arrayAt 1 0, (singleTick (-95) 7 7).arrayAt 1 (-88)]
      (TickArraySequence.mk [InitializedTickArray.mk false ((singleTick (-95) 7 7).arrayAt 1 0),
        InitializedTickArray.mk true ((singleTick (-95) 7 7).arrayAt 1 (-88))] [false, true] 0 1
        true) := by
  have contiguous : Contiguous 1 true [(singleTick (-95) 7 7).arrayAt 1 0,
      (singleTick (-95) 7 7).arrayAt 1 (-88)] := by
    refine ⟨List.forall_mem_cons.mpr ⟨by decide, List.forall_mem_singleton.mpr (by decide)⟩,
      fun position array next found last => ?_⟩
    obtain rfl : position = 0 := by
      have within := (List.getElem?_eq_some_iff.mp last).1
      rw [List.length_cons, List.length_singleton] at within
      omega
    obtain rfl := Option.some.inj found
    obtain rfl := Option.some.inj last
    decide
  exact @findNextInitializedTickIndex_agree Bool 1 true
    [(false, (singleTick (-95) 7 7).arrayAt 1 0), (true, (singleTick (-95) 7 7).arrayAt 1 (-88))]
    ⟨[⟨false, (singleTick (-95) 7 7).arrayAt 1 0⟩, ⟨true, (singleTick (-95) 7 7).arrayAt 1 (-88)⟩],
      [false, false], 0, 1, true⟩ Nat.one_pos contiguous rfl [false, true]

end Whirlpools.Sdk
