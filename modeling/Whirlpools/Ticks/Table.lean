import Mathlib.Data.List.Nodup
import Mathlib.Data.List.GetD
import Mathlib.Data.Int.ModEq
import Whirlpools.Util.SwapTickSequence

/-! # The table of ticks behind the tick arrays

A pool has one tick for every index; the arrays are windows on this table. Only
usable ticks are ever initialized. An array carries a table when its slots hold
the table's ticks, and updating a slot updates the table.
-/

namespace Whirlpools

open Outcome

/-- A tick for every index. -/
abbrev TickTable := ℤ → Tick

/-- The index range of one tick array. -/
def arrayWidth (tickSpacing : ℕ) : ℤ := tickArraySize * tickSpacing

/-- Only usable ticks of the table are initialized. -/
def TickTable.UsableOnly (table : TickTable) (tickSpacing : ℕ) : Prop :=
  ∀ tick, (table tick).initialized = true → Tick.checkIsUsableTick tick tickSpacing = true

/-- A tick is usable when it is in range and a multiple of the spacing. -/
theorem checkIsUsableTick_iff {tick : ℤ} {tickSpacing : ℕ} :
    Tick.checkIsUsableTick tick tickSpacing = true ↔
      (minTickIndex ≤ tick ∧ tick ≤ maxTickIndex) ∧ (tickSpacing : ℤ) ∣ tick := by
  unfold Tick.checkIsUsableTick Tick.checkIsOutOfBounds
  split_ifs with outside
  · simp only [decide_eq_true_eq] at outside
    simp only [false_iff, not_and]
    omega
  · simp only [decide_eq_true_eq] at outside ⊢
    rw [← Int.dvd_iff_tmod_eq_zero]
    simp only [not_or, not_lt] at outside
    exact ⟨fun divides => ⟨⟨by omega, by omega⟩, divides⟩, fun usable => usable.2⟩

/-- Valid array starts are multiples of the width of an array, within its reach of the range. -/
theorem checkIsValidStartTick_dvd {start : ℤ} {tickSpacing : ℕ}
    (valid : Tick.checkIsValidStartTick start tickSpacing = true) :
    arrayWidth tickSpacing ∣ start ∧ start ≤ maxTickIndex := by
  unfold Tick.checkIsValidStartTick at valid
  unfold arrayWidth
  dsimp only at valid
  split_ifs at valid with outside above
  · rw [decide_eq_true_eq] at valid
    have split := Int.mul_tdiv_add_tmod minTickIndex (tickArraySize * tickSpacing)
    refine ⟨⟨minTickIndex.tdiv (tickArraySize * tickSpacing) - 1, ?_⟩, ?_⟩
    · rw [mul_sub, mul_one]
      linarith
    · unfold minTickIndex at above
      unfold maxTickIndex
      omega
  · rw [decide_eq_true_eq, ← Int.dvd_iff_tmod_eq_zero] at valid
    simp only [Tick.checkIsOutOfBounds, decide_eq_true_eq, not_or, not_lt] at outside
    exact ⟨valid, outside.1⟩

theorem arrayWidth_pos {tickSpacing : ℕ} (positive : 0 < tickSpacing) :
    0 < arrayWidth tickSpacing := by
  unfold arrayWidth tickArraySize
  omega

/-- The offset is the floor of the quotient. -/
theorem getOffset_eq {tick start : ℤ} {tickSpacing : ℕ} (positive : 0 < tickSpacing) :
    getOffset tick start tickSpacing = (tick - start) / tickSpacing := by
  have spacing : (0 : ℤ) < tickSpacing := by exact_mod_cast positive
  have split := Int.mul_tdiv_add_tmod (tick - start) tickSpacing
  have floor := Int.mul_ediv_add_emod (tick - start) tickSpacing
  have small := Int.emod_lt_of_pos (tick - start) spacing
  have nonneg := Int.emod_nonneg (tick - start) spacing.ne'
  have above := Int.tmod_lt_of_pos (tick - start) spacing
  have below := Int.lt_tmod_of_pos (tick - start) spacing
  unfold getOffset
  dsimp only
  split_ifs with adjust
  · have negative : (tick - start).tmod tickSpacing < 0 := by omega
    have between : (tickSpacing : ℤ) * ((tick - start).tdiv tickSpacing - 1) =
        tickSpacing * ((tick - start) / tickSpacing) +
          ((tick - start) % tickSpacing - ((tick - start).tmod tickSpacing + tickSpacing)) := by
      rw [mul_sub, mul_one]
      linarith
    nlinarith
  · have remainder : 0 ≤ (tick - start).tmod tickSpacing := by omega
    nlinarith

/-- An array of valid start whose slots hold the ticks of a table. -/
structure Carries (table : TickTable) (tickSpacing : ℕ) (array : TickArray) : Prop where
  valid : Tick.checkIsValidStartTick array.startTickIndex tickSpacing = true
  ticks : ∀ position : Fin 88,
    array.ticks position = table (array.startTickIndex + (position.val : ℤ) * tickSpacing)

/-- A sequence of distinct arrays that carry a table. -/
structure SwapTickSequence.Carries (table : TickTable) (tickSpacing : ℕ)
    (sequence : SwapTickSequence) : Prop where
  arrays : ∀ array ∈ sequence.arrays, Whirlpools.Carries table tickSpacing array
  distinct : (sequence.arrays.map TickArray.startTickIndex).Nodup

/-- The array of a table at a start index. -/
def TickTable.arrayAt (table : TickTable) (tickSpacing : ℕ) (start : ℤ) : TickArray where
  startTickIndex := start
  ticks position := table (start + (position.val : ℤ) * tickSpacing)

/-- The array that a table gives at a valid start carries that table. -/
theorem TickTable.carries_arrayAt (table : TickTable) {tickSpacing : ℕ} {start : ℤ}
    (valid : Tick.checkIsValidStartTick start tickSpacing = true) :
    Carries table tickSpacing (table.arrayAt tickSpacing start) := ⟨valid, fun _ => rfl⟩

/-- One array of a table is a sequence that carries it. -/
theorem TickTable.carries_single (table : TickTable) {tickSpacing : ℕ} {start : ℤ}
    (valid : Tick.checkIsValidStartTick start tickSpacing = true) :
    SwapTickSequence.Carries table tickSpacing ⟨[table.arrayAt tickSpacing start]⟩ := by
  refine ⟨fun array member => ?_, List.nodup_singleton _⟩
  rw [List.mem_singleton] at member
  exact member ▸ table.carries_arrayAt valid

section Slots

variable {table : TickTable} {tickSpacing : ℕ} {array : TickArray}

/-- The tick at an offset inside a carried array. -/
theorem Carries.tick_eq (carried : Carries table tickSpacing array) {offset : ℤ}
    (nonneg : 0 ≤ offset) (inside : offset < 88) :
    array.tick offset = table (array.startTickIndex + offset * tickSpacing) := by
  unfold TickArray.tick
  rw [dif_pos ⟨nonneg, inside⟩, carried.ticks]
  congr 2
  dsimp only
  rw [Int.toNat_of_nonneg nonneg]

/-- The start of an array is a multiple of the spacing. -/
theorem Carries.spacing_dvd (carried : Carries table tickSpacing array) :
    (tickSpacing : ℤ) ∣ array.startTickIndex :=
  dvd_trans (Dvd.intro_left _ rfl) (checkIsValidStartTick_dvd carried.valid).1

/-- A usable tick inside an array lies at an offset of it. -/
theorem Carries.exists_offset (carried : Carries table tickSpacing array)
    (positive : 0 < tickSpacing) {tick : ℤ} (usable : (tickSpacing : ℤ) ∣ tick)
    (above : array.startTickIndex ≤ tick)
    (below : tick < array.startTickIndex + arrayWidth tickSpacing) :
    ∃ offset : ℤ, 0 ≤ offset ∧ offset < 88 ∧
      tick = array.startTickIndex + offset * tickSpacing := by
  obtain ⟨quotient, split⟩ := Int.dvd_sub usable carried.spacing_dvd
  have spacing : (0 : ℤ) < tickSpacing := by exact_mod_cast positive
  unfold arrayWidth tickArraySize at below
  refine ⟨quotient, by nlinarith, by nlinarith, ?_⟩
  rw [mul_comm]
  omega

/-- Reading a tick of a carried array reads the table. -/
theorem Carries.getTick_eq_ok (carried : Carries table tickSpacing array)
    (positive : 0 < tickSpacing) {tick : ℤ} {found : Tick}
    (returned : array.getTick tick tickSpacing = .ok found) : found = table tick := by
  simp only [TickArray.getTick, TickArray.findTick, bind_eq_ok, guard_eq_ok, not_or, not_not,
    TickArray.tickOffset, Except.ok.injEq] at returned
  obtain ⟨offset, ⟨⟨inside, usable⟩, place, ⟨-, rfl⟩, -, rfl⟩, rfl⟩ := returned
  simp only [TickArray.checkInArrayBounds, TickArray.inSearchRange, Bool.false_eq_true, ↓reduceIte,
    decide_eq_true_eq] at inside
  obtain ⟨offset, nonneg, small, rfl⟩ := carried.exists_offset positive
    (checkIsUsableTick_iff.mp usable).2 inside.1 inside.2
  have spacing : (tickSpacing : ℤ) ≠ 0 := by exact_mod_cast positive.ne'
  rw [getOffset_eq positive, add_sub_cancel_left, Int.mul_ediv_cancel _ spacing,
    carried.tick_eq nonneg small]

/-- A usable tick inside an array can be read. -/
theorem getTick_of_inside (positive : 0 < tickSpacing) {tick : ℤ}
    (usable : Tick.checkIsUsableTick tick tickSpacing = true)
    (above : array.startTickIndex ≤ tick)
    (below : tick < array.startTickIndex + arrayWidth tickSpacing) :
    ∃ found, array.getTick tick tickSpacing = .ok found := by
  have bounds : array.checkInArrayBounds tick tickSpacing = true := by
    simp only [TickArray.checkInArrayBounds, TickArray.inSearchRange, Bool.false_eq_true,
      ↓reduceIte, decide_eq_true_eq]
    exact ⟨above, below⟩
  have spacing : (0 : ℤ) < tickSpacing := by exact_mod_cast positive
  have offset : 0 ≤ (tick - array.startTickIndex) / (tickSpacing : ℤ) :=
    Int.ediv_nonneg (by omega) spacing.le
  unfold TickArray.getTick TickArray.findTick TickArray.tickOffset
  rw [if_neg (by simp only [bounds, usable, not_true_eq_false, or_self, not_false_eq_true]),
    if_neg positive.ne', ok_bind, getOffset_eq positive, if_neg (not_lt.mpr offset), ok_bind]
  exact ⟨_, rfl⟩

/-- The index of a read tick is inside the array. -/
theorem findTick_inside {tick offset : ℤ}
    (returned : array.findTick tick tickSpacing = .ok offset) :
    array.startTickIndex ≤ tick ∧ tick < array.startTickIndex + arrayWidth tickSpacing ∧
      Tick.checkIsUsableTick tick tickSpacing = true := by
  simp only [TickArray.findTick, guard_eq_ok, not_or, not_not, TickArray.checkInArrayBounds,
    TickArray.inSearchRange, Bool.false_eq_true, ↓reduceIte, decide_eq_true_eq] at returned
  exact ⟨returned.1.1.1, returned.1.1.2, returned.1.2⟩

/-- Updating a slot carries the updated table. -/
theorem Carries.updateTick (carried : Carries table tickSpacing array)
    (positive : 0 < tickSpacing) {tick : ℤ} {update : TickUpdate} {updated : TickArray}
    (returned : array.updateTick tick tickSpacing update = .ok updated) :
    updated.startTickIndex = array.startTickIndex ∧
      Carries (Function.update table tick update) tickSpacing updated := by
  simp only [TickArray.updateTick, bind_eq_ok, Except.ok.injEq] at returned
  obtain ⟨offset, found, rfl⟩ := returned
  obtain ⟨above, below, usable⟩ := findTick_inside found
  simp only [TickArray.findTick, bind_eq_ok, guard_eq_ok, TickArray.tickOffset,
    Except.ok.injEq] at found
  obtain ⟨-, place, ⟨-, rfl⟩, -, rfl⟩ := found
  have spacing : (0 : ℤ) < tickSpacing := by exact_mod_cast positive
  obtain ⟨offset, nonneg, small, rfl⟩ := carried.exists_offset positive
    (checkIsUsableTick_iff.mp usable).2 above below
  rw [getOffset_eq positive, add_sub_cancel_left, Int.mul_ediv_cancel _ spacing.ne']
  refine ⟨rfl, carried.valid, fun position => ?_⟩
  dsimp only
  by_cases same : (position.val : ℤ) = offset
  · rw [if_pos same, same, Function.update_self, Tick.update_eq]
  · rw [if_neg same, carried.ticks, Function.update_of_ne]
    intro collision
    exact same (mul_right_cancel₀ spacing.ne' (add_left_cancel collision))

/-- An update outside an array leaves what it carries. -/
theorem Carries.update_outside (carried : Carries table tickSpacing array)
    (positive : 0 < tickSpacing) {tick : ℤ} {update : TickUpdate}
    (outside : ¬ (array.startTickIndex ≤ tick ∧
      tick < array.startTickIndex + arrayWidth tickSpacing)) :
    Carries (Function.update table tick update) tickSpacing array := by
  refine ⟨carried.valid, fun position => ?_⟩
  rw [carried.ticks, Function.update_of_ne]
  rintro rfl
  have spacing : (0 : ℤ) < tickSpacing := by exact_mod_cast positive
  have small : (position.val : ℤ) < tickArraySize := by
    unfold tickArraySize
    exact_mod_cast position.isLt
  apply outside
  exact ⟨Int.le_add_of_nonneg_right (mul_nonneg (by positivity) spacing.le),
    (Int.add_lt_add_iff_left _).mpr (mul_lt_mul_of_pos_right small spacing)⟩

/-- Two arrays that share an index have the same start. -/
theorem Carries.start_unique {first second : TickArray} (one : Carries table tickSpacing first)
    (other : Carries table tickSpacing second) (positive : 0 < tickSpacing) {tick : ℤ}
    (inFirst : first.startTickIndex ≤ tick ∧ tick < first.startTickIndex + arrayWidth tickSpacing)
    (inSecond : second.startTickIndex ≤ tick ∧
      tick < second.startTickIndex + arrayWidth tickSpacing) :
    first.startTickIndex = second.startTickIndex := by
  have width := arrayWidth_pos positive
  obtain ⟨i, first_eq⟩ := (checkIsValidStartTick_dvd one.valid).1
  obtain ⟨j, second_eq⟩ := (checkIsValidStartTick_dvd other.valid).1
  rw [first_eq] at inFirst ⊢
  rw [second_eq] at inSecond ⊢
  have ij : i < j + 1 := by nlinarith
  have ji : j < i + 1 := by nlinarith
  rw [show i = j by omega]

end Slots

section Sequences

variable {table : TickTable} {tickSpacing : ℕ} {sequence : SwapTickSequence}

/-- An array of the sequence is read at its index. -/
theorem SwapTickSequence.getArray_eq_ok {arrayIndex : ℕ} {array : TickArray} :
    sequence.getArray arrayIndex = .ok array ↔ sequence.arrays[arrayIndex]? = some array :=
  okOr_eq_ok

/-- Updating a tick through a sequence carries the updated table. -/
theorem SwapTickSequence.Carries.updateTick (carried : sequence.Carries table tickSpacing)
    (positive : 0 < tickSpacing) {arrayIndex : ℕ} {tick : ℤ} {update : TickUpdate}
    {updated : SwapTickSequence}
    (returned : sequence.updateTick arrayIndex tick tickSpacing update = .ok updated) :
    updated.Carries (Function.update table tick update) tickSpacing ∧
      updated.arrays.map TickArray.startTickIndex =
        sequence.arrays.map TickArray.startTickIndex := by
  simp only [SwapTickSequence.updateTick, bind_eq_ok, SwapTickSequence.getArray_eq_ok,
    Except.ok.injEq] at returned
  obtain ⟨array, found, changed, written, rfl⟩ := returned
  obtain ⟨inside, found_eq⟩ := List.getElem?_eq_some_iff.mp found
  have member : array ∈ sequence.arrays := List.mem_of_getElem? found
  obtain ⟨start_eq, carries⟩ := (carried.arrays array member).updateTick positive written
  have starts : (sequence.arrays.set arrayIndex changed).map TickArray.startTickIndex =
      sequence.arrays.map TickArray.startTickIndex := by
    rw [List.map_set, start_eq, ← found_eq]
    have bound : arrayIndex < (sequence.arrays.map TickArray.startTickIndex).length := by
      rwa [List.length_map]
    have same : (sequence.arrays.map TickArray.startTickIndex)[arrayIndex] =
        sequence.arrays[arrayIndex].startTickIndex := List.getElem_map _
    rw [← same, List.set_getElem_self]
  have place : array.startTickIndex ≤ tick ∧
      tick < array.startTickIndex + arrayWidth tickSpacing := by
    simp only [TickArray.updateTick, bind_eq_ok] at written
    obtain ⟨offset, place, -⟩ := written
    exact ⟨(findTick_inside place).1, (findTick_inside place).2.1⟩
  refine ⟨⟨fun other present => ?_, starts ▸ carried.distinct⟩, starts⟩
  obtain ⟨position, bound, rfl⟩ := List.getElem_of_mem present
  rw [List.length_set] at bound
  by_cases same : arrayIndex = position
  · subst same
    rw [List.getElem_set_self]
    exact carries
  · rw [List.getElem_set_ne same]
    apply (carried.arrays _ (List.getElem_mem bound)).update_outside positive
    intro shared
    have collision := (carried.arrays _ (List.getElem_mem bound)).start_unique
      (carried.arrays array member) positive shared place
    have position_eq := (@List.Nodup.getElem_inj_iff _ _ carried.distinct
      position (by rwa [List.length_map]) arrayIndex (by rwa [List.length_map])).mp (by
        rw [List.getElem_map, List.getElem_map, found_eq, collision])
    exact same position_eq.symm

end Sequences
end Whirlpools
