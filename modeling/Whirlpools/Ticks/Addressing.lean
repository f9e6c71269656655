import Whirlpools.Ticks.Table

/-! # The addresses of ticks

The arrays of valid start tile the range of ticks, and every usable tick has one slot: it
lies in one array, at an offset of its own. Reading a slot after writing it returns what
was written, and no other slot changes.
-/

namespace Whirlpools

open Outcome

section Tiling

variable {tickSpacing : ℕ} {start tick : ℤ}

/-- Two multiples of a width that share a window of this width are equal. -/
theorem multiple_unique {width first second : ℤ} (lower : ℤ) (positive : 0 < width)
    (firstDvd : width ∣ first) (secondDvd : width ∣ second) (firstIn : lower ≤ first ∧
      first < lower + width) (secondIn : lower ≤ second ∧ second < lower + width) :
    first = second := by
  obtain ⟨i, rfl⟩ := firstDvd
  obtain ⟨j, rfl⟩ := secondDvd
  have ij : i < j + 1 := by nlinarith
  have ji : j < i + 1 := by nlinarith
  rw [show i = j by omega]

/-- The valid starts are the multiples of the width whose array reaches up to the range. -/
theorem checkIsValidStartTick_iff (positive : 0 < tickSpacing) :
    Tick.checkIsValidStartTick start tickSpacing = true ↔
      arrayWidth tickSpacing ∣ start ∧ minTickIndex ≤ start + arrayWidth tickSpacing ∧
        start ≤ maxTickIndex := by
  have width := arrayWidth_pos positive
  have nonneg := Int.tmod_nonneg (arrayWidth tickSpacing) (show (0 : ℤ) ≤ 443636 by norm_num)
  have split := Int.mul_tdiv_add_tmod minTickIndex (arrayWidth tickSpacing)
  have above := Int.lt_tmod_of_pos minTickIndex width
  have remainder : minTickIndex.tmod (arrayWidth tickSpacing) ≤ 0 := by
    rw [show minTickIndex = -443636 from rfl, Int.neg_tmod]
    omega
  have leftmost : arrayWidth tickSpacing ∣
      minTickIndex - minTickIndex.tmod (arrayWidth tickSpacing) :=
    ⟨minTickIndex.tdiv (arrayWidth tickSpacing), by linarith⟩
  constructor
  · intro valid
    obtain ⟨divides, below⟩ := checkIsValidStartTick_dvd valid
    refine ⟨divides, ?_, below⟩
    unfold Tick.checkIsValidStartTick at valid
    dsimp only at valid
    change (if _ then if _ then false else decide (start = minTickIndex -
      (minTickIndex.tmod (arrayWidth tickSpacing) + arrayWidth tickSpacing)) else _) = true at valid
    split_ifs at valid with outside
    · rw [decide_eq_true_eq] at valid
      omega
    · simp only [Tick.checkIsOutOfBounds, decide_eq_true_eq, not_or, not_lt] at outside
      omega
  · rintro ⟨divides, reaches, below⟩
    unfold Tick.checkIsValidStartTick
    dsimp only
    by_cases inside : minTickIndex ≤ start
    · rw [if_neg (by simp only [Tick.checkIsOutOfBounds, decide_eq_true_eq]; omega),
        decide_eq_true_eq, ← Int.dvd_iff_tmod_eq_zero]
      exact divides
    · rw [if_pos (by simp only [Tick.checkIsOutOfBounds, decide_eq_true_eq]; omega),
        if_neg (by omega), decide_eq_true_eq]
      have same := multiple_unique minTickIndex width (Int.dvd_add divides (Int.dvd_refl _))
        leftmost
        ⟨reaches, by omega⟩ ⟨by omega, by omega⟩
      change start = minTickIndex -
        (minTickIndex.tmod (arrayWidth tickSpacing) + arrayWidth tickSpacing)
      omega

/-- The start of the array that holds a tick. -/
def startOf (tickSpacing : ℕ) (tick : ℤ) : ℤ :=
  tick / arrayWidth tickSpacing * arrayWidth tickSpacing

/-- A tick lies in the array that starts at its start index. -/
theorem startOf_spec (positive : 0 < tickSpacing) (tick : ℤ) :
    startOf tickSpacing tick ≤ tick ∧ tick < startOf tickSpacing tick + arrayWidth tickSpacing := by
  have width := arrayWidth_pos positive
  have below := Int.ediv_mul_le tick width.ne'
  have above := Int.lt_ediv_add_one_mul_self tick width
  unfold startOf
  constructor <;> linarith

/-- Every tick in range lies in exactly one array of valid start. -/
theorem validStart_existsUnique (positive : 0 < tickSpacing) (above : minTickIndex ≤ tick)
    (below : tick ≤ maxTickIndex) :
    ∃! start, Tick.checkIsValidStartTick start tickSpacing = true ∧ start ≤ tick ∧
      tick < start + arrayWidth tickSpacing := by
  have width := arrayWidth_pos positive
  obtain ⟨before, after⟩ := startOf_spec positive tick
  refine ⟨startOf tickSpacing tick, ⟨?_, before, after⟩, ?_⟩
  · rw [checkIsValidStartTick_iff positive]
    exact ⟨Dvd.intro_left _ rfl, by omega, by omega⟩
  · rintro other ⟨valid, otherBefore, otherAfter⟩
    exact multiple_unique (tick - arrayWidth tickSpacing + 1) width
      (checkIsValidStartTick_dvd valid).1 (Dvd.intro_left _ rfl) ⟨by omega, by omega⟩
      ⟨by omega, by omega⟩

end Tiling

section Slots

variable {tickSpacing : ℕ} {array : TickArray} {tick other offset : ℤ}

/-- A usable tick within the bounds of an array. -/
def IsTickOf (array : TickArray) (tickSpacing : ℕ) (tick : ℤ) : Prop :=
  array.checkInArrayBounds tick tickSpacing = true ∧
    Tick.checkIsUsableTick tick tickSpacing = true

/-- An array covers the ticks from its start up to its width. -/
theorem checkInArrayBounds_iff :
    array.checkInArrayBounds tick tickSpacing = true ↔ array.startTickIndex ≤ tick ∧
      tick < array.startTickIndex + arrayWidth tickSpacing := by
  simp only [TickArray.checkInArrayBounds, TickArray.inSearchRange, Bool.false_eq_true, ↓reduceIte,
    decide_eq_true_eq, ge_iff_le]
  rfl

/-- The offset of a tick counts spacings from the start, rounded down. -/
theorem tickOffset_eq (positive : 0 < tickSpacing) :
    array.tickOffset tick tickSpacing = .ok ((tick - array.startTickIndex) / tickSpacing) := by
  rw [TickArray.tickOffset, if_neg positive.ne', getOffset_eq positive]

/-- The offset of a tick of an array is one of its 88 slots. -/
theorem offset_inside (positive : 0 < tickSpacing) (member : IsTickOf array tickSpacing tick) :
    0 ≤ (tick - array.startTickIndex) / (tickSpacing : ℤ) ∧
      (tick - array.startTickIndex) / (tickSpacing : ℤ) < tickArraySize := by
  have spacing : (0 : ℤ) < tickSpacing := by exact_mod_cast positive
  obtain ⟨above, below⟩ := checkInArrayBounds_iff.mp member.1
  refine ⟨Int.ediv_nonneg (by omega) spacing.le, Int.ediv_lt_of_lt_mul spacing ?_⟩
  unfold arrayWidth at below
  omega

/-- Different usable ticks have different offsets. -/
theorem offset_injective (positive : 0 < tickSpacing) (member : IsTickOf array tickSpacing tick)
    (member' : IsTickOf array tickSpacing other)
    (same : (tick - array.startTickIndex) / (tickSpacing : ℤ) =
      (other - array.startTickIndex) / (tickSpacing : ℤ)) : tick = other := by
  have spacing : (0 : ℤ) < tickSpacing := by exact_mod_cast positive
  have remainder := Int.emod_nonneg (tick - array.startTickIndex) spacing.ne'
  have remainder' := Int.emod_lt_of_pos (tick - array.startTickIndex) spacing
  have first := Int.mul_ediv_add_emod (tick - array.startTickIndex) tickSpacing
  have second := Int.mul_ediv_add_emod (other - array.startTickIndex) tickSpacing
  have otherRemainder := Int.emod_nonneg (other - array.startTickIndex) spacing.ne'
  have otherRemainder' := Int.emod_lt_of_pos (other - array.startTickIndex) spacing
  rw [← same] at second
  exact multiple_unique
    (array.startTickIndex + tickSpacing * ((tick - array.startTickIndex) / tickSpacing)) spacing
    (checkIsUsableTick_iff.mp member.2).2 (checkIsUsableTick_iff.mp member'.2).2
    ⟨by omega, by omega⟩ ⟨by omega, by omega⟩

/-- A slot is found exactly for the ticks of the array. -/
theorem findTick_eq (positive : 0 < tickSpacing) (member : IsTickOf array tickSpacing tick) :
    array.findTick tick tickSpacing = .ok ((tick - array.startTickIndex) / tickSpacing) := by
  rw [TickArray.findTick, if_neg (by simp only [member.1, member.2, not_true_eq_false, or_self,
    not_false_eq_true]), tickOffset_eq positive, ok_bind,
    if_neg (not_lt.mpr (offset_inside positive member).1)]

/-- A tick that is not of the array is not found. -/
theorem findTick_eq_error (outside : ¬ IsTickOf array tickSpacing tick) :
    array.findTick tick tickSpacing = err .tickNotFound := by
  rw [TickArray.findTick, if_pos]
  by_contra both
  rw [not_or, not_not, not_not] at both
  exact outside both

/-- A tick is read exactly where it has a slot. -/
theorem getTick_eq (positive : 0 < tickSpacing) (member : IsTickOf array tickSpacing tick) :
    array.getTick tick tickSpacing =
      .ok (array.tick ((tick - array.startTickIndex) / tickSpacing)) := by
  rw [TickArray.getTick, findTick_eq positive member, ok_bind]

/-- A tick that is not of the array cannot be read. -/
theorem getTick_eq_error (outside : ¬ IsTickOf array tickSpacing tick) :
    array.getTick tick tickSpacing = err .tickNotFound := by
  rw [TickArray.getTick, findTick_eq_error outside]
  rfl

/-- A tick that is not of the array cannot be written. -/
theorem updateTick_eq_error (outside : ¬ IsTickOf array tickSpacing tick) (update : TickUpdate) :
    array.updateTick tick tickSpacing update = err .tickNotFound := by
  rw [TickArray.updateTick, findTick_eq_error outside]
  rfl

/-- The slots of an updated array: the one written, and the others as before. -/
theorem updateTick_spec (positive : 0 < tickSpacing) (member : IsTickOf array tickSpacing tick)
    (update : TickUpdate) :
    ∃ updated, array.updateTick tick tickSpacing update = .ok updated ∧
      updated.startTickIndex = array.startTickIndex ∧
      ∀ offset, 0 ≤ offset → offset < tickArraySize → updated.tick offset =
        if offset = (tick - array.startTickIndex) / tickSpacing then update
        else array.tick offset := by
  refine ⟨{ array with ticks := fun position =>
    if (position.val : ℤ) = (tick - array.startTickIndex) / tickSpacing then
      (array.ticks position).update update else array.ticks position }, ?_, rfl, ?_⟩
  · rw [TickArray.updateTick, findTick_eq positive member, ok_bind]
  · intro offset nonneg inside
    unfold tickArraySize at inside
    rw [TickArray.tick, dif_pos ⟨nonneg, inside⟩, TickArray.tick, dif_pos ⟨nonneg, inside⟩]
    dsimp only
    rw [Int.toNat_of_nonneg nonneg, Tick.update_eq]

/-- Reading any tick after an update. -/
theorem getTick_updateTick (positive : 0 < tickSpacing) {update : TickUpdate} {updated : TickArray}
    (returned : array.updateTick tick tickSpacing update = .ok updated) (other : ℤ) :
    updated.getTick other tickSpacing =
      if other = tick then .ok update else array.getTick other tickSpacing := by
  have member : IsTickOf array tickSpacing tick := by
    by_contra outside
    rw [updateTick_eq_error outside] at returned
    simp only [err, reduceCtorEq] at returned
  obtain ⟨written, written_eq, start_eq, slots⟩ := updateTick_spec positive member update
  obtain rfl := Except.ok.inj (written_eq.symm.trans returned)
  have members (other : ℤ) : IsTickOf written tickSpacing other ↔
    IsTickOf array tickSpacing other := by
    unfold IsTickOf
    rw [checkInArrayBounds_iff, checkInArrayBounds_iff, start_eq]
  by_cases inside : IsTickOf array tickSpacing other
  · obtain ⟨nonneg, small⟩ := offset_inside positive inside
    rw [getTick_eq positive ((members other).mpr inside), start_eq, slots _ nonneg small]
    by_cases same : other = tick
    · rw [if_pos same, if_pos (by rw [same])]
    · rw [if_neg same,
        if_neg (fun collision => same (offset_injective positive inside member collision)),
        getTick_eq positive inside]
  · rw [if_neg (fun same => inside (by rw [same]; exact member)), getTick_eq_error inside,
      getTick_eq_error (mt (members other).mp inside)]

end Slots

/-- What the addresses of the ticks of a pool promise. -/
structure TickAddressing (tickSpacing : ℕ) : Prop where
  /-- The arrays of valid start tile the usable ticks. -/
  tiles : ∀ tick, Tick.checkIsUsableTick tick tickSpacing = true →
    ∃! start, Tick.checkIsValidStartTick start tickSpacing = true ∧
      ∀ array : TickArray, array.startTickIndex = start →
        array.checkInArrayBounds tick tickSpacing = true
  /-- A tick of an array has one of its 88 offsets. -/
  offset_inside : ∀ (array : TickArray) tick, IsTickOf array tickSpacing tick →
    ∃ offset, array.tickOffset tick tickSpacing = .ok offset ∧ 0 ≤ offset ∧ offset < tickArraySize
  offset_injective : ∀ (array : TickArray) tick other offset, IsTickOf array tickSpacing tick →
    IsTickOf array tickSpacing other → array.tickOffset tick tickSpacing = .ok offset →
      array.tickOffset other tickSpacing = .ok offset → tick = other
  /-- A tick is read, and updated, exactly in the array it is a usable tick of. -/
  getTick_iff : ∀ (array : TickArray) tick,
    (∃ found, array.getTick tick tickSpacing = .ok found) ↔ IsTickOf array tickSpacing tick
  updateTick_iff : ∀ (array : TickArray) tick update,
    (∃ updated, array.updateTick tick tickSpacing update = .ok updated) ↔
      IsTickOf array tickSpacing tick
  /-- An update writes its tick and leaves every other tick of every array. -/
  getTick_updated : ∀ (array : TickArray) tick update updated,
    array.updateTick tick tickSpacing update = .ok updated →
      updated.getTick tick tickSpacing = .ok update
  getTick_kept : ∀ (sequence : SwapTickSequence) arrayIndex tick update updated,
    sequence.updateTick arrayIndex tick tickSpacing update = .ok updated →
      ∀ otherIndex other, otherIndex ≠ arrayIndex ∨ other ≠ tick →
        updated.getTick otherIndex other tickSpacing = sequence.getTick otherIndex other tickSpacing

/-- Tick addressing is a bijection, for every spacing. -/
theorem tickAddressing {tickSpacing : ℕ} (positive : 0 < tickSpacing) :
    TickAddressing tickSpacing where
  tiles := by
    intro tick usable
    obtain ⟨⟨above, below⟩, -⟩ := checkIsUsableTick_iff.mp usable
    obtain ⟨start, ⟨valid, before, after⟩, unique⟩ := validStart_existsUnique positive above below
    refine ⟨start, ⟨valid, fun array same => ?_⟩, ?_⟩
    · rw [checkInArrayBounds_iff, same]
      exact ⟨before, after⟩
    · rintro other ⟨otherValid, bounds⟩
      exact unique other ⟨otherValid, checkInArrayBounds_iff.mp
        (bounds ⟨other, fun _ => Tick.default⟩ rfl)⟩
  offset_inside := fun array tick member =>
    ⟨_, tickOffset_eq positive, offset_inside positive member⟩
  offset_injective := by
    intro array tick other offset member member' first second
    rw [tickOffset_eq positive] at first second
    exact offset_injective positive member member' (Except.ok.inj (first.trans second.symm))
  getTick_iff := by
    intro array tick
    refine ⟨fun ⟨found, returned⟩ => ?_, fun member => ⟨_, getTick_eq positive member⟩⟩
    by_contra outside
    rw [getTick_eq_error outside] at returned
    simp only [err, reduceCtorEq] at returned
  updateTick_iff := by
    intro array tick update
    refine ⟨fun ⟨updated, returned⟩ => ?_, fun member => ?_⟩
    · by_contra outside
      rw [updateTick_eq_error outside] at returned
      simp only [err, reduceCtorEq] at returned
    · obtain ⟨updated, returned, -⟩ := updateTick_spec positive member update
      exact ⟨updated, returned⟩
  getTick_updated := by
    intro array tick update updated returned
    rw [getTick_updateTick positive returned, if_pos rfl]
  getTick_kept := by
    intro sequence arrayIndex tick update updated returned otherIndex other apart
    obtain ⟨array, found, returned⟩ := bind_eq_ok.mp returned
    obtain ⟨changed, written, built⟩ := bind_eq_ok.mp returned
    obtain rfl := Except.ok.inj built
    rw [SwapTickSequence.getArray_eq_ok] at found
    unfold SwapTickSequence.getTick SwapTickSequence.getArray
    by_cases same : otherIndex = arrayIndex
    · have distinct := apart.resolve_left (not_not.mpr same)
      have inside := (List.getElem?_eq_some_iff.mp found).1
      rw [same, List.getElem?_set_self inside, found]
      change changed.getTick other tickSpacing = array.getTick other tickSpacing
      rw [getTick_updateTick positive written, if_neg distinct]
    · dsimp only
      rw [List.getElem?_set_ne (Ne.symm same)]

/-- The leftmost array of spacing 64 starts below the range, and its ticks in range can be read. -/
theorem tickAddressing_leftmost :
    ∃ found, TickArray.getTick ⟨-444928, fun _ => Tick.default⟩ (-443584) 64 = .ok found :=
  ((tickAddressing (by norm_num)).getTick_iff ⟨-444928, fun _ => Tick.default⟩ (-443584)).mpr
    ⟨by decide, by decide⟩

end Whirlpools
