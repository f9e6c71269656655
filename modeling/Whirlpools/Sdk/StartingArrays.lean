import Whirlpools.Sdk.TickUtil
import Whirlpools.Ticks.Addressing

/-! # The tick array a swap starts with

At most one array of valid start is searched first for a current tick. To the right the
search looks one spacing further, so that from the last slot of the topmost array none is
left when the range ends there. The SDK lists the array and its neighbours in the direction
of the trade, and nothing where there is none.
-/

namespace Whirlpools.Sdk

open Outcome

section Start

variable {tickSpacing : ℕ} {start : ℤ}

/-- The least valid start is the multiple of the width next below the range. -/
theorem leftmost_le_iff (positive : 0 < tickSpacing) (divides : arrayWidth tickSpacing ∣ start) :
    minTickIndex - (minTickIndex.tmod (arrayWidth tickSpacing) + arrayWidth tickSpacing) ≤ start ↔
      minTickIndex ≤ start + arrayWidth tickSpacing := by
  have width := arrayWidth_pos positive
  have split := Int.mul_tdiv_add_tmod minTickIndex (arrayWidth tickSpacing)
  have above := Int.lt_tmod_of_pos minTickIndex width
  have remainder : minTickIndex.tmod (arrayWidth tickSpacing) ≤ 0 := by
    have nonneg := Int.tmod_nonneg (arrayWidth tickSpacing) (show (0 : ℤ) ≤ 443636 by norm_num)
    rw [show minTickIndex = -443636 from rfl, Int.neg_tmod]
    omega
  obtain ⟨place, rfl⟩ := divides
  constructor
  · intro bound
    omega
  · intro reaches
    have between : minTickIndex.tdiv (arrayWidth tickSpacing) < place + 2 := by nlinarith
    nlinarith

/-- The start the SDK computes is a multiple of the width. -/
theorem startTickIndex_eq (tickIndex offset : ℤ) :
    (⌊(tickIndex : ℚ) / tickSpacing / 88⌋ + offset) * tickSpacing * 88 =
      startOf tickSpacing tickIndex + offset * arrayWidth tickSpacing := by
  have quotient : (tickIndex : ℚ) / tickSpacing / 88 =
      (tickIndex : ℚ) / ((tickSpacing * 88 : ℕ) : ℚ) := by
    rw [div_div]
    push_cast
    rfl
  have width : arrayWidth tickSpacing = ((tickSpacing * 88 : ℕ) : ℤ) := by
    unfold arrayWidth tickArraySize
    push_cast
    ring
  rw [quotient, Rat.floor_intCast_div_natCast, startOf, width]
  push_cast
  ring

/-- The SDK accepts exactly the valid starts. -/
theorem getStartTickIndex_eq_ok (positive : 0 < tickSpacing) (tickIndex offset : ℤ) :
    TickUtil.getStartTickIndex tickIndex tickSpacing offset = .ok start ↔
      start = startOf tickSpacing tickIndex + offset * arrayWidth tickSpacing ∧
        Tick.checkIsValidStartTick start tickSpacing = true := by
  have divides : arrayWidth tickSpacing ∣
      startOf tickSpacing tickIndex + offset * arrayWidth tickSpacing :=
    Int.dvd_add (Dvd.intro_left _ rfl) (Dvd.intro_left _ rfl)
  simp only [TickUtil.getStartTickIndex, startTickIndex_eq, bind_eq_ok, invariant_eq_ok,
    decide_eq_true_eq, Except.ok.injEq, ge_iff_le, exists_const]
  constructor
  · rintro ⟨above, below, rfl⟩
    exact ⟨rfl, (checkIsValidStartTick_iff positive).mpr
      ⟨divides, (leftmost_le_iff positive divides).mp above, below⟩⟩
  · rintro ⟨rfl, valid⟩
    obtain ⟨-, above, below⟩ := (checkIsValidStartTick_iff positive).mp valid
    exact ⟨(leftmost_le_iff positive divides).mpr above, below, rfl⟩

end Start

section Search

variable {tickSpacing : ℕ} {aToB : Bool} {tick : ℤ}

/-- The tick whose array is searched first. -/
def searchTick (tickSpacing : ℕ) (aToB : Bool) (tick : ℤ) : ℤ :=
  tick + (if aToB then 0 else (tickSpacing : ℤ))

/-- The program's check on an array compares the tick that the search starts from. -/
theorem inSearchRange_iff {array : TickArray} :
    array.inSearchRange tick tickSpacing (!aToB) = true ↔
      array.startTickIndex ≤ searchTick tickSpacing aToB tick ∧
        searchTick tickSpacing aToB tick < array.startTickIndex + arrayWidth tickSpacing := by
  unfold TickArray.inSearchRange searchTick arrayWidth
  cases aToB <;> simp only [Bool.not_false, Bool.not_true, Bool.false_eq_true, ↓reduceIte,
    decide_eq_true_eq, ge_iff_le] <;> omega

/-- The array searched first starts at the start of the search tick, where that is valid. -/
theorem searched_iff (positive : 0 < tickSpacing) {start : ℤ} (above : minTickIndex ≤ tick) :
    (Tick.checkIsValidStartTick start tickSpacing = true ∧
      start ≤ searchTick tickSpacing aToB tick ∧
      searchTick tickSpacing aToB tick < start + arrayWidth tickSpacing) ↔
    start = startOf tickSpacing (searchTick tickSpacing aToB tick) ∧ start ≤ maxTickIndex := by
  have width := arrayWidth_pos positive
  obtain ⟨before, after⟩ := startOf_spec positive (searchTick tickSpacing aToB tick)
  constructor
  · rintro ⟨valid, lower, upper⟩
    obtain ⟨divides, below⟩ := checkIsValidStartTick_dvd valid
    exact ⟨multiple_unique (searchTick tickSpacing aToB tick - arrayWidth tickSpacing + 1) width
      divides (Dvd.intro_left _ rfl) ⟨by omega, by omega⟩ ⟨by omega, by omega⟩, below⟩
  · rintro ⟨rfl, below⟩
    have further : tick ≤ searchTick tickSpacing aToB tick := by
      unfold searchTick
      split_ifs <;> omega
    exact ⟨(checkIsValidStartTick_iff positive).mpr ⟨Dvd.intro_left _ rfl, by omega, below⟩,
      before, after⟩

/-- The starts of an array and of its neighbours in the direction of the trade. -/
def neighbour (tickSpacing : ℕ) (aToB : Bool) (start : ℤ) (distance : ℕ) : ℤ :=
  if aToB then start - distance * arrayWidth tickSpacing
  else start + distance * arrayWidth tickSpacing

/-- The SDK lists valid neighbours until the range ends. -/
theorem tickArraysFrom_eq {Address : Type} (getTickArray : ℤ → Address)
    (positive : 0 < tickSpacing) (tickIndex : ℤ) (rounds distance : ℕ) :
    SwapUtils.tickArraysFrom getTickArray tickIndex tickSpacing aToB rounds
        (if aToB then -(distance : ℤ) else distance) =
      (((List.range rounds).map fun further => neighbour tickSpacing aToB
        (startOf tickSpacing tickIndex) (distance + further)).takeWhile fun start =>
          Tick.checkIsValidStartTick start tickSpacing).map getTickArray := by
  induction rounds generalizing distance with
  | zero => rfl
  | succ rounds ih =>
      have here : neighbour tickSpacing aToB (startOf tickSpacing tickIndex) distance =
          startOf tickSpacing tickIndex +
            (if aToB then -(distance : ℤ) else distance) * arrayWidth tickSpacing := by
        unfold neighbour
        split_ifs <;> ring
      have onward : (if aToB then (if aToB then -(distance : ℤ) else distance) - 1
          else (if aToB then -(distance : ℤ) else distance) + 1) =
            if aToB then -((distance + 1 : ℕ) : ℤ) else ((distance + 1 : ℕ) : ℤ) := by
        cases aToB <;> simp only [Bool.false_eq_true, ↓reduceIte] <;> omega
      have shifted : (List.range rounds).map ((fun further => neighbour tickSpacing aToB
          (startOf tickSpacing tickIndex) (distance + further)) ∘ Nat.succ) =
            (List.range rounds).map fun further => neighbour tickSpacing aToB
              (startOf tickSpacing tickIndex) (distance + 1 + further) :=
        List.map_congr_left fun further _ =>
          congrArg (neighbour tickSpacing aToB _) (by rw [Nat.succ_eq_add_one]; omega)
      rw [List.range_succ_eq_map, List.map_cons, List.map_map, shifted, List.takeWhile_cons,
        SwapUtils.tickArraysFrom, Nat.add_zero]
      cases valid : Tick.checkIsValidStartTick
          (neighbour tickSpacing aToB (startOf tickSpacing tickIndex) distance) tickSpacing with
      | true =>
          rw [(getStartTickIndex_eq_ok positive _ _).mpr ⟨here, valid⟩]
          dsimp only
          rw [onward, ih, if_pos rfl, List.map_cons]
      | false =>
          rw [if_neg Bool.false_ne_true, List.map_nil]
          cases outcome : TickUtil.getStartTickIndex tickIndex tickSpacing
              (if aToB then -(distance : ℤ) else distance) with
          | error => rfl
          | ok start =>
              obtain ⟨rfl, accepted⟩ := (getStartTickIndex_eq_ok positive _ _).mp outcome
              rw [← here, valid] at accepted
              exact absurd accepted Bool.false_ne_true

end Search

/-- The SDK lists the arrays from the one that holds that tick, in the direction of the swap and as
far as they start in range. -/
theorem getTickArrayPublicKeys_eq {Address : Type} (getTickArray : ℤ → Address) {tickSpacing : ℕ}
    (positive : 0 < tickSpacing) (aToB : Bool) (tick : ℤ) :
    SwapUtils.getTickArrayPublicKeys getTickArray tick tickSpacing aToB =
      (((List.range maxSwapTickArrays).map (neighbour tickSpacing aToB
        (startOf tickSpacing (searchTick tickSpacing aToB tick)))).takeWhile fun start =>
          Tick.checkIsValidStartTick start tickSpacing).map getTickArray := by
  have rounds := @tickArraysFrom_eq tickSpacing aToB _ getTickArray positive
    (searchTick tickSpacing aToB tick) maxSwapTickArrays 0
  simp only [Nat.cast_zero, neg_zero, ite_self, Nat.zero_add] at rounds
  exact rounds

/-- The tick array a swap starts with, and those the SDK lists. To the right, the condition
is that the array of the next slot still starts in the range. -/
structure StartingArrays (tickSpacing : ℕ) (aToB : Bool) (tick : ℤ) : Prop where
  /-- Exactly one array of valid start is searched first. -/
  unique : (aToB = false → startOf tickSpacing (tick + tickSpacing) ≤ maxTickIndex) →
    ∃! start, Tick.checkIsValidStartTick start tickSpacing = true ∧
      ∀ array : TickArray, array.startTickIndex = start →
        array.inSearchRange tick tickSpacing (!aToB) = true
  /-- The SDK lists it and its neighbours in the direction of the trade, in order, as long as
  their starts are valid. -/
  listed : ∀ {Address : Type} (getTickArray : ℤ → Address) (array : TickArray),
    Tick.checkIsValidStartTick array.startTickIndex tickSpacing = true →
    array.inSearchRange tick tickSpacing (!aToB) = true →
      SwapUtils.getTickArrayPublicKeys getTickArray tick tickSpacing aToB =
        (((List.range maxSwapTickArrays).map (neighbour tickSpacing aToB
          array.startTickIndex)).takeWhile fun start =>
            Tick.checkIsValidStartTick start tickSpacing).map getTickArray
  /-- Where the condition fails, no array is searched first, and the SDK lists none. -/
  absent : aToB = false → maxTickIndex < startOf tickSpacing (tick + tickSpacing) →
    (∀ array : TickArray, Tick.checkIsValidStartTick array.startTickIndex tickSpacing = true →
      array.inSearchRange tick tickSpacing (!aToB) = false) ∧
    ∀ {Address : Type} (getTickArray : ℤ → Address),
      SwapUtils.getTickArrayPublicKeys getTickArray tick tickSpacing aToB = []

/-- Every current tick has one array to start with, or is in the last slot of the range. -/
theorem startingArrays {tickSpacing : ℕ} {tick : ℤ} (aToB : Bool) (positive : 0 < tickSpacing)
    (above : minTickIndex ≤ tick) (below : tick < maxTickIndex) :
    StartingArrays tickSpacing aToB tick where
  unique := by
    intro condition
    have inside : startOf tickSpacing (searchTick tickSpacing aToB tick) ≤ maxTickIndex := by
      cases aToB with
      | true =>
          have before := (startOf_spec positive (searchTick tickSpacing true tick)).1
          have same : searchTick tickSpacing true tick = tick := Int.add_zero tick
          omega
      | false => exact condition rfl
    refine ⟨startOf tickSpacing (searchTick tickSpacing aToB tick), ⟨?_, fun array same => ?_⟩, ?_⟩
    · exact ((searched_iff positive above).mpr ⟨rfl, inside⟩).1
    · rw [inSearchRange_iff, same]
      exact ((searched_iff positive above).mpr ⟨rfl, inside⟩).2
    · rintro other ⟨valid, searched⟩
      exact ((searched_iff positive above).mp ⟨valid, inSearchRange_iff.mp
        (searched ⟨other, fun _ => Tick.default⟩ rfl)⟩).1
  listed := by
    intro Address getTickArray array valid searched
    rw [getTickArrayPublicKeys_eq getTickArray positive,
      ((searched_iff positive above).mp ⟨valid, inSearchRange_iff.mp searched⟩).1]
  absent := by
    rintro rfl condition
    have outside : maxTickIndex < startOf tickSpacing (searchTick tickSpacing false tick) :=
      condition
    refine ⟨fun array valid => ?_, fun getTickArray => ?_⟩
    · rw [← Bool.not_eq_true]
      intro searched
      obtain ⟨same, inside⟩ := (searched_iff positive above).mp
        ⟨valid, inSearchRange_iff.mp searched⟩
      omega
    · have invalid : Tick.checkIsValidStartTick
          (startOf tickSpacing (searchTick tickSpacing false tick)) tickSpacing = false := by
        rw [← Bool.not_eq_true, checkIsValidStartTick_iff positive]
        omega
      have first : neighbour tickSpacing false
          (startOf tickSpacing (searchTick tickSpacing false tick)) 0 =
            startOf tickSpacing (searchTick tickSpacing false tick) := by
        rw [neighbour, if_neg Bool.false_ne_true, Nat.cast_zero, zero_mul, add_zero]
      rw [getTickArrayPublicKeys_eq getTickArray positive, maxSwapTickArrays,
        List.range_succ_eq_map, List.map_cons, first, List.takeWhile_cons_of_neg
          (by rw [invalid]; exact Bool.false_ne_true), List.map_nil]

/-- At spacing 64 three arrays are listed, from the one that is searched first. -/
theorem startingArrays_rightward : StartingArrays 64 false 5600 ∧
    SwapUtils.getTickArrayPublicKeys id 5600 64 false = [5632, 11264, 16896] :=
  ⟨startingArrays false (by norm_num) (by decide) (by decide), by decide +kernel⟩

/-- At spacing 5050 one array covers the range right of zero, and a trade to the right from its
last slot has no array to start with. -/
theorem not_startingArrays :
    ¬ ∀ (tickSpacing : ℕ) (aToB : Bool) (tick : ℤ), 1 ≤ tickSpacing → minTickIndex ≤ tick →
      tick ≤ maxTickIndex - 1 →
      ∃! start, Tick.checkIsValidStartTick start tickSpacing = true ∧
        ∀ array : TickArray, array.startTickIndex = start →
          array.inSearchRange tick tickSpacing (!aToB) = true := by
  intro claimed
  obtain ⟨start, ⟨valid, searched⟩, -⟩ := claimed 5050 false 440000 (by norm_num) (by decide)
    (by decide)
  obtain ⟨rfl, inside⟩ := (searched_iff (show 0 < 5050 by norm_num)
    (show minTickIndex ≤ 440000 by decide)).mp ⟨valid, inSearchRange_iff.mp
      (searched ⟨start, fun _ => Tick.default⟩ rfl)⟩
  exact absurd inside (by decide +kernel)

end Whirlpools.Sdk
