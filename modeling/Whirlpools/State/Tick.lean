import Whirlpools.State.Whirlpool

/-! # Ticks and tick arrays -/

namespace Whirlpools

open Outcome

def maxTickIndex : ℤ := 443636
def minTickIndex : ℤ := -443636

/-- The number of ticks of a tick array. -/
def tickArraySize : ℤ := 88

/-- One tick of a pool; an update of a tick has the same fields and replaces it. -/
structure Tick where
  initialized : Bool
  liquidityNet : ℤ
  liquidityGross : ℕ
  feeGrowthOutsideA : ℕ
  feeGrowthOutsideB : ℕ
  rewardGrowthsOutside : Fin numRewards → ℕ

/-- The fields an update writes to a tick are all its fields. -/
abbrev TickUpdate := Tick

namespace Tick

/-- The zeroed tick. -/
def default : Tick := ⟨false, 0, 0, 0, 0, fun _ => 0⟩

/-- Overwrite a tick with an update. -/
def update (_ : Tick) (update : TickUpdate) : Tick where
  initialized := update.initialized
  liquidityNet := update.liquidityNet
  liquidityGross := update.liquidityGross
  feeGrowthOutsideA := update.feeGrowthOutsideA
  feeGrowthOutsideB := update.feeGrowthOutsideB
  rewardGrowthsOutside := update.rewardGrowthsOutside

/-- An update replaces the whole content of a tick. -/
@[simp] theorem update_eq (tick : Tick) (next : TickUpdate) : tick.update next = next := rfl

def checkIsOutOfBounds (tickIndex : ℤ) : Bool :=
  tickIndex > maxTickIndex ∨ tickIndex < minTickIndex

/-- Whether a tick array may start here: at a multiple of its width, or at the
one multiple below the range whose array reaches into it. -/
def checkIsValidStartTick (tickIndex : ℤ) (tickSpacing : ℕ) : Bool :=
  let ticksInArray := tickArraySize * tickSpacing
  if checkIsOutOfBounds tickIndex then
    if tickIndex > minTickIndex then false
    else
      let minArrayStartIndex :=
        minTickIndex - (minTickIndex.tmod ticksInArray + ticksInArray)
      tickIndex = minArrayStartIndex
  else tickIndex.tmod ticksInArray = 0

/-- Whether a position may start or end at this tick. -/
def checkIsUsableTick (tickIndex : ℤ) (tickSpacing : ℕ) : Bool :=
  if checkIsOutOfBounds tickIndex then false else tickIndex.tmod tickSpacing = 0

end Tick

/-- An array of consecutive ticks of a pool. -/
structure TickArray where
  startTickIndex : ℤ
  ticks : Fin 88 → Tick

/-- Floor division of the distance to the start by the tick spacing. -/
def getOffset (tickIndex startTickIndex : ℤ) (tickSpacing : ℕ) : ℤ :=
  let lhs := tickIndex - startTickIndex
  let rhs : ℤ := tickSpacing
  let d := lhs.tdiv rhs
  let r := lhs.tmod rhs
  if (r > 0 ∧ rhs < 0) ∨ (r < 0 ∧ rhs > 0) then d - 1 else d

namespace TickArray

/-- The tick at an offset; no caller reads outside the array. -/
def tick (array : TickArray) (offset : ℤ) : Tick :=
  if inside : 0 ≤ offset ∧ offset < 88 then array.ticks ⟨offset.toNat, by omega⟩
  else Tick.default

/-- Whether a search from this tick index is for this array; the range is
shifted by one spacing for searches to the right. -/
def inSearchRange (array : TickArray) (tickIndex : ℤ) (tickSpacing : ℕ) (shifted : Bool) : Bool :=
  let lower := array.startTickIndex
  let upper := array.startTickIndex + tickArraySize * tickSpacing
  let lower := if shifted then lower - tickSpacing else lower
  let upper := if shifted then upper - tickSpacing else upper
  tickIndex ≥ lower ∧ tickIndex < upper

def checkInArrayBounds (array : TickArray) (tickIndex : ℤ) (tickSpacing : ℕ) : Bool :=
  array.inSearchRange tickIndex tickSpacing false

def isMinTickArray (array : TickArray) : Bool := array.startTickIndex ≤ minTickIndex

def isMaxTickArray (array : TickArray) (tickSpacing : ℕ) : Bool :=
  array.startTickIndex + tickArraySize * tickSpacing > maxTickIndex

def tickOffset (array : TickArray) (tickIndex : ℤ) (tickSpacing : ℕ) : Result ℤ :=
  if tickSpacing = 0 then err .invalidTickSpacing
  else .ok (getOffset tickIndex array.startTickIndex tickSpacing)

/-- Walk over the offsets until an initialized tick or the end of the array;
the fuel covers the whole array. -/
def scanOffsets (array : TickArray) (tickSpacing : ℕ) (aToB : Bool) : ℕ → ℤ → Option ℤ
  | 0, _ => none
  | fuel + 1, currOffset =>
      if currOffset ≥ 0 ∧ currOffset < tickArraySize then
        if (array.tick currOffset).initialized then
          some (currOffset * tickSpacing + array.startTickIndex)
        else scanOffsets array tickSpacing aToB fuel
          (if aToB then currOffset - 1 else currOffset + 1)
      else none

/-- The next initialized tick of this array: at or left of the given index when
moving left, strictly right of its offset when moving right. -/
def getNextInitTickIndex (array : TickArray) (tickIndex : ℤ) (tickSpacing : ℕ) (aToB : Bool) :
    Result (Option ℤ) :=
  if ¬ array.inSearchRange tickIndex tickSpacing (!aToB) then err .invalidTickArraySequence
  else
    array.tickOffset tickIndex tickSpacing >>= fun offset =>
    let currOffset := if aToB then offset else offset + 1
    .ok (array.scanOffsets tickSpacing aToB 89 currOffset)

/-- Set up a new array; its ticks are zeroed. The remainder by a zero spacing panics. -/
def initializeTickArray (startTickIndex : ℤ) (tickSpacing : ℕ) : Result TickArray :=
  if tickSpacing = 0 then .error .panic
  else if ¬ Tick.checkIsValidStartTick startTickIndex tickSpacing then err .invalidStartTick
  else .ok { startTickIndex := startTickIndex, ticks := fun _ => Tick.default }

/-- The checks shared by reading and updating a tick, and its offset. -/
def findTick (array : TickArray) (tickIndex : ℤ) (tickSpacing : ℕ) : Result ℤ :=
  if ¬ array.checkInArrayBounds tickIndex tickSpacing ∨
      ¬ Tick.checkIsUsableTick tickIndex tickSpacing then err .tickNotFound
  else
    array.tickOffset tickIndex tickSpacing >>= fun offset =>
    if offset < 0 then err .tickNotFound else .ok offset

def getTick (array : TickArray) (tickIndex : ℤ) (tickSpacing : ℕ) : Result Tick :=
  array.findTick tickIndex tickSpacing >>= fun offset => .ok (array.tick offset)

def updateTick (array : TickArray) (tickIndex : ℤ) (tickSpacing : ℕ) (update : TickUpdate) :
    Result TickArray :=
  array.findTick tickIndex tickSpacing >>= fun offset =>
    .ok { array with
      ticks := fun position =>
        if (position.val : ℤ) = offset then (array.ticks position).update update
        else array.ticks position }

end TickArray
end Whirlpools
