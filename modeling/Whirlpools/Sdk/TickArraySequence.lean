import Whirlpools.Sdk.SwapStep
import Whirlpools.State.Tick

/-! # The tick arrays of a quote

The SDK searches a virtual row of slots, each addressed by the index of its array and its
offset there, where the program keeps a cursor into the arrays. Numbers of the SDK are read
as exact.
-/

namespace Whirlpools.Sdk

open Outcome

/-- The array and the offset of a slot. -/
structure TickArrayIndex where
  arrayIndex : ℤ
  offsetIndex : ℤ
  tickSpacing : ℤ
  deriving DecidableEq

namespace TickArrayIndex

def new (arrayIndex offsetIndex tickSpacing : ℤ) : Attempt TickArrayIndex :=
  if offsetIndex ≥ tickArraySize then
    .error (.error "Invalid offsetIndex - value has to be smaller than TICK_ARRAY_SIZE")
  else if offsetIndex < 0 then .error (.error "Invalid offsetIndex - value is smaller than 0")
  else if tickSpacing < 0 then .error (.error "Invalid tickSpacing - value is less than 0")
  else .ok ⟨arrayIndex, offsetIndex, tickSpacing⟩

/-- The slot of a tick; the quotients are floors, and the remainder truncates. -/
def fromTickIndex (index tickSpacing : ℤ) : Attempt TickArrayIndex :=
  let arrayIndex := index / tickSpacing / tickArraySize
  let offsetIndex := index.tmod (tickSpacing * tickArraySize) / tickSpacing
  new arrayIndex (if offsetIndex < 0 then tickArraySize + offsetIndex else offsetIndex) tickSpacing

def toTickIndex (slot : TickArrayIndex) : ℤ :=
  slot.arrayIndex * tickArraySize * slot.tickSpacing + slot.offsetIndex * slot.tickSpacing

def toNextInitializableTickIndex (slot : TickArrayIndex) : Attempt TickArrayIndex :=
  fromTickIndex (slot.toTickIndex + slot.tickSpacing) slot.tickSpacing

def toPrevInitializableTickIndex (slot : TickArrayIndex) : Attempt TickArrayIndex :=
  fromTickIndex (slot.toTickIndex - slot.tickSpacing) slot.tickSpacing

end TickArrayIndex

/-- A tick array whose data has been fetched. -/
structure InitializedTickArray (Address : Type) where
  address : Address
  data : TickArray

/-- The fetched tick arrays of a quote, and which of them it has read. -/
structure TickArraySequence (Address : Type) where
  sequence : List (InitializedTickArray Address)
  touchedArrays : List Bool
  startArrayIndex : ℤ
  tickSpacing : ℤ
  aToB : Bool

namespace TickArraySequence

variable {Address : Type}

/-- The arrays up to the first one without data; the first must have data. -/
def new (tickArrays : List (Address × Option TickArray)) (tickSpacing : ℤ) (aToB : Bool) :
    Attempt (TickArraySequence Address) :=
  let sequence := (tickArrays.map fun tickArray =>
    tickArray.2.map (InitializedTickArray.mk tickArray.1)).takeWhile Option.isSome |>.reduceOption
  match sequence with
  | [] => .error (.error "TickArray index 0 must be initialized")
  | first :: _ =>
      TickArrayIndex.fromTickIndex first.data.startTickIndex tickSpacing >>= fun start =>
      .ok {
        sequence := sequence
        touchedArrays := List.replicate sequence.length false
        startArrayIndex := start.arrayIndex
        tickSpacing := tickSpacing
        aToB := aToB }

def getLocalArrayIndex (self : TickArraySequence Address) (arrayIndex : ℤ) : ℤ :=
  if self.aToB then self.startArrayIndex - arrayIndex else arrayIndex - self.startArrayIndex

/-- Whether the array of a slot is in the sequence, if the arrays are sequential. -/
def isArrayIndexInBounds (self : TickArraySequence Address) (index : TickArrayIndex) : Bool :=
  let localArrayIndex := self.getLocalArrayIndex index.arrayIndex
  localArrayIndex ≥ 0 ∧ localArrayIndex < self.sequence.length

def checkIfIndexIsInTickArrayRange (self : TickArraySequence Address) (startTick tickIndex : ℤ) :
    Bool :=
  let upperBound := startTick + self.tickSpacing * tickArraySize
  tickIndex ≥ startTick ∧ tickIndex < upperBound

/-- Whether the first array is the one a swap starts to search. -/
def isValidTickArray0 (self : TickArraySequence Address) (tickCurrentIndex : ℤ) : Bool :=
  let shift := if self.aToB then 0 else self.tickSpacing
  match self.sequence with
  | [] => false
  | first :: _ =>
      self.checkIfIndexIsInTickArrayRange first.data.startTickIndex (tickCurrentIndex + shift)

def getNumOfTouchedArrays (self : TickArraySequence Address) : ℕ := self.touchedArrays.count true

/-- A list with its last element repeated up to a size. -/
def padWithLast (result : List Address) (minArraySize : ℕ) : List Address :=
  match result.getLast? with
  | none => []
  | some last => result ++ List.replicate (minArraySize - result.length) last

/-- The addresses of the arrays that have been read, the last one repeated up to a size. -/
def getTouchedArrays (self : TickArraySequence Address) (minArraySize : ℕ) : List Address :=
  padWithLast (((self.sequence.zip self.touchedArrays).filter Prod.snd).map fun touched =>
    touched.1.address) minArraySize

/-- The tick at an index, and the sequence with its array touched. -/
def getTick (self : TickArraySequence Address) (index : ℤ) :
    Attempt (Tick × TickArraySequence Address) :=
  TickArrayIndex.fromTickIndex index self.tickSpacing >>= fun targetTaIndex =>
  if ¬ self.isArrayIndexInBounds targetTaIndex then
    .error (.error "Provided tick index is out of bounds for this sequence.")
  else
    let localArrayIndex := (self.getLocalArrayIndex targetTaIndex.arrayIndex).toNat
    match self.sequence[localArrayIndex]? with
    | none =>
        .error (.whirlpoolsError s!"TickArray at index {localArrayIndex} is not initialized."
          (.swap .tickArrayIndexNotInitialized))
    | some tickArray =>
        if ¬ self.checkIfIndexIsInTickArrayRange tickArray.data.startTickIndex index then
          .error (.whirlpoolsError
            s!"TickArray at index {localArrayIndex} is unexpected for this sequence."
            (.swap .tickArraySequenceInvalid))
        else
          .ok (tickArray.data.tick targetTaIndex.offsetIndex,
            { self with touchedArrays := self.touchedArrays.set localArrayIndex true })

/-- What a search that runs out of arrays returns. -/
def lastIndexInArray (self : TickArraySequence Address) (currTaIndex : TickArrayIndex) : ℤ :=
  max (min (if self.aToB then currTaIndex.toTickIndex + self.tickSpacing
    else currTaIndex.toTickIndex - 1) maxTickIndex) minTickIndex

/-- Walk over the slots until an initialized tick or the end of the sequence. -/
def searchSlots : ℕ → TickArraySequence Address → TickArrayIndex →
    Attempt (ℤ × Option Tick × TickArraySequence Address)
  | 0, _, _ => .error .outOfFuel
  | fuel + 1, self, currTaIndex =>
      if self.isArrayIndexInBounds currTaIndex then
        self.getTick currTaIndex.toTickIndex >>= fun (currTickData, touched) =>
        if currTickData.initialized then
          .ok (currTaIndex.toTickIndex, some currTickData, touched)
        else
          (if self.aToB then currTaIndex.toPrevInitializableTickIndex
            else currTaIndex.toNextInitializableTickIndex) >>= fun next =>
          searchSlots fuel touched next
      else .ok (self.lastIndexInArray currTaIndex, none, self)

/-- The next initialized tick, the current one included from right to left only, with its
data and the sequence after the search. -/
def findNextInitializedTickIndex (self : TickArraySequence Address) (currIndex : ℤ) :
    Attempt (ℤ × Option Tick × TickArraySequence Address) :=
  let searchIndex := if self.aToB then currIndex else currIndex + self.tickSpacing
  TickArrayIndex.fromTickIndex searchIndex self.tickSpacing >>= fun currTaIndex =>
  if ¬ self.isArrayIndexInBounds currTaIndex then
    let tickIndex := currTaIndex.toTickIndex
    .error (.whirlpoolsError
      ("Swap input value traversed too many arrays. " ++
        s!"Out of bounds at attempt to traverse tick index - {tickIndex}.")
      (.swap .tickArraySequenceInvalid))
  else searchSlots (88 * self.sequence.length + 1) self currTaIndex

end TickArraySequence
end Whirlpools.Sdk
