import Whirlpools.State.Tick

/-! # The tick arrays supplied to a swap -/

namespace Whirlpools

open Outcome

/-- The one to three tick arrays a swap may read and write, in the order given. -/
structure SwapTickSequence where
  arrays : List TickArray

namespace SwapTickSequence

/-- The sequence of the supplied arrays; arrays that could not be borrowed are left out. -/
def new (ta0 : TickArray) (ta1 ta2 : Option TickArray) : SwapTickSequence where
  arrays := [ta0] ++ ta1.toList ++ ta2.toList

/-- The array at an index of the sequence. -/
def getArray (sequence : SwapTickSequence) (arrayIndex : ℕ) : Result TickArray :=
  okOr sequence.arrays[arrayIndex]? (.code .tickArrayIndexOutofBounds)

def getTick (sequence : SwapTickSequence) (arrayIndex : ℕ) (tickIndex : ℤ) (tickSpacing : ℕ) :
    Result Tick :=
  sequence.getArray arrayIndex >>= fun array => array.getTick tickIndex tickSpacing

def updateTick (sequence : SwapTickSequence) (arrayIndex : ℕ) (tickIndex : ℤ) (tickSpacing : ℕ)
    (update : TickUpdate) : Result SwapTickSequence :=
  sequence.getArray arrayIndex >>= fun array =>
  array.updateTick tickIndex tickSpacing update >>= fun updated =>
    .ok ⟨sequence.arrays.set arrayIndex updated⟩

def getTickOffset (sequence : SwapTickSequence) (arrayIndex : ℕ) (tickIndex : ℤ)
    (tickSpacing : ℕ) : Result ℤ :=
  sequence.getArray arrayIndex >>= fun array => array.tickOffset tickIndex tickSpacing

/-- Search the remaining arrays; `index` counts the arrays already passed. -/
def searchArrays (tickSpacing : ℕ) (aToB : Bool) : List TickArray → ℕ → ℤ → Result (ℕ × ℤ)
  | [], _, _ => err .tickArraySequenceInvalidIndex
  | array :: rest, index, searchIndex =>
      let ticksInArray := tickArraySize * tickSpacing
      array.getNextInitTickIndex searchIndex tickSpacing aToB >>= fun nextIndex =>
      match nextIndex with
      | some nextIndex => .ok (index, nextIndex)
      | none =>
          -- At the edge of the tick range the search ends at the extreme tick.
          if aToB ∧ array.isMinTickArray then .ok (index, minTickIndex)
          else if ¬ aToB ∧ array.isMaxTickArray tickSpacing then .ok (index, maxTickIndex)
          -- At the end of the sequence it ends at the last tick of the last array.
          else if rest = [] then
            if aToB then .ok (index, array.startTickIndex)
            else .ok (index, array.startTickIndex + ticksInArray - 1)
          else
            searchArrays tickSpacing aToB rest (index + 1)
              (if aToB then array.startTickIndex - 1
                else array.startTickIndex + ticksInArray - 1)

/-- The next initialized tick from an array index on, with the index of its array. -/
def getNextInitializedTickIndex (sequence : SwapTickSequence) (tickIndex : ℤ) (tickSpacing : ℕ)
    (aToB : Bool) (startArrayIndex : ℕ) : Result (ℕ × ℤ) :=
  searchArrays tickSpacing aToB (sequence.arrays.drop startArrayIndex) startArrayIndex tickIndex

end SwapTickSequence
end Whirlpools
