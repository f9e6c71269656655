import Mathlib.Data.Rat.Floor
import Whirlpools.Sdk.SwapStep
import Whirlpools.State.Tick

/-! # The tick arrays the SDK picks for a swap

Numbers of the SDK are read as exact: quotients are rational, and the remainder truncates.
-/

namespace Whirlpools.Sdk

open Outcome

/-- An invariant that fails throws its message. -/
def invariant (condition : Bool) (message : String) : Attempt Unit :=
  if condition then .ok () else .error (.error s!"Invariant failed: {message}")

@[simp] theorem invariant_eq_ok {condition : Bool} {message : String} {done : Unit} :
    invariant condition message = .ok done ↔ condition = true := by
  unfold invariant
  split_ifs with holds <;> simp only [holds, reduceCtorEq]

namespace TickUtil

def checkTickInBounds (tick : ℤ) : Bool := tick ≤ maxTickIndex ∧ tick ≥ minTickIndex

/-- The start of the tick array that holds a tick, or of one of its neighbours. -/
def getStartTickIndex (tickIndex : ℤ) (tickSpacing : ℕ) (offset : ℤ) : Attempt ℤ :=
  let realIndex := ⌊(tickIndex : ℚ) / tickSpacing / 88⌋
  let startTickIndex := (realIndex + offset) * tickSpacing * 88
  let ticksInArray := tickArraySize * tickSpacing
  let leftmost := minTickIndex - (minTickIndex.tmod ticksInArray + ticksInArray)
  invariant (startTickIndex ≥ leftmost) s!"startTickIndex is too small - - {startTickIndex}"
    >>= fun _ =>
  invariant (startTickIndex ≤ maxTickIndex) s!"startTickIndex is too large - {startTickIndex}"
    >>= fun _ => .ok startTickIndex

/-- A tick on the grid of the spacing near a tick; the remainder truncates. -/
def getInitializableTickIndex (tickIndex : ℤ) (tickSpacing : ℕ) : ℤ :=
  tickIndex - tickIndex.tmod tickSpacing

def getNextInitializableTickIndex (tickIndex : ℤ) (tickSpacing : ℕ) : ℤ :=
  getInitializableTickIndex tickIndex tickSpacing + tickSpacing

def getPrevInitializableTickIndex (tickIndex : ℤ) (tickSpacing : ℕ) : ℤ :=
  getInitializableTickIndex tickIndex tickSpacing - tickSpacing

end TickUtil

def maxSwapTickArrays : ℕ := 3

namespace SwapUtils

/-- The remaining rounds of the search for tick arrays; it ends at the first that throws. -/
def tickArraysFrom {Address : Type} (getTickArray : ℤ → Address) (tickIndex : ℤ)
    (tickSpacing : ℕ) (aToB : Bool) : ℕ → ℤ → List Address
  | 0, _ => []
  | rounds + 1, offset =>
      match TickUtil.getStartTickIndex tickIndex tickSpacing offset with
      | .error _ => []
      | .ok startIndex =>
          getTickArray startIndex :: tickArraysFrom getTickArray tickIndex tickSpacing aToB rounds
            (if aToB then offset - 1 else offset + 1)

/-- The addresses of the tick arrays a swap may traverse, derived from their starts. -/
def getTickArrayPublicKeys {Address : Type} (getTickArray : ℤ → Address) (tickCurrentIndex : ℤ)
    (tickSpacing : ℕ) (aToB : Bool) : List Address :=
  let shift : ℤ := if aToB then 0 else tickSpacing
  tickArraysFrom getTickArray (tickCurrentIndex + shift) tickSpacing aToB maxSwapTickArrays 0

end SwapUtils
end Whirlpools.Sdk
