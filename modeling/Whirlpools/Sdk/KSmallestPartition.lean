import Mathlib.Data.Int.Notation
import Mathlib.Logic.Equiv.Basic
import Whirlpools.Errors
import Whirlpools.Foundation.Loop

/-! # Selecting the k smallest items

The selection narrows a window of the array, partitioning it around the item at `k` each time. A
large window is narrowed to a sample first; the bounds of the sample are computed with
floating-point functions and are a parameter here. Reads and writes outside the current window
fail. -/

namespace Whirlpools.Sdk

open Outcome

variable {T : Type} {n : ℕ}

def recursionBreakpoint : ℤ := 600

/-- The bounds of the sample for `k` in a window, given as `k`, left and right. -/
abbrev Sampling : Type := ℤ → ℤ → ℤ → ℤ × ℤ

/-- The place of an index inside the window. -/
def placeInWindow (n : ℕ) (left right index : ℤ) : Result (Fin n) :=
  if inside : left ≤ index ∧ index ≤ right ∧ 0 ≤ index ∧ index.toNat < n then
    .ok ⟨index.toNat, inside.2.2.2⟩
  else .error .panic

/-- Exchange two items. -/
def swap (arr : Vector T n) (i j : Fin n) : Vector T n :=
  let tmp := arr.get i
  (arr.set i (arr.get j)).set j tmp

/-- An item that is written is read back, and the others stay. -/
theorem get_set (arr : Vector T n) (i place : Fin n) (item : T) :
    (arr.set i item).get place = if place = i then item else arr.get place := by
  change (arr.set i item)[place.val] = _
  rw [Vector.getElem_set]
  by_cases same : i = place
  · rw [if_pos (congrArg Fin.val same), if_pos same.symm]
  · rw [if_neg (fun equal => same (Fin.ext equal)), if_neg (Ne.symm same)]
    rfl

/-- Swapping two items composes the array with a transposition. -/
theorem get_swap (arr : Vector T n) (i j : Fin n) :
    (swap arr i j).get = arr.get ∘ Equiv.swap i j := by
  funext place
  rw [Function.comp_apply, Equiv.swap_apply_def]
  unfold swap
  dsimp only
  rw [get_set, get_set]
  by_cases second : place = j
  · subst place
    by_cases same : j = i
    · rw [if_pos rfl, if_pos same, same]
    · rw [if_pos rfl, if_neg same, if_pos rfl]
  · rw [if_neg second]
    by_cases first : place = i
    · rw [if_pos first, if_pos first]
    · rw [if_neg first, if_neg first, if_neg second]

section Partition

variable (compare : T → T → ℤ) (left right : ℤ)

def itemAt (array : Vector T n) (index : ℤ) : Result T :=
  placeInWindow n left right index >>= fun place => .ok (array.get place)

def swapAt (array : Vector T n) (i j : ℤ) : Result (Vector T n) :=
  placeInWindow n left right i >>= fun first =>
  placeInWindow n left right j >>= fun second => .ok (swap array first second)

/-- The number of steps after which a scan of the window has left it. -/
def windowSteps : ℕ := (right - left).toNat + 2

/-- Move up to the first item that is not smaller than `t`. -/
def scanUp (array : Vector T n) (t : T) (i : ℤ) : Result ℤ :=
  repeatStep (fun i => itemAt left right array i >>= fun item =>
    .ok (if compare item t < 0 then .inl (i + 1) else .inr i)) .outOfFuel (windowSteps left right) i

/-- Move down to the first item that is not larger than `t`. -/
def scanDown (array : Vector T n) (t : T) (j : ℤ) : Result ℤ :=
  repeatStep (fun j => itemAt left right array j >>= fun item =>
    .ok (if compare item t > 0 then .inl (j - 1) else .inr j)) .outOfFuel (windowSteps left right) j

/-- One round of the two-pointer loop: exchange, then move both pointers on. -/
def partitionRound (t : T) (state : (Vector T n) × ℤ × ℤ) :
    Result (((Vector T n) × ℤ × ℤ) ⊕ ((Vector T n) × ℤ)) :=
  let i := state.2.1
  let j := state.2.2
  if i < j then
    swapAt left right state.1 i j >>= fun array =>
    scanUp compare left right array t (i + 1) >>= fun i =>
    scanDown compare left right array t (j - 1) >>= fun j => .ok (.inl (array, i, j))
  else .ok (.inr (state.1, j))

/-- Place `t` between the smaller and the larger items. -/
def placePivot (t : T) (array : Vector T n) (j : ℤ) : Result ((Vector T n) × ℤ) :=
  itemAt left right array left >>= fun item =>
  if compare item t = 0 then
    swapAt left right array left j >>= fun array => .ok (array, j)
  else
    swapAt left right array (j + 1) right >>= fun array => .ok (array, j + 1)

/-- Partition the window around the item at `k`; returns the place of that item. -/
def partitionAround (array : Vector T n) (k : ℤ) : Result ((Vector T n) × ℤ) :=
  itemAt left right array k >>= fun t =>
  swapAt left right array left k >>= fun array =>
  itemAt left right array right >>= fun last =>
  (if compare last t > 0 then swapAt left right array left right else .ok array) >>= fun array =>
  repeatStep (partitionRound compare left right t) .outOfFuel (windowSteps left right)
    (array, left, right) >>= fun parts =>
  placePivot compare left right t parts.1 parts.2

end Partition

/-- The loop on the window, with the recursive call on the sample; the fuel bounds the windows. -/
def kSmallestPartition (sampling : Sampling) (compare : T → T → ℤ) :
    ℕ → (Vector T n) → ℤ → ℤ → ℤ → Result (Vector T n)
  | 0, array, _, left, right => if right > left then .error .outOfFuel else .ok array
  | fuel + 1, array, k, left, right =>
      if right > left then
        (if right - left > recursionBreakpoint then
          kSmallestPartition sampling compare fuel array k (sampling k left right).1
            (sampling k left right).2
        else .ok array) >>= fun array =>
        partitionAround compare left right array k >>= fun parts =>
        let j := parts.2
        kSmallestPartition sampling compare fuel parts.1 k (if j ≤ k then j + 1 else left)
          (if k ≤ j then j - 1 else right)
      else .ok array

end Whirlpools.Sdk
