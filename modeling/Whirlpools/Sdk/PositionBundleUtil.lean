import Whirlpools.State.PositionBundle

/-! # Position bundles read by the SDK -/

namespace Whirlpools.Sdk.PositionBundleUtil

/-- Whether each bundle index is occupied, bit by bit from the first byte on. -/
def convertBitmapToArray (positionBundle : PositionBundle) : List Bool :=
  (List.finRange positionBitmapUsize).flatMap fun index =>
    let bitmap := (positionBundle.positionBitmap index).toNat
    (List.range 8).map fun offset => decide (bitmap &&& (1 <<< offset) ≠ 0)

/-- The bundle indexes whose entry in the array is as asked for. -/
def indexesOf (array : List Bool) (wanted : Bool) : List ℕ :=
  array.zipIdx.filterMap fun entry => if entry.1 = wanted then some entry.2 else none

def getOccupiedBundleIndexes (positionBundle : PositionBundle) : List ℕ :=
  indexesOf (convertBitmapToArray positionBundle) true

def getUnoccupiedBundleIndexes (positionBundle : PositionBundle) : List ℕ :=
  indexesOf (convertBitmapToArray positionBundle) false

/-- The SDK decodes the bitmap bit by bit, in the order of the indexes. -/
theorem convertBitmapToArray_eq (positionBundle : PositionBundle) :
    convertBitmapToArray positionBundle =
      (List.range positionBundleSize).map positionBundle.isOpen := by
  refine Eq.trans ?_ positionBundle.positionBitmap.toList_eq
  refine List.flatMap_congr fun byte _ => List.map_congr_left fun offset _ => ?_
  rw [Nat.one_shiftLeft, Nat.and_two_pow, BitVec.getLsbD]
  cases (positionBundle.positionBitmap byte).toNat.testBit offset
  · simp
  · simp

/-- The indexes with a wanted entry are those at which the entries have it. -/
theorem indexesOf_map_range (entry : ℕ → Bool) (wanted : Bool) (length : ℕ) :
    indexesOf ((List.range length).map entry) wanted =
      (List.range length).filter fun index => entry index = wanted := by
  unfold indexesOf
  induction length with
  | zero => rfl
  | succ length ih =>
      rw [List.range_succ, List.map_append, List.zipIdx_append, List.filterMap_append, ih,
        List.filter_append, List.length_map, List.length_range, Nat.zero_add]
      by_cases same : entry length = wanted <;> simp [same]

end Whirlpools.Sdk.PositionBundleUtil
