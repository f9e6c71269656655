import Whirlpools.Errors
import Whirlpools.Foundation.PackedBits
import Whirlpools.State.Whirlpool

/-! # Position bundles

A bundle keeps one bit for each of its positions. The functions that change it write through a
reference, so each returns the bundle as it leaves it, together with its outcome.
-/

namespace Whirlpools

/-- The number of bytes of the bitmap. -/
def positionBitmapUsize : ℕ := 32

/-- The number of positions of a bundle. -/
def positionBundleSize : ℕ := 8 * positionBitmapUsize

/-- A bundle of positions and which of them are open. -/
structure PositionBundle where
  positionBundleMint : Pubkey
  positionBitmap : PackedBits positionBitmapUsize

namespace PositionBundle

/-- A new bundle; the bitmap keeps its default of zeros. -/
def initializePositionBundle (positionBundleMint : Pubkey) : PositionBundle where
  positionBundleMint := positionBundleMint
  positionBitmap := fun _ => 0

/-- Whether every byte of the bitmap is zero. -/
def isDeletable (bundle : PositionBundle) : Bool :=
  ∀ index, bundle.positionBitmap index = 0

def isValidBundleIndex (bundleIndex : ℕ) : Bool := bundleIndex < positionBundleSize

theorem bitmapIndex_lt {bundleIndex : ℕ} (valid : isValidBundleIndex bundleIndex = true) :
    bundleIndex / 8 < positionBitmapUsize :=
  Nat.div_lt_of_lt_mul (of_decide_eq_true valid)

/-- Toggle the bit of an index, unless the index is invalid or its bit is as requested already. -/
def updateBitmap (bundle : PositionBundle) (bundleIndex : ℕ) (opening : Bool) :
    PositionBundle × Result Unit :=
  if valid : isValidBundleIndex bundleIndex = true then
    let bitmapIndex : Fin positionBitmapUsize := ⟨bundleIndex / 8, bitmapIndex_lt valid⟩
    let bitmapOffset := bundleIndex % 8
    let bitmap := bundle.positionBitmap bitmapIndex
    let mask := 1#8 <<< bitmapOffset
    let bit := bitmap &&& mask
    let opened : Bool := bit ≠ 0
    if opening && opened then (bundle, err .bundledPositionAlreadyOpened)
    else if !opening && !opened then (bundle, err .bundledPositionAlreadyClosed)
    else
      let updatedBitmap := bitmap ^^^ mask
      ({ bundle with
        positionBitmap := Function.update bundle.positionBitmap bitmapIndex updatedBitmap }, .ok ())
  else (bundle, err .invalidBundleIndex)

def openBundledPosition (bundle : PositionBundle) (bundleIndex : ℕ) :
    PositionBundle × Result Unit :=
  bundle.updateBitmap bundleIndex true

def closeBundledPosition (bundle : PositionBundle) (bundleIndex : ℕ) :
    PositionBundle × Result Unit :=
  bundle.updateBitmap bundleIndex false

/-- Whether the bit of an index is set. -/
def isOpen (bundle : PositionBundle) (bundleIndex : ℕ) : Bool :=
  bundle.positionBitmap.bit bundleIndex

/-- What an update does: it fails and changes nothing on an invalid index and on one that is as
requested already, and sets or clears the one bit otherwise. -/
theorem updateBitmap_spec (bundle : PositionBundle) (bundleIndex : ℕ) (opening : Bool) :
    (bundleIndex < positionBundleSize ∧ bundle.isOpen bundleIndex ≠ opening ∧
      (bundle.updateBitmap bundleIndex opening).2 = .ok () ∧
      ∀ index, (bundle.updateBitmap bundleIndex opening).1.isOpen index =
        if index = bundleIndex then opening else bundle.isOpen index) ∨
    ((positionBundleSize ≤ bundleIndex ∨ bundle.isOpen bundleIndex = opening) ∧
      (∃ failure, (bundle.updateBitmap bundleIndex opening).2 = .error failure) ∧
      (bundle.updateBitmap bundleIndex opening).1 = bundle) := by
  unfold updateBitmap
  by_cases valid : isValidBundleIndex bundleIndex = true
  · have inside := bitmapIndex_lt valid
    have current : bundle.isOpen bundleIndex = decide (bundle.positionBitmap
        ⟨bundleIndex / 8, inside⟩ &&& 1#8 <<< (bundleIndex % 8) ≠ 0) := by
      rw [Bool.eq_iff_iff, decide_eq_true_eq]
      refine Iff.trans ?_ (PackedBits.and_mask_ne_zero _ (Nat.mod_lt _ (by norm_num))).symm
      unfold isOpen PackedBits.bit
      rw [dif_pos inside]
    rw [dif_pos valid]
    dsimp only
    rw [← current]
    by_cases same : bundle.isOpen bundleIndex = opening
    · refine .inr ⟨.inr same, ?_⟩
      rw [same]
      cases opening
      · exact ⟨⟨_, rfl⟩, rfl⟩
      · exact ⟨⟨_, rfl⟩, rfl⟩
    · refine .inl ⟨of_decide_eq_true valid, same, ?_⟩
      have flipped : bundle.isOpen bundleIndex = !opening := Bool.eq_not_of_ne same
      have toggles (index : ℕ) := bundle.positionBitmap.bit_toggle inside index
      rw [flipped]
      have opens : (!bundle.positionBitmap.bit bundleIndex) = opening := by
        change (!bundle.isOpen bundleIndex) = opening
        rw [flipped, Bool.not_not]
      rw [opens] at toggles
      cases opening
      · exact ⟨rfl, toggles⟩
      · exact ⟨rfl, toggles⟩
  · rw [dif_neg valid]
    exact .inr ⟨.inl (not_lt.mp fun small => valid (decide_eq_true small)), ⟨_, rfl⟩, rfl⟩

/-- A bundle may be deleted when none of its positions is open. -/
theorem isDeletable_iff (bundle : PositionBundle) :
    bundle.isDeletable = true ↔ ∀ index < positionBundleSize, bundle.isOpen index = false := by
  unfold isDeletable
  rw [decide_eq_true_eq]
  exact bundle.positionBitmap.eq_zero_iff

end PositionBundle
end Whirlpools
