import Mathlib.Data.List.FinRange
import Mathlib.Data.Nat.Bitwise
import Mathlib.Tactic.NormNum

/-! # Bits packed into bytes

A bitmap keeps eight bits in each byte, the least significant first. Toggling one bit of one byte
changes that bit of the bitmap and no other.
-/

/-- Bits packed into bytes. -/
abbrev PackedBits (bytes : ℕ) : Type := Fin bytes → BitVec 8

namespace PackedBits

variable {bytes : ℕ}

/-- The bit at an index; there is none beyond the last byte. -/
def bit (bits : PackedBits bytes) (index : ℕ) : Bool :=
  if inside : index / 8 < bytes then (bits ⟨index / 8, inside⟩).getLsbD (index % 8) else false

/-- The byte with a single bit. -/
def mask (offset : ℕ) : BitVec 8 := 1#8 <<< offset

/-- Toggle the bits of a mask in one byte. -/
def toggle (bits : PackedBits bytes) (byte : Fin bytes) (offset : ℕ) : PackedBits bytes :=
  Function.update bits byte (bits byte ^^^ mask offset)

/-- The mask of a place has exactly the bit of that place. -/
theorem getLsbD_mask {offset place : ℕ} (inside : place < 8) :
    (mask offset).getLsbD place = decide (place = offset) := by
  unfold mask
  rw [BitVec.getLsbD_shiftLeft, BitVec.getLsbD_one]
  by_cases same : place = offset
  · subst place
    simp [inside]
  · by_cases below : place < offset
    · simp [below, same]
    · have apart : place - offset ≠ 0 := by omega
      simp [same, apart]

/-- The part of a byte under a mask is nonzero exactly when its bit is set. -/
theorem and_mask_ne_zero (byte : BitVec 8) {offset : ℕ} (inside : offset < 8) :
    byte &&& mask offset ≠ 0 ↔ byte.getLsbD offset = true := by
  constructor
  · intro nonzero
    by_contra clear
    refine nonzero (BitVec.eq_of_getLsbD_eq fun place small => ?_)
    rw [BitVec.getLsbD_and, getLsbD_mask small]
    by_cases same : place = offset
    · subst place
      rw [Bool.eq_false_iff.mpr clear, Bool.false_and]
      exact BitVec.getLsbD_zero.symm
    · simp [same]
  · intro set zero
    have selected := congrArg (fun word => word.getLsbD offset) zero
    simp [BitVec.getLsbD_and, getLsbD_mask inside, set] at selected

/-- Toggling changes the bit addressed and keeps every other bit. -/
theorem bit_toggle (bits : PackedBits bytes) {toggled : ℕ} (inside : toggled / 8 < bytes)
    (index : ℕ) :
    (bits.toggle ⟨toggled / 8, inside⟩ (toggled % 8)).bit index =
      if index = toggled then !bits.bit toggled else bits.bit index := by
  have offset : toggled % 8 < 8 := Nat.mod_lt _ (by norm_num)
  by_cases same : index = toggled
  · subst index
    unfold bit toggle
    rw [if_pos rfl, dif_pos inside, dif_pos inside, Function.update_self, BitVec.getLsbD_xor,
      getLsbD_mask offset, decide_eq_true rfl, Bool.xor_true]
  · rw [if_neg same]
    unfold bit toggle
    split_ifs with within
    · by_cases sameByte : index / 8 = toggled / 8
      · have apart : index % 8 ≠ toggled % 8 := by omega
        have place : index % 8 < 8 := Nat.mod_lt _ (by norm_num)
        have byte : (⟨index / 8, within⟩ : Fin bytes) = ⟨toggled / 8, inside⟩ := Fin.ext sameByte
        rw [byte, Function.update_self, BitVec.getLsbD_xor, getLsbD_mask place,
          decide_eq_false apart, Bool.xor_false]
      · rw [Function.update_of_ne (fun byte => sameByte (congrArg Fin.val byte))]
    · rfl

/-- All bytes are zero exactly when no bit is set. -/
theorem eq_zero_iff (bits : PackedBits bytes) :
    (∀ byte, bits byte = 0) ↔ ∀ index < 8 * bytes, bits.bit index = false := by
  constructor
  · intro zero index small
    unfold bit
    rw [dif_pos (Nat.div_lt_of_lt_mul small), zero]
    exact BitVec.getLsbD_zero
  · intro clear byte
    refine BitVec.eq_of_getLsbD_eq fun place small => ?_
    have word : (8 * byte.val + place) / 8 = byte.val := by omega
    have offset : (8 * byte.val + place) % 8 = place := by omega
    have unset := clear (8 * byte.val + place) (by have := byte.isLt; omega)
    unfold bit at unset
    rw [dif_pos (by have := byte.isLt; omega)] at unset
    simp only [word, offset] at unset
    rw [unset]
    exact BitVec.getLsbD_zero.symm

/-- The bits of all bytes, byte by byte. -/
def toList (bits : PackedBits bytes) : List Bool :=
  (List.finRange bytes).flatMap fun byte => (List.range 8).map (bits byte).getLsbD

/-- Blocks of eight entries are one list, addressed by quotient and remainder. -/
theorem flatMap_blocks {β : Type} (entry : ℕ → β) (blocks : ℕ) :
    ((List.range blocks).flatMap fun block =>
        (List.range 8).map fun offset => entry (8 * block + offset)) =
      (List.range (8 * blocks)).map entry := by
  induction blocks with
  | zero => rfl
  | succ blocks ih =>
      rw [@List.range_succ blocks, List.flatMap_append, ih, Nat.mul_succ, List.range_add,
        List.map_append, List.flatMap_singleton, List.map_map]
      rfl

theorem toList_eq (bits : PackedBits bytes) :
    bits.toList = (List.range (8 * bytes)).map bits.bit := by
  have block (byte : Fin bytes) : (List.range 8).map (bits byte).getLsbD =
      (List.range 8).map fun offset => bits.bit (8 * byte.val + offset) := by
    refine List.map_congr_left fun offset inside => ?_
    have small := List.mem_range.mp inside
    have word : (8 * byte.val + offset) / 8 = byte.val := by omega
    have place : (8 * byte.val + offset) % 8 = offset := by omega
    simp only [bit, word, place, byte.isLt, ↓reduceDIte]
  unfold toList
  rw [← flatMap_blocks, ← @List.map_coe_finRange_eq_range bytes, List.flatMap_map]
  exact List.flatMap_congr fun byte _ => block byte

end PackedBits
