import Mathlib.Tactic.Ring
import Mathlib.Tactic.Linarith
import Whirlpools.Errors

/-! # Four-word integers

`U256Muldiv` is an array of four little-endian `u64` words. Values of type `u64`
and `u128` are natural numbers; the words themselves are bit vectors, so a value
written back to a word is truncated as `as u64` truncates it.
-/

namespace Whirlpools

open Outcome

/-- The number of words of a `U256Muldiv`. -/
def numWords : ℕ := 4

/-- A 256-bit integer as four words, least significant first. -/
structure U256Muldiv where
  items : Fin 4 → BitVec 64

/-- The low word of a `u128`. -/
def lo (value : ℕ) : ℕ := value % 2 ^ 64

/-- The high word of a `u128`. -/
def hi (value : ℕ) : ℕ := value / 2 ^ 64

/-- Two words as one `u128`. -/
def hiLo (high low : ℕ) : ℕ := high * 2 ^ 64 + low

namespace U256Muldiv

/-- The integer the words denote. -/
def toNat (value : U256Muldiv) : ℕ :=
  (value.items 0).toNat + (value.items 1).toNat * 2 ^ 64 + (value.items 2).toNat * 2 ^ 128 +
    (value.items 3).toNat * 2 ^ 192

/-- The words of two `u128` halves. -/
def new (h l : ℕ) : U256Muldiv where
  items := fun
    | 0 => BitVec.ofNat 64 (lo l)
    | 1 => BitVec.ofNat 64 (hi l)
    | 2 => BitVec.ofNat 64 (lo h)
    | 3 => BitVec.ofNat 64 (hi h)

/-- The four words of a natural number, reduced modulo `2 ^ 256`. -/
def ofNat (value : ℕ) : U256Muldiv := new (value / 2 ^ 128) (value % 2 ^ 128)

/-- Read a word as a `u128`; no caller reads past the last word. -/
def getWord (value : U256Muldiv) (index : ℕ) : ℕ :=
  if inside : index < 4 then (value.items ⟨index, inside⟩).toNat else 0

/-- Overwrite a word with the low word of a `u128`. -/
def updateWord (value : U256Muldiv) (index word : ℕ) : U256Muldiv where
  items := fun position =>
    if position.val = index then BitVec.ofNat 64 word else value.items position

/-- The number of words up to the most significant nonzero one. -/
def numWords (value : U256Muldiv) : ℕ :=
  if value.items 3 ≠ 0 then 4
  else if value.items 2 ≠ 0 then 3
  else if value.items 1 ≠ 0 then 2
  else if value.items 0 ≠ 0 then 1
  else 0

/-- Shift by one word to the left, dropping the most significant word. -/
def shiftWordLeft (value : U256Muldiv) : U256Muldiv where
  items := fun
    | 0 => 0#64
    | 1 => value.items 0
    | 2 => value.items 1
    | 3 => value.items 2

/-- Shift by one word to the left unless that loses a nonzero word. -/
def checkedShiftWordLeft (value : U256Muldiv) : Option U256Muldiv :=
  if value.items 3 ≠ 0 then none else some value.shiftWordLeft

/-- Shift by one word to the right. -/
def shiftWordRight (value : U256Muldiv) : U256Muldiv where
  items := fun
    | 0 => value.items 1
    | 1 => value.items 2
    | 2 => value.items 3
    | 3 => 0#64

/-- Shift to the left, dropping the bits that leave the words. -/
def shiftLeft (value : U256Muldiv) (shiftAmount : ℕ) : U256Muldiv :=
  if shiftAmount ≥ 256 then new 0 0
  else
    let result := shiftWordLeft^[shiftAmount / 64] value
    let shift := shiftAmount % 64
    if shift = 0 then result
    else {
      items := fun
        | 0 => result.items 0 <<< shift
        | 1 => result.items 1 <<< shift ||| result.items 0 >>> (64 - shift)
        | 2 => result.items 2 <<< shift ||| result.items 1 >>> (64 - shift)
        | 3 => result.items 3 <<< shift ||| result.items 2 >>> (64 - shift) }

/-- Shift to the right. -/
def shiftRight (value : U256Muldiv) (shiftAmount : ℕ) : U256Muldiv :=
  if shiftAmount ≥ 256 then new 0 0
  else
    let result := shiftWordRight^[shiftAmount / 64] value
    let shift := shiftAmount % 64
    if shift = 0 then result
    else {
      items := fun
        | 0 => result.items 0 >>> shift ||| result.items 1 <<< (64 - shift)
        | 1 => result.items 1 >>> shift ||| result.items 2 <<< (64 - shift)
        | 2 => result.items 2 >>> shift ||| result.items 3 <<< (64 - shift)
        | 3 => result.items 3 >>> shift }

/-- Compare from the most significant word down. -/
def lte (value other : U256Muldiv) : Bool :=
  if value.items 3 < other.items 3 then true
  else if other.items 3 < value.items 3 then false
  else if value.items 2 < other.items 2 then true
  else if other.items 2 < value.items 2 then false
  else if value.items 1 < other.items 1 then true
  else if other.items 1 < value.items 1 then false
  else if value.items 0 < other.items 0 then true
  else if other.items 0 < value.items 0 then false
  else true

/-- Both halves as one `u128`, unless a higher word is nonzero. -/
def tryIntoU128 (value : U256Muldiv) : Result ℕ :=
  if value.numWords > 2 then err .numberDownCastError
  else .ok (hiLo (value.getWord 1) (value.getWord 0))

/-- Whether every word is zero. -/
def isZero (value : U256Muldiv) : Bool :=
  value.items 0 = 0 ∧ value.items 1 = 0 ∧ value.items 2 = 0 ∧ value.items 3 = 0

/-- One word of an addition: the sum written, and the carry passed on. -/
def addWord (value other : U256Muldiv) (state : U256Muldiv × ℕ) (index : ℕ) : U256Muldiv × ℕ :=
  let sum := value.getWord index + other.getWord index + state.2
  (state.1.updateWord index (lo sum), hi sum)

/-- Word-by-word addition; the last carry is dropped. -/
def add (value other : U256Muldiv) : U256Muldiv :=
  ((List.range 4).foldl (addWord value other) (new 0 0, 0)).1

/-- One word of a subtraction: the difference written, and the borrow passed on. -/
def subWord (value other : U256Muldiv) (state : U256Muldiv × ℕ) (index : ℕ) : U256Muldiv × ℕ :=
  let x := value.getWord index
  let y := other.getWord index
  let difference := (x + 2 ^ 64 - y) % 2 ^ 64
  (state.1.updateWord index ((difference + 2 ^ 64 - state.2) % 2 ^ 64),
    if x < y ∨ difference < state.2 then 1 else 0)

/-- Word-by-word subtraction; the last borrow is dropped. -/
def sub (value other : U256Muldiv) : U256Muldiv :=
  ((List.range 4).foldl (subWord value other) (new 0 0, 0)).1

end U256Muldiv

/-- The exact 256-bit product of two `u128` values by four 64-bit products. -/
def mulU256 (v n : ℕ) : U256Muldiv :=
  let c0 := lo v * lo n
  let a1 := lo v * hi n
  let b0 := hi v * lo n
  let c1 := hi c0 + lo a1 + lo b0
  U256Muldiv.new (hi v * hi n + hi c1 + hi a1 + hi b0) (hiLo (lo c1) (lo c0))

namespace U256Muldiv

theorem toNat_lt (value : U256Muldiv) : value.toNat < 2 ^ 256 := by
  have w0 := (value.items 0).isLt
  have w1 := (value.items 1).isLt
  have w2 := (value.items 2).isLt
  have w3 := (value.items 3).isLt
  simp only [toNat]
  omega

theorem toNat_new {h l : ℕ} (high : h < 2 ^ 128) (low : l < 2 ^ 128) :
    (new h l).toNat = h * 2 ^ 128 + l := by
  simp only [toNat, new, lo, hi, BitVec.toNat_ofNat]
  omega

/-- A number that fits is the value of its words. -/
theorem toNat_ofNat {value : ℕ} (fits : value < 2 ^ 256) : (ofNat value).toNat = value := by
  unfold ofNat
  rw [toNat_new (by omega) (by omega)]
  omega

/-- Shifting left by a word multiplies by its size, modulo the width. -/
theorem toNat_shiftWordLeft (value : U256Muldiv) :
    value.shiftWordLeft.toNat = value.toNat * 2 ^ 64 % 2 ^ 256 := by
  have w0 := (value.items 0).isLt
  have w1 := (value.items 1).isLt
  have w2 := (value.items 2).isLt
  have w3 := (value.items 3).isLt
  simp only [toNat, shiftWordLeft, BitVec.toNat_ofNat]
  omega

private theorem word_eq_zero {word : BitVec 64} : word = 0 ↔ word.toNat = 0 := by
  rw [← BitVec.toNat_inj]
  rfl

/-- A checked shift that succeeds had an empty top word and multiplies exactly. -/
theorem checkedShiftWordLeft_eq_some {value shifted : U256Muldiv}
    (success : value.checkedShiftWordLeft = some shifted) :
    value.toNat < 2 ^ 192 ∧ shifted.toNat = value.toNat * 2 ^ 64 := by
  unfold checkedShiftWordLeft at success
  by_cases top : value.items 3 = 0
  · simp only [top, ne_eq, not_true_eq_false, ↓reduceIte, Option.some.injEq] at success
    have w0 := (value.items 0).isLt
    have w1 := (value.items 1).isLt
    have w2 := (value.items 2).isLt
    have w3 := word_eq_zero.mp top
    have small : value.toNat < 2 ^ 192 := by
      simp only [toNat]
      omega
    rw [← success, toNat_shiftWordLeft]
    exact ⟨small, Nat.mod_eq_of_lt (by omega)⟩
  · simp only [ne_eq, top, not_false_eq_true, ↓reduceIte, reduceCtorEq] at success

/-- With an empty top word the checked shift succeeds. -/
theorem checkedShiftWordLeft_of_lt {value : U256Muldiv} (small : value.toNat < 2 ^ 192) :
    ∃ shifted, value.checkedShiftWordLeft = some shifted ∧
      shifted.toNat = value.toNat * 2 ^ 64 := by
  have top : value.items 3 = 0 := by
    rw [word_eq_zero]
    simp only [toNat] at small
    omega
  refine ⟨value.shiftWordLeft, ?_, ?_⟩
  · simp only [checkedShiftWordLeft, top, ne_eq, not_true_eq_false, ↓reduceIte]
  · rw [toNat_shiftWordLeft]
    exact Nat.mod_eq_of_lt (by omega)

private theorem word_lt {left right : BitVec 64} : left < right ↔ left.toNat < right.toNat :=
  BitVec.lt_def

/-- Comparing for at most compares the values. -/
theorem lte_iff (value other : U256Muldiv) : value.lte other = true ↔ value.toNat ≤
    other.toNat := by
  have v0 := (value.items 0).isLt
  have v1 := (value.items 1).isLt
  have v2 := (value.items 2).isLt
  have o0 := (other.items 0).isLt
  have o1 := (other.items 1).isLt
  have o2 := (other.items 2).isLt
  unfold lte toNat
  simp only [word_lt]
  split_ifs <;> simp only [true_iff, false_iff] <;> omega

theorem isZero_iff (value : U256Muldiv) : value.isZero = true ↔ value.toNat = 0 := by
  simp only [isZero, decide_eq_true_eq, word_eq_zero, toNat]
  omega

/-- A value of at most two words is one of 128 bits. -/
private theorem numWords_le_two (value : U256Muldiv) :
    value.numWords ≤ 2 ↔ value.toNat < 2 ^ 128 := by
  have w0 := (value.items 0).isLt
  have w1 := (value.items 1).isLt
  unfold numWords toNat
  simp only [ne_eq, word_eq_zero]
  split_ifs <;> omega

/-- The conversion succeeds exactly on the values of 128 bits, and keeps them. -/
theorem tryIntoU128_eq_ok {value : U256Muldiv} {result : ℕ} :
    value.tryIntoU128 = .ok result ↔ value.toNat < 2 ^ 128 ∧ result = value.toNat := by
  unfold tryIntoU128
  rw [guard_eq_ok, not_lt, numWords_le_two]
  apply and_congr_right
  intro small
  simp only [Except.ok.injEq, hiLo, getWord, Nat.one_lt_ofNat, ↓reduceDIte, Nat.ofNat_pos]
  have top : (value.items 2).toNat = 0 ∧ (value.items 3).toNat = 0 := by
    simp only [toNat] at small
    omega
  simp only [toNat, top.1, top.2, Fin.mk_one, Fin.zero_eta]
  omega

theorem toNat_add (value other : U256Muldiv) :
    (value.add other).toNat = (value.toNat + other.toNat) % 2 ^ 256 := by
  have v0 := (value.items 0).isLt
  have v1 := (value.items 1).isLt
  have v2 := (value.items 2).isLt
  have v3 := (value.items 3).isLt
  have o0 := (other.items 0).isLt
  have o1 := (other.items 1).isLt
  have o2 := (other.items 2).isLt
  have o3 := (other.items 3).isLt
  have indices : List.range 4 = [0, 1, 2, 3] := rfl
  simp only [add, indices, List.foldl_cons, List.foldl_nil, addWord, toNat, updateWord, getWord,
    Fin.isValue, BitVec.toNat_ofNat, lo, hi, Nat.ofNat_pos, Nat.one_lt_ofNat, Nat.reduceLT,
    ↓reduceDIte, Fin.val_zero, Fin.val_one, Fin.val_two, Nat.reduceEqDiff, ↓reduceIte,
    show ((3 : Fin 4) : ℕ) = 3 from rfl, OfNat.zero_ne_ofNat, OfNat.one_ne_ofNat,
    zero_ne_one, Fin.zero_eta, Fin.mk_one, Fin.reduceFinMk]
  omega

/-- One word of a subtraction, with the borrow that it takes and the one that it passes on. -/
private theorem sub_word_eq {x y borrow : ℕ} (xs : x < 2 ^ 64) (ys : y < 2 ^ 64)
    (bit : borrow ≤ 1) :
    let difference := (x + 2 ^ 64 - y) % 2 ^ 64
    let out := if x < y ∨ difference < borrow then 1 else 0
    (difference + 2 ^ 64 - borrow) % 2 ^ 64 + y + borrow = x + out * 2 ^ 64 ∧ out ≤ 1 := by
  intro difference out
  simp only [out]
  split_ifs <;> omega

/-- Subtraction wraps around at the width. -/
theorem toNat_sub (value other : U256Muldiv) :
    (value.sub other).toNat = (value.toNat + 2 ^ 256 - other.toNat) % 2 ^ 256 := by
  have v0 := (value.items 0).isLt
  have v1 := (value.items 1).isLt
  have v2 := (value.items 2).isLt
  have v3 := (value.items 3).isLt
  have o0 := (other.items 0).isLt
  have o1 := (other.items 1).isLt
  have o2 := (other.items 2).isLt
  have o3 := (other.items 3).isLt
  have indices : List.range 4 = [0, 1, 2, 3] := rfl
  obtain ⟨first, bit0⟩ := sub_word_eq v0 o0 (Nat.zero_le 1)
  obtain ⟨second, bit1⟩ := sub_word_eq v1 o1 bit0
  obtain ⟨third, bit2⟩ := sub_word_eq v2 o2 bit1
  obtain ⟨fourth, bit3⟩ := sub_word_eq v3 o3 bit2
  simp only [sub, indices, List.foldl_cons, List.foldl_nil, subWord, toNat, updateWord, getWord,
    Fin.isValue, BitVec.toNat_ofNat, Nat.ofNat_pos, Nat.one_lt_ofNat, Nat.reduceLT,
    ↓reduceDIte, Fin.val_zero, Fin.val_one, Fin.val_two, Nat.reduceEqDiff, ↓reduceIte,
    show ((3 : Fin 4) : ℕ) = 3 from rfl, OfNat.zero_ne_ofNat, OfNat.one_ne_ofNat,
    zero_ne_one, Fin.zero_eta, Fin.mk_one, Fin.reduceFinMk, Nat.mod_mod]
  omega

end U256Muldiv

/-- The product of two values of 128 bits is exact. -/
theorem toNat_mulU256 {v n : ℕ} (left : v < 2 ^ 128) (right : n < 2 ^ 128) :
    (mulU256 v n).toNat = v * n := by
  have vl : lo v < 2 ^ 64 := Nat.mod_lt _ (by omega)
  have nl : lo n < 2 ^ 64 := Nat.mod_lt _ (by omega)
  have vh : hi v < 2 ^ 64 := by unfold hi; omega
  have nh : hi n < 2 ^ 64 := by unfold hi; omega
  have bound {a b : ℕ} (ha : a < 2 ^ 64) (hb : b < 2 ^ 64) : a * b ≤ (2 ^ 64 - 1) * (2 ^ 64 - 1) :=
    Nat.mul_le_mul (by omega) (by omega)
  have c0 := bound vl nl
  have a1 := bound vl nh
  have b0 := bound vh nl
  have b1 := bound vh nh
  have splitLeft : v = lo v + hi v * 2 ^ 64 := by unfold lo hi; omega
  have splitRight : n = lo n + hi n * 2 ^ 64 := by unfold lo hi; omega
  have product : v * n = lo v * lo n + (lo v * hi n + hi v * lo n) * 2 ^ 64 +
      hi v * hi n * 2 ^ 128 := by
    conv_lhs => rw [splitLeft, splitRight]
    ring
  rw [product]
  unfold mulU256
  generalize lo v * lo n = c0 at *
  generalize lo v * hi n = a1 at *
  generalize hi v * lo n = b0 at *
  generalize hi v * hi n = b1 at *
  simp only [hiLo, lo, hi]
  rw [U256Muldiv.toNat_new (by omega) (by omega)]
  omega

end Whirlpools
