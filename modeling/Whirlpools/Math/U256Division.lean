import Mathlib.Tactic.IntervalCases
import Whirlpools.Foundation.LongDivision
import Whirlpools.Machine

/-! # Long division of four-word integers

The division of the source, word by word: the divisor is shifted until its most
significant bit is set, and one quotient digit is estimated from the two leading
words, subtracted, and corrected by adding the divisor back. Reading or writing a word past
the last one panics, and so does plain arithmetic that overflows in a build that
checks for it.
-/

namespace Whirlpools

open Outcome

namespace U256Muldiv

/-- The leading zero bits of a `u64`. -/
def leadingZeros (word : ℕ) : ℕ := if word = 0 then 64 else 63 - Nat.log2 word

/-- Read a word by an index that the program computes. -/
def readWord (value : U256Muldiv) (index : ℕ) : Result ℕ :=
  if index ≥ 4 then .error .panic else .ok (value.getWord index)

/-- Overwrite a word by an index that the program computes. -/
def writeWord (value : U256Muldiv) (index word : ℕ) : Result U256Muldiv :=
  if index ≥ 4 then .error .panic else .ok (value.updateWord index word)

/-- The word above a window of the dividend; above the last word it is the carry space. -/
def readHead (dividend : U256Muldiv) (carrySpace position : ℕ) : Result ℕ :=
  if position = 4 then .ok carrySpace else dividend.readWord position

/-- Overwrite the word above a window of the dividend. -/
def writeHead (dividend : U256Muldiv) (carrySpace position word : ℕ) : Result (U256Muldiv × ℕ) :=
  if position = 4 then .ok (dividend, word)
  else dividend.writeWord position word >>= fun dividend => .ok (dividend, carrySpace)

end U256Muldiv

open U256Muldiv

section Digit

variable (m : Machine)

/-- Lower the estimate of a quotient digit while it is too large for the leading words. -/
def correctEstimate (d1 d1Next : ℕ) : ℕ → (qhat rhat cmp1 cmp2 : ℕ) → Result ℕ
  | 0, qhat, _, cmp1, cmp2 => if hi qhat ≠ 0 ∨ cmp2 > cmp1 then .error .outOfFuel else .ok qhat
  | fuel + 1, qhat, rhat, cmp1, cmp2 =>
      if hi qhat ≠ 0 ∨ cmp2 > cmp1 then
        m.plainSub 128 qhat 1 >>= fun qhat =>
        m.plainAdd 128 rhat d1 >>= fun rhat =>
        if hi rhat ≠ 0 then .ok qhat
        else
          m.plainSub 128 cmp2 d1Next >>= fun cmp2 =>
          correctEstimate d1 d1Next fuel qhat rhat (hiLo (lo rhat) (lo cmp1)) cmp2
      else .ok qhat

/-- Estimate the quotient digit of a window of the dividend. -/
def estimateDigit (dividend divisor : U256Muldiv) (index numDivisorWords divHi : ℕ) : Result ℕ :=
  dividend.readWord (index + numDivisorWords - 1) >>= fun dividendWord =>
  let d0 := hiLo divHi dividendWord
  divisor.readWord (numDivisorWords - 1) >>= fun d1 =>
  if d1 = 0 then .error .panic
  else
    let qhat := d0 / d1
    m.plainMul 128 d1 qhat >>= fun taken =>
    m.plainSub 128 d0 taken >>= fun rhat =>
    dividend.readWord (index + numDivisorWords - 2) >>= fun d0Next =>
    divisor.readWord (numDivisorWords - 2) >>= fun d1Next =>
    -- A normalized divisor leaves room for two corrections.
    correctEstimate m d1 d1Next 2 qhat rhat (hiLo (lo rhat) d0Next) (qhat * d1Next % 2 ^ 128)

/-- Subtract the product of the digit and one word of the divisor, with a borrow. -/
def subtractWord (qhat : ℕ) (divisor : U256Muldiv) (index : ℕ) (state : U256Muldiv × ℕ) (i : ℕ) :
    Result (U256Muldiv × ℕ) :=
  divisor.readWord i >>= fun divisorWord =>
  m.plainMul 128 qhat divisorWord >>= fun p =>
  state.1.readWord (index + i) >>= fun dividendWord =>
  let t := wrappingSub (wrappingSub dividendWord state.2) (lo p)
  state.1.writeWord (index + i) (lo t) >>= fun dividend =>
  .ok (dividend, (hi p + 2 ^ 64 - hi t) % 2 ^ 64)

/-- Add one word of the divisor back, with a carry. -/
def addBackWord (divisor : U256Muldiv) (index : ℕ) (state : U256Muldiv × ℕ) (i : ℕ) :
    Result (U256Muldiv × ℕ) :=
  state.1.readWord (index + i) >>= fun dividendWord =>
  divisor.readWord i >>= fun divisorWord =>
  let t := wrappingAdd 128 (wrappingAdd 128 dividendWord divisorWord) state.2
  state.1.writeWord (index + i) (lo t) >>= fun dividend =>
  .ok (dividend, hi t)

end Digit

/-- The variables of the division loop. -/
structure DivState where
  dividend : U256Muldiv
  dividendCarrySpace : ℕ
  quotient : U256Muldiv

/-- Compute one quotient digit. -/
def divLoop (m : Machine) (numDivisorWords : ℕ) (divisor : U256Muldiv) (state : DivState)
    (index : ℕ) : Result DivState :=
  let position := index + numDivisorWords
  readHead state.dividend state.dividendCarrySpace position >>= fun divHi =>
  estimateDigit m state.dividend divisor index numDivisorWords divHi >>= fun qhat =>
  (List.range numDivisorWords).foldlM (subtractWord m qhat divisor index) (state.dividend, 0)
    >>= fun (dividend, k) =>
  readHead dividend state.dividendCarrySpace position >>= fun dHead =>
  writeHead dividend state.dividendCarrySpace position (lo (wrappingSub dHead k))
    >>= fun (dividend, carrySpace) =>
  if k > dHead then
    m.plainSub 128 qhat 1 >>= fun qhat =>
    (List.range numDivisorWords).foldlM (addBackWord divisor index) (dividend, 0)
      >>= fun (dividend, k) =>
    -- The word is read from the dividend even where it stands in the carry space.
    dividend.readWord position >>= fun head =>
    writeHead dividend carrySpace position (lo (wrappingAdd 128 head k))
      >>= fun (dividend, carrySpace) =>
    state.quotient.writeWord index (lo qhat) >>= fun quotient =>
    .ok ⟨dividend, carrySpace, quotient⟩
  else
    state.quotient.writeWord index (lo qhat) >>= fun quotient =>
    .ok ⟨dividend, carrySpace, quotient⟩

/-- One word of a division by a single word: the digit written, and the remainder passed on. -/
def divWord (m : Machine) (dividend divisor : U256Muldiv) (state : U256Muldiv × ℕ) (j : ℕ) :
    Result (U256Muldiv × ℕ) :=
  dividend.readWord j >>= fun word =>
  let d1 := hiLo (lo state.2) word
  divisor.readWord 0 >>= fun d2 =>
  if d2 = 0 then .error .panic
  else
    let q := d1 / d2
    m.plainMul 128 d2 q >>= fun taken =>
    m.plainSub 128 d1 taken >>= fun k =>
    state.1.writeWord j (lo q) >>= fun quotient =>
    .ok (quotient, k)

/-- `unwrap` panics on an error. -/
def unwrap {α : Type} : Result α → Result α
  | .ok value => .ok value
  | .error _ => .error .panic

theorem unwrap_ok {α : Type} (value : α) : unwrap (.ok value : Result α) = .ok value := rfl

/-- Divide, with the remainder where it is asked for. -/
def U256Muldiv.div (m : Machine) (dividend divisor : U256Muldiv) (returnRemainder : Bool) :
    Result (U256Muldiv × U256Muldiv) :=
  let numDividendWords := dividend.numWords
  let numDivisorWords := divisor.numWords
  if numDivisorWords = 0 then .error .panic
  else if numDividendWords = 0 then .ok (new 0 0, new 0 0)
  else if numDividendWords < numDivisorWords then
    .ok (new 0 0, if returnRemainder then dividend else new 0 0)
  else if numDividendWords < 3 then
    unwrap dividend.tryIntoU128 >>= fun dividend =>
    unwrap divisor.tryIntoU128 >>= fun divisor =>
    if divisor = 0 then .error .panic
    else .ok (new 0 (dividend / divisor),
      if returnRemainder then new 0 (dividend % divisor) else new 0 0)
  else if numDivisorWords = 1 then
    (List.range numDividendWords).reverse.foldlM (divWord m dividend divisor) (new 0 0, 0)
      >>= fun (quotient, k) =>
    .ok (quotient, if returnRemainder then new 0 k else new 0 0)
  else
    divisor.readWord (numDivisorWords - 1) >>= fun divisorTop =>
    dividend.readWord (numDividendWords - 1) >>= fun dividendTop =>
    let s := leadingZeros divisorTop
    let b := leadingZeros dividendTop
    let dividendCarrySpace :=
      if numDividendWords = 4 ∧ b < s then dividendTop / 2 ^ (64 - s) else 0
    let shifted := divisor.shiftLeft s
    (List.range (numDividendWords - numDivisorWords + 1)).reverse.foldlM
      (divLoop m numDivisorWords shifted) ⟨dividend.shiftLeft s, dividendCarrySpace, new 0 0⟩
      >>= fun state =>
    .ok (state.quotient, if returnRemainder then state.dividend.shiftRight s else new 0 0)

namespace U256Muldiv

section Words

variable {value dividend : U256Muldiv} {index position carrySpace word : ℕ}

theorem lo_lt (value : ℕ) : lo value < 2 ^ 64 := Nat.mod_lt _ (Nat.two_pow_pos 64)

theorem getWord_lt (value : U256Muldiv) (index : ℕ) : value.getWord index < 2 ^ 64 := by
  unfold getWord
  split_ifs
  · exact (value.items _).isLt
  · exact Nat.two_pow_pos 64

/-- Beyond the four words a value has none. -/
theorem getWord_of_ge (outside : 4 ≤ index) : value.getWord index = 0 :=
  dif_neg (not_lt.mpr outside)

/-- The words are the digits of the integer. -/
theorem getWord_eq (value : U256Muldiv) (inside : index < 4) :
    value.getWord index = value.toNat / (2 ^ 64) ^ index % 2 ^ 64 := by
  have w0 := (value.items 0).isLt
  have w1 := (value.items 1).isLt
  have w2 := (value.items 2).isLt
  have w3 := (value.items 3).isLt
  interval_cases index <;>
    simp only [getWord, toNat, Nat.ofNat_pos, Nat.one_lt_ofNat, Nat.reduceLT, ↓reduceDIte,
      Fin.zero_eta, Fin.mk_one, Fin.reduceFinMk, Fin.isValue] <;>
    omega

/-- Overwriting a word exchanges its place value. -/
theorem toNat_updateWord (value : U256Muldiv) (inside : index < 4) (small : word < 2 ^ 64) :
    (value.updateWord index word).toNat + value.getWord index * (2 ^ 64) ^ index =
      value.toNat + word * (2 ^ 64) ^ index := by
  interval_cases index <;>
    simp only [getWord, updateWord, toNat, Nat.ofNat_pos, Nat.one_lt_ofNat, Nat.reduceLT,
      ↓reduceDIte, Fin.zero_eta, Fin.mk_one, Fin.reduceFinMk, Fin.isValue, Fin.val_zero,
      Fin.val_one, Fin.val_two, show ((3 : Fin 4) : ℕ) = 3 from rfl, Nat.reduceEqDiff, ↓reduceIte,
      OfNat.zero_ne_ofNat, OfNat.one_ne_ofNat, OfNat.ofNat_ne_zero, OfNat.ofNat_ne_one,
      zero_ne_one, one_ne_zero, BitVec.toNat_ofNat, Nat.mod_eq_of_lt small] <;>
    omega

theorem getWord_updateWord_ne {other : ℕ} (apart : other ≠ index) :
    (value.updateWord index word).getWord other = value.getWord other := by
  unfold getWord updateWord
  split_ifs with inside
  · exact congrArg BitVec.toNat (if_neg apart)
  · rfl

theorem readWord_of_lt (inside : index < 4) : value.readWord index = .ok (value.getWord index) :=
  if_neg (not_le.mpr inside)

theorem writeWord_of_lt (inside : index < 4) :
    value.writeWord index word = .ok (value.updateWord index word) := if_neg (not_le.mpr inside)

/-- The integer denoted by a dividend with the word above it. -/
def extended (dividend : U256Muldiv) (carrySpace : ℕ) : ℕ :=
  dividend.toNat + carrySpace * (2 ^ 64) ^ 4

/-- The word at a position of a dividend with the word above it. -/
def head (dividend : U256Muldiv) (carrySpace position : ℕ) : ℕ :=
  if position = 4 then carrySpace else dividend.getWord position

/-- Below the carry space the head is a word of the dividend. -/
theorem head_of_ne (below : position ≠ 4) :
    head dividend carrySpace position = dividend.getWord position := if_neg below

/-- The head is there for every position that the loop visits. -/
theorem readHead_of_le (inside : position ≤ 4) :
    readHead dividend carrySpace position = .ok (head dividend carrySpace position) := by
  unfold readHead head
  split_ifs with top
  · rfl
  · exact readWord_of_lt (by omega)

/-- Overwriting the head exchanges its place value, and keeps the words above it. -/
theorem writeHead_of_le (inside : position ≤ 4) (small : word < 2 ^ 64)
    (carrySmall : carrySpace < 2 ^ 64) :
    ∃ dividend' carrySpace',
      writeHead dividend carrySpace position word = .ok (dividend', carrySpace') ∧
      carrySpace' < 2 ^ 64 ∧
      extended dividend' carrySpace' + head dividend carrySpace position * (2 ^ 64) ^ position =
        extended dividend carrySpace + word * (2 ^ 64) ^ position ∧
      (∀ other, other ≠ position →
        head dividend' carrySpace' other = head dividend carrySpace other) ∧
      head dividend' carrySpace' position = word := by
  unfold writeHead head extended
  by_cases top : position = 4
  · subst top
    refine ⟨dividend, word, if_pos rfl, small, ?_, fun other apart => ?_, if_pos rfl⟩
    · rw [if_pos rfl]
      omega
    · rw [if_neg apart, if_neg apart]
  · have below : position < 4 := by omega
    have exchanged := toNat_updateWord dividend below small
    rw [if_neg top, if_neg top, writeWord_of_lt below]
    refine ⟨dividend.updateWord position word, carrySpace, rfl, carrySmall, by omega,
      fun other apart => ?_, ?_⟩
    · rw [getWord_updateWord_ne apart]
    · rw [if_neg top]
      unfold getWord updateWord
      rw [dif_pos below]
      exact (congrArg BitVec.toNat (if_pos rfl)).trans
        ((BitVec.toNat_ofNat _ _).trans (Nat.mod_eq_of_lt small))

/-- The dividend with its carry space, digit by digit. -/
theorem extended_eq (dividend : U256Muldiv) (carrySpace : ℕ) :
    extended dividend carrySpace = head dividend carrySpace 0 +
      head dividend carrySpace 1 * 2 ^ 64 + head dividend carrySpace 2 * 2 ^ 128 +
      head dividend carrySpace 3 * 2 ^ 192 + head dividend carrySpace 4 * 2 ^ 256 := by
  simp only [extended, toNat, head, OfNat.zero_ne_ofNat, OfNat.one_ne_ofNat, Nat.reduceEqDiff,
    ↓reduceIte, getWord, Nat.ofNat_pos, Nat.one_lt_ofNat, Nat.reduceLT, ↓reduceDIte,
    Fin.zero_eta, Fin.mk_one, Fin.reduceFinMk, Fin.isValue]
  omega

theorem head_lt (small : carrySpace < 2 ^ 64) (position : ℕ) :
    head dividend carrySpace position < 2 ^ 64 := by
  unfold head
  split_ifs
  · exact small
  · exact getWord_lt dividend position

/-- The integer is below a place value exactly if the words from there on are zero. -/
theorem extended_lt_iff (small : carrySpace < 2 ^ 64) (inside : position ≤ 4) :
    extended dividend carrySpace < (2 ^ 64) ^ (position + 1) ↔
      ∀ other, position < other → head dividend carrySpace other = 0 := by
  have w0 := @head_lt dividend carrySpace small 0
  have w1 := @head_lt dividend carrySpace small 1
  have w2 := @head_lt dividend carrySpace small 2
  have w3 := @head_lt dividend carrySpace small 3
  have w4 := @head_lt dividend carrySpace small 4
  have beyond (other : ℕ) (outside : 4 < other) : head dividend carrySpace other = 0 := by
    unfold head
    rw [if_neg (by omega), getWord_of_ge (by omega)]
  rw [extended_eq]
  constructor
  · intro bounded other above
    rcases Nat.lt_or_ge 4 other with outside | within
    · exact beyond other outside
    · interval_cases position <;> interval_cases other <;> omega
  · intro clear
    have c1 := clear 1
    have c2 := clear 2
    have c3 := clear 3
    have c4 := clear 4
    interval_cases position <;> omega

/-- The words are the digits of the integer. -/
theorem head_eq (small : carrySpace < 2 ^ 64) (inside : position ≤ 4) :
    head dividend carrySpace position =
      extended dividend carrySpace / (2 ^ 64) ^ position % 2 ^ 64 := by
  have w0 := @head_lt dividend carrySpace small 0
  have w1 := @head_lt dividend carrySpace small 1
  have w2 := @head_lt dividend carrySpace small 2
  have w3 := @head_lt dividend carrySpace small 3
  have w4 := @head_lt dividend carrySpace small 4
  rw [extended_eq]
  interval_cases position <;> omega

end Words
end U256Muldiv

end Whirlpools
