import Mathlib.Data.Nat.ModEq
import Whirlpools.Math.U256Quotient

/-! # The ring and shift operations of four-word integers

Sums, differences, products and shifts agree with arithmetic modulo `2 ^ 256`, and the comparisons
with the numeric order. A product adds one row for each word of its second factor; the rows are
computed with wrapping operations on `u128`, none of which wraps.
-/

namespace Whirlpools

open Outcome

namespace U256Muldiv

/-- Whether all words agree. -/
def eq (value other : U256Muldiv) : Bool :=
  value.getWord 0 = other.getWord 0 ∧ value.getWord 1 = other.getWord 1 ∧
    value.getWord 2 = other.getWord 2 ∧ value.getWord 3 = other.getWord 3

/-- The first words that differ, from the most significant one down, decide; `same` if none do. -/
def compareWords (value other : U256Muldiv) (less same greater : Bool) : Bool :=
  if value.getWord 3 < other.getWord 3 then less
  else if other.getWord 3 < value.getWord 3 then greater
  else if value.getWord 2 < other.getWord 2 then less
  else if other.getWord 2 < value.getWord 2 then greater
  else if value.getWord 1 < other.getWord 1 then less
  else if other.getWord 1 < value.getWord 1 then greater
  else if value.getWord 0 < other.getWord 0 then less
  else if other.getWord 0 < value.getWord 0 then greater
  else same

def lt (value other : U256Muldiv) : Bool := compareWords value other true false false

def gt (value other : U256Muldiv) : Bool := compareWords value other false false true

def gte (value other : U256Muldiv) : Bool := compareWords value other false true true

/-- The additive inverse modulo `2 ^ 256`. -/
def getAddInverse (value : U256Muldiv) : U256Muldiv :=
  if value.eq (new 0 0) then new 0 0
  else ((new (2 ^ 128 - 1) (2 ^ 128 - 1)).sub value).add (new 0 1)

/-- One word of a row: the product of two words added to the result, and the carry passed on. Words
beyond the last one are dropped. -/
def mulWord (value other : U256Muldiv) (j : ℕ) (state : U256Muldiv × ℕ) (i : ℕ) : U256Muldiv × ℕ :=
  let x := value.getWord i
  let y := other.getWord j
  if i + j < 4 then
    let z := state.1.getWord (i + j)
    let t := wrappingAdd 128 (wrappingAdd 128 (wrappingMul 128 x y) z) state.2
    (state.1.updateWord (i + j) (lo t), hi t)
  else state

/-- Add the product with one word of the second factor to the result. -/
def mulRow (value other result : U256Muldiv) (j : ℕ) : U256Muldiv :=
  let m := value.numWords
  let state := (List.range m).foldl (mulWord value other j) (result, 0)
  if j + m < 4 then state.1.updateWord (j + m) state.2 else state.1

def mul (value other : U256Muldiv) : U256Muldiv :=
  (List.range other.numWords).foldl (mulRow value other) (new 0 0)

section Checked

variable (m : Machine)

/-- `add` with the plain `u128` sums of the source. -/
def addWordPlain (value other : U256Muldiv) (state : U256Muldiv × ℕ) (index : ℕ) :
    Result (U256Muldiv × ℕ) :=
  m.plainAdd 128 (value.getWord index) (other.getWord index) >>= fun sum =>
  m.plainAdd 128 sum state.2 >>= fun sum =>
  .ok (state.1.updateWord index (lo sum), hi sum)

def addPlain (value other : U256Muldiv) : Result U256Muldiv :=
  (List.range 4).foldlM (addWordPlain m value other) (new 0 0, 0) >>= fun state => .ok state.1

/-- `mul` with plain operations in place of the wrapping ones. -/
def mulWordPlain (value other : U256Muldiv) (j : ℕ) (state : U256Muldiv × ℕ) (i : ℕ) :
    Result (U256Muldiv × ℕ) :=
  if i + j < 4 then
    m.plainMul 128 (value.getWord i) (other.getWord j) >>= fun product =>
    m.plainAdd 128 product (state.1.getWord (i + j)) >>= fun sum =>
    m.plainAdd 128 sum state.2 >>= fun t =>
    .ok (state.1.updateWord (i + j) (lo t), hi t)
  else .ok state

def mulRowPlain (value other result : U256Muldiv) (j : ℕ) : Result U256Muldiv :=
  let words := value.numWords
  (List.range words).foldlM (mulWordPlain m value other j) (result, 0) >>= fun state =>
  .ok (if j + words < 4 then state.1.updateWord (j + words) state.2 else state.1)

def mulPlain (value other : U256Muldiv) : Result U256Muldiv :=
  (List.range other.numWords).foldlM (mulRowPlain m value other) (new 0 0)

end Checked
end U256Muldiv

/-- `mul_u256` with the plain `u128` products and sums of the source. -/
def mulU256Plain (m : Machine) (v n : ℕ) : Result U256Muldiv :=
  m.plainMul 128 (lo v) (lo n) >>= fun c0 =>
  m.plainMul 128 (lo v) (hi n) >>= fun a1 =>
  m.plainMul 128 (hi v) (lo n) >>= fun b0 =>
  m.plainAdd 128 (hi c0) (lo a1) >>= fun c1 =>
  m.plainAdd 128 c1 (lo b0) >>= fun c1 =>
  m.plainMul 128 (hi v) (hi n) >>= fun b1 =>
  m.plainAdd 128 b1 (hi c1) >>= fun high =>
  m.plainAdd 128 high (hi a1) >>= fun high =>
  m.plainAdd 128 high (hi b0) >>= fun high =>
  .ok (U256Muldiv.new high (hiLo (lo c1) (lo c0)))

namespace U256Muldiv

section Compare

variable (value other : U256Muldiv)

/-- The words as the digits of the integer. -/
theorem toNat_eq_words (value : U256Muldiv) : value.toNat = value.getWord 0 +
    value.getWord 1 * 2 ^ 64 + value.getWord 2 * 2 ^ 128 + value.getWord 3 * 2 ^ 192 := rfl

/-- Comparing for equality compares the values. -/
theorem eq_iff : value.eq other = true ↔ value.toNat = other.toNat := by
  have v0 := getWord_lt value 0
  have v1 := getWord_lt value 1
  have v2 := getWord_lt value 2
  have o0 := getWord_lt other 0
  have o1 := getWord_lt other 1
  have o2 := getWord_lt other 2
  rw [toNat_eq_words, toNat_eq_words, eq, decide_eq_true_eq]
  omega

/-- Comparing word by word from the top is comparing the integers. -/
theorem compareWords_eq (less same greater : Bool) :
    compareWords value other less same greater =
      if value.toNat < other.toNat then less
      else if other.toNat < value.toNat then greater else same := by
  have v0 := getWord_lt value 0
  have v1 := getWord_lt value 1
  have v2 := getWord_lt value 2
  have o0 := getWord_lt other 0
  have o1 := getWord_lt other 1
  have o2 := getWord_lt other 2
  rw [toNat_eq_words, toNat_eq_words, compareWords]
  split_ifs <;> first | rfl | omega

/-- Comparing for less compares the values. -/
theorem lt_iff : value.lt other = true ↔ value.toNat < other.toNat := by
  rw [lt, compareWords_eq]
  split_ifs <;> simp only [true_iff, false_iff] <;> omega

/-- Comparing for greater compares the values. -/
theorem gt_iff : value.gt other = true ↔ other.toNat < value.toNat := by
  rw [gt, compareWords_eq]
  split_ifs <;> simp only [true_iff, false_iff] <;> omega

/-- Comparing for at least compares the values. -/
theorem gte_iff : value.gte other = true ↔ other.toNat ≤ value.toNat := by
  rw [gte, compareWords_eq]
  split_ifs <;> simp only [true_iff, false_iff] <;> omega

/-- A value and its inverse add up to nothing, modulo the width. -/
theorem toNat_getAddInverse : (value.getAddInverse.toNat + value.toNat) % 2 ^ 256 = 0 := by
  have small := value.toNat_lt
  unfold getAddInverse
  split_ifs with zero
  · rw [eq_iff] at zero
    rw [zero, toNat_new (by norm_num) (by norm_num)]
    norm_num
  · rw [toNat_add, toNat_sub, toNat_new (by norm_num) (by norm_num),
      toNat_new (by norm_num) (by norm_num)]
    omega

end Compare

section Product

variable {value other result : U256Muldiv} {j : ℕ}

/-- A product of two words with two more words added fits a `u128`. -/
theorem word_product_lt {x y z k : ℕ} (xs : x < 2 ^ 64) (ys : y < 2 ^ 64) (zs : z < 2 ^ 64)
    (ks : k < 2 ^ 64) : x * y + z + k < 2 ^ 128 := by
  have bound : x * y ≤ (2 ^ 64 - 1) * (2 ^ 64 - 1) := Nat.mul_le_mul (by omega) (by omega)
  omega

/-- What one word of a row writes and passes on, when the word is inside. -/
theorem mulWord_of_lt {state : U256Muldiv × ℕ} {i : ℕ} (inside : i + j < 4)
    (small : state.2 < 2 ^ 64) :
    let t := value.getWord i * other.getWord j + state.1.getWord (i + j) + state.2
    t < 2 ^ 128 ∧ mulWord value other j state i = (state.1.updateWord (i + j) (lo t), hi t) := by
  have fits := word_product_lt (getWord_lt value i) (getWord_lt other j)
    (getWord_lt state.1 (i + j)) small
  refine ⟨fits, ?_⟩
  have product : wrappingMul 128 (value.getWord i) (other.getWord j) =
      value.getWord i * other.getWord j := Nat.mod_eq_of_lt (by omega)
  have first : wrappingAdd 128 (value.getWord i * other.getWord j) (state.1.getWord (i + j)) =
      value.getWord i * other.getWord j + state.1.getWord (i + j) := Nat.mod_eq_of_lt (by omega)
  have second : wrappingAdd 128
      (value.getWord i * other.getWord j + state.1.getWord (i + j)) state.2 =
      value.getWord i * other.getWord j + state.1.getWord (i + j) + state.2 := Nat.mod_eq_of_lt fits
  unfold mulWord
  rw [if_pos inside]
  dsimp only
  rw [product, first, second]

/-- The words of a row up to the last place add the product with one word of the second factor. -/
theorem foldl_mulWord {count : ℕ} (inside : j + count ≤ 4) :
    ∃ result' carry, (List.range count).foldl (mulWord value other j) (result, 0) =
        (result', carry) ∧ carry < 2 ^ 64 ∧
      result'.toNat + carry * (2 ^ 64) ^ (j + count) = result.toNat +
        value.toNat % (2 ^ 64) ^ count * other.getWord j * (2 ^ 64) ^ j ∧
      ∀ word, j + count ≤ word → result'.getWord word = result.getWord word := by
  induction count with
  | zero => exact ⟨result, 0, rfl, by norm_num, by rw [pow_zero, Nat.mod_one]; ring, fun _ _ => rfl⟩
  | succ count ih =>
      obtain ⟨middle, carry, folded, carrySmall, total, kept⟩ := ih (by omega)
      have place : count + j = j + count := Nat.add_comm _ _
      obtain ⟨fits, step⟩ := @mulWord_of_lt value other j (middle, carry) count
        (by omega) carrySmall
      rw [place] at fits step
      generalize sumDef : value.getWord count * other.getWord j + middle.getWord
        (j + count) + carry = t at fits step
      have exact : lo t + hi t * 2 ^ 64 =
          middle.getWord (j + count) + other.getWord j * value.getWord count + carry := by
        have digits : lo t + hi t * 2 ^ 64 = t := Nat.mod_add_div' t (2 ^ 64)
        rw [digits, ← sumDef, Nat.mul_comm (other.getWord j)]
        omega
      have exchanged := @toNat_updateWord (j + count) _ middle (by omega) (lo_lt t)
      rw [List.range_succ, List.foldl_append, folded, List.foldl_cons, List.foldl_nil, step]
      refine ⟨_, _, rfl, ?_, ?_, fun word above => ?_⟩
      · change t / 2 ^ 64 < 2 ^ 64
        omega
      · rw [pow_add] at exchanged total
        have next := LongDivision.add_word_step (2 ^ 64) ((2 ^ 64) ^ j) ((2 ^ 64) ^ count)
          exchanged total exact
        rw [Nat.mod_pow_succ, ← getWord_eq value (by omega), ← Nat.add_assoc,
          pow_succ _ (j + count), pow_add]
        refine next.trans ?_
        ring
      · rw [getWord_updateWord_ne (by omega)]
        exact kept word (by omega)

/-- Words beyond the last place change nothing. -/
theorem foldl_mulWord_beyond (state : U256Muldiv × ℕ) {count extra : ℕ} (beyond : 4 ≤ j + count) :
    (List.range (count + extra)).foldl (mulWord value other j) state =
      (List.range count).foldl (mulWord value other j) state := by
  induction extra with
  | zero => rfl
  | succ extra ih =>
      rw [← Nat.add_assoc, List.range_succ, List.foldl_append, ih, List.foldl_cons, List.foldl_nil]
      unfold mulWord
      rw [if_neg (by omega)]

/-- A row adds the product with one word of the second factor, modulo `2 ^ 256`. -/
theorem mulRow_spec (empty : ∀ word, j + value.numWords ≤ word → result.getWord word = 0)
    (inside : j < 4) :
    (mulRow value other result j).toNat ≡
        result.toNat + value.toNat * (other.getWord j * (2 ^ 64) ^ j) [MOD 2 ^ 256] ∧
      ∀ word, j + 1 + value.numWords ≤ word → (mulRow value other result j).getWord word = 0 := by
  have whole : value.toNat % (2 ^ 64) ^ value.numWords = value.toNat :=
    Nat.mod_eq_of_lt (lt_of_numWords value)
  unfold mulRow
  dsimp only
  by_cases fits : j + value.numWords < 4
  · obtain ⟨result', carry, folded, small, total, kept⟩ := @foldl_mulWord value other result j
      value.numWords fits.le
    rw [folded, if_pos fits]
    dsimp only
    have exchanged := @toNat_updateWord (j + value.numWords) carry result' fits small
    rw [kept _ le_rfl, empty _ le_rfl, Nat.zero_mul, Nat.add_zero, total, whole] at exchanged
    refine ⟨?_, fun word above => ?_⟩
    · rw [exchanged, Nat.mul_assoc]
    · rw [getWord_updateWord_ne (by omega), kept word (by omega)]
      exact empty word (by omega)
  · obtain ⟨result', carry, folded, small, total, -⟩ := @foldl_mulWord value other result j
      (4 - j) (by omega)
    have split : value.numWords = 4 - j + (value.numWords - (4 - j)) := by omega
    rw [split, foldl_mulWord_beyond _ (by omega), folded, if_neg (by omega)]
    refine ⟨?_, fun word above => getWord_of_ge (by omega)⟩
    have top : (2 ^ 64) ^ (j + (4 - j)) = 2 ^ 256 := by
      rw [Nat.add_sub_cancel' inside.le]
      norm_num
    have lost : value.toNat * (other.getWord j * (2 ^ 64) ^ j) =
        value.toNat % (2 ^ 64) ^ (4 - j) * other.getWord j * (2 ^ 64) ^ j +
          value.toNat / (2 ^ 64) ^ (4 - j) * other.getWord j * 2 ^ 256 := by
      conv_lhs => rw [← Nat.mod_add_div' value.toNat ((2 ^ 64) ^ (4 - j))]
      rw [← top, pow_add]
      ring
    rw [top] at total
    rw [lost, ← Nat.add_assoc, ← total]
    unfold Nat.ModEq
    rw [Nat.add_mul_mod_self_right, Nat.add_mul_mod_self_right]

/-- The rows so far add the product with the words of the second factor so far. -/
theorem foldl_mulRow {count : ℕ} (inside : count ≤ 4) :
    ((List.range count).foldl (mulRow value other) (new 0 0)).toNat ≡
        value.toNat * (other.toNat % (2 ^ 64) ^ count) [MOD 2 ^ 256] ∧
      ∀ word, count + value.numWords ≤ word →
        ((List.range count).foldl (mulRow value other) (new 0 0)).getWord word = 0 := by
  induction count with
  | zero =>
      refine ⟨?_, fun word _ => ?_⟩
      · rw [pow_zero, Nat.mod_one, Nat.mul_zero]
        exact congrArg (· % 2 ^ 256) (toNat_new_low (Nat.two_pow_pos 128))
      · by_cases small : word < 4
        · rw [getWord_eq _ small]
          change (new 0 0).toNat / _ % _ = 0
          rw [toNat_new_low (Nat.two_pow_pos 128), Nat.zero_div, Nat.zero_mod]
        · exact getWord_of_ge (not_lt.mp small)
  | succ count ih =>
      obtain ⟨total, empty⟩ := ih (by omega)
      obtain ⟨row, emptyRow⟩ := @mulRow_spec value other _ count empty (by omega)
      rw [List.range_succ, List.foldl_append, List.foldl_cons, List.foldl_nil]
      refine ⟨row.trans ?_, emptyRow⟩
      rw [Nat.mod_pow_succ, ← getWord_eq other (by omega), Nat.mul_add,
        Nat.mul_comm (other.getWord count)]
      exact total.add_right _

/-- Products are exact modulo `2 ^ 256`. -/
theorem toNat_mul (value other : U256Muldiv) :
    (value.mul other).toNat = value.toNat * other.toNat % 2 ^ 256 := by
  obtain ⟨total, -⟩ := @foldl_mulRow value other _ (numWords_le other)
  rw [Nat.mod_eq_of_lt (lt_of_numWords other)] at total
  have small := (value.mul other).toNat_lt
  rw [← Nat.mod_eq_of_lt small]
  exact total

end Product

section Checked

variable (m : Machine) (value other : U256Muldiv)

/-- No sum of an addition overflows. -/
theorem addPlain_eq : addPlain m value other = .ok (value.add other) := by
  have words (state : U256Muldiv × ℕ) (index : ℕ) (bit : state.2 ≤ 1) :
      addWordPlain m value other state index = .ok (addWord value other state index) ∧
        (addWord value other state index).2 ≤ 1 := by
    have x := getWord_lt value index
    have y := getWord_lt other index
    refine ⟨?_, ?_⟩
    · unfold addWordPlain
      rw [m.plainAdd_of_lt (by omega), ok_bind, m.plainAdd_of_lt (by omega), ok_bind]
      rfl
    · change (value.getWord index + other.getWord index + state.2) / 2 ^ 64 ≤ 1
      omega
  have folded (indices : List ℕ) (state : U256Muldiv × ℕ) (bit : state.2 ≤ 1) :
      indices.foldlM (addWordPlain m value other) state =
        .ok (indices.foldl (addWord value other) state) := by
    induction indices generalizing state with
    | nil => rfl
    | cons index indices ih =>
        obtain ⟨step, next⟩ := words state index bit
        rw [List.foldlM_cons, step, ok_bind, ih _ next, List.foldl_cons]
  unfold addPlain
  rw [folded _ _ (Nat.zero_le 1), ok_bind]
  rfl

/-- No product or sum of a row overflows. -/
theorem mulWordPlain_eq {j : ℕ} {state : U256Muldiv × ℕ} {i : ℕ} (small : state.2 < 2 ^ 64) :
    mulWordPlain m value other j state i = .ok (mulWord value other j state i) ∧
      (mulWord value other j state i).2 < 2 ^ 64 := by
  by_cases inside : i + j < 4
  · obtain ⟨fits, step⟩ := @mulWord_of_lt value other j state i inside small
    rw [step]
    refine ⟨?_, Nat.div_lt_of_lt_mul fits⟩
    unfold mulWordPlain
    rw [if_pos inside, m.plainMul_of_lt (by omega), ok_bind, m.plainAdd_of_lt (by omega), ok_bind,
      m.plainAdd_of_lt fits, ok_bind]
  · unfold mulWordPlain mulWord
    rw [if_neg inside, if_neg inside]
    exact ⟨rfl, small⟩

/-- A row of the product needs no more room than it has, so the build does not matter. -/
theorem mulRowPlain_eq (result : U256Muldiv) (j : ℕ) :
    mulRowPlain m value other result j = .ok (mulRow value other result j) := by
  have folded (indices : List ℕ) (state : U256Muldiv × ℕ) (small : state.2 < 2 ^ 64) :
      indices.foldlM (mulWordPlain m value other j) state =
        .ok (indices.foldl (mulWord value other j) state) := by
    induction indices generalizing state with
    | nil => rfl
    | cons index indices ih =>
        obtain ⟨step, next⟩ := @mulWordPlain_eq m value other j state index small
        rw [List.foldlM_cons, step, ok_bind, ih _ next, List.foldl_cons]
  unfold mulRowPlain
  dsimp only
  rw [folded _ _ (Nat.two_pow_pos 64), ok_bind]
  rfl

/-- No step of a multiplication overflows. -/
theorem mulPlain_eq : mulPlain m value other = .ok (value.mul other) := by
  unfold mulPlain mul
  generalize new 0 0 = result
  induction List.range other.numWords generalizing result with
  | nil => rfl
  | cons index indices ih =>
      rw [List.foldlM_cons, mulRowPlain_eq, ok_bind, ih, List.foldl_cons]

/-- No step of the product of two `u128` values overflows. -/
theorem mulU256Plain_eq {v n : ℕ} (left : v < 2 ^ 128) (right : n < 2 ^ 128) :
    mulU256Plain m v n = .ok (mulU256 v n) := by
  have vl : lo v < 2 ^ 64 := lo_lt v
  have nl : lo n < 2 ^ 64 := lo_lt n
  have vh : hi v < 2 ^ 64 := Nat.div_lt_of_lt_mul left
  have nh : hi n < 2 ^ 64 := Nat.div_lt_of_lt_mul right
  have bound {a b : ℕ} (as : a < 2 ^ 64) (bs : b < 2 ^ 64) : a * b ≤ (2 ^ 64 - 1) * (2 ^ 64 - 1) :=
    Nat.mul_le_mul (by omega) (by omega)
  have c0 := bound vl nl
  have a1 := bound vl nh
  have b0 := bound vh nl
  have b1 := bound vh nh
  unfold mulU256Plain
  rw [m.plainMul_of_lt (by omega), ok_bind, m.plainMul_of_lt (by omega), ok_bind,
    m.plainMul_of_lt (by omega), ok_bind]
  have upper {product : ℕ} (small : product ≤ (2 ^ 64 - 1) * (2 ^ 64 - 1)) :
      hi product ≤ 2 ^ 64 - 2 := by
    unfold hi
    omega
  have h0 := upper c0
  have h1 := upper a1
  have h2 := upper b0
  have l1 := lo_lt (lo v * hi n)
  have l2 := lo_lt (hi v * lo n)
  rw [m.plainAdd_of_lt (by omega), ok_bind, m.plainAdd_of_lt (by omega), ok_bind,
    m.plainMul_of_lt (by omega), ok_bind]
  have carry : hi (hi (lo v * lo n) + lo (lo v * hi n) + lo (hi v * lo n)) ≤ 2 := by
    unfold hi at *
    omega
  rw [m.plainAdd_of_lt (by omega), ok_bind, m.plainAdd_of_lt (by omega), ok_bind,
    m.plainAdd_of_lt (by omega), ok_bind]
  rfl

end Checked

section Shift

variable (value : U256Muldiv)

/-- The word shifts of a long shift to the left. -/
theorem toNat_iterate_shiftWordLeft (count : ℕ) :
    (shiftWordLeft^[count] value).toNat = value.toNat * 2 ^ (64 * count) % 2 ^ 256 := by
  induction count with
  | zero =>
      rw [Function.iterate_zero, id_eq, Nat.mul_zero, pow_zero, Nat.mul_one,
        Nat.mod_eq_of_lt value.toNat_lt]
  | succ count ih =>
      rw [Function.iterate_succ_apply', toNat_shiftWordLeft, ih, Nat.mod_mul_mod, Nat.mul_assoc,
        Nat.mul_add, pow_add, Nat.mul_one]

/-- Shifting by a word divides by its size. -/
theorem toNat_shiftWordRight : value.shiftWordRight.toNat = value.toNat / 2 ^ 64 := by
  have w0 := (value.items 0).isLt
  have w1 := (value.items 1).isLt
  have w2 := (value.items 2).isLt
  have w3 := (value.items 3).isLt
  simp only [toNat, shiftWordRight, BitVec.toNat_ofNat]
  omega

/-- Shifting by several words divides by as many sizes. -/
theorem toNat_iterate_shiftWordRight (count : ℕ) :
    (shiftWordRight^[count] value).toNat = value.toNat / 2 ^ (64 * count) := by
  induction count with
  | zero => rw [Function.iterate_zero, id_eq, Nat.mul_zero, pow_zero, Nat.div_one]
  | succ count ih =>
      rw [Function.iterate_succ_apply', toNat_shiftWordRight, ih, Nat.div_div_eq_div_mul,
        Nat.mul_add, pow_add, Nat.mul_one]

/-- A shift is its word shifts, followed by a shift within a word. -/
theorem shiftLeft_eq {shiftAmount : ℕ} (inside : shiftAmount < 256) :
    value.shiftLeft shiftAmount =
      (shiftWordLeft^[shiftAmount / 64] value).shiftLeft (shiftAmount % 64) := by
  have within : shiftAmount % 64 < 64 := Nat.mod_lt _ (by norm_num)
  have short : ¬ shiftAmount % 64 ≥ 256 := by omega
  unfold shiftLeft
  rw [if_neg (not_le.mpr inside), if_neg short, Nat.div_eq_of_lt within, Nat.mod_mod]
  rfl

/-- A shift splits into whole words and the bits that remain. -/
theorem shiftRight_eq {shiftAmount : ℕ} (inside : shiftAmount < 256) :
    value.shiftRight shiftAmount =
      (shiftWordRight^[shiftAmount / 64] value).shiftRight (shiftAmount % 64) := by
  have within : shiftAmount % 64 < 64 := Nat.mod_lt _ (by norm_num)
  have short : ¬ shiftAmount % 64 ≥ 256 := by omega
  unfold shiftRight
  rw [if_neg (not_le.mpr inside), if_neg short, Nat.div_eq_of_lt within, Nat.mod_mod]
  rfl

/-- Shifting left multiplies, modulo the width. -/
theorem toNat_shiftLeft (shiftAmount : ℕ) :
    (value.shiftLeft shiftAmount).toNat = value.toNat * 2 ^ shiftAmount % 2 ^ 256 := by
  by_cases inside : shiftAmount < 256
  · have within : shiftAmount % 64 < 64 := Nat.mod_lt _ (by norm_num)
    have parts := extended_shiftLeft (shiftWordLeft^[shiftAmount / 64] value) within
    have small := ((shiftWordLeft^[shiftAmount / 64] value).shiftLeft (shiftAmount % 64)).toNat_lt
    rw [shiftLeft_eq value inside, ← Nat.mod_eq_of_lt small]
    rw [toNat_iterate_shiftWordLeft] at parts
    have width : ((2 ^ 64) ^ 4 : ℕ) = 2 ^ 256 := by norm_num
    unfold extended at parts
    rw [width] at parts
    rw [← Nat.add_mul_mod_self_right _ _ (2 ^ 256), parts, Nat.mod_mul_mod,
      Nat.mul_assoc, ← pow_add, Nat.div_add_mod]
  · have multiple : 2 ^ 256 ∣ value.toNat * 2 ^ shiftAmount :=
      Dvd.dvd.mul_left (pow_dvd_pow 2 (not_lt.mp inside)) _
    unfold shiftLeft
    rw [if_pos (not_lt.mp inside), Nat.mod_eq_zero_of_dvd multiple,
      toNat_new_low (Nat.two_pow_pos 128)]

/-- Shifting right divides, also beyond the width. -/
theorem toNat_shiftRight_any (shiftAmount : ℕ) :
    (value.shiftRight shiftAmount).toNat = value.toNat / 2 ^ shiftAmount := by
  by_cases inside : shiftAmount < 256
  · rw [shiftRight_eq value inside, toNat_shiftRight _ (Nat.mod_lt _ (by norm_num)),
      toNat_iterate_shiftWordRight, Nat.div_div_eq_div_mul, ← pow_add, Nat.div_add_mod]
  · have large : value.toNat < 2 ^ shiftAmount :=
      lt_of_lt_of_le value.toNat_lt (Nat.pow_le_pow_right (by norm_num) (not_lt.mp inside))
    unfold shiftRight
    rw [if_pos (not_lt.mp inside), Nat.div_eq_of_lt large, toNat_new_low (Nat.two_pow_pos 128)]

/-- The checked shift fails exactly when the top word is in use. -/
theorem checkedShiftWordLeft_eq_none :
    value.checkedShiftWordLeft = none ↔ 2 ^ 192 ≤ value.toNat := by
  constructor
  · intro fails
    by_contra small
    obtain ⟨shifted, returned, -⟩ := checkedShiftWordLeft_of_lt (not_le.mp small)
    rw [returned] at fails
    exact Option.some_ne_none _ fails
  · intro large
    cases returned : value.checkedShiftWordLeft with
    | none => rfl
    | some shifted => exact absurd (checkedShiftWordLeft_eq_some returned).1 (not_lt.mpr large)

/-- A value of more than two words is refused. -/
theorem tryIntoU128_eq_err (large : 2 ^ 128 ≤ value.toNat) :
    value.tryIntoU128 = err .numberDownCastError := by
  have words : value.numWords > 2 := by
    by_contra few
    have small := lt_of_numWords value
    have fewer : (2 ^ 64) ^ value.numWords ≤ (2 ^ 64) ^ 2 :=
      Nat.pow_le_pow_right (by norm_num) (not_lt.mp few)
    omega
  unfold tryIntoU128
  rw [if_pos words]

end Shift

/-- The operations on two values, with a shift amount, agree with arithmetic modulo `2 ^ 256`, and
none of their `u128` expressions overflows. -/
structure ExactModulo (m : Machine) (value other : U256Muldiv) (shiftAmount : ℕ) : Prop where
  add : ∃ sum, addPlain m value other = .ok sum ∧
    sum.toNat = (value.toNat + other.toNat) % 2 ^ 256
  sub : ((value.sub other).toNat : ℤ) = (value.toNat - other.toNat) % 2 ^ 256
  mul : mulPlain m value other = .ok (value.mul other) ∧
    (value.mul other).toNat = value.toNat * other.toNat % 2 ^ 256
  shiftLeft : (value.shiftLeft shiftAmount).toNat = value.toNat * 2 ^ shiftAmount % 2 ^ 256
  shiftRight : (value.shiftRight shiftAmount).toNat = value.toNat / 2 ^ shiftAmount
  checkedShiftWordLeft_none : value.checkedShiftWordLeft = none ↔ 2 ^ 192 ≤ value.toNat
  checkedShiftWordLeft_some : ∀ shifted, value.checkedShiftWordLeft = some shifted →
    shifted.toNat = value.toNat * 2 ^ 64
  eq : value.eq other = true ↔ value.toNat = other.toNat
  lt : value.lt other = true ↔ value.toNat < other.toNat
  gt : value.gt other = true ↔ other.toNat < value.toNat
  lte : value.lte other = true ↔ value.toNat ≤ other.toNat
  gte : value.gte other = true ↔ other.toNat ≤ value.toNat
  getAddInverse : (value.getAddInverse.toNat + value.toNat) % 2 ^ 256 = 0
  tryIntoU128 : value.tryIntoU128 =
    if 2 ^ 128 ≤ value.toNat then err .numberDownCastError else .ok value.toNat

/-- The operations of four-word integers are exact, the products of `u128` values included. -/
theorem u256_exact (m : Machine) :
    (∀ value other shiftAmount, ExactModulo m value other shiftAmount) ∧
    ∀ v n, v < 2 ^ 128 → n < 2 ^ 128 →
      ∃ product, mulU256Plain m v n = .ok product ∧ product.toNat = v * n := by
  refine ⟨fun value other shiftAmount => ?_, fun v n left right =>
    ⟨mulU256 v n, mulU256Plain_eq m left right, toNat_mulU256 left right⟩⟩
  refine {
    add := ⟨_, addPlain_eq m value other, toNat_add value other⟩
    sub := ?_
    mul := ⟨mulPlain_eq m value other, toNat_mul value other⟩
    shiftLeft := toNat_shiftLeft value shiftAmount
    shiftRight := toNat_shiftRight_any value shiftAmount
    checkedShiftWordLeft_none := checkedShiftWordLeft_eq_none value
    checkedShiftWordLeft_some := fun _ returned => (checkedShiftWordLeft_eq_some returned).2
    eq := eq_iff value other
    lt := lt_iff value other
    gt := gt_iff value other
    lte := lte_iff value other
    gte := gte_iff value other
    getAddInverse := toNat_getAddInverse value
    tryIntoU128 := ?_ }
  · have small := value.toNat_lt
    have small' := other.toNat_lt
    rw [toNat_sub]
    omega
  · split_ifs with large
    · exact tryIntoU128_eq_err value large
    · exact tryIntoU128_eq_ok.mpr ⟨not_le.mp large, rfl⟩

end U256Muldiv
end Whirlpools
