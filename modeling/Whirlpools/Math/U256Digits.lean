import Whirlpools.Math.U256Division

/-! # One digit of a long division

The estimate from the leading words is corrected to the greatest digit they allow, which
is the digit of the quotient or one more. Where it is one more, the subtraction borrows
from above the window and the divisor is added back; at the last word that panics.
-/

namespace Whirlpools

open Outcome U256Muldiv

section Digit

variable {m : Machine}

/-- What a digit that is estimated from the leading words satisfies: it is the greatest word
whose product with the two leading words of the divisor fits the three of the dividend. -/
structure LeadingDigit (divisorLead dividendLead digit : ℕ) : Prop where
  word : digit < 2 ^ 64
  fits : digit * divisorLead ≤ dividendLead
  greatest : 2 ^ 64 ≤ digit + 1 ∨ dividendLead < (digit + 1) * divisorLead

/-- The loop that corrects an estimate ends with the leading digit. -/
theorem correctEstimate_spec {d0 d1 d1Next d0Next : ℕ} (normal : 0 < d1)
    (small : d1 < 2 ^ 64) (nextSmall : d1Next < 2 ^ 64) (dividendSmall : d0Next < 2 ^ 64)
    (bounded : d0 < (d1 + 1) * 2 ^ 64) {fuel qhat rhat : ℕ} (enough : 2 ^ 64 ≤ rhat + fuel * d1)
    (remaining : qhat * d1 + rhat = d0) (word : rhat < 2 ^ 64)
    (greatest : 2 ^ 64 ≤ qhat + 1 ∨
      d0 * 2 ^ 64 + d0Next < (qhat + 1) * (d1 * 2 ^ 64 + d1Next)) :
    ∃ digit, correctEstimate m d1 d1Next fuel qhat rhat (rhat * 2 ^ 64 + d0Next)
        (qhat * d1Next) = .ok digit ∧
      LeadingDigit (d1 * 2 ^ 64 + d1Next) (d0 * 2 ^ 64 + d0Next) digit := by
  -- Comparing the products of the second words compares those of both leading words.
  have compare (q r : ℕ) (rest : q * d1 + r = d0) :
      q * (d1 * 2 ^ 64 + d1Next) ≤ d0 * 2 ^ 64 + d0Next ↔ q * d1Next ≤ r * 2 ^ 64 + d0Next := by
    rw [← rest, Nat.mul_add, Nat.add_mul, Nat.mul_assoc q, Nat.add_assoc]
    exact Nat.add_le_add_iff_left
  induction fuel generalizing qhat rhat with
  | zero => omega
  | succ fuel ih =>
      unfold correctEstimate
      by_cases large : hi qhat ≠ 0 ∨ qhat * d1Next > rhat * 2 ^ 64 + d0Next
      · rw [if_pos large]
        obtain ⟨q, rfl⟩ : ∃ q, qhat = q + 1 := by
          refine Nat.exists_eq_succ_of_ne_zero fun zero => ?_
          simp only [zero, hi, Nat.zero_div, ne_eq, not_true_eq_false, Nat.zero_mul, not_lt_zero,
            or_self, gt_iff_lt] at large
        have lowered : q * d1 + (rhat + d1) = d0 := by
          rw [← remaining, Nat.add_mul]
          omega
        have tooLarge : 2 ^ 64 ≤ q + 1 ∨
            d0 * 2 ^ 64 + d0Next < (q + 1) * (d1 * 2 ^ 64 + d1Next) := by
          rcases large with word | product
          · unfold hi at word
            omega
          · exact .inr (not_le.mp (mt (compare (q + 1) rhat remaining).mp (not_le.mpr product)))
        rw [Machine.plainSub_of_le m (Nat.le_add_left 1 q), ok_bind, Nat.add_sub_cancel,
          Machine.plainAdd_of_lt m (by omega), ok_bind]
        by_cases leaves : hi (rhat + d1) ≠ 0
        · rw [if_pos leaves]
          have far : 2 ^ 64 ≤ rhat + d1 := by
            unfold hi at leaves
            omega
          have digit : q < 2 ^ 64 := by
            by_contra above
            have product := Nat.mul_le_mul_right d1 (not_lt.mp above)
            omega
          refine ⟨q, rfl, digit, (compare q _ lowered).mpr ?_, tooLarge⟩
          have product : q * d1Next ≤ 2 ^ 64 * 2 ^ 64 := Nat.mul_le_mul digit.le nextSmall.le
          omega
        · rw [if_neg leaves]
          have near : rhat + d1 < 2 ^ 64 := by
            unfold hi at leaves
            omega
          have taken : (q + 1) * d1Next - d1Next = q * d1Next := by
            rw [Nat.add_mul, Nat.one_mul, Nat.add_sub_cancel]
          rw [Machine.plainSub_of_le m (Nat.le_mul_of_pos_left d1Next (Nat.succ_pos q)), ok_bind,
            taken]
          have compared : hiLo (lo (rhat + d1)) (lo (rhat * 2 ^ 64 + d0Next)) =
              (rhat + d1) * 2 ^ 64 + d0Next := by
            unfold hiLo lo
            omega
          rw [compared]
          exact ih (by rw [Nat.add_mul] at enough; omega) lowered near tooLarge
      · rw [if_neg large]
        rw [not_or, not_not, not_lt] at large
        refine ⟨qhat, rfl, ?_, (compare qhat rhat remaining).mpr large.2, greatest⟩
        unfold hi at large
        omega

/-- The quotient of the leading words is corrected to the leading digit. -/
theorem correctEstimate_quotient {d0 d1 d1Next d0Next : ℕ} (normal : 2 ^ 64 ≤ 2 * d1)
    (small : d1 < 2 ^ 64) (nextSmall : d1Next < 2 ^ 64) (dividendSmall : d0Next < 2 ^ 64)
    (bounded : d0 < (d1 + 1) * 2 ^ 64) :
    ∃ digit, correctEstimate m d1 d1Next 2 (d0 / d1) (d0 - d1 * (d0 / d1))
        (hiLo (lo (d0 - d1 * (d0 / d1))) d0Next) (d0 / d1 * d1Next % 2 ^ 128) = .ok digit ∧
      LeadingDigit (d1 * 2 ^ 64 + d1Next) (d0 * 2 ^ 64 + d0Next) digit := by
  have positive : 0 < d1 := by omega
  have split := Nat.div_add_mod d0 d1
  have word := Nat.mod_lt d0 positive
  have quotient : d0 / d1 < 2 ^ 64 + 2 := by
    rw [Nat.div_lt_iff_lt_mul positive, Nat.add_mul]
    rw [Nat.add_mul] at bounded
    omega
  have product : d0 / d1 * d1Next < 2 ^ 128 :=
    lt_of_le_of_lt (Nat.mul_le_mul (Nat.le_of_lt_succ quotient) (Nat.le_sub_one_of_lt nextSmall))
      (by norm_num)
  have remainder : d0 - d1 * (d0 / d1) = d0 % d1 := by omega
  have compared : hiLo (lo (d0 % d1)) d0Next = d0 % d1 * 2 ^ 64 + d0Next := by
    unfold hiLo lo
    omega
  rw [remainder, Nat.mod_eq_of_lt product, compared]
  refine correctEstimate_spec positive small nextSmall dividendSmall bounded (by omega)
    (by rw [Nat.mul_comm]; exact split) (by omega) (.inr ?_)
  have above : d0 + 1 ≤ (d0 / d1 + 1) * d1 := by
    rw [Nat.mul_comm]
    exact Nat.lt_mul_div_succ d0 positive
  calc d0 * 2 ^ 64 + d0Next < (d0 + 1) * 2 ^ 64 := by omega
    _ ≤ (d0 / d1 + 1) * d1 * 2 ^ 64 := Nat.mul_le_mul_right _ above
    _ = (d0 / d1 + 1) * (d1 * 2 ^ 64) := Nat.mul_assoc _ _ _
    _ ≤ (d0 / d1 + 1) * (d1 * 2 ^ 64 + d1Next) := Nat.mul_le_mul_left _ (Nat.le_add_right _ _)

/-- A normalized divisor of `e + 2` words. -/
structure Normalized (divisor : U256Muldiv) (e : ℕ) : Prop where
  normal : (2 ^ 64) ^ (e + 2) ≤ 2 * divisor.toNat
  fits : divisor.toNat < (2 ^ 64) ^ (e + 2)

/-- The leading two words of a normalized divisor have their top bit set. -/
theorem Normalized.lead_bounds {divisor : U256Muldiv} {e : ℕ} (normalized : Normalized divisor e) :
    2 ^ 127 ≤ divisor.toNat / (2 ^ 64) ^ e ∧ divisor.toNat / (2 ^ 64) ^ e < 2 ^ 128 := by
  have normal := normalized.normal
  have fits := normalized.fits
  have positive : 0 < (2 ^ 64) ^ e := by positivity
  rw [show (2 ^ 64) ^ (e + 2) = (2 ^ 64) ^ e * 2 ^ 128 by ring] at normal fits
  exact ⟨(Nat.le_div_iff_mul_le positive).mpr (by omega), Nat.div_lt_of_lt_mul fits⟩

theorem Normalized.pos {divisor : U256Muldiv} {e : ℕ} (normalized : Normalized divisor e) :
    0 < divisor.toNat := by
  have normal := normalized.normal
  have power : 0 < (2 ^ 64) ^ (e + 2) := by positivity
  omega

/-- The estimate is the leading digit of the dividend. -/
theorem estimateDigit_spec {dividend divisor : U256Muldiv} {carrySpace index e : ℕ}
    (normalized : Normalized divisor e) (inside : index + (e + 2) ≤ 4)
    (small : carrySpace < 2 ^ 64)
    (bounded : extended dividend carrySpace < divisor.toNat * (2 ^ 64) ^ (index + 1)) :
    ∃ digit, estimateDigit m dividend divisor index (e + 2)
        (head dividend carrySpace (index + (e + 2))) = .ok digit ∧
      LeadingDigit (divisor.toNat / (2 ^ 64) ^ e)
        (extended dividend carrySpace / (2 ^ 64) ^ (index + e)) digit := by
  obtain ⟨lead, leadDef⟩ : ∃ lead, lead = divisor.toNat / (2 ^ 64) ^ e := ⟨_, rfl⟩
  obtain ⟨window, windowDef⟩ : ∃ window,
    window = extended dividend carrySpace / (2 ^ 64) ^ (index + e) := ⟨_, rfl⟩
  obtain ⟨normal, leadSmall⟩ := normalized.lead_bounds
  have windowBounded : window < (lead + 1) * 2 ^ 64 := by
    rw [windowDef, Nat.div_lt_iff_lt_mul (by positivity)]
    have above : divisor.toNat < (2 ^ 64) ^ e * (lead + 1) := by
      rw [leadDef]
      exact Nat.lt_mul_div_succ _ (by positivity)
    calc extended dividend carrySpace < divisor.toNat * (2 ^ 64) ^ (index + 1) := bounded
      _ ≤ (2 ^ 64) ^ e * (lead + 1) * (2 ^ 64) ^ (index + 1) := Nat.mul_le_mul_right _ above.le
      _ = (lead + 1) * 2 ^ 64 * (2 ^ 64) ^ (index + e) := by ring
  rw [← leadDef] at normal leadSmall
  rw [← leadDef, ← windowDef]
  -- The five words that are read, as digits of the leading parts.
  have divisorWord : divisor.getWord (e + 1) = lead / 2 ^ 64 := by
    rw [getWord_eq divisor (by omega), pow_succ, ← Nat.div_div_eq_div_mul, ← leadDef]
    exact Nat.mod_eq_of_lt (by omega)
  have divisorNext : divisor.getWord e = lead % 2 ^ 64 := by
    rw [getWord_eq divisor (by omega), leadDef]
  have top : head dividend carrySpace (index + e + 2) = window / 2 ^ 64 / 2 ^ 64 := by
    rw [head_eq small (by omega), pow_succ, pow_succ, ← Nat.div_div_eq_div_mul,
      ← Nat.div_div_eq_div_mul, ← windowDef]
    exact Nat.mod_eq_of_lt (by omega)
  have dividendWord : dividend.getWord (index + e + 1) = window / 2 ^ 64 % 2 ^ 64 := by
    rw [← @head_of_ne dividend _ carrySpace (by omega), head_eq small (by omega), pow_succ,
      ← Nat.div_div_eq_div_mul, ← windowDef]
  have dividendNext : dividend.getWord (index + e) = window % 2 ^ 64 := by
    rw [← @head_of_ne dividend _ carrySpace (by omega), head_eq small (by omega), ← windowDef]
  have leading : hiLo (window / 2 ^ 64 / 2 ^ 64) (window / 2 ^ 64 % 2 ^ 64) = window / 2 ^ 64 :=
    Nat.div_add_mod' _ _
  obtain ⟨digit, returned, spec⟩ := @correctEstimate_quotient m (window / 2 ^ 64)
    (lead / 2 ^ 64) (lead % 2 ^ 64) (window % 2 ^ 64)
    (by omega) (by omega) (Nat.mod_lt _ (by norm_num)) (Nat.mod_lt _ (by norm_num)) (by omega)
  rw [Nat.div_add_mod', Nat.div_add_mod'] at spec
  refine ⟨digit, ?_, spec⟩
  have positions : index + (e + 2) - 1 = index + e + 1 ∧ index + (e + 2) - 2 = index + e ∧
      e + 2 - 1 = e + 1 ∧ e + 2 - 2 = e := by omega
  obtain ⟨position, next, divisorPosition, divisorNextPosition⟩ := positions
  have product : lead / 2 ^ 64 * (window / 2 ^ 64 / (lead / 2 ^ 64)) < 2 ^ 128 :=
    lt_of_le_of_lt (Nat.mul_div_le _ _) (by omega)
  unfold estimateDigit
  rw [position, next, divisorPosition, divisorNextPosition, readWord_of_lt (by omega), ok_bind,
    readWord_of_lt (by omega), ok_bind, dividendWord, divisorWord, ← Nat.add_assoc index e 2, top,
    leading, if_neg (by omega)]
  dsimp only
  rw [Machine.plainMul_of_lt m product, ok_bind,
    Machine.plainSub_of_le m (Nat.mul_div_le _ _), ok_bind, readWord_of_lt (by omega), ok_bind,
    readWord_of_lt (by omega), ok_bind, dividendNext, divisorNext]
  exact returned

/-- Subtracting the product of one word, with the borrow of the lower words. -/
theorem subtract_word_eq {qhat divisorWord word borrow : ℕ} (digit : qhat < 2 ^ 64)
    (small : divisorWord < 2 ^ 64) (wordSmall : word < 2 ^ 64) (borrowSmall : borrow < 2 ^ 64) :
    let p := qhat * divisorWord
    let t := wrappingSub (wrappingSub word borrow) (lo p)
    let next := (hi p + 2 ^ 64 - hi t) % 2 ^ 64
    lo t + borrow + p = word + next * 2 ^ 64 ∧ next < 2 ^ 64 := by
  intro p t next
  have product : p ≤ (2 ^ 64 - 1) * (2 ^ 64 - 1) := Nat.mul_le_mul (by omega) (by omega)
  simp only [next, t, wrappingSub, lo, hi]
  omega

/-- Subtracting the product of the digit and the lower words of the divisor. -/
theorem foldlM_subtractWord {dividend divisor : U256Muldiv} {qhat index count : ℕ}
    (digit : qhat < 2 ^ 64) (inside : index + count ≤ 4) :
    ∃ dividend' borrow, (List.range count).foldlM (subtractWord m qhat divisor index)
        (dividend, 0) = .ok (dividend', borrow) ∧ borrow < 2 ^ 64 ∧
      dividend'.toNat + qhat * (divisor.toNat % (2 ^ 64) ^ count) * (2 ^ 64) ^ index =
        dividend.toNat + borrow * (2 ^ 64) ^ (index + count) ∧
      ∀ other, index + count ≤ other → dividend'.getWord other = dividend.getWord other := by
  induction count with
  | zero =>
      exact ⟨dividend, 0, rfl, by norm_num, by rw [pow_zero, Nat.mod_one]; ring, fun _ _ => rfl⟩
  | succ count ih =>
      obtain ⟨middle, borrow, folded, borrowSmall, total, kept⟩ := ih (by omega)
      have small := getWord_lt divisor count
      obtain ⟨exact, nextSmall⟩ := subtract_word_eq digit small
        (getWord_lt middle (index + count)) borrowSmall
      have product : qhat * divisor.getWord count < 2 ^ 128 :=
        lt_of_le_of_lt (Nat.mul_le_mul (Nat.le_sub_one_of_lt digit) (Nat.le_sub_one_of_lt small))
          (by norm_num)
      rw [List.range_succ, List.foldlM_append, folded, ok_bind]
      simp only [List.foldlM_cons, List.foldlM_nil, subtractWord]
      rw [readWord_of_lt (by omega), ok_bind, Machine.plainMul_of_lt m product, ok_bind,
        readWord_of_lt (by omega), ok_bind, writeWord_of_lt (by omega), ok_bind, ok_bind]
      refine ⟨_, _, rfl, nextSmall, ?_, fun other above => ?_⟩
      · have exchanged := @toNat_updateWord (index + count) _ middle (by omega)
          (lo_lt (wrappingSub (wrappingSub (middle.getWord (index + count)) borrow)
            (lo (qhat * divisor.getWord count))))
        rw [pow_add] at exchanged total
        rw [Nat.mod_pow_succ, ← getWord_eq divisor (by omega), ← Nat.add_assoc,
          pow_succ _ (index + count), pow_add]
        exact LongDivision.subtract_word_step _ _ _ exchanged total exact
      · rw [getWord_updateWord_ne (by omega)]
        exact kept other (by omega)

/-- Adding the lower words of the divisor back. -/
theorem foldlM_addBackWord {dividend divisor : U256Muldiv} {index count : ℕ}
    (inside : index + count ≤ 4) :
    ∃ dividend' carry, (List.range count).foldlM (addBackWord divisor index) (dividend, 0) =
        .ok (dividend', carry) ∧ carry ≤ 1 ∧
      dividend'.toNat + carry * (2 ^ 64) ^ (index + count) =
        dividend.toNat + divisor.toNat % (2 ^ 64) ^ count * (2 ^ 64) ^ index ∧
      ∀ other, index + count ≤ other → dividend'.getWord other = dividend.getWord other := by
  induction count with
  | zero =>
      exact ⟨dividend, 0, rfl, by norm_num, by rw [pow_zero, Nat.mod_one]; ring, fun _ _ => rfl⟩
  | succ count ih =>
      obtain ⟨middle, carry, folded, carrySmall, total, kept⟩ := ih (by omega)
      have small := getWord_lt divisor count
      have wordSmall := getWord_lt middle (index + count)
      obtain ⟨sum, sumDef⟩ : ∃ sum, sum = wrappingAdd 128
        (wrappingAdd 128 (middle.getWord (index + count)) (divisor.getWord count)) carry := ⟨_, rfl⟩
      have exact : lo sum + hi sum * 2 ^ 64 =
          middle.getWord (index + count) + divisor.getWord count + carry := by
        rw [sumDef]
        unfold wrappingAdd lo hi
        omega
      have next : hi sum ≤ 1 := by
        rw [sumDef]
        unfold wrappingAdd hi
        omega
      have exchanged := @toNat_updateWord (index + count) _ middle (by omega) (lo_lt sum)
      rw [List.range_succ, List.foldlM_append, folded, ok_bind]
      simp only [List.foldlM_cons, List.foldlM_nil, addBackWord]
      rw [readWord_of_lt (by omega), ok_bind, readWord_of_lt (by omega), ok_bind, ← sumDef,
        writeWord_of_lt (by omega), ok_bind, ok_bind]
      refine ⟨_, _, rfl, next, ?_, fun other above => ?_⟩
      · rw [pow_add] at exchanged total
        rw [Nat.mod_pow_succ, ← getWord_eq divisor (by omega), ← Nat.add_assoc,
          pow_succ _ (index + count), pow_add]
        exact LongDivision.add_word_step _ _ _ exchanged total exact
      · rw [getWord_updateWord_ne (by omega)]
        exact kept other (by omega)

/-- The top word after a borrow, with the borrow that it passes on. -/
theorem borrow_head_eq {word borrow : ℕ} (wordSmall : word < 2 ^ 64) (small : borrow < 2 ^ 64) :
    lo (wrappingSub word borrow) + borrow = word + (if borrow > word then 1 else 0) * 2 ^ 64 := by
  unfold lo wrappingSub
  split_ifs <;> omega

/-- Subtracting the product of the digit and the divisor, from the window and the word above. -/
theorem subtractWindow {dividend divisor : U256Muldiv} {carrySpace index qhat e : ℕ}
    (normalized : Normalized divisor e) (digit : qhat < 2 ^ 64) (inside : index + (e + 2) ≤ 4)
    (small : carrySpace < 2 ^ 64) :
    ∃ middle borrow dividend' carrySpace',
      (List.range (e + 2)).foldlM (subtractWord m qhat divisor index) (dividend, 0) =
        .ok (middle, borrow) ∧
      writeHead middle carrySpace (index + (e + 2))
          (lo (wrappingSub (head middle carrySpace (index + (e + 2))) borrow)) =
        .ok (dividend', carrySpace') ∧ carrySpace' < 2 ^ 64 ∧
      extended dividend' carrySpace' + qhat * (divisor.toNat * (2 ^ 64) ^ index) =
        extended dividend carrySpace +
          (if borrow > head middle carrySpace (index + (e + 2)) then 1 else 0) *
            ((2 ^ 64) ^ (index + (e + 2)) * 2 ^ 64) ∧
      ∀ other, index + (e + 2) < other →
        head dividend' carrySpace' other = head dividend carrySpace other := by
  obtain ⟨middle, borrow, folded, borrowSmall, total, kept⟩ :=
    @foldlM_subtractWord m dividend divisor _ _ _ digit inside
  rw [Nat.mod_eq_of_lt normalized.fits] at total
  obtain ⟨dividend', carrySpace', written, carrySmall, exchanged, same, here⟩ := @writeHead_of_le
    middle _ _ _ inside (lo_lt (wrappingSub
      (head middle carrySpace (index + (e + 2))) borrow)) small
  refine ⟨middle, borrow, dividend', carrySpace', folded, written, carrySmall, ?_,
    fun other above => ?_⟩
  · refine LongDivision.subtract_head_step (2 ^ 64) _ exchanged ?_
      (borrow_head_eq (head_lt small _) borrowSmall)
    unfold extended
    rw [← Nat.mul_assoc]
    omega
  · rw [same other (by omega)]
    unfold head
    rw [kept other (by omega)]

/-- The top word after a carry, with the carry that it drops. -/
theorem carry_head_eq (word carry : ℕ) :
    lo (wrappingAdd 128 word carry) + (word + carry) / 2 ^ 64 * 2 ^ 64 = word + carry := by
  unfold lo wrappingAdd
  omega

/-- Adding the divisor back, to a window below the last word and the word above. -/
theorem addBackWindow {dividend divisor : U256Muldiv} {carrySpace index e : ℕ}
    (normalized : Normalized divisor e) (inside : index + (e + 2) < 4)
    (small : carrySpace < 2 ^ 64) :
    ∃ middle carry dividend' carrySpace' overflow,
      (List.range (e + 2)).foldlM (addBackWord divisor index) (dividend, 0) =
        .ok (middle, carry) ∧
      writeHead middle carrySpace (index + (e + 2))
          (lo (wrappingAdd 128 (middle.getWord (index + (e + 2))) carry)) =
        .ok (dividend', carrySpace') ∧ carrySpace' < 2 ^ 64 ∧
      extended dividend' carrySpace' + overflow * ((2 ^ 64) ^ (index + (e + 2)) * 2 ^ 64) =
        extended dividend carrySpace + divisor.toNat * (2 ^ 64) ^ index ∧
      ∀ other, index + (e + 2) < other →
        head dividend' carrySpace' other = head dividend carrySpace other := by
  obtain ⟨middle, carry, folded, -, total, kept⟩ := @foldlM_addBackWord dividend divisor
    _ _ inside.le
  rw [Nat.mod_eq_of_lt normalized.fits] at total
  obtain ⟨dividend', carrySpace', written, carrySmall, exchanged, same, here⟩ := @writeHead_of_le
    middle _ _ _ inside.le (lo_lt (wrappingAdd 128 (middle.getWord (index + (e + 2)))
      carry)) small
  rw [head_of_ne (by omega)] at exchanged
  refine ⟨middle, carry, dividend', carrySpace',
    (middle.getWord (index + (e + 2)) + carry) / 2 ^ 64, folded, written, carrySmall, ?_,
    fun other above => ?_⟩
  · refine LongDivision.add_head_step (2 ^ 64) _ exchanged ?_ (carry_head_eq _ _)
    unfold extended
    omega
  · rw [same other (by omega)]
    unfold head
    rw [kept other (by omega)]

end Digit

section Loop

variable {m : Machine}

/-- The digit that one round of the division estimates. -/
theorem LeadingDigit.digit_or_succ {divisor : U256Muldiv} {total index e qhat : ℕ}
    (normalized : Normalized divisor e)
    (bounded : total < divisor.toNat * (2 ^ 64) ^ (index + 1))
    (leading : LeadingDigit (divisor.toNat / (2 ^ 64) ^ e) (total / (2 ^ 64) ^ (index + e)) qhat) :
    qhat = total / (divisor.toNat * (2 ^ 64) ^ index) ∨
      qhat = total / (divisor.toNat * (2 ^ 64) ^ index) + 1 ∧
        total < qhat * (divisor.toNat * (2 ^ 64) ^ index) := by
  have tail : 0 < (2 ^ 64) ^ e := by positivity
  have place : 0 < (2 ^ 64) ^ index := by positivity
  have window : total / (2 ^ 64) ^ (index + e) = total / (2 ^ 64) ^ index / (2 ^ 64) ^ e := by
    rw [pow_add, Nat.div_div_eq_div_mul]
  have numerator : total / (2 ^ 64) ^ index < divisor.toNat * 2 ^ 64 := by
    rw [Nat.div_lt_iff_lt_mul place, Nat.mul_assoc, ← pow_succ']
    exact bounded
  have normal := normalized.normal
  have positive := normalized.pos
  obtain ⟨word, fits, greatest⟩ := leading
  rw [window] at fits greatest
  have never := LongDivision.digit_le_estimate tail numerator greatest
  have small : qhat * (2 ^ 64) ^ e ≤ divisor.toNat := by
    have product := Nat.mul_le_mul_right ((2 ^ 64) ^ e) word.le
    rw [show (2 ^ 64) ^ (e + 2) = 2 ^ 64 * (2 ^ 64) ^ e * 2 ^ 64 by ring] at normal
    omega
  have within := LongDivision.estimate_mul_le tail fits small
  rw [LongDivision.digit_eq]
  rcases LongDivision.estimate_eq never within positive with same | ⟨one, more⟩
  · exact .inl same
  · refine .inr ⟨one, ?_⟩
    rw [← Nat.mul_assoc]
    exact (Nat.div_lt_iff_lt_mul place).mp more

/-- One round with a right estimate, or with a window below the last word, takes its digit out
of the dividend. With a wrong estimate it fails where the window ends at the last word. -/
theorem divLoop_spec {state : DivState} {divisor : U256Muldiv} {index e total digit : ℕ}
    (normalized : Normalized divisor e) (inside : index + (e + 2) ≤ 4)
    (small : state.dividendCarrySpace < 2 ^ 64)
    (total_eq : extended state.dividend state.dividendCarrySpace = total)
    (digit_eq : total / (divisor.toNat * (2 ^ 64) ^ index) = digit)
    (bounded : total < divisor.toNat * (2 ^ 64) ^ (index + 1))
    (unset : state.quotient.getWord index = 0) :
    ∃ qhat, LeadingDigit (divisor.toNat / (2 ^ 64) ^ e) (total / (2 ^ 64) ^ (index + e)) qhat ∧
      if qhat = digit ∨ index + (e + 2) < 4 then
        ∃ state', divLoop m (e + 2) divisor state index = .ok state' ∧
          state'.dividendCarrySpace < 2 ^ 64 ∧
          extended state'.dividend state'.dividendCarrySpace +
            digit * (divisor.toNat * (2 ^ 64) ^ index) = total ∧
          state'.quotient.toNat = state.quotient.toNat + digit * (2 ^ 64) ^ index ∧
          ∀ other, other ≠ index → state'.quotient.getWord other = state.quotient.getWord other
      else divLoop m (e + 2) divisor state index = .error .panic := by
  obtain ⟨qhat, estimated, leading⟩ := estimateDigit_spec (m := m) normalized inside small
    (total_eq ▸ bounded)
  obtain ⟨middle, borrow, dividend, carrySpace, folded, written, carrySmall, subtracted, kept⟩ :=
    @subtractWindow m state.dividend _ _ _ _ _ normalized leading.word inside small
  rw [total_eq] at leading subtracted
  have agrees := leading.digit_or_succ normalized bounded
  have taken := Nat.div_mul_le_self total (divisor.toNat * (2 ^ 64) ^ index)
  rw [digit_eq] at agrees taken
  refine ⟨qhat, leading, ?_⟩
  have started : divLoop m (e + 2) divisor state index =
      if borrow > head middle state.dividendCarrySpace (index + (e + 2)) then
        m.plainSub 128 qhat 1 >>= fun qhat =>
        (List.range (e + 2)).foldlM (addBackWord divisor index) (dividend, 0) >>= fun added =>
        added.1.readWord (index + (e + 2)) >>= fun head =>
        writeHead added.1 carrySpace (index + (e + 2)) (lo (wrappingAdd 128 head added.2))
          >>= fun written =>
        state.quotient.writeWord index (lo qhat) >>= fun quotient =>
        .ok ⟨written.1, written.2, quotient⟩
      else
        state.quotient.writeWord index (lo qhat) >>= fun quotient =>
        .ok ⟨dividend, carrySpace, quotient⟩ := by
    unfold divLoop
    dsimp only
    rw [readHead_of_le inside, ok_bind, estimated, ok_bind, folded, ok_bind]
    dsimp only
    rw [readHead_of_le inside, ok_bind, written, ok_bind]
  have place : 0 < (2 ^ 64) ^ index := by positivity
  have positive : 0 < divisor.toNat * (2 ^ 64) ^ index :=
    Nat.mul_pos (normalized.pos) place
  have fits : divisor.toNat * (2 ^ 64) ^ index ≤ (2 ^ 64) ^ (index + (e + 2)) * 2 ^ 64 := by
    rw [Nat.add_comm index, pow_add, Nat.mul_assoc]
    exact Nat.mul_le_mul normalized.fits.le (Nat.le_mul_of_pos_right _ (by norm_num))
  have modulus : (2 ^ 64) ^ (index + (e + 2)) * 2 ^ 64 = (2 ^ 64) ^ (index + (e + 2) + 1) :=
    (pow_succ _ _).symm
  have within : total < (2 ^ 64) ^ (index + (e + 2) + 1) := by
    refine lt_of_lt_of_le bounded ?_
    rw [show index + (e + 2) + 1 = e + 2 + (index + 1) by omega, pow_add _ (e + 2)]
    exact Nat.mul_le_mul_right _ normalized.fits.le
  have clear := (extended_lt_iff small inside).mp (total_eq ▸ within)
  have digitWord : digit < 2 ^ 64 := by
    have word := leading.word
    omega
  have record := @toNat_updateWord index _ state.quotient (by omega) digitWord
  rw [unset, Nat.zero_mul, Nat.add_zero] at record
  have lowDigit : lo digit = digit := Nat.mod_eq_of_lt digitWord
  rw [started]
  by_cases borrows : borrow > head middle state.dividendCarrySpace (index + (e + 2))
  · rw [if_pos borrows, Nat.one_mul] at subtracted
    have bound : extended dividend carrySpace < (2 ^ 64) ^ (index + (e + 2) + 1) :=
      (extended_lt_iff carrySmall inside).mpr fun other above =>
        (kept other above).trans (clear other above)
    rw [← modulus] at bound
    have wrong : qhat = digit + 1 := by
      rcases agrees with right | ⟨wrong, -⟩
      · rw [right] at subtracted
        omega
      · exact wrong
    rw [if_pos borrows, wrong, Machine.plainSub_of_le m (Nat.le_add_left 1 digit), ok_bind,
      Nat.add_sub_cancel]
    by_cases below : index + (e + 2) < 4
    · rw [if_pos (.inr below)]
      obtain ⟨middle', carry, dividend', carrySpace', overflow, added, written', carrySmall', sum,
        kept'⟩ := @addBackWindow dividend _ _ _ _ normalized below carrySmall
      rw [added, ok_bind]
      dsimp only
      rw [readWord_of_lt below, ok_bind, written', ok_bind]
      dsimp only
      rw [writeWord_of_lt (by omega), ok_bind, lowDigit]
      refine ⟨_, rfl, carrySmall', ?_, record, fun other apart => getWord_updateWord_ne apart⟩
      have bound' : extended dividend' carrySpace' < (2 ^ 64) ^ (index + (e + 2) + 1) :=
        (extended_lt_iff carrySmall' inside).mpr fun other above =>
          (kept' other above).trans ((kept other above).trans (clear other above))
      rw [← modulus] at bound'
      rw [wrong, ← digit_eq] at subtracted
      rw [← digit_eq]
      exact LongDivision.rest_of_added_back positive fits subtracted sum bound'
    · obtain ⟨middle', carry, added, -⟩ := @foldlM_addBackWord dividend
        divisor _ _ inside
      rw [if_neg (by omega), added, ok_bind]
      dsimp only
      unfold readWord
      rw [if_pos (by omega), error_bind]
  · rw [if_neg borrows, Nat.zero_mul, Nat.add_zero] at subtracted
    have right : qhat = digit := digit_eq ▸
      LongDivision.digit_of_subtracted positive (by omega) subtracted
    rw [if_neg borrows, if_pos (.inl right), right, writeWord_of_lt (by omega), ok_bind, lowDigit]
    rw [right] at subtracted
    exact ⟨_, rfl, carrySmall, subtracted, record, fun other apart => getWord_updateWord_ne apart⟩

end Loop

end Whirlpools
