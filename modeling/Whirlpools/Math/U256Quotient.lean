import Whirlpools.Math.U256Digits

/-! # The division of four-word integers

The division is exact, unless the dividend has four words, the divisor at least three,
and the first digit is estimated one too large: then the divisor is added back to a
window that ends at the last word, and the program reads the word above it.
-/

namespace Whirlpools

open Outcome U256Muldiv

namespace U256Muldiv

section Shifts

variable {shift : ℕ}

/-- Shifting a word in from below. -/
theorem toNat_shift_or (high low : BitVec 64) (within : shift < 64) :
    (high <<< shift ||| low >>> (64 - shift)).toNat =
      high.toNat % 2 ^ (64 - shift) * 2 ^ shift + low.toNat / 2 ^ (64 - shift) := by
  have width : 2 ^ (64 - shift) * 2 ^ shift = 2 ^ 64 := pow_sub_mul_pow 2 within.le
  have small : low.toNat / 2 ^ (64 - shift) < 2 ^ shift := by
    rw [Nat.div_lt_iff_lt_mul (by positivity), Nat.mul_comm, width]
    exact low.isLt
  rw [BitVec.toNat_or, BitVec.toNat_shiftLeft, BitVec.toNat_ushiftRight, Nat.shiftLeft_eq,
    Nat.shiftRight_eq_div_pow, ← width, Nat.mul_mod_mul_right,
    ← Nat.shiftLeft_eq _ shift, Nat.shiftLeft_add_eq_or_of_lt small]

/-- A word shifted left keeps the bits that remain inside. -/
theorem toNat_shift (high : BitVec 64) (within : shift < 64) :
    (high <<< shift).toNat = high.toNat % 2 ^ (64 - shift) * 2 ^ shift := by
  have width : 2 ^ (64 - shift) * 2 ^ shift = 2 ^ 64 := pow_sub_mul_pow 2 within.le
  rw [BitVec.toNat_shiftLeft, Nat.shiftLeft_eq, ← width, Nat.mul_mod_mul_right]

/-- A word in two parts, of which the upper one leaves it when shifted. -/
theorem word_parts {upper lower base : ℕ} (width : upper * lower = base) (word : ℕ) :
    word * lower = word % upper * lower + word / upper * base := by
  rw [← width, ← Nat.mul_assoc, ← Nat.add_mul, Nat.mul_comm (word / upper), Nat.mod_add_div]

/-- The product of four words in two parts each, of which the upper ones move one word up. -/
theorem words_mul {upper lower base : ℕ} (width : upper * lower = base) (w0 w1 w2 w3 : ℕ) :
    w0 % upper * lower + (w1 % upper * lower + w0 / upper) * base +
        (w2 % upper * lower + w1 / upper) * base ^ 2 +
        (w3 % upper * lower + w2 / upper) * base ^ 3 + w3 / upper * base ^ 4 =
      (w0 + w1 * base + w2 * base ^ 2 + w3 * base ^ 3) * lower := by
  have p0 := word_parts width w0
  have p1 := congrArg (· * base) (word_parts width w1)
  have p2 := congrArg (· * base ^ 2) (word_parts width w2)
  have p3 := congrArg (· * base ^ 3) (word_parts width w3)
  simp only [Nat.add_mul] at p1 p2 p3
  linarith

/-- The quotient of four words in two parts each, of which the lower ones move one word down. -/
theorem words_div {upper lower base : ℕ} (width : upper * lower = base) (positive : 0 < lower)
    (w0 w1 w2 w3 : ℕ) :
    (w0 + w1 * base + w2 * base ^ 2 + w3 * base ^ 3) / lower =
      w1 % lower * upper + w0 / lower + (w2 % lower * upper + w1 / lower) * base +
        (w3 % lower * upper + w2 / lower) * base ^ 2 + w3 / lower * base ^ 3 := by
  have d0 := Nat.mod_add_div' w0 lower
  have d1 := Nat.mod_add_div' w1 lower
  have d2 := Nat.mod_add_div' w2 lower
  have d3 := Nat.mod_add_div' w3 lower
  have remainder : w0 % lower < lower := Nat.mod_lt _ positive
  have split : w0 + w1 * base + w2 * base ^ 2 + w3 * base ^ 3 = w0 % lower +
      (w1 % lower * upper + w0 / lower + (w2 % lower * upper + w1 / lower) * base +
        (w3 % lower * upper + w2 / lower) * base ^ 2 + w3 / lower * base ^ 3) * lower := by
    conv_lhs => rw [← d0, ← d1, ← d2, ← d3]
    rw [← width]
    ring
  rw [split, Nat.add_mul_div_right _ _ positive, Nat.div_eq_of_lt remainder, Nat.zero_add]

/-- Shifting to the left keeps the bits that leave the words in the carry space. -/
theorem extended_shiftLeft (value : U256Muldiv) (within : shift < 64) :
    extended (value.shiftLeft shift) (value.getWord 3 / 2 ^ (64 - shift)) =
      value.toNat * 2 ^ shift := by
  have top : value.getWord 3 = (value.items 3).toNat := rfl
  unfold shiftLeft
  rw [top, if_neg (by omega), Nat.div_eq_of_lt within, Nat.mod_eq_of_lt within,
    Function.iterate_zero, id_eq]
  by_cases zero : shift = 0
  · have lost : (value.items 3).toNat / 2 ^ 64 = 0 := Nat.div_eq_of_lt (value.items 3).isLt
    subst zero
    rw [if_pos rfl, Nat.sub_zero, lost]
    unfold extended
    rw [Nat.zero_mul, Nat.add_zero, pow_zero, Nat.mul_one]
  · have positive : 0 < shift := Nat.pos_of_ne_zero zero
    have width : 2 ^ (64 - shift) * 2 ^ shift = 2 ^ 64 := pow_sub_mul_pow 2 within.le
    rw [if_neg zero]
    simp only [extended, toNat, toNat_shift _ within, toNat_shift_or _ _ within]
    exact words_mul width _ _ _ _

/-- Shifting to the right divides. -/
theorem toNat_shiftRight (value : U256Muldiv) (within : shift < 64) :
    (value.shiftRight shift).toNat = value.toNat / 2 ^ shift := by
  unfold shiftRight
  rw [if_neg (by omega), Nat.div_eq_of_lt within, Nat.mod_eq_of_lt within, Function.iterate_zero,
    id_eq]
  by_cases zero : shift = 0
  · simp only [zero, ↓reduceIte, pow_zero, Nat.div_one]
  · have positive : 0 < 64 - shift := by omega
    have short : 64 - shift < 64 := by omega
    have back : 64 - (64 - shift) = shift := by omega
    have joined (high low : BitVec 64) :
        (low >>> shift ||| high <<< (64 - shift)).toNat =
          high.toNat % 2 ^ shift * 2 ^ (64 - shift) + low.toNat / 2 ^ shift := by
      have mirrored := toNat_shift_or high low short
      rw [back, BitVec.or_comm] at mirrored
      exact mirrored
    rw [if_neg zero]
    simp only [toNat, joined, BitVec.toNat_ushiftRight, Nat.shiftRight_eq_div_pow]
    exact (words_div (pow_sub_mul_pow 2 within.le) (Nat.two_pow_pos shift) _ _ _ _).symm

end Shifts

section Words

variable {value : U256Muldiv} {shift k : ℕ}

theorem numWords_eq_zero : value.numWords = 0 ↔ value.toNat = 0 := by
  unfold numWords toNat
  simp only [ne_eq, ← BitVec.toNat_inj, BitVec.toNat_zero, BitVec.ofNat_eq_ofNat]
  split_ifs <;> simp only [false_iff, true_iff] <;> omega

theorem numWords_le (value : U256Muldiv) : value.numWords ≤ 4 := by
  unfold numWords
  split_ifs <;> omega

/-- The most significant word is not zero, and bounds the integer on both sides. -/
theorem numWords_spec (words : value.numWords = k + 1) :
    k < 4 ∧ value.getWord k ≠ 0 ∧ value.getWord k * (2 ^ 64) ^ k ≤ value.toNat ∧
      value.toNat < (value.getWord k + 1) * (2 ^ 64) ^ k := by
  have w0 := (value.items 0).isLt
  have w1 := (value.items 1).isLt
  have w2 := (value.items 2).isLt
  have bound := numWords_le value
  have within : k < 4 := by omega
  refine ⟨within, ?_⟩
  unfold numWords at words
  simp only [ne_eq, ← BitVec.toNat_inj, BitVec.toNat_zero, BitVec.ofNat_eq_ofNat] at words
  unfold toNat
  interval_cases k <;>
    simp only [getWord, Nat.ofNat_pos, Nat.one_lt_ofNat, Nat.reduceLT, ↓reduceDIte, Fin.zero_eta,
      Fin.mk_one, Fin.reduceFinMk, Fin.isValue] <;>
    split_ifs at words <;> omega

/-- Shifted by its leading zeros a word has its most significant bit set. -/
theorem leadingZeros_spec {word : ℕ} (nonzero : word ≠ 0) (small : word < 2 ^ 64) :
    leadingZeros word < 64 ∧ 2 ^ 63 ≤ word * 2 ^ leadingZeros word ∧
      word * 2 ^ leadingZeros word < 2 ^ 64 := by
  have lower := Nat.log2_self_le nonzero
  have upper := Nat.lt_log2_self (n := word)
  have bits : word.log2 < 64 := (Nat.log2_lt nonzero).mpr small
  unfold leadingZeros
  rw [if_neg nonzero]
  refine ⟨by omega, ?_, ?_⟩
  · calc 2 ^ 63 = 2 ^ word.log2 * 2 ^ (63 - word.log2) := by rw [← pow_add]; congr 1; omega
      _ ≤ word * 2 ^ (63 - word.log2) := Nat.mul_le_mul_right _ lower
  · calc word * 2 ^ (63 - word.log2) < 2 ^ (word.log2 + 1) * 2 ^ (63 - word.log2) :=
        Nat.mul_lt_mul_of_pos_right upper (by positivity)
      _ = 2 ^ 64 := by rw [← pow_add]; congr 1; omega

/-- After normalization the leading word has its top bit set. -/
theorem shifted_bounds {top place scale value : ℕ} (above : top * place ≤ value)
    (below : value < (top + 1) * place) (set : 2 ^ 63 ≤ top * scale)
    (room : (top + 1) * scale ≤ 2 ^ 64) (positive : 0 < scale) :
    2 ^ 64 * place ≤ 2 * (value * scale) ∧ value * scale < 2 ^ 64 * place := by
  constructor
  · calc 2 ^ 64 * place = 2 * (2 ^ 63 * place) := by omega
      _ ≤ 2 * (top * scale * place) := Nat.mul_le_mul_left _ (Nat.mul_le_mul_right _ set)
      _ = 2 * (top * place * scale) := by rw [Nat.mul_right_comm]
      _ ≤ 2 * (value * scale) := Nat.mul_le_mul_left _ (Nat.mul_le_mul_right _ above)
  · calc value * scale < (top + 1) * place * scale := Nat.mul_lt_mul_of_pos_right below positive
      _ = (top + 1) * scale * place := Nat.mul_right_comm _ _ _
      _ ≤ 2 ^ 64 * place := Nat.mul_le_mul_right _ room

/-- The divisor is normalized by shifting out the leading zeros of its most significant word. -/
theorem normalized_shiftLeft {e : ℕ} (words : value.numWords = e + 2)
    (shift_eq : leadingZeros (value.getWord (e + 1)) = shift) :
    (value.shiftLeft shift).toNat = value.toNat * 2 ^ shift ∧
      Normalized (value.shiftLeft shift) e := by
  obtain ⟨within, nonzero, above, below⟩ := numWords_spec words
  obtain ⟨short, set, fits⟩ := leadingZeros_spec nonzero (getWord_lt value (e + 1))
  rw [shift_eq] at short set fits
  have width : 2 ^ (64 - shift) * 2 ^ shift = 2 ^ 64 := pow_sub_mul_pow 2 short.le
  have room : (value.getWord (e + 1) + 1) * 2 ^ shift ≤ 2 ^ 64 := by
    rw [← width] at fits ⊢
    exact Nat.mul_le_mul_right _ (Nat.succ_le_of_lt (Nat.lt_of_mul_lt_mul_right fits))
  obtain ⟨lower, upper⟩ := shifted_bounds above below set room (Nat.two_pow_pos shift)
  have power : (2 ^ 64) ^ (e + 2) = 2 ^ 64 * (2 ^ 64) ^ (e + 1) := pow_succ' _ _
  rw [← power] at lower upper
  have within256 : value.toNat * 2 ^ shift < (2 ^ 64) ^ 4 :=
    lt_of_lt_of_le upper (Nat.pow_le_pow_right (Nat.two_pow_pos 64) (by omega))
  have whole := extended_shiftLeft value short
  have exact : (value.shiftLeft shift).toNat = value.toNat * 2 ^ shift := by
    unfold extended at whole
    rcases Nat.eq_zero_or_pos (value.getWord 3 / 2 ^ (64 - shift)) with kept | lost
    · rw [kept, Nat.zero_mul, Nat.add_zero] at whole
      exact whole
    · have product := Nat.le_mul_of_pos_left ((2 ^ 64) ^ 4) lost
      omega
  exact ⟨exact, exact ▸ lower, exact ▸ upper⟩

end Words

end U256Muldiv

section Rounds

variable {m : Machine} {divisor : U256Muldiv} {e : ℕ}

/-- What the rounds of a long division keep, and what they end with. -/
structure Divided (divisor : U256Muldiv) (state state' : DivState) : Prop where
  carrySpace : state'.dividendCarrySpace < 2 ^ 64
  rest : extended state'.dividend state'.dividendCarrySpace < divisor.toNat
  sum : extended state'.dividend state'.dividendCarrySpace +
      state'.quotient.toNat * divisor.toNat =
    extended state.dividend state.dividendCarrySpace + state.quotient.toNat * divisor.toNat

/-- Rounds on windows below the last word never fail. -/
theorem foldlM_divLoop (normalized : Normalized divisor e) {count : ℕ} (below : count + (e + 1) < 4)
    {state : DivState} (small : state.dividendCarrySpace < 2 ^ 64)
    (bounded : extended state.dividend state.dividendCarrySpace <
      divisor.toNat * (2 ^ 64) ^ count)
    (unset : ∀ other, other < count → state.quotient.getWord other = 0) :
    ∃ state', (List.range count).reverse.foldlM (divLoop m (e + 2) divisor) state = .ok state' ∧
      Divided divisor state state' := by
  induction count generalizing state with
  | zero =>
      rw [pow_zero, Nat.mul_one] at bounded
      exact ⟨state, rfl, small, bounded, rfl⟩
  | succ count ih =>
      obtain ⟨qhat, -, round⟩ := divLoop_spec (m := m) normalized (by omega) small rfl rfl bounded
        (unset count (Nat.lt_succ_self count))
      rw [if_pos (.inr (by omega))] at round
      obtain ⟨next, returned, carrySmall, taken, recorded, kept⟩ := round
      obtain ⟨state', folded, divided⟩ := @ih (by omega) next carrySmall
        (LongDivision.rest_lt (Nat.mul_pos normalized.pos (by positivity)) taken)
        fun other before => (kept other (by omega)).trans (unset other (by omega))
      refine ⟨state', ?_, divided.carrySpace, divided.rest,
        divided.sum.trans (LongDivision.sum_of_recorded taken recorded)⟩
      rw [List.range_succ, List.reverse_append, List.reverse_singleton, List.singleton_append,
        List.foldlM_cons, returned]
      exact folded

/-- The first round on four words, with an estimate that decides whether it fails. -/
theorem foldlM_divLoop_top (normalized : Normalized divisor e) (two : e ≤ 2) {state : DivState}
    (small : state.dividendCarrySpace < 2 ^ 64)
    (bounded : extended state.dividend state.dividendCarrySpace <
      divisor.toNat * (2 ^ 64) ^ (2 - e + 1))
    (unset : ∀ other, other < 3 → state.quotient.getWord other = 0) :
    ∃ qhat, LeadingDigit (divisor.toNat / (2 ^ 64) ^ e)
        (extended state.dividend state.dividendCarrySpace / (2 ^ 64) ^ 2) qhat ∧
      if extended state.dividend state.dividendCarrySpace <
          qhat * (divisor.toNat * (2 ^ 64) ^ (2 - e)) then
        (List.range (2 - e + 1)).reverse.foldlM (divLoop m (e + 2) divisor) state = .error .panic
      else
        ∃ state', (List.range (2 - e + 1)).reverse.foldlM (divLoop m (e + 2) divisor) state =
          .ok state' ∧ Divided divisor state state' := by
  obtain ⟨qhat, leading, round⟩ := @divLoop_spec m state divisor (2 - e) _ _ _ normalized
    (by omega) small
    rfl rfl bounded (unset _ (by omega))
  have agrees := leading.digit_or_succ normalized bounded
  have taken := Nat.div_mul_le_self (extended state.dividend state.dividendCarrySpace)
    (divisor.toNat * (2 ^ 64) ^ (2 - e))
  rw [show 2 - e + e = 2 by omega] at leading
  refine ⟨qhat, leading, ?_⟩
  rw [List.range_succ, List.reverse_append, List.reverse_singleton, List.singleton_append,
    List.foldlM_cons]
  rcases agrees with right | ⟨wrong, above⟩
  · rw [if_pos (.inl right)] at round
    obtain ⟨next, returned, carrySmall, rest, recorded, kept⟩ := round
    obtain ⟨state', folded, divided⟩ := @foldlM_divLoop m _ _ normalized (2 - e)
      (by omega) next carrySmall
      (LongDivision.rest_lt (Nat.mul_pos normalized.pos (by positivity)) rest)
      fun other before => (kept other (by omega)).trans (unset other (by omega))
    rw [if_neg (by rw [right]; exact not_lt.mpr taken), returned]
    exact ⟨state', folded, divided.carrySpace, divided.rest,
      divided.sum.trans (LongDivision.sum_of_recorded rest recorded)⟩
  · rw [if_neg (by omega)] at round
    rw [if_pos above, round]
    rfl

end Rounds

section SingleWord

variable {m : Machine} {dividend divisor : U256Muldiv}

/-- The words of a division by a single word, from the remainder of the upper words down. -/
theorem foldlM_divWord (positive : 0 < divisor.getWord 0) {count k : ℕ} (inside : count ≤ 4)
    {quotient : U256Muldiv} (small : k < divisor.getWord 0)
    (unset : ∀ other, other < count → quotient.getWord other = 0) :
    ∃ quotient' k', (List.range count).reverse.foldlM (divWord m dividend divisor) (quotient, k) =
        .ok (quotient', k') ∧ k' < divisor.getWord 0 ∧
      k' + quotient'.toNat * divisor.getWord 0 =
        k * (2 ^ 64) ^ count + dividend.toNat % (2 ^ 64) ^ count +
          quotient.toNat * divisor.getWord 0 := by
  induction count generalizing quotient k with
  | zero =>
      refine ⟨quotient, k, rfl, small, ?_⟩
      rw [pow_zero, Nat.mul_one, Nat.mod_one, Nat.add_zero]
  | succ count ih =>
      have divisorSmall := getWord_lt divisor 0
      have wordSmall := getWord_lt dividend count
      have joined : hiLo (lo k) (dividend.getWord count) = k * 2 ^ 64 + dividend.getWord count := by
        unfold hiLo lo
        omega
      obtain ⟨d1, d1_eq⟩ : ∃ d1, d1 = k * 2 ^ 64 + dividend.getWord count := ⟨_, rfl⟩
      have remainder := Nat.mod_lt d1 positive
      have parts := Nat.div_add_mod d1 (divisor.getWord 0)
      have digit : d1 / divisor.getWord 0 < 2 ^ 64 := by
        rw [Nat.div_lt_iff_lt_mul positive]
        omega
      have product : divisor.getWord 0 * (d1 / divisor.getWord 0) < 2 ^ 128 := by omega
      have recorded := @toNat_updateWord count _ quotient (by omega) digit
      rw [unset count (Nat.lt_succ_self count), Nat.zero_mul, Nat.add_zero] at recorded
      obtain ⟨quotient', k', folded, below, sum⟩ := @ih _ (by omega)
        (quotient.updateWord count (d1 / divisor.getWord 0)) remainder fun other before =>
          (getWord_updateWord_ne (by omega)).trans (unset other (by omega))
      refine ⟨quotient', k', ?_, below, sum.trans ?_⟩
      · rw [List.range_succ, List.reverse_append, List.reverse_singleton, List.singleton_append,
          List.foldlM_cons, divWord, readWord_of_lt (by omega), ok_bind,
          readWord_of_lt (by omega), ok_bind, joined, ← d1_eq]
        dsimp only
        rw [if_neg (by omega), Machine.plainMul_of_lt m product, ok_bind,
          Machine.plainSub_of_le m (by omega), ok_bind, writeWord_of_lt (by omega), ok_bind,
          show lo (d1 / divisor.getWord 0) = d1 / divisor.getWord 0 from Nat.mod_eq_of_lt digit,
          show d1 - divisor.getWord 0 * (d1 / divisor.getWord 0) = d1 % divisor.getWord 0 by omega]
        exact folded
      · rw [recorded, Nat.mod_pow_succ, ← getWord_eq dividend (by omega), pow_succ _ count]
        have scaled := congrArg (· * (2 ^ 64) ^ count) (parts.trans d1_eq)
        simp only [Nat.add_mul] at scaled ⊢
        linarith

end SingleWord

section Exactness

variable {m : Machine} {dividend divisor : U256Muldiv} {returnRemainder : Bool}

/-- The division returns the quotient, and the remainder where it is asked for. -/
def DividesExactly (m : Machine) (dividend divisor : U256Muldiv) (returnRemainder : Bool) : Prop :=
  ∃ quotient remainder rest,
    dividend.div m divisor returnRemainder = .ok (quotient, remainder) ∧
      dividend.toNat = quotient.toNat * divisor.toNat + rest ∧ rest < divisor.toNat ∧
      (returnRemainder = true → remainder.toNat = rest)

/-- The estimate of the first digit from the three leading words of a four-word dividend and
the two leading words of the divisor, both shifted by the leading zeros of the divisor. -/
def digitEstimate (dividend divisor : U256Muldiv) : ℕ :=
  let shift := leadingZeros (divisor.getWord (divisor.numWords - 1))
  dividend.toNat * 2 ^ shift / (2 ^ 64) ^ 2 /
    (divisor.toNat * 2 ^ shift / (2 ^ 64) ^ (divisor.numWords - 2))

/-- The dividend has four words, the divisor at least three, and the product of the
estimate of the first digit and the divisor in its place exceeds the dividend. -/
def EstimateOvershoots (dividend divisor : U256Muldiv) : Prop :=
  dividend.numWords = 4 ∧ 3 ≤ divisor.numWords ∧
    dividend.toNat <
      digitEstimate dividend divisor * divisor.toNat * (2 ^ 64) ^ (4 - divisor.numWords)

/-- A value with an empty upper half is its lower half. -/
theorem toNat_new_low {value : ℕ} (small : value < 2 ^ 128) : (new 0 value).toNat = value := by
  rw [toNat_new (by norm_num) small, Nat.zero_mul, Nat.zero_add]

/-- A value is below the power that its number of words allows. -/
theorem lt_of_numWords (value : U256Muldiv) : value.toNat < (2 ^ 64) ^ value.numWords := by
  cases words : value.numWords with
  | zero =>
      rw [numWords_eq_zero.mp words]
      norm_num
  | succ k =>
      obtain ⟨-, -, -, below⟩ := numWords_spec words
      rw [pow_succ']
      exact lt_of_lt_of_le below (Nat.mul_le_mul_right _ (getWord_lt value k))

/-- A value reaches the power below its leading word. -/
theorem le_of_numWords {value : U256Muldiv} {k : ℕ} (words : value.numWords = k + 1) :
    (2 ^ 64) ^ k ≤ value.toNat := by
  obtain ⟨-, nonzero, above, -⟩ := numWords_spec words
  exact (Nat.le_mul_of_pos_left _ (Nat.pos_of_ne_zero nonzero)).trans above

/-- A dividend of fewer words than the divisor, or of no words, is all remainder. -/
theorem div_below (nonzero : divisor.toNat ≠ 0)
    (fewer : dividend.numWords < divisor.numWords) :
    DividesExactly m dividend divisor returnRemainder := by
  have positive : divisor.numWords ≠ 0 := mt numWords_eq_zero.mp nonzero
  obtain ⟨k, words⟩ := Nat.exists_eq_succ_of_ne_zero positive
  have less : dividend.toNat < divisor.toNat :=
    calc dividend.toNat < (2 ^ 64) ^ dividend.numWords := lt_of_numWords dividend
      _ ≤ (2 ^ 64) ^ k := Nat.pow_le_pow_right (Nat.two_pow_pos 64) (by omega)
      _ ≤ divisor.toNat := le_of_numWords words
  have zero : (new 0 0).toNat = 0 := toNat_new_low (by norm_num)
  unfold DividesExactly U256Muldiv.div
  dsimp only
  rw [if_neg positive]
  by_cases vanishes : dividend.numWords = 0
  · rw [if_pos vanishes]
    refine ⟨_, _, 0, rfl, ?_, by omega, fun _ => zero⟩
    rw [numWords_eq_zero.mp vanishes, zero, Nat.zero_mul]
  · rw [if_neg vanishes, if_pos fewer]
    refine ⟨_, _, dividend.toNat, rfl, ?_, less, fun wanted => by rw [if_pos wanted]⟩
    rw [zero, Nat.zero_mul, Nat.zero_add]

/-- Two words are divided as `u128` values. -/
theorem div_small (nonzero : divisor.toNat ≠ 0)
    (enough : divisor.numWords ≤ dividend.numWords) (short : dividend.numWords < 3) :
    DividesExactly m dividend divisor returnRemainder := by
  have positive : divisor.numWords ≠ 0 := mt numWords_eq_zero.mp nonzero
  have moving : dividend.numWords ≠ 0 := by omega
  have small (value : U256Muldiv) (words : value.numWords ≤ 2) : value.toNat < 2 ^ 128 := by
    have bound := Nat.pow_le_pow_right (Nat.two_pow_pos 64) words
    have square : (2 ^ 64) ^ 2 = 2 ^ 128 := by norm_num
    rw [square] at bound
    exact lt_of_lt_of_le (lt_of_numWords value) bound
  have dividendSmall := small dividend (by omega)
  have divisorSmall := small divisor (by omega)
  have read := tryIntoU128_eq_ok.mpr ⟨dividendSmall, rfl⟩
  have readDivisor := tryIntoU128_eq_ok.mpr ⟨divisorSmall, rfl⟩
  unfold DividesExactly U256Muldiv.div
  dsimp only
  rw [if_neg positive, if_neg moving, if_neg (not_lt.mpr enough), if_pos short, read, readDivisor,
    unwrap_ok, ok_bind, unwrap_ok, ok_bind, if_neg nonzero]
  refine ⟨_, _, dividend.toNat % divisor.toNat, rfl, ?_, Nat.mod_lt _ (Nat.pos_of_ne_zero nonzero),
    fun wanted => ?_⟩
  · rw [toNat_new_low (lt_of_le_of_lt (Nat.div_le_self _ _) dividendSmall), Nat.div_add_mod']
  · rw [if_pos wanted, toNat_new_low (lt_of_le_of_lt (Nat.mod_le _ _) dividendSmall)]

/-- A divisor of one word is divided by word by word. -/
theorem div_singleWord (single : divisor.numWords = 1) (long : 3 ≤ dividend.numWords) :
    DividesExactly m dividend divisor returnRemainder := by
  obtain ⟨-, nonzero, above, below⟩ := numWords_spec (k := 0) single
  rw [pow_zero, Nat.mul_one] at above below
  have word : divisor.getWord 0 = divisor.toNat := by omega
  have positive := Nat.pos_of_ne_zero nonzero
  have zero : (new 0 0).toNat = 0 := toNat_new_low (by norm_num)
  have unset (other : ℕ) (_ : other < dividend.numWords) : (new 0 0).getWord other = 0 := by
    rcases Nat.lt_or_ge other 4 with inside | outside
    · rw [getWord_eq _ inside, zero, Nat.zero_div, Nat.zero_mod]
    · exact getWord_of_ge outside
  obtain ⟨quotient, k, folded, rest, sum⟩ := @foldlM_divWord m dividend _ positive _ _
    (numWords_le dividend) _ positive unset
  rw [Nat.zero_mul, Nat.zero_add, zero, Nat.zero_mul, Nat.add_zero,
    Nat.mod_eq_of_lt (lt_of_numWords dividend), word] at sum
  have small := getWord_lt divisor 0
  unfold DividesExactly U256Muldiv.div
  dsimp only
  rw [if_neg (by omega), if_neg (by omega), if_neg (by omega), if_neg (by omega), if_pos single,
    folded, ok_bind]
  refine ⟨_, _, k, rfl, sum.symm.trans (Nat.add_comm _ _), by omega, fun wanted => ?_⟩
  rw [if_pos wanted, toNat_new_low (by omega)]

/-- The carry space holds the bits that leave the words, whether or not it is needed. -/
theorem carrySpace_eq {k shift : ℕ} (words : dividend.numWords = k + 1) (long : 2 ≤ k)
    (within : shift < 64) :
    (if dividend.numWords = 4 ∧ leadingZeros (dividend.getWord k) < shift then
        dividend.getWord k / 2 ^ (64 - shift) else 0) = dividend.getWord 3 / 2 ^ (64 - shift) := by
  obtain ⟨inside, nonzero, -, -⟩ := numWords_spec words
  obtain ⟨short, -, fits⟩ := leadingZeros_spec nonzero (getWord_lt dividend k)
  rcases Nat.lt_or_ge k 3 with three | four
  · have small := lt_of_numWords dividend
    rw [words, show k = 2 by omega] at small
    rw [if_neg (by omega), getWord_eq dividend (by norm_num), Nat.div_eq_of_lt small, Nat.zero_mod,
      Nat.zero_div]
  · obtain rfl : k = 3 := by omega
    split_ifs with shifted
    · rfl
    · have order : shift ≤ leadingZeros (dividend.getWord 3) := by omega
      have kept : dividend.getWord 3 * 2 ^ shift < 2 ^ 64 :=
        lt_of_le_of_lt (Nat.mul_le_mul_left _ (Nat.pow_le_pow_right (by norm_num) order)) fits
      rw [← pow_sub_mul_pow 2 within.le] at kept
      exact (Nat.div_eq_of_lt (Nat.lt_of_mul_lt_mul_right kept)).symm

/-- Where the leading digit is a word of its own, it is the quotient of the leading words. -/
theorem LeadingDigit.eq_div {divisorLead dividendLead digit : ℕ}
    (leading : LeadingDigit divisorLead dividendLead digit) (positive : 0 < divisorLead)
    (small : dividendLead / divisorLead < 2 ^ 64) : digit = dividendLead / divisorLead := by
  refine le_antisymm ((Nat.le_div_iff_mul_le positive).mpr leading.fits) ?_
  rcases leading.greatest with last | less
  · omega
  · exact Nat.le_of_lt_succ ((Nat.div_lt_iff_lt_mul positive).mpr less)

/-- The rounds end with the quotient, and with the remainder shifted to the left. -/
theorem Divided.result {state state' : DivState} {e shift : ℕ} (within : shift < 64)
    (normalized : Normalized (divisor.shiftLeft shift) e) (two : e ≤ 2)
    (shifted : (divisor.shiftLeft shift).toNat = divisor.toNat * 2 ^ shift)
    (starts : extended state.dividend state.dividendCarrySpace = dividend.toNat * 2 ^ shift)
    (empty : state.quotient.toNat = 0)
    (divided : Divided (divisor.shiftLeft shift) state state') :
    ∃ rest, dividend.toNat = state'.quotient.toNat * divisor.toNat + rest ∧ rest < divisor.toNat ∧
      (state'.dividend.shiftRight shift).toNat = rest := by
  have positive : 0 < 2 ^ shift := Nat.two_pow_pos shift
  have small := divided.rest
  have sum := divided.sum
  rw [starts, empty, Nat.zero_mul, Nat.add_zero, shifted] at sum
  have below : extended state'.dividend state'.dividendCarrySpace < (2 ^ 64) ^ 4 :=
    lt_of_lt_of_le (small.trans normalized.fits)
      (Nat.pow_le_pow_right (Nat.two_pow_pos 64) (by omega))
  have exact : extended state'.dividend state'.dividendCarrySpace = state'.dividend.toNat := by
    unfold extended at below ⊢
    rcases Nat.eq_zero_or_pos state'.dividendCarrySpace with none | some
    · rw [none, Nat.zero_mul, Nat.add_zero]
    · have product := Nat.le_mul_of_pos_left ((2 ^ 64) ^ 4) some
      omega
  rw [exact] at sum small
  rw [shifted] at small
  have quotient : dividend.toNat =
      state'.quotient.toNat * divisor.toNat + state'.dividend.toNat / 2 ^ shift := by
    have scaled : state'.dividend.toNat +
        state'.quotient.toNat * divisor.toNat * 2 ^ shift = dividend.toNat * 2 ^ shift := by
      rw [Nat.mul_assoc]
      exact sum
    have divided := congrArg (· / 2 ^ shift) scaled
    simp only [Nat.add_mul_div_right _ _ positive, Nat.mul_div_cancel _ positive] at divided
    omega
  exact ⟨_, quotient, (Nat.div_lt_iff_lt_mul positive).mpr small,
    toNat_shiftRight state'.dividend within⟩

/-- The normalized dividend is below the divisor times the digits that the loop produces. -/
theorem shifted_lt {value shift divisorValue words e : ℕ} (enough : e + 2 ≤ words)
    (within : shift < 64) (normal : (2 ^ 64) ^ (e + 2) ≤ 2 * divisorValue)
    (small : value < (2 ^ 64) ^ words) :
    value * 2 ^ shift < divisorValue * (2 ^ 64) ^ (words - (e + 2) + 1) := by
  have power : (2 ^ 64) ^ words * 2 ^ 64 =
    (2 ^ 64) ^ (e + 2) * (2 ^ 64) ^ (words - (e + 2) + 1) := by
    rw [← pow_succ, ← pow_add]
    congr 1
    omega
  have factor : 2 ^ shift ≤ 2 ^ 63 := Nat.pow_le_pow_right (by norm_num) (by omega)
  have product : value * 2 ^ shift < (2 ^ 64) ^ words * 2 ^ 63 :=
    Nat.mul_lt_mul_of_lt_of_le small factor (Nat.two_pow_pos 63)
  have scaled := Nat.mul_le_mul_right ((2 ^ 64) ^ (words - (e + 2) + 1)) normal
  rw [← power, Nat.mul_assoc] at scaled
  omega

/-- On four words the first digit overshoots exactly as its estimate from the inputs says. -/
theorem overshoots_iff {e shift qhat : ℕ} (words : divisor.numWords = e + 2)
    (four : dividend.numWords = 4) (shift_eq : leadingZeros (divisor.getWord (e + 1)) = shift)
    (within : shift < 64) (normalized : Normalized (divisor.shiftLeft shift) e)
    (shifted : (divisor.shiftLeft shift).toNat = divisor.toNat * 2 ^ shift)
    (leading : LeadingDigit ((divisor.shiftLeft shift).toNat / (2 ^ 64) ^ e)
      (dividend.toNat * 2 ^ shift / (2 ^ 64) ^ 2) qhat) :
    EstimateOvershoots dividend divisor ↔
      dividend.toNat * 2 ^ shift <
        qhat * ((divisor.shiftLeft shift).toNat * (2 ^ 64) ^ (2 - e)) := by
  obtain ⟨leadLarge, -⟩ := normalized.lead_bounds
  have small := lt_of_numWords dividend
  rw [four] at small
  have factor : 2 ^ shift ≤ 2 ^ 63 := Nat.pow_le_pow_right (by norm_num) (by omega)
  have product := Nat.mul_lt_mul_of_lt_of_le small factor (Nat.two_pow_pos 63)
  have window : dividend.toNat * 2 ^ shift / (2 ^ 64) ^ 2 < 2 ^ 191 :=
    Nat.div_lt_of_lt_mul (by omega)
  have estimate : qhat = digitEstimate dividend divisor := by
    unfold digitEstimate
    rw [words, show e + 2 - 1 = e + 1 by omega, show e + 2 - 2 = e by omega, shift_eq]
    dsimp only
    rw [← shifted]
    refine leading.eq_div (by omega) ?_
    rw [Nat.div_lt_iff_lt_mul (by omega)]
    omega
  have cancel (place : ℕ) : dividend.toNat * 2 ^ shift <
      qhat * ((divisor.shiftLeft shift).toNat * place) ↔
        dividend.toNat < qhat * divisor.toNat * place := by
    rw [shifted, show qhat * (divisor.toNat * 2 ^ shift * place) =
      qhat * divisor.toNat * place * 2 ^ shift by ring]
    exact Nat.mul_lt_mul_right (Nat.two_pow_pos shift)
  unfold EstimateOvershoots
  rw [cancel, ← estimate, words, show 4 - (e + 2) = 2 - e by omega]
  constructor
  · exact fun overshoots => overshoots.2.2
  · intro above
    refine ⟨four, ?_, above⟩
    by_contra two
    -- With two words the estimate is made from the whole divisor.
    obtain rfl : e = 0 := by omega
    have fits := leading.fits
    rw [pow_zero, Nat.div_one] at fits
    have scaled := (Nat.mul_le_mul_right ((2 ^ 64) ^ 2) fits).trans (Nat.div_mul_le_self _ _)
    rw [Nat.mul_assoc] at scaled
    exact absurd ((cancel _).mpr above) (not_lt.mpr scaled)

/-- The long division of three or four words by at least two. -/
theorem div_long {e : ℕ} (words : divisor.numWords = e + 2)
    (enough : divisor.numWords ≤ dividend.numWords) (long : 3 ≤ dividend.numWords) :
    (EstimateOvershoots dividend divisor →
        dividend.div m divisor returnRemainder = .error .panic) ∧
      (¬ EstimateOvershoots dividend divisor →
        DividesExactly m dividend divisor returnRemainder) := by
  obtain ⟨k, top⟩ : ∃ k, dividend.numWords = k + 1 := ⟨dividend.numWords - 1, by omega⟩
  have four := numWords_le dividend
  obtain ⟨-, nonzero, -, -⟩ := numWords_spec words
  obtain ⟨shift, shift_eq⟩ : ∃ shift, leadingZeros (divisor.getWord (e + 1)) = shift := ⟨_, rfl⟩
  have within : shift < 64 := shift_eq ▸ (leadingZeros_spec nonzero (getWord_lt divisor _)).1
  obtain ⟨shifted, normalized⟩ := normalized_shiftLeft words shift_eq
  have whole := extended_shiftLeft dividend within
  have zero : (new 0 0).toNat = 0 := toNat_new_low (by norm_num)
  have unset (other : ℕ) : (new 0 0).getWord other = 0 := by
    rcases Nat.lt_or_ge other 4 with inside | outside
    · rw [getWord_eq _ inside, zero, Nat.zero_div, Nat.zero_mod]
    · exact getWord_of_ge outside
  obtain ⟨state, state_eq⟩ : ∃ state : DivState, state = ⟨dividend.shiftLeft shift,
    dividend.getWord 3 / 2 ^ (64 - shift), new 0 0⟩ := ⟨_, rfl⟩
  have starts : extended state.dividend state.dividendCarrySpace = dividend.toNat * 2 ^ shift := by
    rw [state_eq]
    exact whole
  have carrySmall : state.dividendCarrySpace < 2 ^ 64 := by
    rw [state_eq]
    exact lt_of_le_of_lt (Nat.div_le_self _ _) (getWord_lt dividend 3)
  have runs : dividend.div m divisor returnRemainder =
      (List.range (dividend.numWords - (e + 2) + 1)).reverse.foldlM
        (divLoop m (e + 2) (divisor.shiftLeft shift)) state >>= fun state =>
      .ok (state.quotient, if returnRemainder then state.dividend.shiftRight shift
        else new 0 0) := by
    unfold U256Muldiv.div
    dsimp only
    rw [if_neg (by omega), if_neg (by omega), if_neg (by omega), if_neg (by omega),
      if_neg (by omega), words, show e + 2 - 1 = e + 1 by omega, top,
      show k + 1 - 1 = k by omega, readWord_of_lt (by omega), ok_bind, readWord_of_lt (by omega),
      ok_bind, shift_eq, ← top, carrySpace_eq top (by omega) within, state_eq]
  have returns {state' : DivState} (folded : (List.range (dividend.numWords - (e + 2) +
      1)).reverse.foldlM (divLoop m (e + 2) (divisor.shiftLeft shift)) state = .ok state')
      (divided : Divided (divisor.shiftLeft shift) state state') :
      DividesExactly m dividend divisor returnRemainder := by
    obtain ⟨rest, sum, small, back⟩ := divided.result within normalized (by omega) shifted starts
      (by rw [state_eq]; exact zero)
    unfold DividesExactly
    rw [runs, folded, ok_bind]
    exact ⟨_, _, rest, rfl, sum, small, fun wanted => by rw [if_pos wanted, back]⟩
  have bounded : extended state.dividend state.dividendCarrySpace <
      (divisor.shiftLeft shift).toNat * (2 ^ 64) ^ (dividend.numWords - (e + 2) + 1) := by
    rw [starts]
    exact shifted_lt (by omega) within normalized.normal (lt_of_numWords dividend)
  rcases Nat.lt_or_ge dividend.numWords 4 with three | isFour
  · obtain ⟨state', folded, divided⟩ := foldlM_divLoop (m := m) normalized (by omega) carrySmall
      bounded fun other _ => by rw [state_eq]; exact unset other
    exact ⟨fun overshoots => absurd overshoots.1 (by omega), fun _ => returns folded divided⟩
  · obtain ⟨qhat, leading, round⟩ := foldlM_divLoop_top (m := m) normalized (by omega) carrySmall
      (by rwa [show 2 - e + 1 = dividend.numWords - (e + 2) + 1 by omega])
      fun other _ => by rw [state_eq]; exact unset other
    rw [show 2 - e + 1 = dividend.numWords - (e + 2) + 1 by omega] at round
    have decides := overshoots_iff words (by omega) shift_eq within normalized shifted
      (starts ▸ leading)
    rw [starts] at round
    constructor
    · intro overshoots
      rw [if_pos (decides.mp overshoots)] at round
      rw [runs, round, error_bind]
    · intro fine
      rw [if_neg (mt decides.mpr fine)] at round
      obtain ⟨state', folded, divided⟩ := round
      exact returns folded divided

/-- An overshooting estimate makes the division panic. -/
theorem div_panics (overshoots : EstimateOvershoots dividend divisor) :
    dividend.div m divisor returnRemainder = .error .panic := by
  obtain ⟨four, three, -⟩ := id overshoots
  exact (div_long (e := divisor.numWords - 2) (by omega)
    (four ▸ numWords_le divisor) (by omega)).1 overshoots

/-- The division is exact unless an estimated digit overshoots. -/
theorem div_exact (nonzero : divisor.toNat ≠ 0) (fine : ¬ EstimateOvershoots dividend divisor) :
    DividesExactly m dividend divisor returnRemainder := by
  have positive : divisor.numWords ≠ 0 := mt numWords_eq_zero.mp nonzero
  rcases Nat.lt_or_ge dividend.numWords divisor.numWords with fewer | enough
  · exact div_below nonzero fewer
  rcases Nat.lt_or_ge dividend.numWords 3 with short | long
  · exact div_small nonzero enough short
  by_cases single : divisor.numWords = 1
  · exact div_singleWord single long
  · exact (div_long (e := divisor.numWords - 2) (by omega) enough long).2 fine

/-- The division is exact for every dividend and every divisor other than zero, except where
the estimate of the first digit overshoots. -/
theorem div_exact_iff (m : Machine) (dividend divisor : U256Muldiv) (returnRemainder : Bool)
    (nonzero : divisor.toNat ≠ 0) :
    DividesExactly m dividend divisor returnRemainder ↔ ¬ EstimateOvershoots dividend divisor := by
  constructor
  · rintro ⟨quotient, remainder, rest, returned, -⟩ overshoots
    rw [div_panics overshoots] at returned
    exact absurd returned (by simp only [reduceCtorEq, not_false_eq_true])
  · exact div_exact nonzero

instance : Decidable (EstimateOvershoots dividend divisor) :=
  inferInstanceAs (Decidable (_ ∧ _ ∧ _))

/-- Dividing four words by three is fine as long as the estimate is. -/
theorem div_exact_fourByThree :
    DividesExactly (.exact true) (.ofNat (2 ^ 256 - 1)) (.ofNat (3 * 2 ^ 130 + 7)) true :=
  (div_exact_iff _ _ _ _ (by decide +kernel)).mpr (by decide +kernel)

/-- The division of `2 ^ 192` by `2 ^ 192 + 1` panics. -/
theorem not_div_exact : ¬ ∀ (m : Machine) (dividend divisor : U256Muldiv) (returnRemainder : Bool),
    divisor.toNat ≠ 0 → DividesExactly m dividend divisor returnRemainder := by
  intro claimed
  obtain ⟨quotient, remainder, rest, returned, -⟩ := claimed (.exact false) (.ofNat (2 ^ 192))
    (.ofNat (2 ^ 192 + 1)) false (by decide +kernel)
  have fails : yields (U256Muldiv.div (.exact false) (.ofNat (2 ^ 192)) (.ofNat (2 ^ 192 + 1))
      false) (fun _ => true) = false := by decide +kernel
  rw [returned] at fails
  exact absurd fails (by simp only [yields, Bool.true_eq_false, not_false_eq_true])

end Exactness

section Reading

variable {m : Machine} {dividend divisor : U256Muldiv} {returnRemainder : Bool}

theorem div_by_zero (zero : divisor.toNat = 0) :
    dividend.div m divisor returnRemainder = .error .panic :=
  if_pos (numWords_eq_zero.mpr zero)

/-- What the division returns is right, and it fails by a panic. -/
theorem div_cases (m : Machine) (dividend divisor : U256Muldiv) (returnRemainder : Bool) :
    dividend.div m divisor returnRemainder = .error .panic ∨
      divisor.toNat ≠ 0 ∧ DividesExactly m dividend divisor returnRemainder := by
  by_cases zero : divisor.toNat = 0
  · exact .inl (div_by_zero zero)
  by_cases overshoots : EstimateOvershoots dividend divisor
  · exact .inl (div_panics overshoots)
  · exact .inr ⟨zero, div_exact zero overshoots⟩

/-- The reading of the program with its own division. -/
def Machine.wordLevel (overflowChecks : Bool) : Machine where
  overflowChecks := overflowChecks
  div := U256Muldiv.div (.exact overflowChecks)
  div_sound := by
    intro dividend divisor returnRemainder quotient remainder returned
    rcases div_cases (.exact overflowChecks) dividend divisor returnRemainder with fails |
      ⟨nonzero, quotient', remainder', rest, returned', sum, small, kept⟩
    · exact absurd (fails.symm.trans returned) (by simp only [reduceCtorEq, not_false_eq_true])
    · obtain ⟨rfl, rfl⟩ := Prod.mk.inj (Except.ok.inj (returned'.symm.trans returned))
      have quotient_eq : dividend.toNat / divisor.toNat = quotient'.toNat := by
        rw [sum, Nat.mul_comm, Nat.mul_add_div (Nat.pos_of_ne_zero nonzero),
          Nat.div_eq_of_lt small, Nat.add_zero]
      have rest_eq : dividend.toNat % divisor.toNat = rest := by
        rw [sum, Nat.mul_add_mod', Nat.mod_eq_of_lt small]
      exact ⟨nonzero, quotient_eq.symm, fun wanted => (kept wanted).trans rest_eq.symm⟩
  div_zero := by
    intro dividend divisor returnRemainder zero nonzero
    have absent := numWords_eq_zero.mpr zero
    obtain ⟨quotient, remainder, -, returned, -⟩ := @div_below (.exact overflowChecks)
      dividend divisor returnRemainder nonzero (absent ▸ Nat.pos_of_ne_zero
        (mt numWords_eq_zero.mp nonzero))
    exact ⟨_, returned⟩
  div_panics := by
    intro dividend divisor returnRemainder failure failed
    rcases div_cases (.exact overflowChecks) dividend divisor returnRemainder with fails |
      ⟨-, quotient', remainder', rest, returned, -⟩
    · exact (Except.error.inj (fails.symm.trans failed)).symm
    · exact absurd (returned.symm.trans failed) (by simp only [reduceCtorEq, not_false_eq_true])

end Reading

end Whirlpools
