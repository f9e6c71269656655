import Mathlib.Data.Nat.Log
import Mathlib.Logic.Function.Iterate
import Whirlpools.Math.TickPrices

/-! # The tick of a price is the logarithm of the price

Iterated squaring finds the binary logarithm of a price to fourteen bits, never too
large. Scaled to the base of the prices it is wrong by less than one tick, and
comparing with one price finds the right one: the greatest tick whose price does
not exceed the given price.
-/

namespace Whirlpools

open Approximation

/-- What the squaring loop knows after some rounds about the logarithm sought: the
fraction found so far, and that the rest is the logarithm of the mantissa, scaled. -/
structure Log2Invariant (sought : ℝ) (round : ℕ) (state : Log2State) : Prop where
  normalized : 2 ^ 63 ≤ state.r ∧ state.r < 2 ^ 64
  bit : state.bit = 2 ^ (63 - round)
  lower : state.log2pFractionX64 / 2 ^ 64 * Real.log 2 + Real.log (state.r / 2 ^ 63) / 2 ^ round ≤
    sought
  upper : sought ≤ state.log2pFractionX64 / 2 ^ 64 * Real.log 2 +
    Real.log (state.r / 2 ^ 63) / 2 ^ round + (round + 1) / 2 ^ 62

/-- Truncating a value of at least `2 ^ 63` changes its logarithm by little. -/
private theorem log_truncate (value : ℝ) {floor : ℕ} (large : 2 ^ 63 ≤ floor)
    (below : (floor : ℝ) ≤ value) (close : value < floor + 1) :
    Real.log (floor / 2 ^ 63) ≤ Real.log (value / 2 ^ 63) ∧
      Real.log (value / 2 ^ 63) ≤ Real.log (floor / 2 ^ 63) + 1 / 2 ^ 63 := by
  have grounded : (2 : ℝ) ^ 63 ≤ floor := by exact_mod_cast large
  have floorPos : (0 : ℝ) < floor := lt_of_lt_of_le (by norm_num) grounded
  have valuePos : 0 < value := floorPos.trans_le below
  constructor
  · exact Real.log_le_log (by positivity) (div_le_div_of_nonneg_right below (by norm_num))
  · have near : LogNear (value / 2 ^ 63) (Real.log (value / 2 ^ 63)) 0 :=
      ⟨by positivity, by rw [sub_self, abs_zero]⟩
    have truncated := near.truncate _ (by norm_num) (by norm_num) grounded below close
    linarith [truncated.le_log]

/-- One squaring appends one bit. -/
private theorem log2Step_invariant {sought : ℝ} {round : ℕ} {state : Log2State}
    (early : round < 63) (holds : Log2Invariant sought round state) :
    Log2Invariant sought (round + 1) (log2Step state) := by
  obtain ⟨⟨above, below⟩, bit, lower, upper⟩ := holds
  have squareLower : 2 ^ 63 * 2 ^ 63 ≤ state.r * state.r := Nat.mul_le_mul above above
  have squareUpper : state.r * state.r < 2 ^ 64 * 2 ^ 64 := Nat.mul_lt_mul'' below below
  have rPos : (0 : ℝ) < state.r := Nat.cast_pos.mpr (lt_of_lt_of_le (by norm_num) above)
  obtain ⟨more, more_eq, range⟩ : ∃ more, state.r * state.r / 2 ^ 127 = more ∧
      (more = 0 ∨ more = 1) := ⟨_, rfl, by omega⟩
  have normalized : 2 ^ 63 ≤ state.r * state.r / 2 ^ (63 + more) ∧
      state.r * state.r / 2 ^ (63 + more) < 2 ^ 64 := by
    rcases range with rfl | rfl
    · constructor <;> norm_num <;> omega
    · constructor <;> norm_num <;> omega
  have floor_eq : ((state.r * state.r / 2 ^ (63 + more) : ℕ) : ℝ) =
      ⌊(state.r : ℝ) * state.r / 2 ^ (63 + more)⌋₊ := by
    rw [← Nat.floor_div_eq_div (K := ℝ)]
    push_cast
    rfl
  have truncated := log_truncate ((state.r : ℝ) * state.r / 2 ^ (63 + more)) normalized.1
    (by rw [floor_eq]; exact Nat.floor_le (by positivity))
    (by rw [floor_eq]; exact Nat.lt_floor_add_one _)
  have logs : Real.log ((state.r : ℝ) * state.r / 2 ^ (63 + more) / 2 ^ 63) =
      2 * Real.log (state.r / 2 ^ 63) - more * Real.log 2 := by
    have split : (state.r : ℝ) * state.r / 2 ^ (63 + more) / 2 ^ 63 =
        (state.r / 2 ^ 63) * (state.r / 2 ^ 63) / 2 ^ more := by
      rw [pow_add]
      field_simp
    rw [split, Real.log_div (by positivity) (by positivity), Real.log_mul (by positivity)
      (by positivity), Real.log_pow]
    ring
  rw [logs] at truncated
  have bit_succ : state.bit = 2 * 2 ^ (63 - (round + 1)) := by
    rw [bit, ← pow_succ']
    congr 1
    omega
  have weight : ((2 : ℝ) ^ (63 - round)) / 2 ^ 64 = 1 / 2 ^ (round + 1) := by
    rw [div_eq_div_iff (by positivity) (by positivity), one_mul, ← pow_add]
    congr 1
    omega
  have fraction : (((log2Step state).log2pFractionX64 : ℤ) : ℝ) / 2 ^ 64 * Real.log 2 =
      state.log2pFractionX64 / 2 ^ 64 * Real.log 2 + more * Real.log 2 / 2 ^ (round + 1) := by
    simp only [log2Step, more_eq, bit]
    push_cast
    rw [add_div, mul_div_right_comm, weight]
    ring
  have powers : (2 : ℝ) ^ (round + 1) = 2 * 2 ^ round := pow_succ' 2 round
  have scalePos : (0 : ℝ) < 2 ^ (round + 1) := by positivity
  have remainder : (log2Step state).r = state.r * state.r / 2 ^ (63 + more) := by
    simp only [log2Step, more_eq]
  refine ⟨remainder ▸ normalized, ?_, ?_, ?_⟩
  · simp only [log2Step, bit_succ]
    exact Int.mul_ediv_cancel_left _ (by norm_num)
  · rw [fraction, remainder]
    have scaled : Real.log (((state.r * state.r / 2 ^ (63 + more) : ℕ) : ℝ) / 2 ^ 63) /
        2 ^ (round + 1) ≤ (2 * Real.log (state.r / 2 ^ 63) - more * Real.log 2) / 2 ^ (round + 1) :=
      div_le_div_of_nonneg_right truncated.1 scalePos.le
    have halves : 2 * Real.log (state.r / 2 ^ 63) / 2 ^ (round + 1) =
        Real.log (state.r / 2 ^ 63) / 2 ^ round := by
      rw [powers, mul_div_mul_left _ _ (by norm_num)]
    rw [sub_div, halves] at scaled
    linarith
  · rw [fraction, remainder]
    have scaled : (2 * Real.log (state.r / 2 ^ 63) - more * Real.log 2) / 2 ^ (round + 1) ≤
        (Real.log (((state.r * state.r / 2 ^ (63 + more) : ℕ) : ℝ) / 2 ^ 63) + 1 / 2 ^ 63) /
          2 ^ (round + 1) :=
      div_le_div_of_nonneg_right truncated.2 scalePos.le
    have halves : 2 * Real.log (state.r / 2 ^ 63) / 2 ^ (round + 1) =
        Real.log (state.r / 2 ^ 63) / 2 ^ round := by
      rw [powers, mul_div_mul_left _ _ (by norm_num)]
    have lost : (1 : ℝ) / 2 ^ 63 / 2 ^ (round + 1) ≤ 1 / 2 ^ 62 := by
      rw [div_div, div_le_div_iff_of_pos_left (by norm_num) (by positivity) (by norm_num)]
      have : (1 : ℝ) ≤ 2 ^ (round + 1) := one_le_pow₀ (by norm_num)
      nlinarith [show (0 : ℝ) < 2 ^ 63 by norm_num]
    rw [sub_div, halves, add_div] at scaled
    push_cast
    have steps : ((round : ℝ) + 1 + 1) / 2 ^ 62 = (round + 1) / 2 ^ 62 + 1 / 2 ^ 62 := by ring
    linarith

/-- Every round of the logarithm keeps its invariant. -/
private theorem log2Steps_invariant {sought : ℝ} {state : Log2State} (rounds : ℕ)
    (few : rounds ≤ 63) (initially : Log2Invariant sought 0 state) :
    Log2Invariant sought rounds (log2Step^[rounds] state) := by
  induction rounds with
  | zero => exact initially
  | succ rounds ih =>
      rw [Function.iterate_succ_apply']
      exact log2Step_invariant (by omega) (ih (by omega))

/-- The mantissa the squaring starts from. -/
private theorem log2_initial {price : ℕ} (positive : price ≠ 0) :
    Log2Invariant (Real.log (price / 2 ^ price.log2)) 0
      ⟨if price.log2 ≥ 64 then price / 2 ^ (price.log2 - 63) else price * 2 ^ (63 - price.log2),
        0x8000000000000000, 0⟩ := by
  have above := Nat.log2_self_le positive
  have below := Nat.lt_log2_self (n := price)
  generalize price.log2 = msb at above below ⊢
  have pricePos : (0 : ℝ) < price := Nat.cast_pos.mpr (Nat.pos_of_ne_zero positive)
  have slack : (0 : ℝ) ≤ 1 / 2 ^ 62 := by positivity
  by_cases large : msb ≥ 64
  · rw [if_pos large]
    obtain ⟨shift, rfl⟩ : ∃ shift, msb = 63 + shift := ⟨msb - 63, by omega⟩
    rw [Nat.add_sub_cancel_left]
    rw [pow_add] at above
    rw [show 63 + shift + 1 = 64 + shift by omega, pow_add] at below
    have normalized : 2 ^ 63 ≤ price / 2 ^ shift ∧ price / 2 ^ shift < 2 ^ 64 :=
      ⟨(Nat.le_div_iff_mul_le (by positivity)).mpr above,
        (Nat.div_lt_iff_lt_mul (by positivity)).mpr below⟩
    have floor_eq : ((price / 2 ^ shift : ℕ) : ℝ) = ⌊(price : ℝ) / 2 ^ shift⌋₊ := by
      rw [← Nat.floor_div_eq_div (K := ℝ)]
      push_cast
      rfl
    have truncated := log_truncate ((price : ℝ) / 2 ^ shift) normalized.1
      (by rw [floor_eq]; exact Nat.floor_le (by positivity))
      (by rw [floor_eq]; exact Nat.lt_floor_add_one _)
    have same : (price : ℝ) / 2 ^ shift / 2 ^ 63 = price / 2 ^ (63 + shift) := by
      rw [pow_add, div_div, mul_comm ((2 : ℝ) ^ shift)]
    rw [same] at truncated
    refine ⟨normalized, by norm_num, ?_, ?_⟩
    · simpa only [Int.cast_zero, zero_div, zero_mul, zero_add, pow_zero, div_one] using truncated.1
    · simp only [Int.cast_zero, zero_div, zero_mul, zero_add, pow_zero, div_one, Nat.cast_zero]
      refine truncated.2.trans ?_
      norm_num
  · rw [if_neg large]
    have split : 2 ^ msb * 2 ^ (63 - msb) = 2 ^ 63 := by
      rw [← pow_add]
      congr 1
      omega
    have splitReal : (2 : ℝ) ^ msb * 2 ^ (63 - msb) = 2 ^ 63 := by exact_mod_cast split
    have normalized : 2 ^ 63 ≤ price * 2 ^ (63 - msb) ∧ price * 2 ^ (63 - msb) < 2 ^ 64 := by
      constructor
      · rw [← split]
        exact Nat.mul_le_mul_right _ above
      · have double : (2 : ℕ) ^ 64 = 2 ^ (msb + 1) * 2 ^ (63 - msb) := by
          rw [← pow_add]
          congr 1
          omega
        rw [double]
        exact Nat.mul_lt_mul_of_pos_right below (by positivity)
    have same : ((price * 2 ^ (63 - msb) : ℕ) : ℝ) / 2 ^ 63 = price / 2 ^ msb := by
      rw [← splitReal]
      push_cast
      field_simp
    refine ⟨normalized, by norm_num, ?_, ?_⟩
    · simp only [Int.cast_zero, zero_div, zero_mul, zero_add, pow_zero, div_one, same, le_refl]
    · simp only [Int.cast_zero, zero_div, zero_mul, zero_add, pow_zero, div_one, same,
        Nat.cast_zero]
      linarith

/-- The binary logarithm found is at most the true one, and less than fourteen bits short. -/
theorem log2pX32_bounds (price : ℕ) (positive : price ≠ 0) :
    (log2pX32 price : ℝ) / 2 ^ 32 * Real.log 2 ≤ Real.log (price / 2 ^ 64) ∧
      Real.log (price / 2 ^ 64) ≤ (log2pX32 price : ℝ) / 2 ^ 32 * Real.log 2 + 0.000042308 := by
  have final := log2Steps_invariant bitPrecision (by decide) (log2_initial positive)
  obtain ⟨⟨above, below⟩, -, lower, upper⟩ := final
  unfold log2pX32
  dsimp only
  generalize log2Step^[bitPrecision] _ = state at *
  have two := Real.log_two_gt_d9
  have two' := Real.log_two_lt_d9
  have pricePos : (0 : ℝ) < price := Nat.cast_pos.mpr (Nat.pos_of_ne_zero positive)
  have rPos : (0 : ℝ) < state.r := Nat.cast_pos.mpr (lt_of_lt_of_le (by norm_num) above)
  have mantissaLower : 0 ≤ Real.log (state.r / 2 ^ 63) := by
    apply Real.log_nonneg
    rw [le_div_iff₀ (by norm_num), one_mul]
    exact_mod_cast above
  have mantissaUpper : Real.log (state.r / 2 ^ 63) ≤ Real.log 2 := by
    apply Real.log_le_log (by positivity)
    rw [div_le_iff₀ (by norm_num)]
    have : (state.r : ℝ) ≤ 2 ^ 64 := by exact_mod_cast below.le
    norm_num at this ⊢
    linarith
  have whole : Real.log (price / 2 ^ 64) =
      Real.log (price / 2 ^ price.log2) + ((price.log2 : ℝ) - 64) * Real.log 2 := by
    rw [Real.log_div pricePos.ne' (by positivity), Real.log_div pricePos.ne' (by positivity),
      Real.log_pow, Real.log_pow]
    push_cast
    ring
  have floorLower : ((state.log2pFractionX64 / 2 ^ 32 : ℤ) : ℝ) ≤
      state.log2pFractionX64 / 2 ^ 32 := by
    rw [le_div_iff₀ (by norm_num)]
    exact_mod_cast Int.ediv_mul_le state.log2pFractionX64 (by norm_num)
  have floorUpper : (state.log2pFractionX64 : ℝ) / 2 ^ 32 <
      ((state.log2pFractionX64 / 2 ^ 32 : ℤ) : ℝ) + 1 := by
    rw [div_lt_iff₀ (by norm_num)]
    exact_mod_cast Int.lt_ediv_add_one_mul_self state.log2pFractionX64 (by norm_num)
  have split : ((((price.log2 : ℤ) - 64) * 2 ^ 32 + state.log2pFractionX64 / 2 ^ 32 : ℤ) : ℝ) /
      2 ^ 32 * Real.log 2 = ((price.log2 : ℝ) - 64) * Real.log 2 +
        ((state.log2pFractionX64 / 2 ^ 32 : ℤ) : ℝ) / 2 ^ 32 * Real.log 2 := by
    push_cast
    ring
  have fraction : (state.log2pFractionX64 : ℝ) / 2 ^ 64 * Real.log 2 =
      state.log2pFractionX64 / 2 ^ 32 / 2 ^ 32 * Real.log 2 := by ring
  rw [fraction] at lower upper
  have scale (x y : ℝ) (le : x ≤ y) : x / 2 ^ 32 * Real.log 2 ≤ y / 2 ^ 32 * Real.log 2 :=
    mul_le_mul_of_nonneg_right (div_le_div_of_nonneg_right le (by norm_num)) (by linarith)
  have fractionLower := scale _ _ floorLower
  have fractionUpper := scale _ _ floorUpper.le
  rw [whole, split]
  unfold bitPrecision at lower upper
  constructor
  · have : 0 ≤ Real.log (state.r / 2 ^ 63) / 2 ^ 14 := by positivity
    linarith
  · rw [add_div, add_mul] at fractionUpper
    norm_num at upper fractionUpper mantissaUpper ⊢
    linarith

/-- One unit of the tick scale is one unit of the binary scale, to the precision needed. -/
private theorem logB2X32_bounds : |(logB2X32 : ℝ) / 2 ^ 32 * logBase - Real.log 2| ≤
    2 / 10 ^ 9 := by
  have base := logBase_bounds
  have two := Real.log_two_gt_d9
  have two' := Real.log_two_lt_d9
  unfold logB2X32
  rw [abs_le]
  constructor <;> norm_num <;> linarith [base.1, base.2]

/-- The tick coordinate computed from a price, against the logarithm of the price. -/
private theorem logbp_bounds {price : ℕ} (above : minSqrtPriceX64 ≤ price)
    (below : price ≤ maxSqrtPriceX64) :
    ((log2pX32 price * logB2X32 : ℤ) : ℝ) / 2 ^ 64 * logBase ≤
        Real.log (price / 2 ^ 64) + 8 / 10 ^ 8 ∧
      Real.log (price / 2 ^ 64) ≤
        ((log2pX32 price * logB2X32 : ℤ) : ℝ) / 2 ^ 64 * logBase + 0.000042308 + 8 / 10 ^ 8 := by
  unfold minSqrtPriceX64 at above
  unfold maxSqrtPriceX64 at below
  obtain ⟨lower, upper⟩ := log2pX32_bounds price (by omega)
  have two := Real.log_two_gt_d9
  have priceLower : (2 : ℝ) ^ 32 ≤ price := by exact_mod_cast (by omega : 2 ^ 32 ≤ price)
  have priceUpper : (price : ℝ) ≤ 2 ^ 96 := by exact_mod_cast (by omega : price ≤ 2 ^ 96)
  have pricePos : (0 : ℝ) < price := lt_of_lt_of_le (by norm_num) priceLower
  have logLower : -32 * Real.log 2 ≤ Real.log (price / 2 ^ 64) := by
    rw [Real.log_div pricePos.ne' (by positivity), Real.log_pow]
    have := Real.log_le_log (by positivity) priceLower
    rw [Real.log_pow] at this
    push_cast at this ⊢
    linarith
  have logUpper : Real.log (price / 2 ^ 64) ≤ 32 * Real.log 2 := by
    rw [Real.log_div pricePos.ne' (by positivity), Real.log_pow]
    have := Real.log_le_log pricePos priceUpper
    rw [Real.log_pow] at this
    push_cast at this ⊢
    linarith
  have close := abs_le.mp logB2X32_bounds
  have split : ((log2pX32 price * logB2X32 : ℤ) : ℝ) / 2 ^ 64 * logBase =
      (log2pX32 price : ℝ) / 2 ^ 32 * ((logB2X32 : ℝ) / 2 ^ 32 * logBase) := by
    push_cast
    ring
  rw [split]
  generalize (logB2X32 : ℝ) / 2 ^ 32 * logBase = unit at close ⊢
  generalize (log2pX32 price : ℝ) / 2 ^ 32 = scaled at lower upper ⊢
  have scaledLower : -33 ≤ scaled := by
    by_contra less
    nlinarith
  have scaledUpper : scaled ≤ 33 := by
    by_contra more
    nlinarith
  have error : |scaled * (unit - Real.log 2)| ≤ 33 * (2 / 10 ^ 9) := by
    rw [abs_mul]
    exact mul_le_mul (abs_le.mpr ⟨scaledLower, scaledUpper⟩)
      (abs_le.mpr close) (abs_nonneg _) (by norm_num)
  have parts := abs_le.mp error
  rw [mul_sub] at parts
  norm_num at parts upper ⊢
  constructor <;> linarith [parts.1, parts.2]

/-- A price below another by their logarithms. -/
private theorem price_lt {first second : ℕ} (firstPos : 0 < first) (secondPos : 0 < second)
    (below : Real.log ((first : ℝ) / 2 ^ 64) < Real.log ((second : ℝ) / 2 ^ 64)) :
    first < second := by
  have firstReal : (0 : ℝ) < first := Nat.cast_pos.mpr firstPos
  have secondReal : (0 : ℝ) < second := Nat.cast_pos.mpr secondPos
  rw [Real.log_lt_log_iff (by positivity) (by positivity),
    div_lt_div_iff_of_pos_right (by norm_num)] at below
  exact_mod_cast below

theorem sqrtPriceFromTickIndex_pos (tick : ℤ) (above : -443637 ≤ tick) (below : tick ≤ 443637) :
    0 < sqrtPriceFromTickIndex tick := by
  have positive := (sqrtPriceFromTickIndex_near tick above below).pos
  by_contra none
  rw [Nat.eq_zero_of_not_pos none, Nat.cast_zero, zero_div] at positive
  exact lt_irrefl _ positive

/-- The two candidates for the tick of a price are neighbours in range, and the price lies between
the price of the lower one and that of the successor of the upper one. -/
theorem tickCandidates_spec {price : ℕ} (above : minSqrtPriceX64 ≤ price)
    (below : price ≤ maxSqrtPriceX64) {tickLow tickHigh : ℤ}
    (low_eq : (log2pX32 price * logB2X32 - logBPErrMarginLowerX64) / 2 ^ 64 = tickLow)
    (high_eq : (log2pX32 price * logB2X32 + logBPErrMarginUpperX64) / 2 ^ 64 = tickHigh) :
    (tickLow = tickHigh ∨ tickHigh = tickLow + 1) ∧ -443637 ≤ tickLow ∧
      (-443636 ≤ tickHigh ∧ tickHigh ≤ 443636) ∧ sqrtPriceFromTickIndex tickLow ≤ price ∧
      price < sqrtPriceFromTickIndex (tickHigh + 1) := by
  obtain ⟨lower, upper⟩ := logbp_bounds above below
  have base := logBase_bounds
  have pricePos : 0 < price := lt_of_lt_of_le (by decide) above
  have least := (sqrtPriceFromTickIndex_near (-443636) (by norm_num) (by norm_num)).le_log
  have greatest := (sqrtPriceFromTickIndex_near 443636 (by norm_num) (by norm_num)).log_le
  rw [sqrtPriceFromTickIndex_min] at least
  rw [sqrtPriceFromTickIndex_max] at greatest
  have priceReal : (0 : ℝ) < price := Nat.cast_pos.mpr pricePos
  have leastPrice : Real.log ((minSqrtPriceX64 : ℝ) / 2 ^ 64) ≤ Real.log (price / 2 ^ 64) :=
    Real.log_le_log (by unfold minSqrtPriceX64; positivity)
      (div_le_div_of_nonneg_right (by exact_mod_cast above) (by norm_num))
  have greatestPrice : Real.log (price / 2 ^ 64) ≤ Real.log ((maxSqrtPriceX64 : ℝ) / 2 ^ 64) :=
    Real.log_le_log (by positivity)
      (div_le_div_of_nonneg_right (by exact_mod_cast below) (by norm_num))
  generalize log2pX32 price * logB2X32 = place at lower upper low_eq high_eq
  unfold logBPErrMarginLowerX64 at low_eq
  unfold logBPErrMarginUpperX64 at high_eq
  have order : tickLow = tickHigh ∨ tickHigh = tickLow + 1 := by omega
  -- The two candidates lie on either side of the computed coordinate.
  have lowPlace : (tickLow : ℝ) + 0.0099999 ≤ (place : ℝ) / 2 ^ 64 := by
    have integer : tickLow * 2 ^ 64 + 184467440737095516 ≤ place := by omega
    have real : (tickLow : ℝ) * 2 ^ 64 + 184467440737095516 ≤ place := by exact_mod_cast integer
    rw [le_div_iff₀ (by norm_num)]
    norm_num at real ⊢
    linarith
  have lowPlace' : (place : ℝ) / 2 ^ 64 < tickLow + 1.0100001 := by
    have integer : place < (tickLow + 1) * 2 ^ 64 + 184467440737095516 := by omega
    have real : (place : ℝ) < (tickLow + 1) * 2 ^ 64 + 184467440737095516 := by
      exact_mod_cast integer
    rw [div_lt_iff₀ (by norm_num)]
    norm_num at real ⊢
    linarith
  have highPlace : (tickHigh : ℝ) ≤ (place : ℝ) / 2 ^ 64 + 0.8561698 := by
    have integer : tickHigh * 2 ^ 64 ≤ place + 15793534762490258745 := by omega
    have real : (tickHigh : ℝ) * 2 ^ 64 ≤ place + 15793534762490258745 := by
      exact_mod_cast integer
    rw [← sub_le_iff_le_add, le_div_iff₀ (by norm_num)]
    norm_num at real ⊢
    linarith
  have highPlace' : (place : ℝ) / 2 ^ 64 + 0.856169 < tickHigh + 1 := by
    have integer : place + 15793534762490258745 < (tickHigh + 1) * 2 ^ 64 := by omega
    have real : (place : ℝ) + 15793534762490258745 < (tickHigh + 1) * 2 ^ 64 := by
      exact_mod_cast integer
    rw [← lt_sub_iff_add_lt, div_lt_iff₀ (by norm_num)]
    norm_num at real ⊢
    linarith
  generalize (place : ℝ) / 2 ^ 64 = x at *
  have base1 := base.1
  have base2 := base.2
  have basePos : 0 < logBase := by linarith
  have scale {a b : ℝ} (le : a ≤ b) : a * logBase ≤ b * logBase :=
    mul_le_mul_of_nonneg_right le basePos.le
  have lowBound := scale lowPlace
  have lowBound' := scale lowPlace'.le
  have highBound := scale highPlace
  have highBound' := scale highPlace'.le
  rw [add_mul] at lowBound highBound highBound' lowBound'
  have lowRange : -443637 ≤ tickLow := by
    by_contra less
    have real : (tickLow : ℝ) ≤ -443638 := by exact_mod_cast (by omega : tickLow ≤ -443638)
    have bound := scale real
    norm_num at least bound lowBound' upper
    linarith
  have highRange : -443636 ≤ tickHigh := by
    by_contra less
    have real : (tickHigh : ℝ) + 1 ≤ -443636 := by
      exact_mod_cast (by omega : tickHigh + 1 ≤ -443636)
    have bound := scale real
    norm_num at least bound highBound' upper
    linarith
  have highRange' : tickHigh ≤ 443636 := by
    by_contra more
    have real : (443637 : ℝ) ≤ tickHigh := by exact_mod_cast (by omega : 443637 ≤ tickHigh)
    have bound := scale real
    norm_num at greatest bound highBound lower
    linarith
  have lowPrice : sqrtPriceFromTickIndex tickLow ≤ price := by
    have near := (sqrtPriceFromTickIndex_near tickLow lowRange (by omega)).log_le
    refine (price_lt (sqrtPriceFromTickIndex_pos tickLow lowRange (by omega)) pricePos ?_).le
    norm_num at near lowBound lower ⊢
    linarith
  have highPrice : price < sqrtPriceFromTickIndex (tickHigh + 1) := by
    have near := (sqrtPriceFromTickIndex_near (tickHigh + 1) (by omega) (by omega)).le_log
    refine price_lt pricePos (sqrtPriceFromTickIndex_pos (tickHigh + 1) (by omega) (by omega)) ?_
    push_cast at near
    norm_num at near highBound' upper ⊢
    linarith
  exact ⟨order, lowRange, ⟨highRange, highRange'⟩, lowPrice, highPrice⟩

/-- The tick of a price in range is the greatest tick whose price does not exceed it. -/
theorem tickIndexFromSqrtPrice_spec {price : ℕ} (above : minSqrtPriceX64 ≤ price)
    (below : price ≤ maxSqrtPriceX64) :
    (-443636 ≤ tickIndexFromSqrtPrice price ∧ tickIndexFromSqrtPrice price ≤ 443636) ∧
      sqrtPriceFromTickIndex (tickIndexFromSqrtPrice price) ≤ price ∧
      price < sqrtPriceFromTickIndex (tickIndexFromSqrtPrice price + 1) := by
  unfold tickIndexFromSqrtPrice
  dsimp only
  obtain ⟨tickLow, low_eq⟩ :
      ∃ tick, (log2pX32 price * logB2X32 - logBPErrMarginLowerX64) / 2 ^ 64 = tick := ⟨_, rfl⟩
  obtain ⟨tickHigh, high_eq⟩ :
      ∃ tick, (log2pX32 price * logB2X32 + logBPErrMarginUpperX64) / 2 ^ 64 = tick := ⟨_, rfl⟩
  obtain ⟨order, -, highRange, lowPrice, highPrice⟩ := tickCandidates_spec above below
    low_eq high_eq
  rw [low_eq, high_eq]
  split_ifs with same fits
  · rw [same] at lowPrice ⊢
    exact ⟨highRange, lowPrice, highPrice⟩
  · exact ⟨highRange, fits, highPrice⟩
  · have next : tickHigh = tickLow + 1 := order.resolve_left same
    rw [next] at fits
    refine ⟨⟨?_, by omega⟩, lowPrice, not_le.mp fits⟩
    by_contra less
    have extreme : tickLow + 1 = -443636 := by omega
    rw [extreme, sqrtPriceFromTickIndex_min] at fits
    exact fits above

end Whirlpools
