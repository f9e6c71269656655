import Whirlpools.Math.U256Quotient
import Whirlpools.Ticks.Prices

/-! # Tick and price conversion in the types of the program

The conversions with every operation in the type the source gives it: a result that does
not fit its type, and a failed conversion, panic. On the ticks and prices in range nothing
overflows, and the two conversions are adjoint: the tick of a price is the greatest one whose
price is at most that price.
-/

namespace Whirlpools

open Outcome

section Checked

/-- A `u128` result. -/
def fitsU128 (value : ℕ) : Result ℕ := if value < 2 ^ 128 then .ok value else .error .panic

/-- An `i128` result. -/
def fitsI128 (value : ℤ) : Result ℤ :=
  if -2 ^ 127 ≤ value ∧ value < 2 ^ 127 then .ok value else .error .panic

/-- `try_into().unwrap()` from `i128` to `i32`. -/
def unwrapI32 (value : ℤ) : Result ℤ :=
  if -2 ^ 31 ≤ value ∧ value < 2 ^ 31 then .ok value else .error .panic

/-- `unwrap` of a result. -/
def unwrapped {α : Type} : Result α → Result α
  | .ok value => .ok value
  | .error _ => .error .panic

/-- A product of two Q32.96 numbers by four-word integers. -/
def checkedMulShift96 (n0 n1 : ℕ) : Result ℕ :=
  unwrapped ((mulU256 n0 n1).shiftRight 96).tryIntoU128

/-- A product of two Q64.64 numbers in `u128`. -/
def checkedMulShift64 (n0 n1 : ℕ) : Result ℕ :=
  fitsU128 (n0 * n1) >>= fun product => .ok (product / 2 ^ 64)

/-- Multiply the factors of the set bits of a tick into a ratio, lowest bit first. -/
def checkedMulTickRatios (mulShift : ℕ → ℕ → Result ℕ) : List ℕ → ℕ → ℕ → ℕ → Result ℕ
  | [], _, _, ratio => .ok ratio
  | factor :: factors, bit, tick, ratio =>
      (if tick.testBit bit then mulShift ratio factor else .ok ratio) >>=
        checkedMulTickRatios mulShift factors (bit + 1) tick

/-- The price of a tick, with every product in its type. -/
def checkedSqrtPriceFromTickIndex (tick : ℤ) : Result ℕ :=
  if tick ≥ 0 then
    checkedMulTickRatios checkedMulShift96 positiveTickRatios 1 tick.toNat
      (if tick.toNat.testBit 0 then 79232123823359799118286999567
        else 79228162514264337593543950336) >>= fun ratio => .ok (ratio / 2 ^ 32)
  else
    checkedMulTickRatios checkedMulShift64 negativeTickRatios 1 tick.natAbs
      (if tick.natAbs.testBit 0 then 18445821805675392311 else 18446744073709551616)

/-- One bit of the logarithm, in `u128` and `i128`. -/
def checkedLog2Step (state : Log2State) : Result Log2State :=
  fitsU128 (state.r * state.r) >>= fun squared =>
  let isRMoreThanTwo : ℕ := squared / 2 ^ 127
  fitsI128 (state.bit * isRMoreThanTwo) >>= fun appended =>
  fitsI128 (state.log2pFractionX64 + appended) >>= fun fraction =>
  .ok { r := squared / 2 ^ (63 + isRMoreThanTwo : ℕ), bit := state.bit / 2,
        log2pFractionX64 := fraction }

/-- The loop over the bits of the logarithm, with the iterations that precision leaves. -/
def checkedLog2Loop : ℕ → Log2State → Result Log2State
  | 0, state => .ok state
  | precision + 1, state =>
      if state.bit > 0 then checkedLog2Step state >>= checkedLog2Loop precision else .ok state

/-- The tick of a price, with every operation in its type. A price of zero has no leading bit. -/
def checkedTickIndexFromSqrtPrice (sqrtPriceX64 : ℕ) : Result ℤ :=
  if sqrtPriceX64 = 0 then .error .panic
  else
    let msb := sqrtPriceX64.log2
    let log2pIntegerX32 := ((msb : ℤ) - 64) * 2 ^ 32
    let r := if msb ≥ 64 then sqrtPriceX64 / 2 ^ (msb - 63)
      else sqrtPriceX64 * 2 ^ (63 - msb) % 2 ^ 128
    checkedLog2Loop bitPrecision ⟨r, 0x8000000000000000, 0⟩ >>= fun final =>
    fitsI128 (log2pIntegerX32 + final.log2pFractionX64 / 2 ^ 32) >>= fun log2pX32 =>
    fitsI128 (log2pX32 * logB2X32) >>= fun logbpX64 =>
    fitsI128 (logbpX64 - logBPErrMarginLowerX64) >>= fun lower =>
    unwrapI32 (lower / 2 ^ 64) >>= fun tickLow =>
    fitsI128 (logbpX64 + logBPErrMarginUpperX64) >>= fun upper =>
    unwrapI32 (upper / 2 ^ 64) >>= fun tickHigh =>
    if tickLow = tickHigh then .ok tickLow
    else
      checkedSqrtPriceFromTickIndex tickHigh >>= fun actualTickHighSqrtPrice =>
      .ok (if actualTickHighSqrtPrice ≤ sqrtPriceX64 then tickHigh else tickLow)

end Checked

section Ratios

variable {factors : List ℕ} {bit tick ratio : ℕ}

theorem fitsU128_of_lt {value : ℕ} (fits : value < 2 ^ 128) : fitsU128 value = .ok value :=
  if_pos fits

theorem fitsI128_of_bounds {value : ℤ} (least : -2 ^ 127 ≤ value) (greatest : value < 2 ^ 127) :
    fitsI128 value = .ok value := if_pos ⟨least, greatest⟩

/-- A value within the bounds of a tick index is returned. -/
theorem unwrapI32_of_bounds {value : ℤ} (least : -2 ^ 31 ≤ value) (greatest : value < 2 ^ 31) :
    unwrapI32 value = .ok value := if_pos ⟨least, greatest⟩

/-- Shifting by the fraction of a price divides by its scale. -/
theorem toNat_shiftRight_96 (value : U256Muldiv) :
    (value.shiftRight 96).toNat = value.toNat / 2 ^ 96 := by
  have shifted : value.shiftRight 96 = value.shiftWordRight.shiftRight 32 := rfl
  have word : value.shiftWordRight.toNat = value.toNat / 2 ^ 64 := by
    have w0 := (value.items 0).isLt
    have w1 := (value.items 1).isLt
    have w2 := (value.items 2).isLt
    simp only [U256Muldiv.toNat, U256Muldiv.shiftWordRight, BitVec.toNat_ofNat]
    omega
  rw [shifted, U256Muldiv.toNat_shiftRight _ (by norm_num), word, Nat.div_div_eq_div_mul,
    ← pow_add]

/-- The checked product is the plain one as long as its value fits. -/
theorem checkedMulShift96_eq {n0 n1 : ℕ} (left : n0 < 2 ^ 128) (right : n1 < 2 ^ 128)
    (fits : mulShift96 n0 n1 < 2 ^ 128) : checkedMulShift96 n0 n1 = .ok (mulShift96 n0 n1) := by
  have value : ((mulU256 n0 n1).shiftRight 96).toNat = mulShift96 n0 n1 := by
    rw [toNat_shiftRight_96, toNat_mulU256 left right]
    rfl
  rw [checkedMulShift96, U256Muldiv.tryIntoU128_eq_ok.mpr ⟨value ▸ fits, value.symm⟩]
  rfl

/-- Factors of at least one do not make a ratio smaller. -/
theorem ratio_le_mulTickRatios (large : ∀ factor ∈ factors, 2 ^ 96 ≤ factor) :
    ratio ≤ mulTickRatios mulShift96 factors bit tick ratio := by
  induction factors generalizing bit ratio with
  | nil => exact le_rfl
  | cons factor factors ih =>
      refine le_trans ?_ (ih fun other inside => large other (List.mem_cons_of_mem _ inside))
      split_ifs
      · have grows : ratio * 2 ^ 96 ≤ ratio * factor :=
          Nat.mul_le_mul_left _ (large factor (List.mem_cons_self ..))
        exact (Nat.le_div_iff_mul_le (by positivity)).mpr grows
      · exact le_rfl

/-- The ratio of a nonnegative tick fits while the final ratio does. -/
theorem checkedMulTickRatios_positive (large : ∀ factor ∈ factors, 2 ^ 96 ≤ factor)
    (small : ∀ factor ∈ factors, factor < 2 ^ 128)
    (fits : mulTickRatios mulShift96 factors bit tick ratio < 2 ^ 128) :
    checkedMulTickRatios checkedMulShift96 factors bit tick ratio =
      .ok (mulTickRatios mulShift96 factors bit tick ratio) := by
  induction factors generalizing bit ratio with
  | nil => rfl
  | cons factor factors ih =>
      have rest := fun other inside => large other (List.mem_cons_of_mem factor inside)
      have ratioFits := lt_of_le_of_lt (ratio_le_mulTickRatios large) fits
      have next := ih rest (fun other inside => small other (List.mem_cons_of_mem _ inside)) fits
      have nextFits := lt_of_le_of_lt (ratio_le_mulTickRatios rest) fits
      unfold checkedMulTickRatios
      by_cases set : tick.testBit bit
      · rw [if_pos set] at next nextFits
        rw [if_pos set, checkedMulShift96_eq ratioFits (small factor (List.mem_cons_self ..))
          nextFits, ok_bind, next, mulTickRatios, if_pos set]
      · rw [if_neg set] at next
        rw [if_neg set, ok_bind, next, mulTickRatios, if_neg set]

/-- The ratio of a negative tick is at most one. -/
theorem checkedMulTickRatios_negative (small : ∀ factor ∈ factors, factor < 2 ^ 64)
    (fits : ratio ≤ 2 ^ 64) :
    checkedMulTickRatios checkedMulShift64 factors bit tick ratio =
      .ok (mulTickRatios mulShift64 factors bit tick ratio) := by
  induction factors generalizing bit ratio with
  | nil => rfl
  | cons factor factors ih =>
      have below := small factor (List.mem_cons_self ..)
      have rest := fun other inside => small other (List.mem_cons_of_mem factor inside)
      have product : ratio * factor ≤ 2 ^ 64 * (2 ^ 64 - 1) := Nat.mul_le_mul fits (by omega)
      unfold checkedMulTickRatios mulTickRatios
      by_cases set : tick.testBit bit
      · rw [if_pos set, if_pos set, checkedMulShift64, fitsU128_of_lt (by omega), ok_bind, ok_bind]
        exact ih rest (Nat.div_le_of_le_mul (product.trans (by norm_num)))
      · rw [if_neg set, if_neg set, ok_bind]
        exact ih rest fits

/-- The ratio of a nonnegative tick in range is a `u128`. -/
theorem mulTickRatios_lt {tick : ℤ} (nonneg : 0 ≤ tick) (below : tick ≤ maxTickIndex) :
    mulTickRatios mulShift96 positiveTickRatios 1 tick.toNat
      (if tick.toNat.testBit 0 then 79232123823359799118286999567
        else 79228162514264337593543950336) < 2 ^ 128 := by
  have greatest :=
    sqrtPriceFromTickIndex_le ((by decide : minTickIndex ≤ 0).trans nonneg) below le_rfl
  rw [show maxTickIndex = 443636 from rfl, sqrtPriceFromTickIndex_max] at greatest
  unfold sqrtPriceFromTickIndex at greatest
  rw [if_pos nonneg] at greatest
  unfold getSqrtPricePositiveTick maxSqrtPriceX64 at greatest
  dsimp only at greatest
  generalize mulTickRatios mulShift96 positiveTickRatios 1 tick.toNat _ = ratio at greatest ⊢
  omega

/-- No product of the price of a tick in range overflows. -/
theorem checkedSqrtPriceFromTickIndex_eq {tick : ℤ} (below : tick ≤ maxTickIndex) :
    checkedSqrtPriceFromTickIndex tick = .ok (sqrtPriceFromTickIndex tick) := by
  unfold checkedSqrtPriceFromTickIndex sqrtPriceFromTickIndex
  by_cases nonneg : tick ≥ 0
  · rw [if_pos nonneg, if_pos nonneg,
      checkedMulTickRatios_positive
        (by decide) (by decide) (mulTickRatios_lt nonneg below), ok_bind]
    rfl
  · rw [if_neg nonneg, if_neg nonneg]
    refine checkedMulTickRatios_negative (by decide) ?_
    split_ifs <;> norm_num

end Ratios

section Logarithm

/-- The state of the loop stays within its types while bits remain. -/
structure LogInRange (precision : ℕ) (state : Log2State) : Prop where
  mantissa : state.r < 2 ^ 64
  bit : state.bit = 2 ^ (precision + 49)
  nonneg : 0 ≤ state.log2pFractionX64
  room : state.log2pFractionX64 + 2 * state.bit ≤ 2 ^ 64

/-- One checked step of the logarithm succeeds, equals the plain step and stays in range. -/
theorem checkedLog2Step_eq {precision : ℕ} {state : Log2State}
    (within : LogInRange (precision + 1) state) :
    checkedLog2Step state = .ok (log2Step state) ∧ LogInRange precision (log2Step state) := by
  have squaredBound : state.r * state.r < 2 ^ 128 := by
    calc state.r * state.r < 2 ^ 64 * 2 ^ 64 := Nat.mul_lt_mul'' within.mantissa within.mantissa
      _ = 2 ^ 128 := by norm_num
  have bitPos : 0 ≤ state.bit := by rw [within.bit]; positivity
  have half : state.bit / 2 = 2 ^ (precision + 49) := by
    rw [within.bit, show precision + 1 + 49 = precision + 49 + 1 by ring, pow_succ,
      Int.mul_ediv_cancel _ (by norm_num)]
  have double : 2 * (state.bit / 2) = state.bit := by
    rw [half, within.bit, show precision + 1 + 49 = precision + 49 + 1 by ring,
      pow_succ' _ (precision + 49)]
  have room := within.room
  have nonneg := within.nonneg
  have flag : state.r * state.r / 2 ^ 127 = 0 ∨ state.r * state.r / 2 ^ 127 = 1 := by
    generalize state.r * state.r = squared at squaredBound ⊢
    omega
  unfold checkedLog2Step log2Step
  rw [fitsU128_of_lt squaredBound, ok_bind]
  dsimp only
  rcases flag with unset | set
  · rw [unset, Nat.cast_zero, mul_zero, fitsI128_of_bounds (by norm_num) (by norm_num), ok_bind,
      add_zero, fitsI128_of_bounds (by omega) (by omega), ok_bind]
    refine ⟨rfl, ?_, half, nonneg, by dsimp only; omega⟩
    dsimp only
    generalize state.r * state.r = squared at squaredBound unset ⊢
    omega
  · rw [set, Nat.cast_one, mul_one, fitsI128_of_bounds (by omega) (by omega), ok_bind,
      fitsI128_of_bounds (by omega) (by omega), ok_bind]
    refine ⟨rfl, ?_, half, by dsimp only; omega, by dsimp only; omega⟩
    dsimp only
    generalize state.r * state.r = squared at squaredBound set ⊢
    omega

/-- The whole loop succeeds and equals the plain one, by induction on the precision left. -/
theorem checkedLog2Loop_eq {precision : ℕ} {state : Log2State}
    (within : LogInRange precision state) :
    checkedLog2Loop precision state = .ok (log2Step^[precision] state) ∧
      LogInRange 0 (log2Step^[precision] state) := by
  induction precision generalizing state with
  | zero => exact ⟨rfl, within⟩
  | succ precision ih =>
      obtain ⟨stepped, next⟩ := checkedLog2Step_eq within
      have positive : state.bit > 0 := by rw [within.bit]; positivity
      rw [checkedLog2Loop, if_pos positive, stepped, ok_bind, Function.iterate_succ_apply]
      exact ih next

/-- The logarithm found is a few bits wide. -/
theorem LogInRange.log2p_bounds {state : Log2State} (final : LogInRange 0 state) {msb : ℕ}
    (msbBound : msb < 128) :
    -2 ^ 38 ≤ ((msb : ℤ) - 64) * 2 ^ 32 + state.log2pFractionX64 / 2 ^ 32 ∧
      ((msb : ℤ) - 64) * 2 ^ 32 + state.log2pFractionX64 / 2 ^ 32 ≤ 2 ^ 39 := by
  have nonneg := final.nonneg
  have room := final.room
  rw [final.bit] at room
  constructor <;> omega

/-- The normalized mantissa of a price is a `u64`, and normalizing it loses no bit. -/
theorem mantissa_lt {price : ℕ} (nonzero : price ≠ 0) (bound : price < 2 ^ 128) :
    price.log2 < 128 ∧
      (if price.log2 ≥ 64 then price / 2 ^ (price.log2 - 63)
        else price * 2 ^ (63 - price.log2) % 2 ^ 128) =
      (if price.log2 ≥ 64 then price / 2 ^ (price.log2 - 63)
        else price * 2 ^ (63 - price.log2)) ∧
      (if price.log2 ≥ 64 then price / 2 ^ (price.log2 - 63)
        else price * 2 ^ (63 - price.log2)) < 2 ^ 64 := by
  have msb : price.log2 < 128 := (Nat.log2_lt nonzero).mpr bound
  have below : price < 2 ^ (price.log2 + 1) := Nat.lt_log2_self
  refine ⟨msb, ?_⟩
  by_cases large : price.log2 ≥ 64
  · rw [if_pos large, if_pos large]
    refine ⟨rfl, Nat.div_lt_of_lt_mul ?_⟩
    rw [← pow_add, show price.log2 - 63 + 64 = price.log2 + 1 by omega]
    exact below
  · rw [if_neg large, if_neg large]
    have fits : price * 2 ^ (63 - price.log2) < 2 ^ 64 := by
      calc price * 2 ^ (63 - price.log2)
          < 2 ^ (price.log2 + 1) * 2 ^ (63 - price.log2) :=
            Nat.mul_lt_mul_of_pos_right below (by positivity)
        _ = 2 ^ 64 := by rw [← pow_add]; congr 1; omega
    exact ⟨Nat.mod_eq_of_lt (fits.trans (by norm_num)), fits⟩

/-- Nothing overflows in the search for the tick of a price in range, and no conversion fails. -/
theorem checkedTickIndexFromSqrtPrice_eq {price : ℕ} (above : minSqrtPriceX64 ≤ price)
    (below : price ≤ maxSqrtPriceX64) :
    checkedTickIndexFromSqrtPrice price = .ok (tickIndexFromSqrtPrice price) := by
  have nonzero : price ≠ 0 := (lt_of_lt_of_le minSqrtPrice_pos above).ne'
  obtain ⟨msb, mantissa_eq, mantissa⟩ :=
    mantissa_lt nonzero (lt_of_le_of_lt below (maxSqrtPrice_lt.trans (by norm_num)))
  obtain ⟨tickLow, low_eq⟩ :
      ∃ tick, (log2pX32 price * logB2X32 - logBPErrMarginLowerX64) / 2 ^ 64 = tick := ⟨_, rfl⟩
  obtain ⟨tickHigh, high_eq⟩ :
      ∃ tick, (log2pX32 price * logB2X32 + logBPErrMarginUpperX64) / 2 ^ 64 = tick := ⟨_, rfl⟩
  obtain ⟨order, lowRange, highRange, -⟩ := tickCandidates_spec above below low_eq high_eq
  unfold checkedTickIndexFromSqrtPrice tickIndexFromSqrtPrice
  unfold log2pX32 at low_eq high_eq ⊢
  dsimp only at low_eq high_eq ⊢
  rw [if_neg nonzero, mantissa_eq]
  generalize (if price.log2 ≥ 64 then price / 2 ^ (price.log2 - 63)
    else price * 2 ^ (63 - price.log2)) = r at mantissa low_eq high_eq ⊢
  obtain ⟨looped, final⟩ := @checkedLog2Loop_eq bitPrecision ⟨r, 0x8000000000000000, 0⟩
    ⟨mantissa, by norm_num [bitPrecision], le_rfl, by norm_num⟩
  rw [looped, ok_bind]
  generalize log2Step^[bitPrecision] ⟨r, 0x8000000000000000, 0⟩ = state at final low_eq high_eq ⊢
  obtain ⟨least, greatest⟩ := final.log2p_bounds msb
  generalize ((price.log2 : ℤ) - 64) * 2 ^ 32 + state.log2pFractionX64 / 2 ^ 32 = log2p at *
  unfold logB2X32 logBPErrMarginLowerX64 at *
  unfold logBPErrMarginUpperX64 at *
  rw [fitsI128_of_bounds (by omega) (by omega), ok_bind, fitsI128_of_bounds (by omega) (by omega),
    ok_bind, fitsI128_of_bounds (by omega) (by omega), ok_bind, low_eq,
    unwrapI32_of_bounds (by omega) (by omega), ok_bind, fitsI128_of_bounds (by omega) (by omega),
    ok_bind, high_eq, unwrapI32_of_bounds (by omega) (by omega), ok_bind]
  by_cases same : tickLow = tickHigh
  · rw [if_pos same, if_pos same]
  · rw [if_neg same, if_neg same, checkedSqrtPriceFromTickIndex_eq highRange.2, ok_bind]

end Logarithm

/-- A tick is at most the tick of a price exactly when its price is at most that price. -/
theorem le_tickIndexFromSqrtPrice_iff {price : ℕ} {tick : ℤ} (above : minSqrtPriceX64 ≤ price)
    (below : price ≤ maxSqrtPriceX64) (least : minTickIndex ≤ tick)
    (greatest : tick ≤ maxTickIndex) :
    tick ≤ tickIndexFromSqrtPrice price ↔ sqrtPriceFromTickIndex tick ≤ price := by
  obtain ⟨⟨inLeast, inGreatest⟩, reached, passed⟩ := tickIndexFromSqrtPrice_spec above below
  constructor
  · intro before
    exact (sqrtPriceFromTickIndex_le least before inGreatest).trans reached
  · intro fits
    by_contra after
    rw [not_le, ← Int.add_one_le_iff] at after
    have next := sqrtPriceFromTickIndex_le (le_trans inLeast (by omega)) after greatest
    exact absurd (lt_of_lt_of_le passed next) (not_lt.mpr fits)

/-- The conversions are adjoint and nothing in them overflows: the tick of a price is the greatest
one whose price is at most that price, prices increase with their ticks, and the tick of the price
of a tick is this tick. -/
theorem tickConversion_adjoint :
    (∀ price, minSqrtPriceX64 ≤ price → price ≤ maxSqrtPriceX64 →
      ∃ tick, checkedTickIndexFromSqrtPrice price = .ok tick ∧
        (minTickIndex ≤ tick ∧ tick ≤ maxTickIndex) ∧ sqrtPriceFromTickIndex tick ≤ price ∧
        ∀ other, minTickIndex ≤ other → other ≤ maxTickIndex →
          sqrtPriceFromTickIndex other ≤ price → other ≤ tick) ∧
    (∀ lower upper, minTickIndex ≤ lower → lower < upper → upper ≤ maxTickIndex →
      sqrtPriceFromTickIndex lower < sqrtPriceFromTickIndex upper) ∧
    ∀ tick, minTickIndex ≤ tick → tick ≤ maxTickIndex →
      checkedSqrtPriceFromTickIndex tick = .ok (sqrtPriceFromTickIndex tick) ∧
        checkedTickIndexFromSqrtPrice (sqrtPriceFromTickIndex tick) = .ok tick := by
  refine ⟨fun price above below => ?_, fun lower upper => sqrtPriceFromTickIndex_lt,
    fun tick above below => ⟨checkedSqrtPriceFromTickIndex_eq below, ?_⟩⟩
  · obtain ⟨inRange, reached, -⟩ := tickIndexFromSqrtPrice_spec above below
    exact ⟨_, checkedTickIndexFromSqrtPrice_eq above below, inRange, reached,
      fun other least greatest => (le_tickIndexFromSqrtPrice_iff above below least greatest).mpr⟩
  · have least := sqrtPriceFromTickIndex_le le_rfl above below
    have greatest := sqrtPriceFromTickIndex_le above below le_rfl
    rw [show minTickIndex = -443636 from rfl, sqrtPriceFromTickIndex_min] at least
    rw [show maxTickIndex = 443636 from rfl, sqrtPriceFromTickIndex_max] at greatest
    obtain ⟨⟨-, inGreatest⟩, reached, -⟩ := tickIndexFromSqrtPrice_spec least greatest
    rw [checkedTickIndexFromSqrtPrice_eq least greatest]
    refine congrArg _ (le_antisymm ?_ ?_)
    · by_contra after
      exact absurd (sqrtPriceFromTickIndex_lt above (not_le.mp after) inGreatest)
        (not_lt.mpr reached)
    · exact (le_tickIndexFromSqrtPrice_iff least greatest above below).mpr le_rfl

/-- The price one is the price of tick zero, and the search finds it. -/
theorem tickConversion_adjoint_one : ∃ tick, checkedTickIndexFromSqrtPrice (2 ^ 64) = .ok tick ∧
    sqrtPriceFromTickIndex tick ≤ 2 ^ 64 ∧ 0 ≤ tick := by
  obtain ⟨tick, returned, -, reached, greatest⟩ :=
    tickConversion_adjoint.1 (2 ^ 64) (by decide) (by decide)
  exact ⟨tick, returned, reached, greatest 0 (by decide) (by decide) (by decide)⟩

end Whirlpools
