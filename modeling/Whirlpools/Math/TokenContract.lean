import Whirlpools.Math.SwapAmounts

/-! # The contract of the token formulas

With exact division, a token amount is returned exactly when the rounded real amount
fits. A price is returned only when it is the farthest one that a fixed input pays for, or the
nearest one at which a fixed output is released.
-/

namespace Whirlpools

open Outcome Rounding

section Amounts

variable {price0 price1 liquidity : ℕ} {roundUp checks : Bool}

/-- A price in range. -/
def PriceInRange (price : ℕ) : Prop := minSqrtPriceX64 ≤ price ∧ price ≤ maxSqrtPriceX64

theorem PriceInRange.pos (inRange : PriceInRange price0) : 0 < price0 :=
  lt_of_lt_of_le (by decide) inRange.1

theorem PriceInRange.lt (inRange : PriceInRange price0) : price0 < 2 ^ 96 :=
  lt_of_le_of_lt inRange.2 (by decide)

theorem PriceInRange.lt_wide (inRange : PriceInRange price0) : price0 < 2 ^ 128 :=
  inRange.lt.trans (by norm_num)

/-- An amount of token A is returned exactly when the rounded amount fits. -/
theorem getAmountDeltaA_iff (first : PriceInRange price0) (second : PriceInRange price1)
    (boundL : liquidity < 2 ^ 128) (value : ℕ) :
    getAmountDeltaA (.exact checks) price0 price1 liquidity roundUp = .ok value ↔
      value = roundTo roundUp (amountA liquidity price0 price1) ∧ value < 2 ^ 64 := by
  refine ⟨getAmountDeltaA_eq_ok first.pos second.pos first.lt_wide second.lt_wide boundL, ?_⟩
  rintro ⟨rfl, fits⟩
  exact getAmountDeltaA_exact checks first.pos second.pos first.lt_wide second.lt_wide boundL
    (product_lt_of_fits first.pos second.pos first.lt second.lt fits) fits

/-- An amount of token B is returned exactly when the rounded amount fits. -/
theorem getAmountDeltaB_iff (value : ℕ) :
    getAmountDeltaB price0 price1 liquidity roundUp = .ok value ↔
      value = roundTo roundUp (amountB liquidity price0 price1) ∧ value < 2 ^ 64 := by
  refine ⟨getAmountDeltaB_eq_ok, ?_⟩
  rintro ⟨rfl, fits⟩
  refine getAmountDeltaB_of_fits ?_ fits
  rw [amountB_eq_div, ← div_round_eq roundUp (by norm_num)] at fits
  generalize liquidity * (max price0 price1 - min price0 price1) = product at fits ⊢
  split_ifs at fits <;> omega

end Amounts

section Prices

variable {price liquidity amount next : ℕ} {isIn aToB checks : Bool}

/-- The farthest price in the direction of a trade that an amount put in pays for. -/
structure FarthestFor (aToB : Bool) (liquidity price amount next : ℕ) : Prop where
  onward : Onward aToB price next
  paid : amountOf aToB liquidity price next ≤ amount
  farthest : ∀ other, 0 < other → Onward aToB price other →
    amountOf aToB liquidity price other ≤ amount → Onward aToB other next

/-- The nearest price in the direction of a trade at which an amount is released. -/
structure NearestFor (aToB : Bool) (liquidity price amount next : ℕ) : Prop where
  onward : Onward aToB price next
  released : (amount : ℚ) ≤ amountOf (!aToB) liquidity price next
  nearest : ∀ other, 0 < other → Onward aToB price other →
    (amount : ℚ) ≤ amountOf (!aToB) liquidity price other → Onward aToB next other

/-- The amount recomputed from the price, even rounded up, is at most what was put in. -/
theorem FarthestFor.ceil_le (farthest : FarthestFor aToB liquidity price amount next) :
    roundTo true (amountOf aToB liquidity price next) ≤ amount :=
  Nat.ceil_le.mpr farthest.paid

/-- The amount recomputed from the price, even rounded down, is at least what was taken out. -/
theorem NearestFor.le_floor (nearest : NearestFor aToB liquidity price amount next) :
    amount ≤ roundTo false (amountOf (!aToB) liquidity price next) :=
  Nat.le_floor nearest.released

/-- Without liquidity no amount of token A can be put in. -/
theorem getNextSqrtPriceFromARoundUp_empty (inRange : PriceInRange price) (amountPos : 0 < amount) :
    getNextSqrtPriceFromARoundUp (.exact checks) price 0 amount true ≠ .ok next := by
  intro returned
  rw [getNextSqrtPriceFromARoundUp, if_neg amountPos.ne'] at returned
  obtain ⟨numerator, shifted, returned⟩ := bind_eq_ok.mp returned
  obtain ⟨-, returned⟩ := guard_eq_ok.mp returned
  obtain ⟨result, quotient, returned⟩ := bind_eq_ok.mp returned
  obtain ⟨above, -⟩ := guard_eq_ok.mp returned
  rw [divRoundUpIfU256_eq] at quotient
  obtain ⟨-, numerator_eq⟩ := U256Muldiv.checkedShiftWordLeft_eq_some (okOr_eq_ok.mp shifted)
  rw [toNat_mulU256 (by norm_num) inRange.lt_wide, Nat.zero_mul, Nat.zero_mul] at numerator_eq
  obtain ⟨-, -, rfl⟩ := roundedQuotient_eq_ok quotient
  rw [numerator_eq, Nat.cast_zero, zero_div, roundTo_zero] at above
  exact above (by decide)

/-- Only an input of nothing keeps the price of an empty pool. -/
theorem liquidity_pos_of_input (inRange : PriceInRange price)
    (positive : 0 < liquidity ∨ 0 < amount)
    (returned : getNextSqrtPrice (.exact checks) price liquidity amount true aToB = .ok next) :
    0 < liquidity := by
  by_contra none
  obtain rfl := Nat.eq_zero_of_not_pos none
  have amountPos := positive.resolve_left (lt_irrefl 0)
  cases aToB with
  | true => exact getNextSqrtPriceFromARoundUp_empty inRange amountPos returned
  | false =>
      change getNextSqrtPriceFromBRoundDown _ _ _ _ = _ at returned
      obtain ⟨delta, divided, -⟩ := bind_eq_ok.mp returned
      rw [divRoundUpIf, if_pos rfl] at divided
      simp only [err, reduceCtorEq] at divided

/-- A price moved by an amount of token A is positive. -/
theorem getNextSqrtPriceFromARoundUp_pos (positive : 0 < price)
    (returned : getNextSqrtPriceFromARoundUp (.exact checks) price liquidity amount isIn =
      .ok next) : 0 < next := by
  unfold getNextSqrtPriceFromARoundUp at returned
  by_cases nothing : amount = 0
  · rw [if_pos nothing] at returned
    exact Except.ok.inj returned ▸ positive
  · rw [if_neg nothing] at returned
    obtain ⟨numerator, -, returned⟩ := bind_eq_ok.mp returned
    obtain ⟨-, returned⟩ := guard_eq_ok.mp returned
    obtain ⟨result, -, returned⟩ := bind_eq_ok.mp returned
    obtain ⟨above, returned⟩ := guard_eq_ok.mp returned
    obtain ⟨-, returned⟩ := guard_eq_ok.mp returned
    rw [← Except.ok.inj returned]
    exact lt_of_lt_of_le (by decide) (not_lt.mp above)

/-- The price returned for a fixed input is the farthest one paid for. -/
theorem getNextSqrtPrice_farthest (inRange : PriceInRange price) (boundL : liquidity < 2 ^ 128)
    (amountBound : amount < 2 ^ 64) (present : 0 < liquidity ∨ 0 < amount)
    (returned : getNextSqrtPrice (.exact checks) price liquidity amount true aToB = .ok next) :
    FarthestFor aToB liquidity price amount next := by
  have liquid := liquidity_pos_of_input inRange present returned
  obtain ⟨onward, place⟩ := getNextSqrtPrice_eq_ok inRange.pos inRange.lt_wide liquid boundL
    amountBound returned
  have nextPos : 0 < next := by
    cases aToB with
    | true => exact getNextSqrtPriceFromARoundUp_pos inRange.pos returned
    | false => exact lt_of_lt_of_le inRange.pos (onward_false.mp onward)
  exact ⟨onward, (place next nextPos onward).mp (.refl _ _),
    fun other positive beyond => (place other positive beyond).mpr⟩

/-- The price returned for a fixed output is the nearest one at which it is released. -/
theorem getNextSqrtPrice_nearest (inRange : PriceInRange price) (boundL : liquidity < 2 ^ 128)
    (amountBound : amount < 2 ^ 64)
    (returned : getNextSqrtPrice (.exact checks) price liquidity amount false aToB = .ok next) :
    NearestFor aToB liquidity price amount next := by
  cases aToB with
  | true =>
      -- Token B taken out may lower the price to zero, where its amounts are still linear.
      obtain ⟨below, place⟩ := getNextSqrtPriceFromBRoundDown_eq_ok returned
      exact ⟨below, (place next below).mp le_rfl,
        fun other _ beyond => (place other beyond).mpr⟩
  | false =>
      change getNextSqrtPriceFromARoundUp _ _ _ _ _ = _ at returned
      by_cases liquid : 0 < liquidity
      · obtain ⟨above, place⟩ := getNextSqrtPriceFromARoundUp_eq_ok inRange.pos
          inRange.lt_wide liquid
          boundL amountBound returned
        exact ⟨above, (place next above).mp le_rfl, fun other _ beyond => (place other beyond).mpr⟩
      · obtain rfl := Nat.eq_zero_of_not_pos liquid
        by_cases nothing : amount = 0
        · rw [getNextSqrtPriceFromARoundUp, if_pos nothing] at returned
          obtain rfl := Except.ok.inj returned
          refine ⟨.refl _ _, ?_, fun _ _ beyond _ => beyond⟩
          rw [amountOf_self, nothing, Nat.cast_zero]
        · rw [getNextSqrtPriceFromARoundUp, if_neg nothing] at returned
          obtain ⟨numerator, -, returned⟩ := bind_eq_ok.mp returned
          obtain ⟨unbounded, -⟩ := guard_eq_ok.mp returned
          rw [U256Muldiv.lte_iff, U256Muldiv.toNat_shiftWordLeft,
            U256Muldiv.toNat_new (by norm_num) (by norm_num)] at unbounded
          exact absurd ⟨Bool.false_ne_true, by norm_num⟩ unbounded

/-- With exact division, the token formulas return every amount that fits, rounded as asked, and
no other; a price they return is the farthest that a fixed input pays for, or the nearest that
releases a fixed output, so that the amounts recomputed from it keep to the fixed amount. -/
theorem tokenMath_exact (checks : Bool) :
    (∀ price0 price1 liquidity roundUp value, PriceInRange price0 → PriceInRange price1 →
      liquidity < 2 ^ 128 →
        (getAmountDeltaA (.exact checks) price0 price1 liquidity roundUp = .ok value ↔
          value = roundTo roundUp (amountA liquidity price0 price1) ∧ value < 2 ^ 64) ∧
        (getAmountDeltaB price0 price1 liquidity roundUp = .ok value ↔
          value = roundTo roundUp (amountB liquidity price0 price1) ∧ value < 2 ^ 64)) ∧
    (∀ price liquidity amount aToB next, PriceInRange price → liquidity < 2 ^ 128 →
      amount < 2 ^ 64 → 0 < liquidity ∨ 0 < amount →
        getNextSqrtPrice (.exact checks) price liquidity amount true aToB = .ok next →
          FarthestFor aToB liquidity price amount next ∧
            roundTo true (amountOf aToB liquidity price next) ≤ amount) ∧
    ∀ price liquidity amount aToB next, PriceInRange price → liquidity < 2 ^ 128 →
      amount < 2 ^ 64 →
        getNextSqrtPrice (.exact checks) price liquidity amount false aToB = .ok next →
          NearestFor aToB liquidity price amount next ∧
            amount ≤ roundTo false (amountOf (!aToB) liquidity price next) := by
  refine ⟨fun price0 price1 liquidity roundUp value first second boundL =>
    ⟨getAmountDeltaA_iff first second boundL value, getAmountDeltaB_iff value⟩, ?_, ?_⟩
  · intro price liquidity amount aToB next inRange boundL amountBound present returned
    have farthest := getNextSqrtPrice_farthest inRange boundL amountBound present returned
    exact ⟨farthest, farthest.ceil_le⟩
  · intro price liquidity amount aToB next inRange boundL amountBound returned
    have nearest := getNextSqrtPrice_nearest inRange boundL amountBound returned
    exact ⟨nearest, nearest.le_floor⟩

/-- A thousand units of token A put into a pool at price one. -/
theorem tokenMath_exact_thousand : ∃ next,
    getNextSqrtPrice (.exact true) (2 ^ 64) (10 ^ 9) 1000 true true = .ok next ∧
      FarthestFor true (10 ^ 9) (2 ^ 64) 1000 next := by
  have ran : yields (getNextSqrtPrice (.exact true) (2 ^ 64) (10 ^ 9) 1000 true true)
      (fun _ => true) = true := by decide +kernel
  obtain ⟨next, returned, -⟩ := yields_iff.mp ran
  exact ⟨next, returned, ((tokenMath_exact true).2.1 (2 ^ 64) (10 ^ 9) 1000 true next
    ⟨by decide, by decide⟩ (by norm_num) (by norm_num) (.inl (by norm_num)) returned).1⟩

/-- A pool without liquidity keeps its price for an input of nothing, although every price costs
nothing there. -/
theorem not_farthest_without_liquidity :
    ¬ ∀ price liquidity amount aToB next, PriceInRange price → liquidity < 2 ^ 128 →
      amount < 2 ^ 64 →
        getNextSqrtPrice (.exact true) price liquidity amount true aToB = .ok next →
          FarthestFor aToB liquidity price amount next := by
  intro every
  have farthest := every (2 ^ 64) 0 0 true (2 ^ 64) ⟨by decide, by decide⟩ (by norm_num)
    (by norm_num) rfl
  have free : amountOf true 0 (2 ^ 64) (2 ^ 63) ≤ ((0 : ℕ) : ℚ) := by
    rw [amountOf_zero, Nat.cast_zero]
  have reached := farthest.farthest (2 ^ 63) (by norm_num) (onward_true.mpr (by norm_num)) free
  exact absurd (onward_true.mp reached) (by norm_num)

end Prices

end Whirlpools
