import Whirlpools.Math.TickLogarithm
import Whirlpools.State.Tick

/-! # The prices of ticks as knots of the price line

`tickPrice` extends the prices of the ticks in range to all integers by the
extreme prices, so that it is monotone everywhere. A tick index and a price fit
together when the price lies between the prices of the tick and of its successor;
the upper bound is included, for a price reached from above.
-/

namespace Whirlpools

/-- The price of the tick in range nearest to an index. -/
def tickPrice (tick : ℤ) : ℕ := sqrtPriceFromTickIndex (max minTickIndex (min tick maxTickIndex))

/-- Within the range of ticks the price is the one of the program. -/
theorem tickPrice_of_range {tick : ℤ} (above : minTickIndex ≤ tick) (below : tick ≤ maxTickIndex) :
    tickPrice tick = sqrtPriceFromTickIndex tick := by
  rw [tickPrice, min_eq_left below, max_eq_right above]

/-- The prices of ticks in range increase. -/
theorem sqrtPriceFromTickIndex_lt {lower upper : ℤ} (above : minTickIndex ≤ lower)
    (ordered : lower < upper) (below : upper ≤ maxTickIndex) :
    sqrtPriceFromTickIndex lower < sqrtPriceFromTickIndex upper := by
  unfold minTickIndex at above
  unfold maxTickIndex at below
  induction upper, Int.add_one_le_iff.mpr ordered using Int.leInduction with
  | base =>
      have spacing := sqrtPriceFromTickIndex_spacing lower (by omega) (by omega)
      have positive := sqrtPriceFromTickIndex_pos lower (by omega) (by omega)
      omega
  | succ upper _ ih =>
      have spacing := sqrtPriceFromTickIndex_spacing upper (by omega) (by omega)
      have before := ih (by omega) (by omega)
      omega

theorem sqrtPriceFromTickIndex_le {lower upper : ℤ} (above : minTickIndex ≤ lower)
    (ordered : lower ≤ upper) (below : upper ≤ maxTickIndex) :
    sqrtPriceFromTickIndex lower ≤ sqrtPriceFromTickIndex upper := by
  rcases ordered.eq_or_lt with rfl | strict
  · exact le_rfl
  · exact (sqrtPriceFromTickIndex_lt above strict below).le

theorem minTickIndex_le_max : minTickIndex ≤ maxTickIndex := by decide

/-- The clamped price rises with the tick, over all integers. -/
theorem tickPrice_mono : Monotone tickPrice := by
  intro lower upper ordered
  refine sqrtPriceFromTickIndex_le (le_max_left _ _) ?_ (max_le minTickIndex_le_max
    (min_le_right _ _))
  exact max_le_max le_rfl (min_le_min ordered le_rfl)

theorem tickPrice_of_le {tick : ℤ} (below : tick ≤ minTickIndex) :
    tickPrice tick = minSqrtPriceX64 := by
  rw [tickPrice, min_eq_left (below.trans minTickIndex_le_max), max_eq_left below]
  exact sqrtPriceFromTickIndex_min

/-- Above the range the price is the greatest one. -/
theorem tickPrice_of_ge {tick : ℤ} (above : maxTickIndex ≤ tick) :
    tickPrice tick = maxSqrtPriceX64 := by
  rw [tickPrice, min_eq_right above, max_eq_right minTickIndex_le_max]
  exact sqrtPriceFromTickIndex_max

/-- No tick has a price below the least one. -/
theorem minSqrtPrice_le_tickPrice (tick : ℤ) : minSqrtPriceX64 ≤ tickPrice tick := by
  rw [← tickPrice_of_le (min_le_right tick minTickIndex)]
  exact tickPrice_mono (min_le_left _ _)

/-- No tick has a price above the greatest one. -/
theorem tickPrice_le_maxSqrtPrice (tick : ℤ) : tickPrice tick ≤ maxSqrtPriceX64 := by
  rw [← tickPrice_of_ge (le_max_right tick maxTickIndex)]
  exact tickPrice_mono (le_max_left _ _)

theorem minSqrtPrice_pos : 0 < minSqrtPriceX64 := by decide

theorem maxSqrtPrice_lt : maxSqrtPriceX64 < 2 ^ 97 := by decide

theorem tickPrice_pos (tick : ℤ) : 0 < tickPrice tick :=
  lt_of_lt_of_le minSqrtPrice_pos (minSqrtPrice_le_tickPrice tick)

/-- A tick index and a price in range that fit together. -/
structure PriceTick (price : ℕ) (tick : ℤ) : Prop where
  priceAbove : minSqrtPriceX64 ≤ price
  priceBelow : price ≤ maxSqrtPriceX64
  tickAbove : minTickIndex - 1 ≤ tick
  tickBelow : tick ≤ maxTickIndex
  lower : minTickIndex ≤ tick → sqrtPriceFromTickIndex tick ≤ price
  upper : tick < maxTickIndex → price ≤ sqrtPriceFromTickIndex (tick + 1)

namespace PriceTick

variable {price : ℕ} {tick : ℤ}

theorem price_pos (place : PriceTick price tick) : 0 < price :=
  lt_of_lt_of_le minSqrtPrice_pos place.priceAbove

theorem price_lt (place : PriceTick price tick) : price < 2 ^ 128 :=
  lt_of_le_of_lt place.priceBelow (by decide)

theorem tickPrice_le (place : PriceTick price tick) : tickPrice tick ≤ price := by
  by_cases inside : minTickIndex ≤ tick
  · rw [tickPrice_of_range inside place.tickBelow]
    exact place.lower inside
  · rw [tickPrice_of_le (not_le.mp inside).le]
    exact place.priceAbove

/-- The price of a pool is at most that of the next tick. -/
theorem le_tickPrice (place : PriceTick price tick) : price ≤ tickPrice (tick + 1) := by
  by_cases inside : tick < maxTickIndex
  · rw [tickPrice_of_range (by have := place.tickAbove; omega) (by omega)]
    exact place.upper inside
  · rw [tickPrice_of_ge (by omega)]
    exact place.priceBelow

/-- A price between that of a tick and of the next one belongs to it. -/
theorem of_tickPrice (above : minTickIndex - 1 ≤ tick) (below : tick ≤ maxTickIndex)
    (lower : tickPrice tick ≤ price) (upper : price ≤ tickPrice (tick + 1)) :
    PriceTick price tick where
  priceAbove := (minSqrtPrice_le_tickPrice tick).trans lower
  priceBelow := upper.trans (tickPrice_le_maxSqrtPrice _)
  tickAbove := above
  tickBelow := below
  lower inside := by rwa [tickPrice_of_range inside below] at lower
  upper inside := by rwa [tickPrice_of_range (by omega) (by omega)] at upper

/-- The tick computed from a price fits it. -/
theorem of_sqrtPrice (above : minSqrtPriceX64 ≤ price) (below : price ≤ maxSqrtPriceX64) :
    PriceTick price (tickIndexFromSqrtPrice price) := by
  obtain ⟨range, lower, upper⟩ := tickIndexFromSqrtPrice_spec above below
  exact ⟨above, below, by unfold minTickIndex; omega, range.2, fun _ => lower, fun _ => upper.le⟩

/-- The price of a tick fits the tick and its predecessor. -/
theorem of_tick (above : minTickIndex ≤ tick) (below : tick ≤ maxTickIndex) :
    PriceTick (tickPrice tick) tick ∧ PriceTick (tickPrice tick) (tick - 1) := by
  constructor
  · exact of_tickPrice (by omega) below le_rfl (tickPrice_mono (by omega))
  · refine of_tickPrice (by omega) (by omega) (tickPrice_mono (by omega)) ?_
    rw [sub_add_cancel]

/-- The computed tick of a price strictly below the price of a tick precedes it. -/
theorem tickIndex_lt (place : PriceTick price (tickIndexFromSqrtPrice price)) {other : ℤ}
    (below : price < tickPrice other) : tickIndexFromSqrtPrice price < other := by
  by_contra beyond
  exact absurd (lt_of_le_of_lt ((tickPrice_mono (not_lt.mp beyond)).trans place.tickPrice_le) below)
    (lt_irrefl _)

/-- The computed tick of a price at or above the price of a tick in range does not precede it. -/
theorem le_tickIndex (place : PriceTick price (tickIndexFromSqrtPrice price)) {other : ℤ}
    (range : other ≤ maxTickIndex) (above : tickPrice other ≤ price) :
    other ≤ tickIndexFromSqrtPrice price := by
  by_contra before
  have strict := (tickIndexFromSqrtPrice_spec place.priceAbove place.priceBelow).2.2
  have inside := (tickIndexFromSqrtPrice_spec place.priceAbove place.priceBelow).1
  have monotone := tickPrice_mono (a := tickIndexFromSqrtPrice price + 1) (b := other) (by omega)
  rw [@tickPrice_of_range (tickIndexFromSqrtPrice price + 1)
    (by unfold minTickIndex; omega) (by omega)] at monotone
  omega

end PriceTick
end Whirlpools
