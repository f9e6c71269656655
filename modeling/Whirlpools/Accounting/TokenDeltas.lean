import Whirlpools.Accounting.Holdings

/-! # The tokens moved with a change of liquidity

The program chooses the tokens to move by the place of the current tick. While the
tick and the price fit together this is the same as clamping the price to the range
of the position, and the tokens moved are the exact amounts of the liquidity,
rounded up for a deposit and down for a withdrawal.
-/

namespace Whirlpools

open Outcome Rounding Book

/-- The token amounts of a liquidity delta with the price clamped to the range. -/
def clampedTokenDeltas (m : Machine) (sqrtPrice : ℕ) (position : Position) (liquidityDelta : ℤ) :
    Result (ℕ × ℕ) :=
  if liquidityDelta = 0 then err .liquidityZero
  else
    m.plainAbs liquidityDelta >>= fun liquidity =>
    let roundUp : Bool := liquidityDelta > 0
    let lowerPrice := sqrtPriceFromTickIndex position.tickLowerIndex
    let upperPrice := sqrtPriceFromTickIndex position.tickUpperIndex
    let place := clamp lowerPrice upperPrice sqrtPrice
    getAmountDeltaA m place upperPrice liquidity roundUp >>= fun deltaA =>
    getAmountDeltaB lowerPrice place liquidity roundUp >>= fun deltaB => .ok (deltaA, deltaB)

section TokenDeltas

variable {m : Machine} {sqrtPrice tickSpacing : ℕ} {tickCurrentIndex liquidityDelta : ℤ}
  {position : Position}

/-- The prices of all ticks fit in 128 bits. -/
theorem tickPrice_lt_word (tick : ℤ) : tickPrice tick < 2 ^ 128 :=
  lt_of_le_of_lt (tickPrice_le_maxSqrtPrice tick) (by decide)

/-- The classification by tick yields the amounts at the clamped price. -/
theorem calculateLiquidityTokenDeltas_eq (place : PriceTick sqrtPrice tickCurrentIndex)
    (wellFormed : position.WellFormed tickSpacing) (bounded : liquidityDelta.natAbs < 2 ^ 128) :
    calculateLiquidityTokenDeltas m tickCurrentIndex sqrtPrice position liquidityDelta =
      clampedTokenDeltas m sqrtPrice position liquidityDelta := by
  have ordered := tickPrice_mono wellFormed.ordered.le
  unfold calculateLiquidityTokenDeltas clampedTokenDeltas
  by_cases zero : liquidityDelta = 0
  · rw [if_pos zero, if_pos zero]
  · rw [if_neg zero, if_neg zero]
    cases absolute : m.plainAbs liquidityDelta with
    | error failure => rw [error_bind, error_bind]
    | ok liquidity =>
        obtain rfl := m.plainAbs_eq absolute
        rw [ok_bind, ok_bind, wellFormed.prices.1, wellFormed.prices.2]
        dsimp only
        by_cases left : tickCurrentIndex < position.tickLowerIndex
        · have before : sqrtPrice ≤ tickPrice position.tickLowerIndex :=
            place.le_tickPrice.trans (tickPrice_mono left)
          rw [if_pos left, clamp_of_le before ordered, getAmountDeltaB_self]
          simp only [ok_bind]
        · rw [if_neg left]
          by_cases inside : tickCurrentIndex < position.tickUpperIndex
          · rw [if_pos inside, clamp_of_mem ((tickPrice_mono (not_lt.mp left)).trans
              place.tickPrice_le) (place.le_tickPrice.trans (tickPrice_mono inside))]
          · have beyond : tickPrice position.tickUpperIndex ≤ sqrtPrice :=
              (tickPrice_mono (not_lt.mp inside)).trans place.tickPrice_le
            rw [if_neg inside, clamp_of_ge beyond ordered, getAmountDeltaA_self (tickPrice_pos _)
              (tickPrice_lt_word _) bounded, ok_bind]

/-- The amounts at the clamped price are the exact amounts of the liquidity, rounded. -/
theorem clampedTokenDeltas_eq_ok {deltaA deltaB : ℕ}
    (wellFormed : position.WellFormed tickSpacing) (bounded : liquidityDelta.natAbs < 2 ^ 128)
    (returned : clampedTokenDeltas m sqrtPrice position liquidityDelta = .ok (deltaA, deltaB)) :
    ∀ isTokenA : Bool, (if isTokenA then deltaA else deltaB) =
      roundTo (liquidityDelta > 0)
      (position.tokensOf liquidityDelta.natAbs isTokenA sqrtPrice) := by
  have ordered := tickPrice_mono wellFormed.ordered.le
  simp only [clampedTokenDeltas, guard_eq_ok, bind_eq_ok, Except.ok.injEq, Prod.mk.injEq]
    at returned
  obtain ⟨-, liquidity, absolute, deltaA', computedA, deltaB', computedB, rfl, rfl⟩ := returned
  obtain rfl := m.plainAbs_eq absolute
  unfold Position.tokensOf
  rw [wellFormed.prices.1, wellFormed.prices.2] at computedA computedB ⊢
  have placePos := lt_of_lt_of_le (tickPrice_pos position.tickLowerIndex)
    (@le_clamp _ _ _ (tickPrice position.tickUpperIndex) sqrtPrice)
  have placeLt := lt_of_le_of_lt (@clamp_le _ _ _ _ sqrtPrice ordered)
    (tickPrice_lt_word position.tickUpperIndex)
  rintro (_ | _)
  · exact (getAmountDeltaB_eq_ok computedB).1
  · exact (getAmountDeltaA_eq_ok placePos (tickPrice_pos _) placeLt (tickPrice_lt_word _) bounded
      computedA).1

end TokenDeltas
end Whirlpools
