import Whirlpools.Pools.Solvency

/-! # Price and tick

In every reachable state the price is in range and fits the current tick, so the
tokens moved with a change of liquidity are those at the price clamped to the range.
-/

namespace Whirlpools

open Outcome Ledger

/-- In every reachable pool the price is in range and lies between the prices of the
current tick and its successor; and for every position the classification by the
current tick yields the token amounts at the price clamped to the range. -/
theorem reachable_priceTick {m : Machine} {pool : Pool} (reachable : Reachable m pool) :
    let price := pool.whirlpool.sqrtPrice
    let tick := pool.whirlpool.tickCurrentIndex
    (minSqrtPriceX64 ≤ price ∧ price ≤ maxSqrtPriceX64) ∧
    (minTickIndex - 1 ≤ tick ∧ tick ≤ maxTickIndex) ∧
    (minTickIndex ≤ tick → sqrtPriceFromTickIndex tick ≤ price) ∧
    (tick < maxTickIndex → price ≤ sqrtPriceFromTickIndex (tick + 1)) ∧
    ∀ position, Holds pool.positions position → ∀ liquidityDelta : ℤ,
      -2 ^ 127 ≤ liquidityDelta → liquidityDelta < 2 ^ 127 →
      calculateLiquidityTokenDeltas m tick price position liquidityDelta =
        clampedTokenDeltas m price position liquidityDelta := by
  have consistent := Pool.Consistent.of_reachable reachable
  have place := consistent.place
  exact ⟨⟨place.priceAbove, place.priceBelow⟩, ⟨place.tickAbove, place.tickBelow⟩, place.lower,
    place.upper, fun position held liquidityDelta above below =>
      calculateLiquidityTokenDeltas_eq place (consistent.booked.ranges position held) (by omega)⟩

/-- After crossing the tick at -64 to the left and coming back towards it, the price of the
sample run lies between the prices of the ticks at -74 and -73. -/
theorem reachable_priceTick_sampleRun : ∃ pool, Reachable (.exact false) pool ∧
    pool.whirlpool.tickCurrentIndex = -74 ∧
    sqrtPriceFromTickIndex (-74) ≤ pool.whirlpool.sqrtPrice ∧
    pool.whirlpool.sqrtPrice ≤ sqrtPriceFromTickIndex (-73) ∧
    ∀ position, Holds pool.positions position →
      calculateLiquidityTokenDeltas (.exact false) (-74) pool.whirlpool.sqrtPrice position (-5) =
        clampedTokenDeltas (.exact false) pool.whirlpool.sqrtPrice position (-5) := by
  have ran : (Ledger.run (execute (.exact false)) none sampleRun).1.any (fun pool =>
      decide (pool.whirlpool.tickCurrentIndex = -74)) = true := by decide +kernel
  obtain ⟨pool, reached, current⟩ := (Option.any_eq_true _ _).mp ran
  have current := of_decide_eq_true current
  obtain ⟨-, -, lower, upper, clamped⟩ := reachable_priceTick (m := .exact false)
    ⟨sampleRun, reached⟩
  rw [current] at lower upper clamped
  exact ⟨pool, ⟨sampleRun, reached⟩, current, lower (by decide), upper (by decide),
    fun position held => clamped position held (-5) (by norm_num) (by norm_num)⟩

end Whirlpools
