import Mathlib.Order.Bounds.Basic
import Whirlpools.Sdk.TickUtil

/-! # The initializable ticks around a tick

The helpers that pick a tick on the grid of the spacing are documented to round down. The remainder
they use truncates, so a negative tick that is off the grid is rounded up, and the next grid tick
found for it is one too far.
-/

namespace Whirlpools.Sdk.TickUtil

/-- The three helpers pick the grid ticks at, after and before a tick. -/
structure RoundsDown (tickIndex : ℤ) (tickSpacing : ℕ) : Prop where
  down : IsGreatest {tick : ℤ | (tickSpacing : ℤ) ∣ tick ∧ tick ≤ tickIndex}
    (getInitializableTickIndex tickIndex tickSpacing)
  next : IsLeast {tick : ℤ | (tickSpacing : ℤ) ∣ tick ∧ tickIndex < tick}
    (getNextInitializableTickIndex tickIndex tickSpacing)
  prev : IsGreatest
    {tick : ℤ | (tickSpacing : ℤ) ∣ tick ∧ tick < getInitializableTickIndex tickIndex tickSpacing}
    (getPrevInitializableTickIndex tickIndex tickSpacing)

section Grid

variable {spacing grid tick : ℤ}

/-- Between neighbours on the grid there is no grid tick. -/
theorem grid_gap (onGrid : spacing ∣ grid) (divides : spacing ∣ tick) (below : grid < tick) :
    grid + spacing ≤ tick := by
  have gap := Int.le_of_dvd (sub_pos.mpr below) (dvd_sub divides onGrid)
  omega

/-- The grid tick at or below a tick is the greatest, if the next one lies beyond. -/
theorem isGreatest_grid {bound : ℤ} (onGrid : spacing ∣ grid) (below : grid ≤ bound)
    (beyond : bound < grid + spacing) :
    IsGreatest {tick : ℤ | spacing ∣ tick ∧ tick ≤ bound} grid := by
  refine ⟨⟨onGrid, below⟩, fun tick inside => ?_⟩
  by_contra above
  have gap := grid_gap onGrid inside.1 (not_le.mp above)
  have bounded := inside.2
  omega

/-- After a grid point with the bound before the next one, the next one is the least beyond it. -/
theorem isLeast_grid {bound : ℤ} (onGrid : spacing ∣ grid) (below : grid ≤ bound)
    (beyond : bound < grid + spacing) :
    IsLeast {tick : ℤ | spacing ∣ tick ∧ bound < tick} (grid + spacing) :=
  ⟨⟨dvd_add_self_right.mpr onGrid, beyond⟩, fun _ inside =>
    grid_gap onGrid inside.1 (lt_of_le_of_lt below inside.2)⟩

/-- The grid point before another is the greatest one below it. -/
theorem isGreatest_before (onGrid : spacing ∣ grid) (positive : 0 < spacing) :
    IsGreatest {tick : ℤ | spacing ∣ tick ∧ tick < grid} (grid - spacing) := by
  refine ⟨⟨dvd_sub_self_right.mpr onGrid, by omega⟩, fun tick inside => ?_⟩
  have gap := grid_gap inside.1 onGrid inside.2
  omega

end Grid

/-- The tick that the SDK rounds to is on the grid. -/
theorem getInitializableTickIndex_dvd (tickIndex : ℤ) (tickSpacing : ℕ) :
    (tickSpacing : ℤ) ∣ getInitializableTickIndex tickIndex tickSpacing := by
  refine ⟨tickIndex.tdiv tickSpacing, ?_⟩
  have parts := Int.tmod_add_mul_tdiv tickIndex tickSpacing
  unfold getInitializableTickIndex
  omega

/-- The helpers round down exactly from the ticks that are not negative, and from those on the
grid. -/
theorem roundsDown_iff (tickIndex : ℤ) (tickSpacing : ℕ) (spaced : 1 ≤ tickSpacing) :
    RoundsDown tickIndex tickSpacing ↔ 0 ≤ tickIndex ∨ (tickSpacing : ℤ) ∣ tickIndex := by
  have onGrid := getInitializableTickIndex_dvd tickIndex tickSpacing
  have positive : (0 : ℤ) < tickSpacing := by omega
  constructor
  · intro rounds
    by_contra neither
    obtain ⟨negative, off⟩ := not_or.mp neither
    have below : tickIndex - tickIndex.tmod tickSpacing ≤ tickIndex := rounds.down.1.2
    have mirrored := Int.tmod_nonneg (tickSpacing : ℤ) (show 0 ≤ -tickIndex by omega)
    rw [Int.neg_tmod] at mirrored
    exact off (Int.dvd_of_tmod_eq_zero (by omega))
  · intro condition
    have remainder : 0 ≤ tickIndex.tmod tickSpacing := by
      obtain nonneg | divides := condition
      · exact Int.tmod_nonneg _ nonneg
      · exact (Int.tmod_eq_zero_of_dvd divides).ge
    have small := Int.tmod_lt_of_pos tickIndex positive
    have below : getInitializableTickIndex tickIndex tickSpacing ≤ tickIndex :=
      Int.sub_le_self _ remainder
    have beyond : tickIndex < getInitializableTickIndex tickIndex tickSpacing + tickSpacing := by
      unfold getInitializableTickIndex
      omega
    exact ⟨isGreatest_grid onGrid below beyond, isLeast_grid onGrid below beyond,
      isGreatest_before onGrid positive⟩

/-- A tick off the grid on the positive side is rounded down. -/
theorem roundsDown_iff_hundred :
    1 ≤ 64 ∧ (RoundsDown 100 64 ↔ (0 : ℤ) ≤ 100 ∨ ((64 : ℕ) : ℤ) ∣ 100) :=
  ⟨by decide, roundsDown_iff 100 64 (by decide)⟩

/-- The tick -5 is rounded up to 0. -/
theorem not_roundsDown_negative : ¬ RoundsDown (-5) 8 := by
  intro rounds
  have below : getInitializableTickIndex (-5) 8 ≤ -5 := rounds.down.1.2
  exact absurd below (by decide)

end Whirlpools.Sdk.TickUtil
