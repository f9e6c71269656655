import Whirlpools.Accounting.Modify

/-! # What the growth accumulators promise to all positions

Growth made at the current tick is earned by the liquidity in range there, which is
the liquidity of the market: the pending credits of all positions together grow by
at most the growth times this liquidity, and by exactly that where nothing wraps.
Bringing a position up to date turns its pending credit into an amount owed.
-/

namespace Whirlpools

open Ledger

namespace Market

/-- The exact amount all positions have earned since their checkpoints. -/
def totalPending (market : Market) (channel : Channel) (positions : Records Pubkey Position) : ℚ :=
  total (market.pending channel) positions

/-- What is pending for all positions is not negative. -/
theorem totalPending_nonneg (market : Market) (channel : Channel)
    (positions : Records Pubkey Position) : 0 ≤ market.totalPending channel positions :=
  total_nonneg fun position _ => market.pending_nonneg channel position

/-- The growth of a channel made at the current tick. -/
def Grows (market market' : Market) (channel : Channel) (growth : ℕ) : Prop :=
  ∀ tick, (market.ticks tick).initialized = true →
    market'.growthBelow channel tick = market.growthBelow channel tick +
      if market.tickCurrentIndex < tick then (growth : Growth) else 0

end Market

section Grows

variable {market market' : Market} {channel : Channel} {growth tickSpacing : ℕ}
  {positions : Records Pubkey Position} {position : Position}

/-- Growth at the current tick counts inside the ranges of initialized ticks around it. -/
theorem Market.Grows.inside (grows : market.Grows market' channel growth) {lower upper : ℤ}
    (ordered : lower < upper) (lowerFull : (market.ticks lower).initialized = true)
    (upperFull : (market.ticks upper).initialized = true) :
    market'.growthInside channel lower upper = market.growthInside channel lower upper +
      if lower ≤ market.tickCurrentIndex ∧ market.tickCurrentIndex < upper then
        (growth : Growth) else 0 := by
  refine Market.growthInside_of_below ordered fun tick bound => grows tick ?_
  rcases bound with rfl | rfl
  · exact lowerFull
  · exact upperFull

/-- The growth since the checkpoint of a position with liquidity. -/
theorem Market.Grows.since (grows : market.Grows market' channel growth)
    (booked : Booked tickSpacing market positions) (held : Holds positions position)
    (liquid : 0 < position.liquidity) :
    market'.growthSince channel position = ((market.growthSince channel position : Growth) +
      if position.tickLowerIndex ≤ market.tickCurrentIndex ∧
        market.tickCurrentIndex < position.tickUpperIndex then (growth : Growth) else 0).val := by
  obtain ⟨lowerFull, upperFull⟩ := booked.bounds_initialized held liquid
  unfold Market.growthSince
  rw [grows.inside (booked.ranges position held).ordered lowerFull upperFull,
    ZMod.natCast_zmod_val, add_sub_right_comm]

/-- A position earns at most the growth while it is in range. -/
theorem Market.Grows.pending_le (grows : market.Grows market' channel growth)
    (booked : Booked tickSpacing market positions) (held : Holds positions position) :
    market'.pending channel position ≤ market.pending channel position +
      (position.weight market.tickCurrentIndex * growth : ℕ) / 2 ^ 64 := by
  unfold Market.pending Position.weight
  rcases Nat.eq_zero_or_pos position.liquidity with none | some
  · rw [none, ite_self]
    simp only [Nat.cast_zero, zero_mul, zero_div, add_zero, le_refl]
  · have since := grows.since booked held some
    rw [← add_div]
    refine div_le_div_of_nonneg_right ?_ (by norm_num)
    have bound : market'.growthSince channel position ≤ market.growthSince channel position +
        if position.tickLowerIndex ≤ market.tickCurrentIndex ∧
          market.tickCurrentIndex < position.tickUpperIndex then growth else 0 := by
      rw [since]
      refine (ZMod.val_add_le _ _).trans (Nat.add_le_add ?_ ?_)
      · rw [ZMod.val_natCast]
        exact Nat.mod_le _ _
      · split_ifs
        · rw [ZMod.val_natCast]
          exact Nat.mod_le _ _
        · rw [ZMod.val_zero]
    have scaled := Nat.mul_le_mul_left position.liquidity bound
    rw [Nat.mul_add, mul_ite, mul_zero] at scaled
    rw [ite_mul, zero_mul]
    exact_mod_cast scaled

/-- A position earns exactly the growth while it is in range, unless its growth wraps. -/
theorem Market.Grows.pending_eq (grows : market.Grows market' channel growth)
    (booked : Booked tickSpacing market positions) (held : Holds positions position)
    (fits : 0 < position.liquidity → market.growthSince channel position + growth < 2 ^ 128) :
    market'.pending channel position = market.pending channel position +
      (position.weight market.tickCurrentIndex * growth : ℕ) / 2 ^ 64 := by
  unfold Market.pending Position.weight
  rcases Nat.eq_zero_or_pos position.liquidity with none | some
  · rw [none, ite_self]
    simp only [Nat.cast_zero, zero_mul, zero_div, add_zero]
  · have since := grows.since booked held some
    have bound := fits some
    rw [← add_div]
    congr 1
    have grown : market'.growthSince channel position = market.growthSince channel position +
        if position.tickLowerIndex ≤ market.tickCurrentIndex ∧
          market.tickCurrentIndex < position.tickUpperIndex then growth else 0 := by
      rw [since]
      split_ifs
      · rw [← Nat.cast_add, ZMod.val_natCast_of_lt bound]
      · rw [add_zero, ZMod.val_natCast_of_lt (by omega), add_zero]
    rw [grown]
    split_ifs <;> push_cast <;> ring

/-- A growth counts for all positions in range as much as for the liquidity of the pool. -/
private theorem total_weight (booked : Booked tickSpacing market positions) (growth : ℕ) :
    total (fun position : Position =>
      ((position.weight market.tickCurrentIndex * growth : ℕ) : ℚ) / 2 ^ 64) positions =
      (market.liquidity * growth : ℚ) / 2 ^ 64 := by
  have scaled := total_map_hom ((AddMonoidHom.mulRight ((growth : ℚ) / 2 ^ 64)).comp
    (Nat.castAddMonoidHom ℚ)) (fun position : Position => position.weight market.tickCurrentIndex)
    positions
  change ((activeAt positions market.tickCurrentIndex : ℕ) : ℚ) * ((growth : ℚ) / 2 ^ 64) = _
    at scaled
  rw [← booked.liquidity] at scaled
  rw [mul_div_assoc, scaled]
  refine total_congr fun position _ => ?_
  change _ = ((position.weight market.tickCurrentIndex : ℕ) : ℚ) * ((growth : ℚ) / 2 ^ 64)
  rw [Nat.cast_mul, mul_div_assoc]

/-- All positions together earn at most the growth times the liquidity in range. -/
theorem Market.Grows.totalPending_le (grows : market.Grows market' channel growth)
    (booked : Booked tickSpacing market positions) :
    market'.totalPending channel positions ≤ market.totalPending channel positions +
      market.liquidity * growth / 2 ^ 64 := by
  rw [← total_weight booked growth, Market.totalPending, Market.totalPending, ← total_add]
  exact total_le_total fun position held => grows.pending_le booked held

/-- Where nothing wraps, all positions together earn the growth times the liquidity in range. -/
theorem Market.Grows.totalPending_eq (grows : market.Grows market' channel growth)
    (booked : Booked tickSpacing market positions)
    (fits : ∀ position, Holds positions position → 0 < position.liquidity →
      market.growthSince channel position + growth < 2 ^ 128) :
    market'.totalPending channel positions = market.totalPending channel positions +
      market.liquidity * growth / 2 ^ 64 := by
  rw [← total_weight booked growth, Market.totalPending, Market.totalPending, ← total_add]
  exact total_congr fun position held => grows.pending_eq booked held (fits position held)

/-- The rewards accrued for a pool are growth at its current tick. -/
theorem Pool.accrue_grows {pool : Pool} {timestamp : ℕ}
    {infos : Fin numRewards → WhirlpoolRewardInfo}
    (accrued : nextWhirlpoolRewardInfos pool.whirlpool timestamp = .ok infos) (channel : Channel) :
    pool.market.Grows (pool.market.accrue infos) channel
      (accrual pool.whirlpool timestamp channel) :=
  fun _ full => Market.accrue_growthBelow accrued channel full

end Grows

namespace Booked

variable {tickSpacing : ℕ} {market : Market} {positions : Records Pubkey Position}

/-- Accruing rewards keeps the books. -/
theorem accrue {pool : Pool} {timestamp : ℕ} {infos : Fin numRewards → WhirlpoolRewardInfo}
    (booked : Booked tickSpacing pool.market positions)
    (accrued : nextWhirlpoolRewardInfos pool.whirlpool timestamp = .ok infos) :
    Booked tickSpacing (pool.market.accrue infos) positions :=
  ⟨booked.ranges, booked.gross, booked.net, booked.initialized, booked.liquidity,
    Market.accrue_idle accrued booked.idle⟩

end Booked

namespace Modifies

variable {m : Machine} {tickSpacing : ℕ} {market : Market} {positions : Records Pubkey Position}
  {positionMint : Pubkey} {position : Position} {liquidityDelta : ℤ}
  {update : ModifyLiquidityUpdate}

/-- A change of liquidity takes the growth inside a range along when both bounds stay in use. -/
theorem growthInside_eq (modifies : Modifies m market position liquidityDelta update)
    (booked : Booked tickSpacing market positions) (channel : Channel) {lower upper : ℤ}
    (lowerFull : ((market.modify position update).ticks lower).initialized = true)
    (upperFull : ((market.modify position update).ticks upper).initialized = true) :
    (market.modify position update).growthInside channel lower upper =
      market.growthInside channel lower upper := by
  unfold Market.growthInside
  rw [modifies.growthBelow_eq booked channel lowerFull,
    modifies.growthBelow_eq booked channel upperFull]

/-- Nothing is pending for the position whose liquidity changed. -/
theorem pending_eq_zero (modifies : Modifies m market position liquidityDelta update)
    (booked : Booked tickSpacing market positions)
    (found : positions.lookup positionMint = some position) (channel : Channel) :
    (market.modify position update).pending channel (position.update update.positionUpdate) =
      0 := by
  unfold Market.pending
  rcases Nat.eq_zero_or_pos (position.update update.positionUpdate).liquidity with none | some
  · rw [none, Nat.cast_zero, zero_mul, zero_div]
  · obtain ⟨lowerFull, upperFull⟩ := (modifies.booked booked found).bounds_initialized
      ⟨positionMint, AList.lookup_insert positions⟩ some
    rw [modifies.growthSince_eq_zero channel
      (modifies.growthInside_eq booked channel lowerFull upperFull), Nat.cast_zero, mul_zero,
      zero_div]

/-- The pending credit of a position leaves the total when it is brought up to date. -/
theorem totalPending_eq (modifies : Modifies m market position liquidityDelta update)
    (booked : Booked tickSpacing market positions)
    (found : positions.lookup positionMint = some position) (channel : Channel) :
    (market.modify position update).totalPending channel
        (positions.insert positionMint (position.update update.positionUpdate)) +
      market.pending channel position = market.totalPending channel positions := by
  have booked' := modifies.booked booked found
  have exchanged := total_insert_congr ((market.modify position update).pending channel)
    (market.pending channel) (position.update update.positionUpdate) found
    fun other value distinct present => by
      unfold Market.pending
      rcases Nat.eq_zero_or_pos value.liquidity with none | some
      · rw [none, Nat.cast_zero, zero_mul, zero_mul]
      · obtain ⟨lowerFull, upperFull⟩ := booked'.bounds_initialized
          ⟨other, (AList.lookup_insert_ne distinct).trans present⟩ some
        unfold Market.growthSince
        rw [modifies.growthInside_eq booked channel lowerFull upperFull]
  rwa [modifies.pending_eq_zero booked found, add_zero] at exchanged

end Modifies
end Whirlpools
