import Whirlpools.Pools.Solvency
import Whirlpools.Ticks.Addressing

/-! # Liquidity can always be withdrawn

A position with liquidity has its tick arrays stored and its bounds in use, the books bound every
sum that a withdrawal computes, and the vaults bound the tokens it moves. So no check on the way out
fails, at any price and after any history of the pool.
-/

namespace Whirlpools

open Outcome Ledger Rounding Book

section Bounds

variable {m : Machine} {tickSpacing : ℕ} {market : Market} {positions : Records Pubkey Position}
  {position : Position} {liquidityDelta : ℤ}

/-- The liquidity of a position is part of the gross liquidity of its bounds. -/
theorem Booked.liquidity_le_gross (booked : Booked tickSpacing market positions)
    (held : Holds positions position) {tick : ℤ}
    (bound : tick = position.tickLowerIndex ∨ tick = position.tickUpperIndex) :
    position.liquidity ≤ (market.ticks tick).liquidityGross := by
  obtain ⟨key, found⟩ := held
  have part := le_total (fun position : Position => position.grossAt tick)
    (fun _ _ => Nat.zero_le _) found
  rw [booked.gross]
  refine le_trans ?_ part
  unfold Position.grossAt
  rcases bound with rfl | rfl
  · rw [if_pos rfl]
    exact Nat.le_add_right _ _
  · rw [if_pos rfl]
    exact Nat.le_add_left _ _

/-- Every position bounds a tick at most twice. -/
theorem Booked.gross_le (booked : Booked tickSpacing market positions) (tick : ℤ) :
    (market.ticks tick).liquidityGross ≤ totalLiquidity positions := by
  rw [booked.gross]
  refine total_le_total fun position held => ?_
  have ordered := (booked.ranges position held).ordered
  unfold Position.grossAt
  split_ifs <;> omega

/-- The liquidity of a position is part of the whole. -/
theorem liquidity_le_total (held : Holds positions position) :
    position.liquidity ≤ totalLiquidity positions := by
  obtain ⟨key, found⟩ := held
  exact le_total Position.liquidity (fun _ _ => Nat.zero_le _) found

/-- A bound of a position takes any withdrawal from it. -/
theorem nextTickModifyLiquidityUpdate_of_booked (booked : Booked tickSpacing market positions)
    (bounded : totalLiquidity positions < 2 ^ 115) (held : Holds positions position)
    (nonpositive : liquidityDelta ≤ 0) (enough : 0 ≤ position.liquidity + liquidityDelta)
    {tick : ℤ} (bound : tick = position.tickLowerIndex ∨ tick = position.tickUpperIndex)
    (current : ℤ) (growthA growthB : ℕ) (infos : Fin numRewards → WhirlpoolRewardInfo)
    (isUpperTick : Bool) :
    ∃ update, nextTickModifyLiquidityUpdate m (market.ticks tick) tick current growthA growthB infos
      liquidityDelta isUpperTick = .ok update := by
  have part := booked.liquidity_le_gross held bound
  have gross := booked.gross_le tick
  have net := booked.abs_net_le tick
  have whole := liquidity_le_total held
  rw [abs_le] at net
  unfold nextTickModifyLiquidityUpdate
  by_cases zero : liquidityDelta = 0
  · exact ⟨_, if_pos zero⟩
  · rw [if_neg zero, addLiquidityDelta_of_fits m (by omega) (by omega) (by omega), ok_bind]
    by_cases vanishes : (((market.ticks tick).liquidityGross : ℤ) + liquidityDelta).toNat = 0
    · exact ⟨_, if_pos vanishes⟩
    · have fits : -2 ^ 127 ≤ (if isUpperTick then (market.ticks tick).liquidityNet - liquidityDelta
            else (market.ticks tick).liquidityNet + liquidityDelta) ∧
          (if isUpperTick then (market.ticks tick).liquidityNet - liquidityDelta
            else (market.ticks tick).liquidityNet + liquidityDelta) < 2 ^ 127 := by
        split_ifs <;> omega
      rw [if_neg vanishes, checkedI128, if_pos fits]
      exact ⟨_, rfl⟩

/-- The liquidity of a pool takes any withdrawal from a position in range. -/
theorem nextWhirlpoolLiquidity_of_booked (whirlpool : Whirlpool)
    (booked : Booked tickSpacing market positions)
    (bounded : totalLiquidity positions < 2 ^ 115) (held : Holds positions position)
    (nonpositive : liquidityDelta ≤ 0) (enough : 0 ≤ position.liquidity + liquidityDelta)
    (tick_eq : whirlpool.tickCurrentIndex = market.tickCurrentIndex)
    (liquidity_eq : whirlpool.liquidity = market.liquidity) :
    ∃ liquidity, nextWhirlpoolLiquidity m whirlpool position.tickUpperIndex
      position.tickLowerIndex liquidityDelta = .ok liquidity := by
  unfold nextWhirlpoolLiquidity
  by_cases inside : whirlpool.tickCurrentIndex < position.tickUpperIndex ∧
      whirlpool.tickCurrentIndex ≥ position.tickLowerIndex
  · have active := activeAt_le positions market.tickCurrentIndex
    have whole := liquidity_le_total held
    obtain ⟨key, found⟩ := held
    have part := le_total (fun position : Position => position.weight market.tickCurrentIndex)
      (fun _ _ => Nat.zero_le _) found
    rw [tick_eq] at inside
    change position.weight market.tickCurrentIndex ≤ activeAt positions market.tickCurrentIndex
      at part
    rw [← booked.liquidity] at active part
    rw [Position.weight, if_pos ⟨inside.2, inside.1⟩] at part
    rw [tick_eq, if_pos inside, liquidity_eq]
    exact ⟨_, addLiquidityDelta_of_fits m (by omega) (by omega) (by omega)⟩
  · exact ⟨_, if_neg inside⟩

end Bounds

/-- A time that is not negative converts to itself. -/
theorem toTimestampU64_natCast (timestamp : ℕ) : toTimestampU64 timestamp = .ok timestamp := by
  rw [toTimestampU64, if_neg (by omega), Int.toNat_natCast]

/-- Accruing succeeds from the last update on. -/
theorem nextWhirlpoolRewardInfos_of_later {whirlpool : Whirlpool} {timestamp : ℕ}
    (later : whirlpool.rewardLastUpdatedTimestamp ≤ timestamp) :
    ∃ infos, nextWhirlpoolRewardInfos whirlpool timestamp = .ok infos := by
  unfold nextWhirlpoolRewardInfos
  dsimp only
  rw [if_neg (not_lt.mpr later)]
  split_ifs
  · exact ⟨_, rfl⟩
  · exact ⟨_, rfl⟩

namespace Pool

variable {m : Machine} {pool : Pool} {positionMint : Pubkey} {position : Position}

section Stored

variable (filed : pool.ArraysFiled) {tick : ℤ}
include filed

/-- A tick in use is a tick of the stored array it belongs to. -/
theorem ArraysFiled.stored (full : (pool.tickAt tick).initialized = true)
    (usable : Tick.checkIsUsableTick tick pool.whirlpool.tickSpacing = true) :
    ∃ array, pool.tickArray (arrayStart tick pool.whirlpool.tickSpacing) = .ok array ∧
      IsTickOf array pool.whirlpool.tickSpacing tick := by
  have stored := not_unstored full
  simp only [Unstored, not_or, not_not] at stored
  obtain ⟨array, found⟩ := Option.ne_none_iff_exists'.mp stored.1
  refine ⟨array, okOr_eq_ok.mpr found, checkInArrayBounds_iff.mpr ?_, usable⟩
  rw [filed.start found]
  exact arrayStart_le tick (filed.spacing found)

/-- The tick of a stored array is that of the table. -/
theorem ArraysFiled.getTick_eq {start : ℤ} {array : TickArray}
    (found : pool.tickArray start = .ok array)
    (member : IsTickOf array pool.whirlpool.tickSpacing tick) :
    array.getTick tick pool.whirlpool.tickSpacing = .ok (pool.tickAt tick) := by
  have stored := tickArray_eq_ok.mp found
  have positive := filed.spacing stored
  obtain ⟨above, below⟩ := checkInArrayBounds_iff.mp member.1
  obtain ⟨tick', read⟩ := getTick_of_inside positive member.2 above below
  rw [read, (filed.carries stored).getTick_eq_ok positive read]

/-- A tick of a stored array can be updated, and every array stays stored. -/
theorem ArraysFiled.updateTick_ok {start : ℤ} {array : TickArray}
    (found : pool.tickArray start = .ok array)
    (member : IsTickOf array pool.whirlpool.tickSpacing tick) (update : TickUpdate) :
    ∃ pool', pool.updateTick start tick update = .ok pool' ∧
      ∀ {other kept}, pool.tickArray other = .ok kept → ∃ kept', pool'.tickArray other = .ok kept' ∧
        kept'.startTickIndex = kept.startTickIndex := by
  obtain ⟨updated, written, start_eq, -⟩ :=
    updateTick_spec (filed.spacing (tickArray_eq_ok.mp found)) member update
  refine ⟨{ pool with tickArrays := Function.update pool.tickArrays start (some updated) }, ?_, ?_⟩
  · rw [updateTick, found, ok_bind, written, ok_bind]
  · intro other kept stored
    by_cases same : other = start
    · subst same
      obtain rfl := Except.ok.inj (found.symm.trans stored)
      exact ⟨updated, okOr_eq_ok.mpr (Function.update_self _ _ _), start_eq⟩
    · refine ⟨kept, okOr_eq_ok.mpr ?_, rfl⟩
      dsimp only
      rw [Function.update_of_ne same]
      exact tickArray_eq_ok.mp stored

end Stored

section Update

variable (consistent : pool.Consistent)
  (found : pool.positions.lookup positionMint = some position) {timestamp : ℕ}
  (later : pool.whirlpool.rewardLastUpdatedTimestamp ≤ timestamp) {liquidityDelta : ℤ}
include consistent found

/-- The bounds of a position with liquidity are ticks of stored arrays. -/
theorem Consistent.bounds_stored (liquid : 0 < position.liquidity) :
    (∃ array, pool.tickArray (arrayStart position.tickLowerIndex pool.whirlpool.tickSpacing) =
        .ok array ∧ IsTickOf array pool.whirlpool.tickSpacing position.tickLowerIndex) ∧
      ∃ array, pool.tickArray (arrayStart position.tickUpperIndex pool.whirlpool.tickSpacing) =
        .ok array ∧ IsTickOf array pool.whirlpool.tickSpacing position.tickUpperIndex := by
  have held : Holds pool.positions position := ⟨positionMint, found⟩
  have wellFormed := consistent.booked.ranges position held
  obtain ⟨lowerFull, upperFull⟩ := consistent.booked.bounds_initialized held liquid
  exact ⟨consistent.filed.stored lowerFull wellFormed.lower,
    consistent.filed.stored upperFull wellFormed.upper⟩

include later

/-- The update of a position that is withdrawn from, or brought up to date, is computed. -/
theorem Consistent.calculateModifyLiquidityOfTicks_ok (liquid : 0 < position.liquidity)
    (nonpositive : liquidityDelta ≤ 0) (enough : 0 ≤ position.liquidity + liquidityDelta) :
    ∃ update, calculateModifyLiquidityOfTicks m pool.whirlpool position
      (pool.tickAt position.tickLowerIndex) (pool.tickAt position.tickUpperIndex)
      position.tickLowerIndex position.tickUpperIndex liquidityDelta timestamp = .ok update := by
  have held : Holds pool.positions position := ⟨positionMint, found⟩
  have bounded := consistent.totalLiquidity_lt
  have whole := liquidity_le_total held
  obtain ⟨infos, accrued⟩ := nextWhirlpoolRewardInfos_of_later later
  obtain ⟨liquidity, poolLiquidity⟩ := nextWhirlpoolLiquidity_of_booked (m := m)
    pool.whirlpool consistent.booked bounded held nonpositive enough rfl rfl
  have bound (tick : ℤ) (isUpperTick : Bool)
      (which : tick = position.tickLowerIndex ∨ tick = position.tickUpperIndex) :=
    nextTickModifyLiquidityUpdate_of_booked (m := m) consistent.booked bounded held nonpositive
      enough which pool.whirlpool.tickCurrentIndex pool.whirlpool.feeGrowthGlobalA
      pool.whirlpool.feeGrowthGlobalB infos isUpperTick
  obtain ⟨lowerUpdate, lower⟩ := bound position.tickLowerIndex false (.inl rfl)
  obtain ⟨upperUpdate, upper⟩ := bound position.tickUpperIndex true (.inr rfl)
  change nextTickModifyLiquidityUpdate m (pool.tickAt _) _ _ _ _ _ _ _ = _ at lower upper
  unfold calculateModifyLiquidityOfTicks nextPositionModifyLiquidityUpdate
  rw [if_neg (fun both => liquid.ne' both.2), accrued, ok_bind, poolLiquidity, ok_bind, lower,
    ok_bind, upper, ok_bind]
  dsimp only
  rw [addLiquidityDelta_of_fits m enough (by omega) (by omega)]
  exact ⟨_, rfl⟩

/-- The update is computed from the tick arrays of the position. -/
theorem Consistent.calculateModifyLiquidity_ok (liquidityDelta : ℤ)
    (liquid : 0 < position.liquidity)
    (nonpositive : liquidityDelta ≤ 0) (enough : 0 ≤ position.liquidity + liquidityDelta) :
    ∃ lower upper update,
      pool.tickArray (arrayStart position.tickLowerIndex pool.whirlpool.tickSpacing) = .ok lower ∧
      pool.tickArray (arrayStart position.tickUpperIndex pool.whirlpool.tickSpacing) = .ok upper ∧
      Whirlpools.calculateModifyLiquidity m pool.whirlpool position lower upper liquidityDelta
        timestamp = .ok update := by
  obtain ⟨⟨lower, storedLower, lowerMember⟩, upper, storedUpper, upperMember⟩ :=
    consistent.bounds_stored found liquid
  obtain ⟨update, computed⟩ := consistent.calculateModifyLiquidityOfTicks_ok (m := m) found later
    liquid nonpositive enough
  refine ⟨lower, upper, update, storedLower, storedUpper, ?_⟩
  rw [Whirlpools.calculateModifyLiquidity, consistent.filed.getTick_eq storedLower lowerMember,
    ok_bind, consistent.filed.getTick_eq storedUpper upperMember, ok_bind, computed]

/-- A position with liquidity can be brought up to date. -/
theorem Consistent.updateFeesAndRewards_ok (liquid : 0 < position.liquidity) :
    ∃ update, pool.execute m (.updateFeesAndRewards positionMint
        (arrayStart position.tickLowerIndex pool.whirlpool.tickSpacing)
        (arrayStart position.tickUpperIndex pool.whirlpool.tickSpacing) timestamp) =
      .ok ({ pool with
          whirlpool := pool.whirlpool.updateRewards update.rewardInfos timestamp }.setPosition
            positionMint (position.update update.positionUpdate),
        .credit pool timestamp position update.positionUpdate) ∧
      nextWhirlpoolRewardInfos pool.whirlpool timestamp = .ok update.rewardInfos ∧
      Modifies m (pool.market.accrue update.rewardInfos) position 0 update := by
  obtain ⟨lower, upper, update, storedLower, storedUpper, computed⟩ :=
    consistent.calculateModifyLiquidity_ok (m := m) found later 0 liquid le_rfl (by omega)
  obtain ⟨accrued, modifies, -⟩ := calculateModifyLiquidity_modifies consistent.ready
    (tickArray_eq_ok.mp storedLower) (tickArray_eq_ok.mp storedUpper) computed
  have held : pool.position positionMint = .ok position := okOr_eq_ok.mpr found
  refine ⟨update, ?_, accrued, modifies⟩
  change pool.updateFeesAndRewards m _ _ _ _ = _
  unfold updateFeesAndRewards calculateFeeAndRewardGrowths
  rw [toTimestampU64_natCast, ok_bind, held, ok_bind, storedLower, ok_bind, storedUpper, ok_bind,
    computed, ok_bind, ok_bind]

end Update

section Withdraw

/-- The tokens of a withdrawal are computed: the vaults bound them. -/
theorem Consistent.calculateLiquidityTokenDeltas_ok (checks : Bool) (consistent : pool.Consistent)
    (found : pool.positions.lookup positionMint = some position) {liquidityAmount : ℕ}
    (positive : 0 < liquidityAmount) (enough : liquidityAmount ≤ position.liquidity) :
    ∃ amounts, calculateLiquidityTokenDeltas (.exact checks) pool.whirlpool.tickCurrentIndex
      pool.whirlpool.sqrtPrice position (-liquidityAmount) = .ok amounts := by
  have held : Holds pool.positions position := ⟨positionMint, found⟩
  have wellFormed := consistent.booked.ranges position held
  have whole := liquidity_le_total held
  have bounded := consistent.totalLiquidity_lt
  have ordered := tickPrice_mono wellFormed.ordered.le
  have small : liquidityAmount < 2 ^ 128 := by omega
  have fits (isTokenA : Bool) : roundTo false
      (position.tokensOf liquidityAmount isTokenA pool.whirlpool.sqrtPrice) < 2 ^ 64 :=
    lt_of_le_of_lt (Nat.floor_le_of_le (consistent.tokensOf_le found enough isTokenA))
      (consistent.fits isTokenA)
  have fitsA := fits true
  have fitsB := fits false
  unfold Position.tokensOf at fitsA fitsB
  simp only [Bool.false_eq_true, ↓reduceIte] at fitsA fitsB
  rw [wellFormed.prices.1, wellFormed.prices.2] at fitsA fitsB
  obtain ⟨place, place_eq⟩ : ∃ place, place = clamp (tickPrice position.tickLowerIndex)
    (tickPrice position.tickUpperIndex) pool.whirlpool.sqrtPrice := ⟨_, rfl⟩
  have above : tickPrice position.tickLowerIndex ≤ place := place_eq ▸ le_clamp
  have below : place ≤ tickPrice position.tickUpperIndex := place_eq ▸ clamp_le ordered
  rw [← place_eq] at fitsA fitsB
  have top : tickPrice position.tickUpperIndex < 2 ^ 96 :=
    lt_of_le_of_lt (tickPrice_le_maxSqrtPrice _) (by decide)
  have bottom := tickPrice_pos position.tickLowerIndex
  have computedA := getAmountDeltaA_exact checks (lt_of_lt_of_le bottom above) (tickPrice_pos _)
    (by omega) (by omega) small
    (product_lt_of_fits (lt_of_lt_of_le bottom above) (tickPrice_pos _) (by omega) top fitsA) fitsA
  have product : liquidityAmount * (max (tickPrice position.tickLowerIndex) place -
      min (tickPrice position.tickLowerIndex) place) < 2 ^ 128 := by
    have quotient := fitsB
    rw [amountB_eq_div, ← div_round_eq false (by norm_num)] at quotient
    simp only [Bool.false_eq_true, false_and, ↓reduceIte] at quotient
    omega
  have computedB := getAmountDeltaB_of_fits product fitsB
  rw [calculateLiquidityTokenDeltas_eq consistent.place wellFormed (by omega), clampedTokenDeltas,
    if_neg (by omega), Machine.plainAbs_of_ne _ (by omega), ok_bind, Int.natAbs_neg,
    Int.natAbs_natCast]
  dsimp only
  rw [show decide (-(liquidityAmount : ℤ) > 0) = false from decide_eq_false (by omega),
    wellFormed.prices.1, wellFormed.prices.2, ← place_eq, computedA, ok_bind, computedB]
  exact ⟨_, rfl⟩

/-- The arguments of a change of the liquidity of a position, with its own tick arrays. -/
def ownArgs (pool : Pool) (positionMint : Pubkey) (position : Position)
    (liquidityAmount timestamp : ℕ) : ModifyLiquidityArgs where
  positionMint := positionMint
  tickArrayLower := arrayStart position.tickLowerIndex pool.whirlpool.tickSpacing
  tickArrayUpper := arrayStart position.tickUpperIndex pool.whirlpool.tickSpacing
  liquidityAmount := liquidityAmount
  unixTimestamp := timestamp

/-- Writing an update to the tick arrays of a position succeeds. -/
theorem Consistent.syncModifyLiquidityValues_ok (consistent : pool.Consistent)
    (found : pool.positions.lookup positionMint = some position) (liquid : 0 < position.liquidity)
    (update : ModifyLiquidityUpdate) (liquidityAmount timestamp : ℕ) :
    ∃ synced, pool.syncModifyLiquidityValues
      (pool.ownArgs positionMint position liquidityAmount timestamp) position update timestamp =
        .ok synced := by
  obtain ⟨⟨lower, storedLower, lowerMember⟩, upper, storedUpper, upperMember⟩ :=
    consistent.bounds_stored found liquid
  have filed : (pool.setPosition positionMint
    (position.update update.positionUpdate)).ArraysFiled :=
    consistent.filed.congr rfl rfl
  obtain ⟨first, wroteLower, kept⟩ := filed.updateTick_ok storedLower lowerMember
    update.tickLowerUpdate
  obtain ⟨-, filed', rest⟩ := updateTick_eq_ok filed wroteLower
  obtain ⟨upper', storedUpper', start_eq⟩ := kept storedUpper
  have spacing_eq : first.whirlpool.tickSpacing = pool.whirlpool.tickSpacing := by
    rw [rest]
    rfl
  have member : IsTickOf upper' first.whirlpool.tickSpacing position.tickUpperIndex := by
    rw [spacing_eq]
    refine ⟨checkInArrayBounds_iff.mpr ?_, upperMember.2⟩
    rw [start_eq]
    exact checkInArrayBounds_iff.mp upperMember.1
  obtain ⟨second, wroteUpper, -⟩ := filed'.updateTick_ok storedUpper' member update.tickUpperUpdate
  unfold syncModifyLiquidityValues ownArgs
  dsimp only
  rw [wroteLower, ok_bind, wroteUpper]
  exact ⟨_, rfl⟩

/-- The computation of a withdrawal succeeds. -/
theorem Consistent.modifyLiquidity_ok (checks : Bool) (consistent : pool.Consistent)
    (found : pool.positions.lookup positionMint = some position) {liquidityAmount timestamp : ℕ}
    (positive : 0 < liquidityAmount) (enough : liquidityAmount ≤ position.liquidity)
    (later : pool.whirlpool.rewardLastUpdatedTimestamp ≤ timestamp) :
    ∃ synced deltaA deltaB positionUpdate, pool.modifyLiquidity (.exact checks)
      (pool.ownArgs positionMint position liquidityAmount timestamp) false =
        .ok (synced, deltaA, deltaB, .credit pool timestamp position positionUpdate) := by
  have whole := liquidity_le_total ⟨positionMint, found⟩
  have bounded := consistent.totalLiquidity_lt
  have present : 0 < position.liquidity := by omega
  obtain ⟨lower, upper, update, storedLower, storedUpper, computed⟩ :=
    consistent.calculateModifyLiquidity_ok (m := .exact checks) found later (-liquidityAmount)
      present (by omega) (by omega)
  obtain ⟨synced, wrote⟩ := consistent.syncModifyLiquidityValues_ok found present update
    liquidityAmount timestamp
  obtain ⟨⟨deltaA, deltaB⟩, moved⟩ :=
    consistent.calculateLiquidityTokenDeltas_ok checks found positive enough
  have price_eq : synced.whirlpool.sqrtPrice = pool.whirlpool.sqrtPrice ∧
      synced.whirlpool.tickCurrentIndex = pool.whirlpool.tickCurrentIndex := by
    obtain ⟨-, rest, -⟩ := syncModifyLiquidityValues_eq_ok consistent.filed wrote
    rw [rest]
    exact ⟨rfl, rfl⟩
  have held : pool.position positionMint = .ok position := okOr_eq_ok.mpr found
  have nonzero : (pool.ownArgs positionMint position liquidityAmount timestamp).liquidityAmount ≠
    0 :=
    positive.ne'
  have converted : convertToLiquidityDelta (pool.ownArgs positionMint position liquidityAmount
      timestamp).liquidityAmount false = .ok (-liquidityAmount) :=
    if_neg (show ¬ liquidityAmount > 2 ^ 127 - 1 by omega)
  have clock : toTimestampU64 (pool.ownArgs positionMint position liquidityAmount
      timestamp).unixTimestamp = .ok timestamp := toTimestampU64_natCast timestamp
  have calculated :
      pool.calculateModifyLiquidity (.exact checks)
      (pool.ownArgs positionMint position liquidityAmount timestamp) (-liquidityAmount) timestamp =
        .ok (position, update) := by
    unfold calculateModifyLiquidity ownArgs
    dsimp only
    rw [held, ok_bind, storedLower, ok_bind, storedUpper, ok_bind, computed, ok_bind]
  refine ⟨synced, deltaA, deltaB, update.positionUpdate, ?_⟩
  unfold modifyLiquidity
  rw [if_neg nonzero, converted, ok_bind, clock, ok_bind, calculated, ok_bind]
  dsimp only
  rw [wrote, ok_bind, price_eq.1, price_eq.2, moved, ok_bind]

/-- What withdrawing liquidity from a position at a timestamp leaves behind. -/
structure Withdraws (m : Machine) (pool : Pool) (positionMint : Pubkey) (position : Position)
    (liquidityAmount timestamp : ℕ) (update : ModifyLiquidityUpdate) (pool' : Pool) : Prop where
  accrued : nextWhirlpoolRewardInfos pool.whirlpool timestamp = .ok update.rewardInfos
  modifies : Modifies m (pool.market.accrue update.rewardInfos) position (-liquidityAmount) update
  positions : pool'.positions =
    pool.positions.insert positionMint (position.update update.positionUpdate)
  whirlpool : pool'.whirlpool = pool.whirlpool.updateRewardsAndLiquidity update.rewardInfos
    update.whirlpoolLiquidity timestamp
  paid : ∀ isTokenA, pool.vault isTokenA = pool'.vault isTokenA +
    ⌊position.tokensOf liquidityAmount isTokenA pool.whirlpool.sqrtPrice⌋₊

/-- Any part of the liquidity of a position can be withdrawn, and its tokens are paid. -/
theorem Consistent.decreaseLiquidity_ok (checks : Bool) (consistent : pool.Consistent)
    (found : pool.positions.lookup positionMint = some position) {liquidityAmount timestamp : ℕ}
    (positive : 0 < liquidityAmount) (enough : liquidityAmount ≤ position.liquidity)
    (later : pool.whirlpool.rewardLastUpdatedTimestamp ≤ timestamp) :
    ∃ pool' receipt update, pool.execute (.exact checks) (.decreaseLiquidity
        (pool.ownArgs positionMint position liquidityAmount timestamp) 0 0) = .ok (pool', receipt) ∧
      pool.Withdraws (.exact checks) positionMint position liquidityAmount timestamp
        update pool' := by
  obtain ⟨synced, deltaA, deltaB, positionUpdate, modified⟩ :=
    consistent.modifyLiquidity_ok checks found positive enough later
  obtain ⟨final, moved⟩ := consistent.decrease_covered modified
  obtain ⟨timestamp', position', update, liquidityDelta, receipt_eq, delta_eq, -, -,
    found', accrued, modifies, -, rest, -, amounts⟩ :=
      modifyLiquidity_eq_ok consistent.ready modified
  obtain rfl := Option.some.inj (found.symm.trans found')
  simp only [Receipt.credit.injEq, true_and] at receipt_eq
  obtain ⟨rfl, -⟩ := receipt_eq
  obtain ⟨final_eq, vaults⟩ := withdraw_eq_ok moved
  rw [if_neg Bool.false_ne_true] at delta_eq
  subst delta_eq
  refine ⟨final, .credit pool timestamp position positionUpdate, update, ?_, accrued, modifies, ?_,
    ?_, fun isTokenA => ?_⟩
  · change pool.decreaseLiquidity _ _ 0 0 = _
    unfold decreaseLiquidity
    rw [modified, ok_bind]
    dsimp only
    rw [if_neg (Nat.not_lt_zero _), if_neg (Nat.not_lt_zero _), moved, ok_bind]
  · rw [final_eq, rest]
    rfl
  · rw [final_eq, rest]
  · have same : synced.vault isTokenA = pool.vault isTokenA := by
      rw [rest]
      rfl
    have paid := vaults isTokenA
    rwa [amounts isTokenA, same] at paid

end Withdraw

end Pool

/-- In every reachable pool, any part of the liquidity of any position can be withdrawn with the
position's own tick arrays from the last update of the rewards on: the position keeps the rest, and
the vaults pay the exact tokens rounded down. -/
theorem reachable_withdrawable {checks : Bool} {pool : Pool}
    (reachable : Reachable (.exact checks) pool) {positionMint : Pubkey} {position : Position}
    (found : pool.positions.lookup positionMint = some position) {liquidityAmount timestamp : ℕ}
    (positive : 0 < liquidityAmount) (enough : liquidityAmount ≤ position.liquidity)
    (later : pool.whirlpool.rewardLastUpdatedTimestamp ≤ timestamp) :
    ∃ pool' receipt position', pool.execute (.exact checks) (.decreaseLiquidity
        (pool.ownArgs positionMint position liquidityAmount timestamp) 0 0) = .ok (pool', receipt) ∧
      pool'.positions = pool.positions.insert positionMint position' ∧
      position'.liquidity + liquidityAmount = position.liquidity ∧
      ∀ isTokenA, pool.vault isTokenA = pool'.vault isTokenA +
        ⌊position.tokensOf liquidityAmount isTokenA pool.whirlpool.sqrtPrice⌋₊ := by
  obtain ⟨pool', receipt, update, executed, withdraws⟩ :=
    (Pool.Consistent.of_reachable reachable).decreaseLiquidity_ok checks found positive
      enough later
  have liquidity := withdraws.modifies.liquidity
  refine ⟨pool', receipt, _, executed, withdraws.positions, ?_, withdraws.paid⟩
  change update.positionUpdate.liquidity + liquidityAmount = position.liquidity
  omega

/-- Half of a position of the sample run is withdrawn. -/
theorem reachable_withdrawable_sampleRun : ∃ pool position, Reachable (.exact false) pool ∧
    pool.positions.lookup 7 = some position ∧
    ∃ pool' receipt position', pool.execute (.exact false) (.decreaseLiquidity
        (pool.ownArgs 7 position 500000000 100) 0 0) = .ok (pool', receipt) ∧
      pool'.positions = pool.positions.insert 7 position' ∧
      position'.liquidity + 500000000 = position.liquidity ∧
      ∀ isTokenA, pool.vault isTokenA = pool'.vault isTokenA +
        ⌊position.tokensOf 500000000 isTokenA pool.whirlpool.sqrtPrice⌋₊ := by
  have ran : (Ledger.run (execute (.exact false)) none sampleRun).1.any (fun pool =>
      (pool.positions.lookup 7).any fun position =>
        decide (500000000 ≤ position.liquidity ∧
          pool.whirlpool.rewardLastUpdatedTimestamp ≤ 100)) = true := by decide +kernel
  obtain ⟨pool, reached, held⟩ := (Option.any_eq_true _ _).mp ran
  obtain ⟨position, found, present⟩ := (Option.any_eq_true _ _).mp held
  obtain ⟨enough, later⟩ := of_decide_eq_true present
  exact ⟨pool, position, ⟨sampleRun, reached⟩, found, reachable_withdrawable ⟨sampleRun, reached⟩
    found (by norm_num) enough later⟩

end Whirlpools
