import Mathlib.Data.ZMod.Basic
import Whirlpools.Accounting.PoolTicks
import Whirlpools.Foundation.Accumulator

/-! # The market: the state a pool shares with a running swap

The tick, price, liquidity, growth accumulators and table of ticks of a pool are
also the variables of a running swap; a market is this common part. Fees of both
tokens and the rewards are channels of the same growth accumulator, whose values
wrap and are therefore residues.
-/

namespace Whirlpools

open Outcome Ledger

/-- A kind of growth: of the fees of one token, or of one reward. -/
inductive Channel where
  | fee (isTokenA : Bool)
  | reward (index : Fin numRewards)
  deriving DecidableEq

/-- Growth accumulators wrap. -/
abbrev Growth := ZMod (2 ^ 128)

/-- The state a pool shares with a running swap. -/
structure Market where
  tickCurrentIndex : ℤ
  sqrtPrice : ℕ
  liquidity : ℕ
  feeGrowthGlobalA : ℕ
  feeGrowthGlobalB : ℕ
  rewardInfos : Fin numRewards → WhirlpoolRewardInfo
  ticks : TickTable

/-- The growth stored outside a tick. -/
def Tick.growthOutside (tick : Tick) : Channel → ℕ
  | .fee true => tick.feeGrowthOutsideA
  | .fee false => tick.feeGrowthOutsideB
  | .reward index => tick.rewardGrowthsOutside index

namespace Market

/-- The global growth of a channel. -/
def growthGlobal (market : Market) : Channel → ℕ
  | .fee true => market.feeGrowthGlobalA
  | .fee false => market.feeGrowthGlobalB
  | .reward index => (market.rewardInfos index).growthGlobalX64

/-- The growth below a tick. -/
def growthBelow (market : Market) (channel : Channel) (tick : ℤ) : Growth :=
  Accumulator.below (market.ticks tick).initialized market.tickCurrentIndex tick
    ((market.ticks tick).growthOutside channel : Growth) (market.growthGlobal channel)

/-- The growth inside a range of ticks. -/
def growthInside (market : Market) (channel : Channel) (lower upper : ℤ) : Growth :=
  market.growthBelow channel upper - market.growthBelow channel lower

/-- Rewards that are not set up have not grown anywhere. -/
def RewardsIdle (market : Market) : Prop :=
  ∀ index, (market.rewardInfos index).initialized = false →
    (market.rewardInfos index).growthGlobalX64 = 0 ∧
      ∀ tick, (market.ticks tick).rewardGrowthsOutside index = 0

end Market

/-- The market of a pool. -/
def Pool.market (pool : Pool) : Market where
  tickCurrentIndex := pool.whirlpool.tickCurrentIndex
  sqrtPrice := pool.whirlpool.sqrtPrice
  liquidity := pool.whirlpool.liquidity
  feeGrowthGlobalA := pool.whirlpool.feeGrowthGlobalA
  feeGrowthGlobalB := pool.whirlpool.feeGrowthGlobalB
  rewardInfos := pool.whirlpool.rewardInfos
  ticks := pool.tickAt

/-- The market of a running swap. -/
def SwapState.market (state : SwapState) (context : SwapContext) (table : TickTable) : Market where
  tickCurrentIndex := state.currTickIndex
  sqrtPrice := state.currSqrtPrice
  liquidity := state.currLiquidity
  feeGrowthGlobalA := (crossingFeeGrowths context state.currFeeGrowthGlobalInput).1
  feeGrowthGlobalB := (crossingFeeGrowths context state.currFeeGrowthGlobalInput).2
  rewardInfos := context.nextRewardInfos
  ticks := table

section Wrapping

/-- A difference that wraps fits the field of a growth. -/
theorem wrappingSub_lt (a b : ℕ) : wrappingSub a b < 2 ^ 128 := Nat.mod_lt _ (by norm_num)

/-- Wrapping subtraction is subtraction of residues. -/
theorem wrappingSub_cast (a b : ℕ) : ((wrappingSub a b : ℕ) : Growth) = a - b := by
  have small : b % 2 ^ 128 ≤ 2 ^ 128 := (Nat.mod_lt _ (by norm_num)).le
  rw [wrappingSub, ZMod.natCast_mod, Nat.cast_add, Nat.cast_sub small, ZMod.natCast_mod,
    ZMod.natCast_self, zero_sub, sub_eq_add_neg]

/-- The number that wrapping subtraction returns stands for the difference of residues. -/
theorem wrappingSub_eq_val (a b : ℕ) : wrappingSub a b = ((a : Growth) - b).val := by
  rw [← wrappingSub_cast, ZMod.val_natCast_of_lt (wrappingSub_lt a b)]

/-- Wrapping addition is addition of residues. -/
theorem wrappingAdd_cast (a b : ℕ) : ((wrappingAdd 128 a b : ℕ) : Growth) = a + b := by
  rw [wrappingAdd, ZMod.natCast_mod, Nat.cast_add]

theorem wrappingAdd_le (width a b : ℕ) : wrappingAdd width a b ≤ a + b := Nat.mod_le _ _

theorem wrappingAdd_of_lt {width a b : ℕ} (fits : a + b < 2 ^ width) :
    wrappingAdd width a b = a + b := Nat.mod_eq_of_lt fits

/-- The program's growth below a tick is the accumulator's. -/
theorem growthBelow_cast (current index : ℤ) (tick : Tick) (global outside : ℕ) :
    ((growthBelow current tick index global outside : ℕ) : Growth) =
      Accumulator.below tick.initialized current index (outside : Growth) global := by
  unfold growthBelow Accumulator.below
  cases tick.initialized with
  | false => simp only [Bool.false_eq_true, not_false_eq_true, ↓reduceIte]
  | true =>
      by_cases left : current < index
      · simp only [not_true_eq_false, ↓reduceIte, left, wrappingSub_cast]
      · simp only [not_true_eq_false, ↓reduceIte, left]

/-- The program's growth above a tick is the accumulator's. -/
theorem growthAbove_cast (current index : ℤ) (tick : Tick) (global outside : ℕ) :
    ((growthAbove current tick index global outside : ℕ) : Growth) =
      Accumulator.above tick.initialized current index (outside : Growth) global := by
  unfold growthAbove Accumulator.above
  cases tick.initialized with
  | false => simp only [Bool.false_eq_true, not_false_eq_true, ↓reduceIte, Nat.cast_zero]
  | true =>
      by_cases left : current < index
      · simp only [not_true_eq_false, ↓reduceIte, left]
      · simp only [not_true_eq_false, ↓reduceIte, left, wrappingSub_cast]

/-- The program's growth inside a range, for one channel, is the accumulator's. -/
private theorem inside_cast (current lower upper : ℤ) (tickLower tickUpper : Tick)
    (global outsideLower outsideUpper : ℕ) :
    ((wrappingSub (wrappingSub global (growthBelow current tickLower lower global outsideLower))
        (growthAbove current tickUpper upper global outsideUpper) : ℕ) : Growth) =
      Accumulator.below tickUpper.initialized current upper (outsideUpper : Growth) global -
        Accumulator.below tickLower.initialized current lower (outsideLower : Growth) global := by
  rw [wrappingSub_cast, wrappingSub_cast, growthBelow_cast, growthAbove_cast,
    Accumulator.inside_eq]

theorem nextRewardGrowthsInside_lt (current : ℤ) (tickLower : Tick) (lower : ℤ) (tickUpper : Tick)
    (upper : ℤ) (rewardInfos : Fin numRewards → WhirlpoolRewardInfo) (index : Fin numRewards) :
    nextRewardGrowthsInside current tickLower lower tickUpper upper rewardInfos index <
      2 ^ 128 := by
  unfold nextRewardGrowthsInside
  split_ifs
  · exact wrappingSub_lt _ _
  · exact Nat.two_pow_pos 128

variable (market : Market) (lower upper : ℤ)

/-- The fee growths inside a range that the program computes. -/
theorem nextFeeGrowthsInside_cast :
    let inside := nextFeeGrowthsInside market.tickCurrentIndex (market.ticks lower) lower
      (market.ticks upper) upper market.feeGrowthGlobalA market.feeGrowthGlobalB
    (inside.1 : Growth) = market.growthInside (.fee true) lower upper ∧
      (inside.2 : Growth) = market.growthInside (.fee false) lower upper := by
  unfold nextFeeGrowthsInside
  exact ⟨inside_cast _ _ _ _ _ _ _ _, inside_cast _ _ _ _ _ _ _ _⟩

/-- The reward growths inside a range that the program computes. -/
theorem nextRewardGrowthsInside_cast (idle : market.RewardsIdle) (index : Fin numRewards) :
    ((nextRewardGrowthsInside market.tickCurrentIndex (market.ticks lower) lower
      (market.ticks upper) upper market.rewardInfos index : ℕ) : Growth) =
      market.growthInside (.reward index) lower upper := by
  unfold nextRewardGrowthsInside
  by_cases initialized : (market.rewardInfos index).initialized = true
  · rw [if_neg (not_not.mpr initialized)]
    exact inside_cast _ _ _ _ _ _ _ _
  · obtain ⟨noGrowth, nowhere⟩ := idle index (Bool.not_eq_true _ ▸ initialized)
    have zero (tick : ℤ) : market.growthBelow (.reward index) tick = 0 := by
      simp only [Market.growthBelow, Market.growthGlobal, Tick.growthOutside, noGrowth, nowhere,
        Nat.cast_zero, Accumulator.below, sub_zero, ite_self]
    rw [if_pos initialized, Nat.cast_zero, Market.growthInside, zero, zero, sub_zero]

end Wrapping

namespace Position

/-- The liquidity of a position in range at a tick. -/
def weight (position : Position) (tick : ℤ) : ℕ :=
  if position.tickLowerIndex ≤ tick ∧ tick < position.tickUpperIndex then position.liquidity else 0

/-- The part of a position in the gross liquidity of a tick. -/
def grossAt (position : Position) (tick : ℤ) : ℕ :=
  (if position.tickLowerIndex = tick then position.liquidity else 0) +
    if position.tickUpperIndex = tick then position.liquidity else 0

/-- The part of a position in the net liquidity of a tick. -/
def netAt (position : Position) (tick : ℤ) : ℤ :=
  (if position.tickLowerIndex = tick then (position.liquidity : ℤ) else 0) -
    if position.tickUpperIndex = tick then (position.liquidity : ℤ) else 0

/-- A position over a range of usable ticks. -/
structure WellFormed (tickSpacing : ℕ) (position : Position) : Prop where
  lower : Tick.checkIsUsableTick position.tickLowerIndex tickSpacing = true
  upper : Tick.checkIsUsableTick position.tickUpperIndex tickSpacing = true
  ordered : position.tickLowerIndex < position.tickUpperIndex

/-- A changed position counts in range with its new liquidity. -/
theorem weight_update (position : Position) (update : PositionUpdate) (tick : ℤ) :
    (position.update update).weight tick =
      if position.tickLowerIndex ≤ tick ∧ tick < position.tickUpperIndex then update.liquidity
      else 0 := rfl

/-- A changed position counts at its bounds with its new liquidity. -/
theorem grossAt_update (position : Position) (update : PositionUpdate) (tick : ℤ) :
    (position.update update).grossAt tick =
      (if position.tickLowerIndex = tick then update.liquidity else 0) +
        if position.tickUpperIndex = tick then update.liquidity else 0 := rfl

/-- A changed position enters and leaves the range with its new liquidity. -/
theorem netAt_update (position : Position) (update : PositionUpdate) (tick : ℤ) :
    (position.update update).netAt tick =
      (if position.tickLowerIndex = tick then (update.liquidity : ℤ) else 0) -
        if position.tickUpperIndex = tick then (update.liquidity : ℤ) else 0 := rfl

variable {position : Position} {tickSpacing : ℕ}

/-- In range or not, a position counts with no more than its liquidity. -/
theorem weight_le (position : Position) (tick : ℤ) : position.weight tick ≤ position.liquidity := by
  unfold weight
  split_ifs
  · exact le_rfl
  · exact Nat.zero_le _

/-- Passing a tick changes the liquidity in range by the net liquidity. -/
theorem weight_sub (wellFormed : position.WellFormed tickSpacing) (tick : ℤ) :
    (position.weight tick : ℤ) = position.weight (tick - 1) + position.netAt tick := by
  have ordered := wellFormed.ordered
  unfold weight netAt
  split_ifs <;> omega

/-- What a position adds to the net liquidity of a tick, it adds to the gross liquidity at least. -/
theorem abs_netAt_le (position : Position) (tick : ℤ) :
    |position.netAt tick| ≤ position.grossAt tick := by
  unfold netAt grossAt
  have nonneg : (0 : ℤ) ≤ position.liquidity := Int.natCast_nonneg _
  rw [abs_le, Nat.cast_add, Nat.cast_ite, Nat.cast_ite, Nat.cast_zero]
  split_ifs <;> constructor <;> linarith

/-- At any one tick a position enters or leaves with its liquidity once. -/
theorem abs_netAt_le_liquidity (wellFormed : position.WellFormed tickSpacing) (tick : ℤ) :
    |position.netAt tick| ≤ position.liquidity := by
  have ordered := wellFormed.ordered
  unfold netAt
  have nonneg : (0 : ℤ) ≤ position.liquidity := Int.natCast_nonneg _
  rw [abs_le]
  split_ifs <;> constructor <;> omega

end Position

/-- The liquidity of all positions in range at a tick. -/
def activeAt (positions : Records Pubkey Position) (tick : ℤ) : ℕ :=
  total (fun position => position.weight tick) positions

/-- The liquidity of all positions. -/
def totalLiquidity (positions : Records Pubkey Position) : ℕ := total Position.liquidity positions

/-- The bookkeeping of a market: its ticks and its liquidity are those of the positions. -/
structure Booked (tickSpacing : ℕ) (market : Market) (positions : Records Pubkey Position) :
    Prop where
  ranges : ∀ position, Holds positions position → position.WellFormed tickSpacing
  gross : ∀ tick, (market.ticks tick).liquidityGross =
    total (fun position => position.grossAt tick) positions
  net : ∀ tick, (market.ticks tick).liquidityNet =
    total (fun position => position.netAt tick) positions
  initialized : ∀ tick, (market.ticks tick).initialized = true ↔
    0 < (market.ticks tick).liquidityGross
  liquidity : market.liquidity = activeAt positions market.tickCurrentIndex
  idle : market.RewardsIdle

section Sums

variable {positions : Records Pubkey Position}

/-- A total of natural numbers is the total of them as integers. -/
theorem total_natCast {α : Type} (quantity : α → ℕ) (records : Records Pubkey α) :
    ((total quantity records : ℕ) : ℤ) = total (fun value => (quantity value : ℤ)) records :=
  total_map_hom (Nat.castAddMonoidHom ℤ) quantity records

theorem abs_total_le {α : Type} {signed : α → ℤ} {bound : α → ℕ} (records : Records Pubkey α)
    (each : ∀ value, Holds records value → |signed value| ≤ bound value) :
    |total signed records| ≤ total bound records := by
  have negative : -total signed records = total (fun value => -signed value) records :=
    total_map_hom (-AddMonoidHom.id ℤ) signed records
  rw [total_natCast, abs_le']
  refine ⟨total_le_total fun value held => (abs_le'.mp (each value held)).1, ?_⟩
  rw [negative]
  exact total_le_total fun value held => (abs_le'.mp (each value held)).2

/-- The liquidity in range is part of the whole. -/
theorem activeAt_le (positions : Records Pubkey Position) (tick : ℤ) :
    activeAt positions tick ≤ totalLiquidity positions :=
  total_le_total fun position _ => position.weight_le tick

end Sums

namespace Booked

variable {tickSpacing : ℕ} {market : Market} {positions : Records Pubkey Position}

/-- Passing a tick changes the liquidity in range by the net liquidity. -/
theorem activeAt_sub (booked : Booked tickSpacing market positions) (tick : ℤ) :
    (activeAt positions tick : ℤ) =
      activeAt positions (tick - 1) + (market.ticks tick).liquidityNet := by
  unfold activeAt
  rw [booked.net, total_natCast, total_natCast, ← total_add]
  exact total_congr fun position held => Position.weight_sub (booked.ranges position held) tick

/-- A tick that is not initialized bounds no liquidity. -/
theorem net_of_empty (booked : Booked tickSpacing market positions) {tick : ℤ}
    (empty : (market.ticks tick).initialized = false) : (market.ticks tick).liquidityNet = 0 := by
  have zero : ¬ 0 < (market.ticks tick).liquidityGross := by
    rw [← booked.initialized, empty]
    exact Bool.false_ne_true
  have bound := abs_total_le positions fun position _ => position.abs_netAt_le tick
  rw [← booked.net, ← booked.gross, Nat.eq_zero_of_not_pos zero] at bound
  exact abs_nonpos_iff.mp bound

/-- The liquidity in range is the same on both ends of a clear segment. -/
theorem activeAt_of_clear (booked : Booked tickSpacing market positions) {lower upper : ℤ}
    (ordered : lower ≤ upper) (clear : market.ticks.Clear lower upper) :
    activeAt positions upper = activeAt positions lower := by
  induction upper, ordered using Int.leInduction with
  | base => rfl
  | succ upper ordered ih =>
      have step := booked.activeAt_sub (upper + 1)
      rw [add_sub_cancel_right, booked.net_of_empty (clear _ (by omega) le_rfl), add_zero] at step
      rw [← ih (clear.mono le_rfl (by omega))]
      exact_mod_cast step

/-- Only usable ticks are initialized. -/
theorem usableOnly (booked : Booked tickSpacing market positions) :
    market.ticks.UsableOnly tickSpacing := by
  intro tick full
  by_contra unusable
  have positive := (booked.initialized tick).mp full
  rw [booked.gross] at positive
  have vanishes : total (fun position => position.grossAt tick) positions =
      total (fun _ => 0) positions := by
    refine total_congr fun position held => ?_
    have ranges := booked.ranges position held
    have lower : position.tickLowerIndex ≠ tick := fun same => unusable (same ▸ ranges.lower)
    have upper : position.tickUpperIndex ≠ tick := fun same => unusable (same ▸ ranges.upper)
    unfold Position.grossAt
    rw [if_neg lower, if_neg upper]
  have zero : total (fun _ => 0) positions = 0 := by
    unfold total
    rw [List.map_const', List.sum_replicate, smul_zero]
  omega

/-- The bounds of a position with liquidity are initialized. -/
theorem bounds_initialized (booked : Booked tickSpacing market positions) {position : Position}
    (held : Holds positions position) (liquid : 0 < position.liquidity) :
    (market.ticks position.tickLowerIndex).initialized = true ∧
      (market.ticks position.tickUpperIndex).initialized = true := by
  obtain ⟨key, found⟩ := held
  have part (tick : ℤ) := le_total (fun position : Position => position.grossAt tick)
    (fun _ _ => Nat.zero_le _) found
  simp only [booked.initialized, booked.gross]
  refine ⟨lt_of_lt_of_le ?_ (part _), lt_of_lt_of_le ?_ (part _)⟩
  · unfold Position.grossAt
    rw [if_pos rfl]
    omega
  · unfold Position.grossAt
    rw [if_pos rfl]
    omega

/-- The net liquidity of a tick is bounded by the liquidity of all positions. -/
theorem abs_net_le (booked : Booked tickSpacing market positions) (tick : ℤ) :
    |(market.ticks tick).liquidityNet| ≤ totalLiquidity positions := by
  rw [booked.net]
  exact abs_total_le positions fun position held =>
    Position.abs_netAt_le_liquidity (booked.ranges position held) tick

end Booked
end Whirlpools
