import Whirlpools.Accounting.Market

/-! # Accruing rewards and changing the liquidity of a position

Accruing rewards adds to their growth inside every range around the current tick.
Changing the liquidity of a position keeps the books, and leaves the growth below
every tick that is initialized afterwards as it was: a tick taken into use counts
the growth so far on the side where its neighbours count it.
-/

namespace Whirlpools

open Outcome Ledger

namespace Position

/-- The growth inside its range up to which a position was credited. -/
def growthCheckpoint (position : Position) : Channel → ℕ
  | .fee true => position.feeGrowthCheckpointA
  | .fee false => position.feeGrowthCheckpointB
  | .reward index => (position.rewardInfos index).growthInsideCheckpoint

/-- What a position has been credited and not been paid. -/
def owed (position : Position) : Channel → ℕ
  | .fee true => position.feeOwedA
  | .fee false => position.feeOwedB
  | .reward index => (position.rewardInfos index).amountOwed

end Position

namespace Market

/-- The growth inside the range of a position since its checkpoint. -/
def growthSince (market : Market) (channel : Channel) (position : Position) : ℕ :=
  (market.growthInside channel position.tickLowerIndex position.tickUpperIndex -
    position.growthCheckpoint channel).val

/-- What a position is credited when it is brought up to date. -/
def credit (market : Market) (channel : Channel) (position : Position) : ℕ :=
  amountOwedDelta position.liquidity (market.growthSince channel position)

/-- The exact amount a position has earned since its checkpoint. -/
def pending (market : Market) (channel : Channel) (position : Position) : ℚ :=
  position.liquidity * market.growthSince channel position / 2 ^ 64

theorem pending_nonneg (market : Market) (channel : Channel) (position : Position) :
    0 ≤ market.pending channel position := by
  unfold pending
  positivity

/-- A position is never credited more than it earned. -/
theorem credit_le_pending (market : Market) (channel : Channel) (position : Position) :
    (market.credit channel position : ℚ) ≤ market.pending channel position := by
  unfold credit pending amountOwedDelta unwrapOrZero
  generalize market.growthSince channel position = growth
  cases computed : checkedMulShiftRight position.liquidity growth with
  | error => simp only [Nat.cast_zero]; positivity
  | ok value =>
      simp only [checkedMulShiftRight, checkedMulShiftRightRoundUpIf, Bool.false_eq_true,
        false_and, ↓reduceIte] at computed
      rw [le_div_iff₀ (by norm_num)]
      split_ifs at computed with zero
      · rw [← Except.ok.inj computed, Nat.cast_zero, zero_mul]
        positivity
      · rw [← Except.ok.inj computed]
        exact_mod_cast Nat.div_mul_le_self _ _

/-- Where the product fits, a position is credited what it earned, rounded down. -/
theorem pending_lt_credit_add_one (market : Market) (channel : Channel) (position : Position)
    (fits : position.liquidity * market.growthSince channel position < 2 ^ 128) :
    market.pending channel position < market.credit channel position + 1 := by
  unfold credit pending amountOwedDelta unwrapOrZero
  revert fits
  generalize market.growthSince channel position = growth
  intro fits
  simp only [checkedMulShiftRight, checkedMulShiftRightRoundUpIf, Bool.false_eq_true, false_and,
    ↓reduceIte, not_le.mpr fits]
  by_cases zero : position.liquidity = 0 ∨ growth = 0
  · rw [if_pos zero]
    have product : (position.liquidity : ℚ) * growth = 0 := by
      exact_mod_cast Nat.mul_eq_zero.mpr zero
    rw [product, zero_div]
    norm_num
  · rw [if_neg zero]
    dsimp only
    rw [div_lt_iff₀ (by norm_num)]
    have split := Nat.lt_div_mul_add (a := position.liquidity * growth) (b := 2 ^ 64) (by norm_num)
    have bound : position.liquidity * growth <
        (position.liquidity * growth / 2 ^ 64 + 1) * 2 ^ 64 := by
      rw [Nat.add_mul, Nat.one_mul]
      exact split
    exact_mod_cast bound

end Market

section Accrual

/-- The growth of a reward from the last update to a timestamp. -/
def rewardAccrual (whirlpool : Whirlpool) (timestamp : ℕ) (index : Fin numRewards) : ℕ :=
  if whirlpool.liquidity = 0 ∨ timestamp = whirlpool.rewardLastUpdatedTimestamp ∨
      ¬ (whirlpool.rewardInfos index).initialized then 0
  else rewardGrowthDelta (timestamp - whirlpool.rewardLastUpdatedTimestamp)
    (whirlpool.rewardInfos index).emissionsPerSecondX64 whirlpool.liquidity

/-- The growth never exceeds the emissions shared among the liquidity. -/
theorem rewardAccrual_le (whirlpool : Whirlpool) (timestamp : ℕ) (index : Fin numRewards) :
    whirlpool.liquidity * rewardAccrual whirlpool timestamp index ≤
      if 0 < whirlpool.liquidity then
        (timestamp - whirlpool.rewardLastUpdatedTimestamp) *
          (whirlpool.rewardInfos index).emissionsPerSecondX64
      else 0 := by
  unfold rewardAccrual
  split_ifs with idle positive
  · exact Nat.zero_le _
  · exact le_of_eq (Nat.mul_zero _)
  · unfold rewardGrowthDelta unwrapOrZero
    split
    · rename_i value computed
      rw [checkedMulDiv, checkedMulDivRoundUpIf, guard_eq_ok, guard_eq_ok] at computed
      have quotient := Except.ok.inj computed.2.2
      simp only [Bool.false_eq_true, false_and, ↓reduceIte] at quotient
      rw [← quotient]
      exact Nat.mul_div_le _ _
    · rw [Nat.mul_zero]
      exact Nat.zero_le _
  · rename_i some
    omega

/-- Accruing changes nothing but the growth of the rewards that are set up. -/
theorem nextWhirlpoolRewardInfos_eq_ok {whirlpool : Whirlpool} {timestamp : ℕ}
    {infos : Fin numRewards → WhirlpoolRewardInfo}
    (returned : nextWhirlpoolRewardInfos whirlpool timestamp = .ok infos) :
    whirlpool.rewardLastUpdatedTimestamp ≤ timestamp ∧ ∀ index,
      infos index = { whirlpool.rewardInfos index with
        growthGlobalX64 := (infos index).growthGlobalX64 } ∧
      ((infos index).growthGlobalX64 : Growth) =
        (whirlpool.rewardInfos index).growthGlobalX64 + rewardAccrual whirlpool timestamp index ∧
      ((whirlpool.rewardInfos index).initialized = false →
        infos index = whirlpool.rewardInfos index) := by
  simp only [nextWhirlpoolRewardInfos, guard_eq_ok, not_lt] at returned
  obtain ⟨later, returned⟩ := returned
  refine ⟨later, fun index => ?_⟩
  split_ifs at returned with still
  · obtain rfl := Except.ok.inj returned
    have zero : rewardAccrual whirlpool timestamp index = 0 := by
      unfold rewardAccrual
      rw [if_pos]
      rcases still with empty | same
      · exact .inl empty
      · exact .inr (.inl same)
    rw [zero, Nat.cast_zero, add_zero]
    exact ⟨rfl, rfl, fun _ => rfl⟩
  · obtain rfl := Except.ok.inj returned
    dsimp only
    rw [not_or] at still
    cases initialized : (whirlpool.rewardInfos index).initialized with
    | false =>
        have zero : rewardAccrual whirlpool timestamp index = 0 := by
          unfold rewardAccrual
          rw [if_pos]
          exact .inr (.inr (by rw [initialized]; exact Bool.false_ne_true))
        simp only [Bool.false_eq_true, not_false_eq_true, ↓reduceIte, zero, Nat.cast_zero, add_zero,
          implies_true, and_self]
    | true =>
        simp only [not_true_eq_false, ↓reduceIte, Bool.true_eq_false, false_implies, and_true,
          true_and]
        rw [wrappingAdd_cast]
        unfold rewardAccrual
        rw [if_neg (by simp only [still.1, still.2, initialized, not_true_eq_false, or_self,
          not_false_eq_true])]

/-- Accruing keeps the growth of the rewards within its field. -/
theorem nextWhirlpoolRewardInfos_lt {whirlpool : Whirlpool} {timestamp : ℕ}
    {infos : Fin numRewards → WhirlpoolRewardInfo}
    (returned : nextWhirlpoolRewardInfos whirlpool timestamp = .ok infos)
    (fits : ∀ index, (whirlpool.rewardInfos index).growthGlobalX64 < 2 ^ 128)
    (index : Fin numRewards) : (infos index).growthGlobalX64 < 2 ^ 128 := by
  simp only [nextWhirlpoolRewardInfos, guard_eq_ok, not_lt] at returned
  obtain ⟨-, returned⟩ := returned
  split_ifs at returned with still
  · obtain rfl := Except.ok.inj returned
    exact fits index
  · obtain rfl := Except.ok.inj returned
    dsimp only
    split_ifs
    · exact Nat.mod_lt _ (Nat.two_pow_pos 128)
    · exact fits index

/-- A market with its rewards accrued. -/
def Market.accrue (market : Market) (infos : Fin numRewards → WhirlpoolRewardInfo) : Market :=
  { market with rewardInfos := infos }

/-- The growth of a channel made by accruing the rewards of a pool. -/
def accrual (whirlpool : Whirlpool) (timestamp : ℕ) : Channel → ℕ
  | .fee _ => 0
  | .reward index => rewardAccrual whirlpool timestamp index

/-- Growth made at the current tick counts inside the ranges around it. -/
theorem Market.growthInside_of_below {market market' : Market} {channel : Channel}
    {lower upper : ℤ} {growth : Growth} (ordered : lower < upper)
    (below : ∀ tick, tick = lower ∨ tick = upper → market'.growthBelow channel tick =
      market.growthBelow channel tick + if market.tickCurrentIndex < tick then growth else 0) :
    market'.growthInside channel lower upper = market.growthInside channel lower upper +
      if lower ≤ market.tickCurrentIndex ∧ market.tickCurrentIndex < upper then growth else 0 := by
  unfold growthInside
  rw [below lower (.inl rfl), below upper (.inr rfl)]
  split_ifs
  · omega
  · abel
  · abel
  · omega
  · omega
  · omega
  · omega
  · abel

/-- Accruing rewards adds their growth below every initialized tick to the right of the current
one. -/
theorem Market.accrue_growthBelow {pool : Pool} {timestamp : ℕ}
    {infos : Fin numRewards → WhirlpoolRewardInfo}
    (accrued : nextWhirlpoolRewardInfos pool.whirlpool timestamp = .ok infos) (channel : Channel)
    {tick : ℤ} (full : (pool.tickAt tick).initialized = true) :
    (pool.market.accrue infos).growthBelow channel tick = pool.market.growthBelow channel tick +
      if pool.market.tickCurrentIndex < tick then
        (accrual pool.whirlpool timestamp channel : Growth) else 0 := by
  obtain ⟨-, spec⟩ := nextWhirlpoolRewardInfos_eq_ok accrued
  have inUse : (pool.market.ticks tick).initialized = true := full
  cases channel with
  | fee isTokenA =>
      simp only [accrual, Nat.cast_zero, ite_self, add_zero]
      cases isTokenA <;> rfl
  | reward index =>
      have grown : (((pool.market.accrue infos).growthGlobal (.reward index) : ℕ) : Growth) =
          pool.market.growthGlobal (.reward index) + rewardAccrual pool.whirlpool timestamp index :=
        (spec index).2.1
      unfold Market.growthBelow
      rw [grown]
      change Accumulator.below (pool.market.ticks tick).initialized _ _ _ _ = _
      rw [inUse]
      exact Accumulator.below_accrue _ _ _ _ _

/-- Rewards that are not set up stay idle. -/
theorem Market.accrue_idle {pool : Pool} {timestamp : ℕ}
    {infos : Fin numRewards → WhirlpoolRewardInfo}
    (accrued : nextWhirlpoolRewardInfos pool.whirlpool timestamp = .ok infos)
    (idle : pool.market.RewardsIdle) : (pool.market.accrue infos).RewardsIdle := by
  obtain ⟨-, spec⟩ := nextWhirlpoolRewardInfos_eq_ok accrued
  intro index off
  have before : (pool.whirlpool.rewardInfos index).initialized = false := by
    have same := (spec index).1
    change (infos index).initialized = false at off
    rw [same] at off
    exact off
  obtain ⟨zero, nowhere⟩ := idle index before
  refine ⟨?_, nowhere⟩
  change (infos index).growthGlobalX64 = 0
  rw [(spec index).2.2 before]
  exact zero

end Accrual

section Ticks

/-- A bound of a position after a change of its liquidity, seen from the market. -/
structure BoundUpdate (market : Market) (index : ℤ) (liquidityDelta : ℤ) (isUpperTick : Bool)
    (update : TickUpdate) : Prop where
  gross : (update.liquidityGross : ℤ) = (market.ticks index).liquidityGross + liquidityDelta
  empty : liquidityDelta ≠ 0 → update.liquidityGross = 0 → update = Tick.default
  net : liquidityDelta ≠ 0 → update.liquidityGross ≠ 0 → update.liquidityNet =
    (market.ticks index).liquidityNet + if isUpperTick then -liquidityDelta else liquidityDelta
  full : liquidityDelta ≠ 0 → update.liquidityGross ≠ 0 → update.initialized = true
  outside : liquidityDelta ≠ 0 → update.liquidityGross ≠ 0 → ∀ channel,
    update.growthOutside channel =
      if (market.ticks index).liquidityGross = 0 then
        if index ≤ market.tickCurrentIndex then market.growthGlobal channel else 0
      else (market.ticks index).growthOutside channel
  still : liquidityDelta = 0 → update = market.ticks index

variable {m : Machine} {market : Market} {index liquidityDelta : ℤ} {isUpperTick : Bool}
  {update : TickUpdate}

/-- What the program writes to a bound of a position whose liquidity changes. -/
theorem nextTickModifyLiquidityUpdate_eq_ok
    (returned : nextTickModifyLiquidityUpdate m (market.ticks index) index
      market.tickCurrentIndex market.feeGrowthGlobalA market.feeGrowthGlobalB market.rewardInfos
      liquidityDelta isUpperTick = .ok update) :
    BoundUpdate market index liquidityDelta isUpperTick update := by
  unfold nextTickModifyLiquidityUpdate at returned
  by_cases zero : liquidityDelta = 0
  · rw [if_pos zero] at returned
    obtain rfl := Except.ok.inj returned
    exact ⟨by rw [zero, add_zero], fun moved => absurd zero moved, fun moved => absurd zero moved,
      fun moved => absurd zero moved, fun moved => absurd zero moved, fun _ => rfl⟩
  · rw [if_neg zero] at returned
    obtain ⟨gross, added, returned⟩ := bind_eq_ok.mp returned
    have exact := (addLiquidityDelta_eq_ok added).1
    by_cases vanishes : gross = 0
    · rw [if_pos vanishes] at returned
      obtain rfl := Except.ok.inj returned
      subst vanishes
      exact ⟨by rw [← exact]; rfl, fun _ _ => rfl, fun _ filled => absurd rfl filled,
        fun _ filled => absurd rfl filled, fun _ filled => absurd rfl filled,
        fun same => absurd same zero⟩
    · rw [if_neg vanishes] at returned
      obtain ⟨⟨outsideA, outsideB, outsideRewards⟩, outside_eq⟩ : ∃ outside, outside =
          if (market.ticks index).liquidityGross = 0 then
            if market.tickCurrentIndex ≥ index then
              (market.feeGrowthGlobalA, market.feeGrowthGlobalB,
                WhirlpoolRewardInfo.toRewardGrowths market.rewardInfos)
            else (0, 0, fun _ => 0)
          else ((market.ticks index).feeGrowthOutsideA, (market.ticks index).feeGrowthOutsideB,
            (market.ticks index).rewardGrowthsOutside) := ⟨_, rfl⟩
      rw [← outside_eq] at returned
      obtain ⟨net, checked, returned⟩ := bind_eq_ok.mp returned
      obtain rfl := Except.ok.inj returned
      refine ⟨exact, fun _ same => absurd same vanishes, fun _ _ => ?_, fun _ _ => rfl,
        fun _ _ => ?_, fun same => absurd same zero⟩
      · rw [checkedI128] at checked
        split_ifs at checked with upper
        · rw [← Except.ok.inj checked, if_pos upper]
          ring
        · rw [← Except.ok.inj checked, if_neg upper]
      · intro channel
        by_cases fresh : (market.ticks index).liquidityGross = 0 <;>
          by_cases left : index ≤ market.tickCurrentIndex <;>
          simp only [fresh, left, ↓reduceIte, Prod.mk.injEq] at outside_eq ⊢ <;>
          obtain ⟨rfl, rfl, rfl⟩ := outside_eq <;>
          rcases channel with (_ | _) | _ <;> rfl

end Ticks

/-- The market after a change of the liquidity of a position. -/
def Market.modify (market : Market) (position : Position) (update : ModifyLiquidityUpdate) :
    Market :=
  { market with
    liquidity := update.whirlpoolLiquidity
    ticks := Function.update
      (Function.update market.ticks position.tickLowerIndex update.tickLowerUpdate)
      position.tickUpperIndex update.tickUpperUpdate }

/-- What a change of the liquidity of a position computes, after the rewards accrued. -/
structure Modifies (m : Machine) (market : Market) (position : Position) (liquidityDelta : ℤ)
    (update : ModifyLiquidityUpdate) : Prop where
  lower : BoundUpdate market position.tickLowerIndex liquidityDelta false update.tickLowerUpdate
  upper : BoundUpdate market position.tickUpperIndex liquidityDelta true update.tickUpperUpdate
  pool : (update.whirlpoolLiquidity : ℤ) = market.liquidity +
    if position.tickLowerIndex ≤ market.tickCurrentIndex ∧
      market.tickCurrentIndex < position.tickUpperIndex then liquidityDelta else 0
  poolFits : market.liquidity < 2 ^ 128 → update.whirlpoolLiquidity < 2 ^ 128
  liquidity : (update.positionUpdate.liquidity : ℤ) = position.liquidity + liquidityDelta
  liquidityFits : position.liquidity < 2 ^ 128 → update.positionUpdate.liquidity < 2 ^ 128
  checkpoint : ∀ channel,
    (((position.update update.positionUpdate).growthCheckpoint channel : ℕ) : Growth) =
      market.growthInside channel position.tickLowerIndex position.tickUpperIndex
  checkpointFits : ∀ channel,
    (position.update update.positionUpdate).growthCheckpoint channel < 2 ^ 128
  owed : ∀ channel, (position.update update.positionUpdate).owed channel =
    wrappingAdd 64 (position.owed channel) (market.credit channel position)

namespace Modifies

variable {m : Machine} {tickSpacing : ℕ} {market : Market} {positions : Records Pubkey Position}
  {positionMint : Pubkey} {position : Position} {liquidityDelta : ℤ}
  {update : ModifyLiquidityUpdate}

variable (market) in
/-- The change that the program computes from the two bounds of a position. -/
theorem of_calculate (ticks : TickTable) {whirlpool : Whirlpool} {timestamp : ℕ}
    (sameMarket : market.tickCurrentIndex = whirlpool.tickCurrentIndex ∧
      market.liquidity = whirlpool.liquidity ∧
      market.feeGrowthGlobalA = whirlpool.feeGrowthGlobalA ∧
      market.feeGrowthGlobalB = whirlpool.feeGrowthGlobalB ∧ market.ticks = ticks)
    (accrued : nextWhirlpoolRewardInfos whirlpool timestamp = .ok market.rewardInfos)
    (idle : market.RewardsIdle)
    (returned : calculateModifyLiquidityOfTicks m whirlpool position
      (ticks position.tickLowerIndex) (ticks position.tickUpperIndex) position.tickLowerIndex
      position.tickUpperIndex liquidityDelta timestamp = .ok update) :
    Modifies m market position liquidityDelta update ∧
      update.rewardInfos = market.rewardInfos ∧
      ¬ (liquidityDelta = 0 ∧ position.liquidity = 0) := by
  obtain ⟨tick_eq, liquidity_eq, growthA_eq, growthB_eq, rfl⟩ := sameMarket
  simp only [calculateModifyLiquidityOfTicks, guard_eq_ok, accrued, ok_bind, bind_eq_ok,
    Except.ok.injEq, ← tick_eq, ← growthA_eq, ← growthB_eq] at returned
  obtain ⟨present, liquidity, poolLiquidity, lower, lowerUpdate, upper, upperUpdate, positionUpdate,
    positionUpdated, rfl⟩ := returned
  simp only [nextPositionModifyLiquidityUpdate, bind_eq_ok, Except.ok.injEq] at positionUpdated
  obtain ⟨newLiquidity, added, rfl⟩ := positionUpdated
  obtain ⟨insideA, insideB⟩ := nextFeeGrowthsInside_cast market position.tickLowerIndex
    position.tickUpperIndex
  have insideReward := nextRewardGrowthsInside_cast market position.tickLowerIndex
    position.tickUpperIndex idle
  have creditOf (channel : Channel) (growth : ℕ) (cast : (growth : Growth) =
      market.growthInside channel position.tickLowerIndex position.tickUpperIndex) :
      amountOwedDelta position.liquidity (wrappingSub growth (position.growthCheckpoint channel)) =
        market.credit channel position := by
    unfold Market.credit Market.growthSince
    rw [wrappingSub_eq_val, cast]
  have poolSpec : (liquidity : ℤ) = market.liquidity +
      (if position.tickLowerIndex ≤ market.tickCurrentIndex ∧
        market.tickCurrentIndex < position.tickUpperIndex then liquidityDelta else 0) ∧
      (market.liquidity < 2 ^ 128 → liquidity < 2 ^ 128) := by
    unfold nextWhirlpoolLiquidity at poolLiquidity
    rw [← tick_eq, ← liquidity_eq] at poolLiquidity
    by_cases inside : position.tickLowerIndex ≤ market.tickCurrentIndex ∧
        market.tickCurrentIndex < position.tickUpperIndex
    · rw [if_pos ⟨inside.2, inside.1⟩] at poolLiquidity
      rw [if_pos inside]
      exact addLiquidityDelta_eq_ok poolLiquidity
    · rw [if_neg (fun both => inside ⟨both.2, both.1⟩)] at poolLiquidity
      obtain rfl := Except.ok.inj poolLiquidity
      rw [if_neg inside, add_zero]
      exact ⟨rfl, id⟩
  refine ⟨⟨nextTickModifyLiquidityUpdate_eq_ok lowerUpdate,
    nextTickModifyLiquidityUpdate_eq_ok upperUpdate, poolSpec.1, poolSpec.2,
    (addLiquidityDelta_eq_ok added).1, (addLiquidityDelta_eq_ok added).2, ?_, ?_, ?_⟩, rfl, present⟩
  · rintro ((_ | _) | index)
    · exact insideB
    · exact insideA
    · exact insideReward index
  · rintro ((_ | _) | index)
    · exact wrappingSub_lt _ _
    · exact wrappingSub_lt _ _
    · exact nextRewardGrowthsInside_lt _ _ _ _ _ _ index
  · rintro ((_ | _) | index)
    · exact congrArg (wrappingAdd 64 position.feeOwedB) (creditOf (.fee false) _ insideB)
    · exact congrArg (wrappingAdd 64 position.feeOwedA) (creditOf (.fee true) _ insideA)
    · exact congrArg (wrappingAdd 64 (position.rewardInfos index).amountOwed)
        (creditOf (.reward index) _ (insideReward index))

/-- A changed position has just been credited: nothing is pending while the growth
inside its range stays as it was. -/
theorem growthSince_eq_zero (modifies : Modifies m market position liquidityDelta update)
    (channel : Channel) {market' : Market}
    (same : market'.growthInside channel position.tickLowerIndex position.tickUpperIndex =
      market.growthInside channel position.tickLowerIndex position.tickUpperIndex) :
    market'.growthSince channel (position.update update.positionUpdate) = 0 := by
  unfold Market.growthSince
  rw [modifies.checkpoint]
  change (market'.growthInside channel position.tickLowerIndex position.tickUpperIndex - _).val = 0
  rw [same, sub_self, ZMod.val_zero]

/-- With no change of liquidity only the position is brought up to date. -/
theorem modify_eq_self (modifies : Modifies m market position 0 update) :
    market.modify position update = market := by
  have liquidity := modifies.pool
  rw [ite_self, add_zero, Nat.cast_inj] at liquidity
  unfold Market.modify
  rw [modifies.lower.still rfl, modifies.upper.still rfl, liquidity, Function.update_eq_self,
    Function.update_eq_self]

/-- The tick at an index after the change. -/
private theorem ticks_cases (market : Market) (position : Position)
    (update : ModifyLiquidityUpdate) (index : ℤ) :
    (index = position.tickLowerIndex ∧
        (market.modify position update).ticks index = update.tickLowerUpdate) ∨
      (index = position.tickUpperIndex ∧
        (market.modify position update).ticks index = update.tickUpperUpdate) ∨
      (index ≠ position.tickLowerIndex ∧ index ≠ position.tickUpperIndex ∧
        (market.modify position update).ticks index = market.ticks index) := by
  unfold Market.modify
  dsimp only
  by_cases upper : index = position.tickUpperIndex
  · refine .inr (.inl ⟨upper, ?_⟩)
    rw [upper, Function.update_self]
  · rw [Function.update_of_ne upper]
    by_cases lower : index = position.tickLowerIndex
    · refine .inl ⟨lower, ?_⟩
      rw [lower, Function.update_self]
    · exact .inr (.inr ⟨lower, upper, Function.update_of_ne lower _ _⟩)

/-- The growth below every tick initialized afterwards is what it was before. -/
theorem growthBelow_eq (modifies : Modifies m market position liquidityDelta update)
    (booked : Booked tickSpacing market positions) (channel : Channel) {index : ℤ}
    (full : ((market.modify position update).ticks index).initialized = true) :
    (market.modify position update).growthBelow channel index =
      market.growthBelow channel index := by
  have ofBound {isUpperTick : Bool} {bound : TickUpdate}
      (spec : BoundUpdate market index liquidityDelta isUpperTick bound)
      (here : (market.modify position update).ticks index = bound) :
      (market.modify position update).growthBelow channel index =
        market.growthBelow channel index := by
    rw [here] at full
    unfold Market.growthBelow
    rw [here]
    by_cases zero : liquidityDelta = 0
    · rw [spec.still zero]
      rfl
    · have nonzero : bound.liquidityGross ≠ 0 := by
        intro emptied
        rw [spec.empty zero emptied] at full
        exact absurd full (by decide)
      rw [full, spec.outside zero nonzero]
      by_cases fresh : (market.ticks index).liquidityGross = 0
      · have off : (market.ticks index).initialized = false := by
          rw [Bool.eq_false_iff, ne_eq, booked.initialized, fresh]
          exact lt_irrefl 0
        rw [if_pos fresh, off, ← Accumulator.below_use]
        congr 1
        split_ifs
        · rfl
        · exact Nat.cast_zero
      · have on : (market.ticks index).initialized = true :=
          (booked.initialized index).mpr (Nat.pos_of_ne_zero fresh)
        rw [if_neg fresh, on]
        rfl
  rcases ticks_cases market position update index with
    ⟨rfl, here⟩ | ⟨rfl, here⟩ | ⟨-, -, here⟩
  · exact ofBound modifies.lower here
  · exact ofBound modifies.upper here
  · unfold Market.growthBelow
    rw [here]
    rfl

/-- A change of the liquidity of a position keeps the books. -/
theorem booked (modifies : Modifies m market position liquidityDelta update)
    (booked : Booked tickSpacing market positions)
    (found : positions.lookup positionMint = some position) :
    Booked tickSpacing (market.modify position update)
      (positions.insert positionMint (position.update update.positionUpdate)) := by
  have wellFormed := booked.ranges position ⟨positionMint, found⟩
  have ordered := wellFormed.ordered
  have liquidity := modifies.liquidity
  have grossAt_eq (index : ℤ) := total_insert (fun position : Position => position.grossAt index)
    (position.update update.positionUpdate) found
  have netAt_eq (index : ℤ) := total_insert (fun position : Position => position.netAt index)
    (position.update update.positionUpdate) found
  have weight_eq (index : ℤ) := total_insert (fun position : Position => position.weight index)
    (position.update update.positionUpdate) found
  have grossPart (index : ℤ) : ((position.update update.positionUpdate).grossAt index : ℤ) =
      position.grossAt index + if index = position.tickLowerIndex ∨
        index = position.tickUpperIndex then liquidityDelta else 0 := by
    rw [Position.grossAt_update]
    unfold Position.grossAt
    split_ifs <;> push_cast <;> omega
  have netPart (index : ℤ) : (position.update update.positionUpdate).netAt index =
      position.netAt index + if index = position.tickLowerIndex then liquidityDelta else
        if index = position.tickUpperIndex then -liquidityDelta else 0 := by
    rw [Position.netAt_update]
    unfold Position.netAt
    split_ifs <;> omega
  have weightPart (index : ℤ) : ((position.update update.positionUpdate).weight index : ℤ) =
      position.weight index + if position.tickLowerIndex ≤ index ∧
        index < position.tickUpperIndex then liquidityDelta else 0 := by
    rw [Position.weight_update]
    unfold Position.weight
    split_ifs <;> omega
  have ranges : ∀ other, Holds (positions.insert positionMint
      (position.update update.positionUpdate)) other → other.WellFormed tickSpacing := by
    intro other held
    obtain rfl | ⟨key, -, present⟩ := held.of_insert
    · exact ⟨wellFormed.lower, wellFormed.upper, wellFormed.ordered⟩
    · exact booked.ranges other ⟨key, present⟩
  have gross (index : ℤ) : ((market.modify position update).ticks index).liquidityGross =
      total (fun position => position.grossAt index)
        (positions.insert positionMint (position.update update.positionUpdate)) := by
    have before := booked.gross index
    have totals := grossAt_eq index
    have part := grossPart index
    rcases ticks_cases market position update index with
      ⟨rfl, here⟩ | ⟨rfl, here⟩ | ⟨notLower, notUpper, here⟩
    · have bound := modifies.lower.gross
      rw [if_pos (.inl rfl)] at part
      rw [here]
      omega
    · have bound := modifies.upper.gross
      rw [if_pos (.inr rfl)] at part
      rw [here]
      omega
    · rw [if_neg (by simp only [notLower, notUpper, or_self, not_false_eq_true])] at part
      rw [here]
      omega
  -- Where no gross liquidity is left, every position bounding the tick is empty.
  have net_of_none (index : ℤ) (emptied : ((market.modify position update).ticks
      index).liquidityGross = 0) : total (fun position => position.netAt index)
        (positions.insert positionMint (position.update update.positionUpdate)) = 0 := by
    have bound := abs_total_le (positions.insert positionMint
      (position.update update.positionUpdate)) fun position _ => position.abs_netAt_le index
    rw [← gross, emptied] at bound
    exact abs_nonpos_iff.mp bound
  refine ⟨ranges, gross, fun index => ?_, fun index => ?_, ?_, fun index off => ?_⟩
  · have before := booked.net index
    have totals := netAt_eq index
    have part := netPart index
    have vanished := net_of_none index
    rcases ticks_cases market position update index with
      ⟨rfl, here⟩ | ⟨rfl, here⟩ | ⟨notLower, notUpper, here⟩
    · rw [here] at vanished ⊢
      rw [if_pos rfl] at part
      by_cases zero : liquidityDelta = 0
      · rw [modifies.lower.still zero]
        omega
      · by_cases emptied : update.tickLowerUpdate.liquidityGross = 0
        · rw [modifies.lower.empty zero emptied] at vanished ⊢
          exact (vanished rfl).symm
        · have bound := modifies.lower.net zero emptied
          rw [if_neg Bool.false_ne_true] at bound
          omega
    · rw [here] at vanished ⊢
      rw [if_neg ordered.ne', if_pos rfl] at part
      by_cases zero : liquidityDelta = 0
      · rw [modifies.upper.still zero]
        omega
      · by_cases emptied : update.tickUpperUpdate.liquidityGross = 0
        · rw [modifies.upper.empty zero emptied] at vanished ⊢
          exact (vanished rfl).symm
        · have bound := modifies.upper.net zero emptied
          rw [if_pos rfl] at bound
          omega
    · rw [if_neg notLower, if_neg notUpper] at part
      rw [here]
      omega
  · have before := booked.initialized index
    have ofBound {isUpperTick : Bool} {bound : TickUpdate}
        (spec : BoundUpdate market index liquidityDelta isUpperTick bound) :
        bound.initialized = true ↔ 0 < bound.liquidityGross := by
      by_cases zero : liquidityDelta = 0
      · rw [spec.still zero]
        exact before
      · by_cases emptied : bound.liquidityGross = 0
        · rw [spec.empty zero emptied]
          decide
        · rw [spec.full zero emptied]
          simp only [true_iff]
          omega
    rcases ticks_cases market position update index with
      ⟨rfl, here⟩ | ⟨rfl, here⟩ | ⟨-, -, here⟩
    · rw [here]
      exact ofBound modifies.lower
    · rw [here]
      exact ofBound modifies.upper
    · rw [here]
      exact before
  · have before := booked.liquidity
    have totals := weight_eq market.tickCurrentIndex
    have part := weightPart market.tickCurrentIndex
    have pool := modifies.pool
    unfold activeAt at before ⊢
    change update.whirlpoolLiquidity = total
      (fun position : Position => position.weight market.tickCurrentIndex) _
    omega
  · obtain ⟨zero, nowhere⟩ := booked.idle index off
    refine ⟨zero, fun tick => ?_⟩
    have ofBound {isUpperTick : Bool} {bound : TickUpdate} {place : ℤ}
        (spec : BoundUpdate market place liquidityDelta isUpperTick bound) :
        bound.rewardGrowthsOutside index = 0 := by
      by_cases still : liquidityDelta = 0
      · rw [spec.still still]
        exact nowhere place
      · by_cases emptied : bound.liquidityGross = 0
        · rw [spec.empty still emptied]
          rfl
        · have outside := spec.outside still emptied (.reward index)
          simp only [Tick.growthOutside, Market.growthGlobal, zero, nowhere, ite_self] at outside
          exact outside
    rcases ticks_cases market position update tick with
      ⟨rfl, here⟩ | ⟨rfl, here⟩ | ⟨-, -, here⟩
    · rw [here]
      exact ofBound modifies.lower
    · rw [here]
      exact ofBound modifies.upper
    · rw [here]
      exact nowhere tick

end Modifies
end Whirlpools
