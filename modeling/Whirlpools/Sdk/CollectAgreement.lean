import Whirlpools.Accounting.ExactCredit
import Whirlpools.Accounting.GrowthBounds
import Whirlpools.Foundation.Loop
import Whirlpools.Pools.RewardBudget
import Whirlpools.Pools.Withdrawal
import Whirlpools.Sdk.CollectQuotes
import Whirlpools.Sdk.StepAgreement
import Whirlpools.Sdk.TransferFeeAgreement

/-! # Quotes for collecting against the program

The quotes compute the growth inside the range of a position as the program does, and the amounts
without its limits: where the program gives up a credit that overflows or wraps an amount, they go
on. The vaults bound the fees, so only rewards come that far.
-/

namespace Whirlpools.Sdk

open Outcome Ledger Pool

/-- What the quotes rely on of the library: it subtracts accumulators that wrap. The first one may
be ahead of its field, as the growth of a reward that the SDK accrues. -/
def CommonSdk.Wraps (lib : CommonSdk) : Prop :=
  ∀ n0 n1, 0 ≤ n0 → 0 ≤ n1 → n1 < 2 ^ 128 → lib.subUnderflowU128 n0 n1 = (n0 - n1) % 2 ^ 128

/-- What is stored outside the ticks fits its field, and the growth is not negative. -/
structure GrowthData.Fits (growth : GrowthData) : Prop where
  global : 0 ≤ growth.growthGlobalX64
  lower : 0 ≤ growth.tickLowerGrowthOutsideX64 ∧ growth.tickLowerGrowthOutsideX64 < 2 ^ 128
  upper : 0 ≤ growth.tickUpperGrowthOutsideX64 ∧ growth.tickUpperGrowthOutsideX64 < 2 ^ 128

section Growth

variable {lib : CommonSdk} (modular : lib.Wraps)
include modular

/-- The difference is that of wrapping accumulators. -/
theorem subUnderflowU128_eq_val {n0 n1 : BN} (first : 0 ≤ n0) (second : 0 ≤ n1 ∧ n1 < 2 ^ 128) :
    lib.subUnderflowU128 n0 n1 = (((n0 : Growth) - n1).val : ℤ) := by
  rw [modular n0 n1 first second.1 second.2, ← Int.cast_sub, ZMod.val_intCast]
  norm_num

/-- The library's wrapping difference is the difference modulo `2 ^ 128`. -/
theorem subUnderflowU128_cast {n0 n1 : BN} (first : 0 ≤ n0) (second : 0 ≤ n1 ∧ n1 < 2 ^ 128) :
    ((lib.subUnderflowU128 n0 n1 : ℤ) : Growth) = n0 - n1 := by
  rw [subUnderflowU128_eq_val modular first second, Int.cast_natCast, ZMod.natCast_zmod_val]

/-- A difference fits its field. -/
theorem subUnderflowU128_fits {n0 n1 : BN} (first : 0 ≤ n0) (second : 0 ≤ n1 ∧ n1 < 2 ^ 128) :
    0 ≤ lib.subUnderflowU128 n0 n1 ∧ lib.subUnderflowU128 n0 n1 < 2 ^ 128 := by
  rw [modular n0 n1 first second.1 second.2]
  exact ⟨Int.emod_nonneg _ (by norm_num), Int.emod_lt_of_pos _ (by norm_num)⟩

/-- The growth inside a range between initialized ticks, as the accumulators have it. -/
theorem rewardGrowthInsideX64_cast (current lower upper : ℤ) {tickLower tickUpper : Tick}
    (lowerFull : tickLower.initialized = true) (upperFull : tickUpper.initialized = true)
    {growth : GrowthData} (fits : growth.Fits) :
    0 ≤ rewardGrowthInsideX64 lib current lower upper tickLower tickUpper growth ∧
    ((rewardGrowthInsideX64 lib current lower upper tickLower tickUpper growth : ℤ) : Growth) =
      Accumulator.below true current upper
          (growth.tickUpperGrowthOutsideX64 : Growth) growth.growthGlobalX64 -
        Accumulator.below true current lower
          (growth.tickLowerGrowthOutsideX64 : Growth) growth.growthGlobalX64 := by
  obtain ⟨below, below_eq⟩ : ∃ below, below = if current < lower then
      lib.subUnderflowU128 growth.growthGlobalX64 growth.tickLowerGrowthOutsideX64
    else growth.tickLowerGrowthOutsideX64 := ⟨_, rfl⟩
  obtain ⟨above, above_eq⟩ : ∃ above, above = if current < upper then
      growth.tickUpperGrowthOutsideX64
    else lib.subUnderflowU128 growth.growthGlobalX64 growth.tickUpperGrowthOutsideX64 := ⟨_, rfl⟩
  have belowFits : 0 ≤ below ∧ below < 2 ^ 128 := by
    rw [below_eq]
    split_ifs
    · exact subUnderflowU128_fits modular fits.global fits.lower
    · exact fits.lower
  have aboveFits : 0 ≤ above ∧ above < 2 ^ 128 := by
    rw [above_eq]
    split_ifs
    · exact fits.upper
    · exact subUnderflowU128_fits modular fits.global fits.upper
  have inner := subUnderflowU128_fits modular fits.global belowFits
  have inside_eq : rewardGrowthInsideX64 lib current lower upper tickLower tickUpper growth =
      lib.subUnderflowU128 (lib.subUnderflowU128 growth.growthGlobalX64 below) above := by
    unfold rewardGrowthInsideX64
    rw [below_eq, above_eq, lowerFull, upperFull]
    rfl
  rw [inside_eq]
  refine ⟨(subUnderflowU128_fits modular inner.1 aboveFits).1, ?_⟩
  rw [subUnderflowU128_cast modular inner.1 aboveFits,
    subUnderflowU128_cast modular fits.global belowFits, ← Accumulator.inside_eq,
    below_eq, above_eq]
  unfold Accumulator.below Accumulator.above
  congr 1
  · congr 1
    by_cases left : current < lower
    · simp only [↓reduceIte, left, not_true_eq_false,
        subUnderflowU128_cast modular fits.global fits.lower]
    · simp only [↓reduceIte, left, not_true_eq_false]
  · by_cases left : current < upper
    · simp only [↓reduceIte, left, not_true_eq_false]
    · simp only [↓reduceIte, left, not_true_eq_false,
        subUnderflowU128_cast modular fits.global fits.upper]

omit modular in
/-- The fees are read from initialized ticks. -/
theorem feeGrowthInsideX64_eq {tickLower tickUpper : Tick}
    (lowerFull : tickLower.initialized = true)
    (upperFull : tickUpper.initialized = true) (current lower upper : ℤ) (growth : GrowthData) :
    feeGrowthInsideX64 lib current lower upper growth =
      rewardGrowthInsideX64 lib current lower upper tickLower tickUpper growth := by
  unfold feeGrowthInsideX64 rewardGrowthInsideX64
  rw [lowerFull, upperFull]
  rfl

/-- The growth since the checkpoint of a position between initialized ticks, for accumulators that
agree with the market. -/
theorem growthSince_eq {market : Market} {channel : Channel} {position : Position}
    {growth : GrowthData} (fit : market.GrowthsFit)
    (checkpoint : position.growthCheckpoint channel < 2 ^ 128)
    (lowerFull : (market.ticks position.tickLowerIndex).initialized = true)
    (upperFull : (market.ticks position.tickUpperIndex).initialized = true)
    (nonneg : 0 ≤ growth.growthGlobalX64)
    (global : (growth.growthGlobalX64 : Growth) = (market.growthGlobal channel : ℕ))
    (lower : growth.tickLowerGrowthOutsideX64 =
      ((market.ticks position.tickLowerIndex).growthOutside channel : ℕ))
    (upper : growth.tickUpperGrowthOutsideX64 =
      ((market.ticks position.tickUpperIndex).growthOutside channel : ℕ)) :
    lib.subUnderflowU128
        (rewardGrowthInsideX64 lib market.tickCurrentIndex position.tickLowerIndex
          position.tickUpperIndex (market.ticks position.tickLowerIndex)
          (market.ticks position.tickUpperIndex) growth)
        (position.growthCheckpoint channel) = market.growthSince channel position := by
  have stored {value : ℕ} (small : value < 2 ^ 128) : 0 ≤ (value : BN) ∧ (value : BN) < 2 ^ 128 :=
    ⟨Int.natCast_nonneg _, by exact_mod_cast small⟩
  have fits : growth.Fits :=
    ⟨nonneg, lower ▸ stored (fit.outside _ channel), upper ▸ stored (fit.outside _ channel)⟩
  obtain ⟨present, inside⟩ := rewardGrowthInsideX64_cast modular market.tickCurrentIndex
    position.tickLowerIndex position.tickUpperIndex lowerFull upperFull fits
  rw [subUnderflowU128_eq_val modular present (stored checkpoint), inside, global, lower, upper]
  unfold Market.growthSince Market.growthInside Market.growthBelow
  rw [lowerFull, upperFull]
  rfl

end Growth

section Credit

/-- The library's shift divides a natural number. -/
theorem shrn_natCast (n bits : ℕ) : BN.shrn (n : BN) bits = ((n / 2 ^ bits : ℕ) : BN) := by
  unfold BN.shrn
  rw [Int.natCast_div, Int.tdiv_eq_ediv_of_nonneg (Int.natCast_nonneg n)]
  push_cast
  rfl

/-- The exact amounts are the same with the amount owed added before or after the shift. -/
theorem shrn_shln_add (owed liquidity growth : ℕ) :
    BN.shrn (BN.shln owed 64 + (growth : BN) * liquidity) 64 =
      ((owed + liquidity * growth / 2 ^ 64 : ℕ) : BN) := by
  have total : BN.shln owed 64 + (growth : BN) * liquidity =
      ((owed * 2 ^ 64 + liquidity * growth : ℕ) : BN) := by
    unfold BN.shln
    push_cast
    ring
  rw [total, shrn_natCast, Nat.add_comm, Nat.add_mul_div_right _ _ (Nat.two_pow_pos 64),
    Nat.add_comm]

end Credit

section Quotes

variable {lib : CommonSdk} (modular : lib.Wraps) (spl : SplToken) {pool : Pool}
  {position : Position}

/-- The fee that the quote adds is the one that the growth since the checkpoint earns. -/
theorem updatedFeeOwed_eq {owed liquidity growth : ℕ} {inside checkpoint : BN}
    (since : lib.subUnderflowU128 inside checkpoint = growth) :
    updatedFeeOwed lib owed inside checkpoint liquidity =
      ((owed + liquidity * growth / 2 ^ 64 : ℕ) : BN) := by
  unfold updatedFeeOwed
  rw [since, ← Nat.cast_mul, shrn_natCast, Nat.mul_comm]
  push_cast
  rfl

include modular

/-- The fees are quoted exactly. -/
theorem collectFeesQuote_eq (fit : pool.market.GrowthsFit)
    (checkpoint : ∀ channel, position.growthCheckpoint channel < 2 ^ 128)
    (lowerFull : (pool.tickAt position.tickLowerIndex).initialized = true)
    (upperFull : (pool.tickAt position.tickUpperIndex).initialized = true) :
    collectFeesQuote lib spl ⟨pool.whirlpool, position, pool.tickAt position.tickLowerIndex,
        pool.tickAt position.tickUpperIndex, ⟨none, none⟩⟩ =
      ⟨exactOwed pool.market (.fee true) position, exactOwed pool.market (.fee false) position,
        0, 0⟩ := by
  have sinceA := @growthSince_eq lib modular pool.market (.fee true) position
    ⟨pool.whirlpool.feeGrowthGlobalA, (pool.tickAt position.tickLowerIndex).feeGrowthOutsideA,
      (pool.tickAt position.tickUpperIndex).feeGrowthOutsideA⟩ fit (checkpoint _)
      lowerFull upperFull
    (Int.natCast_nonneg _) (Int.cast_natCast _) rfl rfl
  have sinceB := @growthSince_eq lib modular pool.market (.fee false) position
    ⟨pool.whirlpool.feeGrowthGlobalB, (pool.tickAt position.tickLowerIndex).feeGrowthOutsideB,
      (pool.tickAt position.tickUpperIndex).feeGrowthOutsideB⟩ fit (checkpoint _)
      lowerFull upperFull
    (Int.natCast_nonneg _) (Int.cast_natCast _) rfl rfl
  rw [← @feeGrowthInsideX64_eq lib (pool.market.ticks position.tickLowerIndex)
    (pool.market.ticks position.tickUpperIndex) lowerFull upperFull] at sinceA sinceB
  have owedA := @updatedFeeOwed_eq lib position.feeOwedA position.liquidity _ _ _ sinceA
  have owedB := @updatedFeeOwed_eq lib position.feeOwedB position.liquidity _ _ _ sinceB
  unfold collectFeesQuote
  dsimp only
  rw [CollectFeesQuote.mk.injEq]
  exact ⟨owedA, owedB, rfl, rfl⟩

omit modular in
/-- A reward that is not set up is not quoted. -/
theorem rewardQuote_none {param : CollectRewardsQuoteParam} {index : Fin numRewards}
    (absent : PoolUtil.isRewardInitialized (param.whirlpool.rewardInfos index) = false) :
    rewardQuote lib spl param index = .ok none := by
  refine if_pos ?_
  rw [absent]
  exact Bool.false_ne_true

/-- The arguments of a quote of rewards, for mints without transfer fees. -/
abbrev rewardsParam (pool : Pool) (position : Position) (timestamp : ℕ) :
    CollectRewardsQuoteParam :=
  ⟨pool.whirlpool, position, pool.tickAt position.tickLowerIndex,
    pool.tickAt position.tickUpperIndex, ⟨fun _ => none⟩, timestamp⟩

section Reward

variable {timestamp : ℕ} {infos : Fin numRewards → WhirlpoolRewardInfo} {index : Fin numRewards}

/-- The emissions since the last update fit the product that the growth is computed from. -/
def EmissionsFit (whirlpool : Whirlpool) (timestamp : ℕ) (index : Fin numRewards) : Prop :=
  whirlpool.liquidity = 0 ∨ (timestamp - whirlpool.rewardLastUpdatedTimestamp) *
    (whirlpool.rewardInfos index).emissionsPerSecondX64 < 2 ^ 128

omit modular in
/-- The growth up to the timestamp, where the emissions fit. -/
theorem adjustedRewardGrowthGlobalX64_eq
    (accrued : nextWhirlpoolRewardInfos pool.whirlpool timestamp = .ok infos)
    (initialized : (pool.whirlpool.rewardInfos index).initialized = true)
    (fits : EmissionsFit pool.whirlpool timestamp index) :
    ∃ growth, adjustedRewardGrowthGlobalX64 pool.whirlpool (pool.whirlpool.rewardInfos index)
        (timestamp - pool.whirlpool.rewardLastUpdatedTimestamp) = .ok growth ∧ 0 ≤ growth ∧
      (growth : Growth) = (infos index).growthGlobalX64 := by
  obtain ⟨later, spec⟩ := nextWhirlpoolRewardInfos_eq_ok accrued
  have grown := (spec index).2.1
  unfold adjustedRewardGrowthGlobalX64
  unfold rewardAccrual at grown
  rw [grown]
  by_cases empty : pool.whirlpool.liquidity = 0
  · refine ⟨_, if_neg (not_not.mpr (by exact_mod_cast empty)), Int.natCast_nonneg _, ?_⟩
    rw [if_pos (.inl empty), Nat.cast_zero, add_zero, Int.cast_natCast]
  · have product := fits.resolve_left empty
    rw [if_pos (by exact_mod_cast empty), ← Nat.cast_sub later, mulDiv,
      mulDivRoundUpIf_eq _ _ _ _ empty product, ok_bind]
    refine ⟨_, rfl, by positivity, ?_⟩
    push_cast
    congr 1
    by_cases still : timestamp = pool.whirlpool.rewardLastUpdatedTimestamp
    · rw [if_pos (.inr (.inl still)), still, Nat.sub_self, Nat.zero_mul]
      simp only [divRounded, Bool.false_eq_true, false_and, ↓reduceIte, Nat.zero_div, Nat.cast_zero]
    · rw [if_neg (by simp only [empty, still, initialized, not_true_eq_false, or_self,
        not_false_eq_true])]
      unfold rewardGrowthDelta
      rw [checkedMulDiv, chainMulDivRoundUpIf_eq _ empty product]
      rfl

/-- A reward that is set up is quoted exactly, as long as its emissions fit. -/
theorem rewardQuote_some (fit : (pool.market.accrue infos).GrowthsFit)
    (checkpoint : ∀ channel, position.growthCheckpoint channel < 2 ^ 128)
    (lowerFull : (pool.tickAt position.tickLowerIndex).initialized = true)
    (upperFull : (pool.tickAt position.tickUpperIndex).initialized = true)
    (accrued : nextWhirlpoolRewardInfos pool.whirlpool timestamp = .ok infos)
    (initialized : (pool.whirlpool.rewardInfos index).initialized = true)
    (vault : (pool.whirlpool.rewardInfos index).vault ≠ 0)
    (fits : EmissionsFit pool.whirlpool timestamp index) :
    rewardQuote lib spl (rewardsParam pool position timestamp) index =
      .ok (some ⟨exactOwed (pool.market.accrue infos) (.reward index) position, 0⟩) := by
  obtain ⟨growth, adjusted, nonneg, grown⟩ :=
    adjustedRewardGrowthGlobalX64_eq accrued initialized fits
  have setUp : PoolUtil.isRewardInitialized (pool.whirlpool.rewardInfos index) = true :=
    decide_eq_true ⟨of_decide_eq_true initialized, vault⟩
  have since := @growthSince_eq lib modular (pool.market.accrue infos) (.reward index) position
    ⟨growth, (pool.tickAt position.tickLowerIndex).rewardGrowthsOutside index,
      (pool.tickAt position.tickUpperIndex).rewardGrowthsOutside index⟩ fit (checkpoint _) lowerFull
    upperFull nonneg grown rfl rfl
  change lib.subUnderflowU128 (rewardGrowthInsideX64 lib pool.whirlpool.tickCurrentIndex _ _
    (pool.tickAt _) (pool.tickAt _) _) ((position.rewardInfos index).growthInsideCheckpoint) = _
    at since
  unfold rewardQuote
  dsimp only
  rw [if_neg (not_not.mpr setUp), adjusted, ok_bind, since, shrn_shln_add]
  rfl

omit modular in
/-- Emissions that do not fit are refused. -/
theorem rewardQuote_error (setUp : PoolUtil.isRewardInitialized (pool.whirlpool.rewardInfos index) =
      true) (later : pool.whirlpool.rewardLastUpdatedTimestamp ≤ timestamp)
    (exceeds : ¬ EmissionsFit pool.whirlpool timestamp index) :
    ∃ thrown, rewardQuote lib spl (rewardsParam pool position timestamp) index = .error thrown := by
  rw [EmissionsFit, not_or] at exceeds
  unfold rewardQuote adjustedRewardGrowthGlobalX64
  dsimp only
  rw [if_neg (not_not.mpr setUp), if_pos (by exact_mod_cast exceeds.1), ← Nat.cast_sub later,
    mulDiv, mulDivRoundUpIf, if_neg (by exact_mod_cast exceeds.1), mul_eq,
    if_pos (not_lt.mp exceeds.2)]
  exact ⟨_, rfl⟩

end Reward
end Quotes

section Agreement

variable {m : Machine} {pool : Pool} {positionMint : Pubkey} {position : Position}

/-- What a quote says of a reward of a position; nothing where it is not set up. -/
def creditedReward (pool : Pool) (position : Position) (index : Fin numRewards) :
    Option TransferFeeExcludedAmount :=
  if (pool.whirlpool.rewardInfos index).initialized then
    some ⟨position.owed (.reward index), 0⟩ else none

/-- The quote of all rewards that says what a position is owed. -/
def creditedQuote (pool : Pool) (position : Position) : CollectRewardsQuote where
  rewardOwed := (List.finRange numRewards).map fun index =>
    (creditedReward pool position index).map TransferFeeExcludedAmount.amount
  deductedFromRewardOwed := (List.finRange numRewards).map fun index =>
    (creditedReward pool position index).map TransferFeeExcludedAmount.fee

/-- Quotes are determined by their amounts and fees. -/
private theorem quotes_ext {α : Type} {items : List α}
    {quotes : List (Option TransferFeeExcludedAmount)}
    {expected : α → Option TransferFeeExcludedAmount}
    (amounts : quotes.map (Option.map TransferFeeExcludedAmount.amount) =
      items.map fun item => (expected item).map TransferFeeExcludedAmount.amount)
    (fees : quotes.map (Option.map TransferFeeExcludedAmount.fee) =
      items.map fun item => (expected item).map TransferFeeExcludedAmount.fee) :
    quotes = items.map expected := by
  induction items generalizing quotes with
  | nil => exact List.map_eq_nil_iff.mp amounts
  | cons item items ih =>
      cases quotes with
      | nil => exact absurd amounts (List.cons_ne_nil _ _).symm
      | cons quote quotes =>
          simp only [List.map_cons, List.cons.injEq] at amounts fees ⊢
          refine ⟨?_, ih amounts.2 fees.2⟩
          obtain ⟨amount, -⟩ := amounts
          obtain ⟨fee, -⟩ := fees
          cases quote with
          | none =>
              cases wanted : expected item with
              | none => rfl
              | some => simp only [wanted, Option.map_none, Option.map_some, reduceCtorEq] at amount
          | some quote =>
              cases wanted : expected item with
              | none => simp only [wanted, Option.map_none, Option.map_some, reduceCtorEq] at amount
              | some result =>
                  simp only [wanted, Option.map_some, Option.some.injEq] at amount fee
                  exact congrArg some (TransferFeeExcludedAmount.mk.injEq .. ▸ ⟨amount, fee⟩)

/-- The quote of all rewards is the one expected exactly when each reward's is. -/
theorem collectRewardsQuote_eq_iff (lib : CommonSdk) (spl : SplToken)
    (param : CollectRewardsQuoteParam) (position' : Position) :
    collectRewardsQuote lib spl param = .ok (creditedQuote pool position') ↔
      ∀ index, rewardQuote lib spl param index = .ok (creditedReward pool position' index) := by
  have each : (List.finRange numRewards).mapM (rewardQuote lib spl param) =
      .ok ((List.finRange numRewards).map (creditedReward pool position')) ↔
        ∀ index, rewardQuote lib spl param index = .ok (creditedReward pool position' index) := by
    rw [mapM_eq_ok, List.forall₂_map_right_iff, List.forall₂_same]
    exact ⟨fun every index => every index (List.mem_finRange index),
      fun every index _ => every index⟩
  rw [← each, collectRewardsQuote, bind_eq_ok]
  unfold creditedQuote
  simp only [Except.ok.injEq, CollectRewardsQuote.mk.injEq]
  constructor
  · rintro ⟨quotes, returned, amounts, fees⟩
    rw [returned, quotes_ext amounts fees]
  · intro returned
    exact ⟨_, returned, List.map_map, List.map_map⟩

/-- A reward is quoted as it is credited exactly when its emissions and what is owed fit. -/
theorem rewardQuote_eq_iff {lib : CommonSdk} (modular : lib.Wraps) (spl : SplToken)
    {timestamp : ℕ} {update : ModifyLiquidityUpdate}
    (fit : (pool.market.accrue update.rewardInfos).GrowthsFit)
    (checkpoint : ∀ channel, position.growthCheckpoint channel < 2 ^ 128)
    (lowerFull : (pool.tickAt position.tickLowerIndex).initialized = true)
    (upperFull : (pool.tickAt position.tickUpperIndex).initialized = true)
    (accrued : nextWhirlpoolRewardInfos pool.whirlpool timestamp = .ok update.rewardInfos)
    (modifies : Modifies m (pool.market.accrue update.rewardInfos) position 0 update)
    (index : Fin numRewards) :
    rewardQuote lib spl (rewardsParam pool position timestamp) index =
        .ok (creditedReward pool (position.update update.positionUpdate) index) ↔
      ((pool.whirlpool.rewardInfos index).initialized = true →
        (pool.whirlpool.rewardInfos index).vault ≠ 0 ∧
        EmissionsFit pool.whirlpool timestamp index ∧
        exactOwed (pool.market.accrue update.rewardInfos) (.reward index) position < 2 ^ 64) := by
  unfold creditedReward
  by_cases initialized : (pool.whirlpool.rewardInfos index).initialized = true
  · rw [if_pos initialized]
    by_cases vault : (pool.whirlpool.rewardInfos index).vault = 0
    · have absent : PoolUtil.isRewardInitialized (pool.whirlpool.rewardInfos index) = false :=
        decide_eq_false fun both => both.2 vault
      rw [rewardQuote_none spl absent]
      simp only [Except.ok.injEq, reduceCtorEq, initialized, vault, ne_eq, not_true_eq_false,
        false_and, forall_const]
    · have setUp : PoolUtil.isRewardInitialized (pool.whirlpool.rewardInfos index) = true :=
        decide_eq_true ⟨of_decide_eq_true initialized, vault⟩
      by_cases fits : EmissionsFit pool.whirlpool timestamp index
      · rw [rewardQuote_some modular spl fit checkpoint lowerFull upperFull accrued
          initialized vault fits]
        simp only [Except.ok.injEq, Option.some.injEq, TransferFeeExcludedAmount.mk.injEq, and_true,
          initialized, ne_eq, vault, not_false_eq_true, fits, true_and, forall_const,
          Nat.cast_inj]
        rw [eq_comm]
        exact modifies.owed_eq_exactOwed_iff (.reward index)
      · obtain ⟨thrown, failed⟩ := @rewardQuote_error lib spl pool position timestamp index setUp
          (nextWhirlpoolRewardInfos_eq_ok accrued).1 fits
        rw [failed]
        simp only [reduceCtorEq, initialized, fits, false_and, and_false, forall_const]
  · rw [if_neg initialized, rewardQuote_none spl (decide_eq_false fun both =>
      initialized (decide_eq_true both.1))]
    simp only [initialized, Bool.false_eq_true, false_implies]

end Agreement

/-- The quote of the fees of a position, for mints without transfer fees. -/
abbrev feesParam (pool : Pool) (position : Position) : CollectFeesQuoteParam :=
  ⟨pool.whirlpool, position, pool.tickAt position.tickLowerIndex,
    pool.tickAt position.tickUpperIndex, ⟨none, none⟩⟩

/-- For every position with liquidity in every reachable pool, the fees quoted are those that
bringing the position up to date and collecting its fees moves out of the vaults; the program's
limits are never reached. The rewards quoted at a timestamp are those the position is then owed
exactly when, for every reward that is set up, its vault is set, the emissions since the last update
fit the product the growth is computed from, and the exact amount owed fits. -/
theorem collectQuotes_agree {lib : CommonSdk} (modular : lib.Wraps) (spl : SplToken) {m : Machine}
    {pool : Pool} (reachable : Reachable m pool) {positionMint : Pubkey}
    {position : Position} (found : pool.positions.lookup positionMint = some position)
    (liquid : 0 < position.liquidity) {timestamp : ℕ}
    (later : pool.whirlpool.rewardLastUpdatedTimestamp ≤ timestamp) :
    ∃ updated final position' receipt receipt',
      pool.execute m (.updateFeesAndRewards positionMint
        (arrayStart position.tickLowerIndex pool.whirlpool.tickSpacing)
        (arrayStart position.tickUpperIndex pool.whirlpool.tickSpacing) timestamp) =
          .ok (updated, receipt) ∧
      updated.positions.lookup positionMint = some position' ∧
      updated.execute m (.collectFees positionMint) = .ok (final, receipt') ∧
      collectFeesQuote lib spl (feesParam pool position) =
        ⟨pool.vaultA - final.vaultA, pool.vaultB - final.vaultB, 0, 0⟩ ∧
      (collectRewardsQuote lib spl (rewardsParam pool position timestamp) =
          .ok (creditedQuote pool position') ↔
        ∀ index, (pool.whirlpool.rewardInfos index).initialized = true →
          (pool.whirlpool.rewardInfos index).vault ≠ 0 ∧
          EmissionsFit pool.whirlpool timestamp index ∧
          exactOwed updated.market (.reward index) position < 2 ^ 64) := by
  have consistent := Pool.Consistent.of_reachable reachable
  have fit := Pool.GrowthsFit.of_reachable reachable
  have checkpoint := fit.checkpoint position ⟨positionMint, found⟩ liquid
  obtain ⟨lowerFull, upperFull⟩ := consistent.booked.bounds_initialized ⟨positionMint, found⟩ liquid
  obtain ⟨update, executed, accrued, modifies⟩ := consistent.updateFeesAndRewards_ok (m := m) found
    later liquid
  obtain ⟨updated, updated_eq⟩ : ∃ updated, updated = { pool with
      whirlpool := pool.whirlpool.updateRewards update.rewardInfos timestamp }.setPosition
        positionMint (position.update update.positionUpdate) := ⟨_, rfl⟩
  rw [← updated_eq] at executed
  have market_eq : updated.market = pool.market.accrue update.rewardInfos := by
    rw [updated_eq]
    rfl
  have held : updated.position positionMint = .ok (position.update update.positionUpdate) := by
    rw [updated_eq]
    exact okOr_eq_ok.mpr (AList.lookup_insert _)
  obtain ⟨final, moved⟩ := (consistent.execute executed).collectFees_covered held
  obtain ⟨final_eq, paid⟩ := withdraw_eq_ok moved
  have fees (isTokenA : Bool) : (pool.vault isTokenA : ℤ) - final.vault isTokenA =
      exactOwed pool.market (.fee isTokenA) position := by
    have same : (updated.setPosition positionMint
        (position.update update.positionUpdate).resetFeesOwed).vault isTokenA =
          pool.vault isTokenA := by
      rw [updated_eq]
      rfl
    have owed := consistent.owed_fee_eq found modifies isTokenA
    have out := paid isTokenA
    rw [same] at out
    rw [← owed, out]
    cases isTokenA
    · simp only [Bool.false_eq_true, ↓reduceIte, Nat.cast_add, add_sub_cancel_left]
      rfl
    · simp only [↓reduceIte, Nat.cast_add, add_sub_cancel_left]
      rfl
  refine ⟨updated, final, position.update update.positionUpdate, _, .quiet, executed,
    position_eq_ok.mp held, ?_, ?_, ?_⟩
  · change updated.collectFees positionMint = _
    rw [collectFees, held, ok_bind, moved, ok_bind]
  · rw [collectFeesQuote_eq modular spl fit.market checkpoint lowerFull upperFull,
      CollectFeesQuote.mk.injEq]
    exact ⟨(fees true).symm, (fees false).symm, rfl, rfl⟩
  · rw [collectRewardsQuote_eq_iff, market_eq]
    exact forall_congr' fun index => rewardQuote_eq_iff modular spl (fit.accrue_next accrued)
      checkpoint lowerFull upperFull accrued modifies index

instance (whirlpool : Whirlpool) (timestamp : ℕ) (index : Fin numRewards) :
    Decidable (EmissionsFit whirlpool timestamp index) := by
  unfold EmissionsFit
  infer_instance

/-- After the run with a reward, the quotes say what is owed 100 seconds later. -/
theorem collectQuotes_agree_rewardRun : ∃ pool position updated final position' receipt receipt',
    Reachable (.exact false) pool ∧ pool.positions.lookup 7 = some position ∧
    pool.execute (.exact false) (.updateFeesAndRewards 7 (-5632) 0 (200 : ℕ)) =
      .ok (updated, receipt) ∧
    updated.positions.lookup 7 = some position' ∧
    updated.execute (.exact false) (.collectFees 7) = .ok (final, receipt') ∧
    position'.owed (.reward firstReward) = 307 ∧
    collectFeesQuote .plain .formulas (feesParam pool position) =
      ⟨pool.vaultA - final.vaultA, pool.vaultB - final.vaultB, 0, 0⟩ ∧
    collectRewardsQuote .plain .formulas (rewardsParam pool position 200) =
      .ok (creditedQuote pool position') := by
  have ran : (Ledger.run (execute (.exact false)) none rewardRun).1.any (fun pool =>
      (pool.positions.lookup 7).any fun position =>
        decide (0 < position.liquidity ∧ pool.whirlpool.rewardLastUpdatedTimestamp ≤ 200 ∧
          arrayStart position.tickLowerIndex pool.whirlpool.tickSpacing = -5632 ∧
          arrayStart position.tickUpperIndex pool.whirlpool.tickSpacing = 0) &&
        yields (pool.execute (.exact false) (.updateFeesAndRewards 7 (-5632) 0 (200 : ℕ)))
          fun outcome => (outcome.1.positions.lookup 7).any (fun position' =>
              decide (position'.owed (.reward firstReward) = 307)) &&
            decide (∀ index, (pool.whirlpool.rewardInfos index).initialized = true →
              (pool.whirlpool.rewardInfos index).vault ≠ 0 ∧
              EmissionsFit pool.whirlpool 200 index ∧
              exactOwed outcome.1.market (.reward index) position < 2 ^ 64)) = true := by
    decide +kernel
  obtain ⟨pool, reached, held⟩ := (Option.any_eq_true _ _).mp ran
  obtain ⟨position, found, checked⟩ := (Option.any_eq_true _ _).mp held
  obtain ⟨present, brought⟩ := Bool.and_eq_true_iff.mp checked
  obtain ⟨liquid, later, lower, upper⟩ := of_decide_eq_true present
  obtain ⟨updated, final, position', receipt, receipt', executed, kept, collected, fees, rewards⟩ :=
    @collectQuotes_agree .plain (fun _ _ _ _ _ => rfl) .formulas (.exact false) pool
      ⟨rewardRun, reached⟩ 7
      position found liquid 200 later
  rw [lower, upper] at executed
  obtain ⟨outcome, executed', met⟩ := yields_iff.mp brought
  obtain rfl := Except.ok.inj (executed.symm.trans executed')
  obtain ⟨owed, conditions⟩ := Bool.and_eq_true_iff.mp met
  rw [kept] at owed
  exact ⟨pool, position, updated, final, position', receipt, receipt', ⟨rewardRun, reached⟩, found,
    executed, kept, collected, of_decide_eq_true owed, fees,
    rewards.mpr (of_decide_eq_true conditions)⟩

end Whirlpools.Sdk
