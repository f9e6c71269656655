import Whirlpools.Accounting.ExactCredit
import Whirlpools.Pools.RewardBudget
import Whirlpools.Pools.Withdrawal

/-! # Every position can be left

A position is left by withdrawing its liquidity, collecting the fees and rewards it is owed, and
closing it. The liquidity and the fees are always paid. Only the vaults of the rewards can hold less
than is owed, and a position that is owed something is not closed.
-/

namespace Whirlpools

open Outcome Ledger

section Idle

/-- Nothing is owed to a position of rewards that are not set up. -/
def Position.RewardsIdle (position : Position) (infos : Fin numRewards → WhirlpoolRewardInfo) :
    Prop :=
  ∀ index, (infos index).initialized = false → position.owed (.reward index) = 0 ∧
    ((position.growthCheckpoint (.reward index) : ℕ) : Growth) = 0

/-- Rewards that are not set up grow nowhere. -/
theorem Market.RewardsIdle.growthInside_eq {market : Market} (idle : market.RewardsIdle)
    {index : Fin numRewards} (off : (market.rewardInfos index).initialized = false)
    (lower upper : ℤ) : market.growthInside (.reward index) lower upper = 0 := by
  obtain ⟨noGrowth, nowhere⟩ := idle index off
  have zero (tick : ℤ) : market.growthBelow (.reward index) tick = 0 := by
    simp only [Market.growthBelow, Market.growthGlobal, Tick.growthOutside, noGrowth, nowhere,
      Nat.cast_zero, Accumulator.below, sub_zero, ite_self]
  rw [Market.growthInside, zero, zero, sub_zero]

namespace Position.RewardsIdle

variable {position : Position} {infos infos' : Fin numRewards → WhirlpoolRewardInfo}

/-- Setting up more rewards leaves the others idle. -/
theorem mono (idle : position.RewardsIdle infos)
    (initialized : ∀ index, (infos index).initialized = true → (infos' index).initialized = true) :
    position.RewardsIdle infos' := by
  intro index off
  refine idle index ?_
  rw [Bool.eq_false_iff]
  exact fun on => absurd (initialized index on) (by rw [off]; exact Bool.false_ne_true)

/-- A position that is brought up to date is credited nothing of rewards that are not set up. -/
theorem update {m : Machine} {market : Market} {liquidityDelta : ℤ} {update : ModifyLiquidityUpdate}
    (idle : position.RewardsIdle market.rewardInfos) (grown : market.RewardsIdle)
    (modifies : Modifies m market position liquidityDelta update) :
    (position.update update.positionUpdate).RewardsIdle market.rewardInfos := by
  intro index off
  obtain ⟨owed, checkpoint⟩ := idle index off
  have inside := grown.growthInside_eq off position.tickLowerIndex position.tickUpperIndex
  refine ⟨?_, (modifies.checkpoint (.reward index)).trans inside⟩
  have since : market.growthSince (.reward index) position = 0 := by
    rw [Market.growthSince, inside, checkpoint, sub_zero, ZMod.val_zero]
  rw [modifies.owed, owed, Market.credit, since, amountOwedDelta, checkedMulShiftRight,
    checkedMulShiftRightRoundUpIf, if_pos (.inr rfl)]
  rfl

end Position.RewardsIdle

namespace Pool

variable {m : Machine} {pool pool' : Pool} {receipt : Receipt}

/-- Rewards that accrue stay set up. -/
theorem accrued_initialized {timestamp : ℕ} {infos : Fin numRewards → WhirlpoolRewardInfo}
    {index : Fin numRewards}
    (accrued : nextWhirlpoolRewardInfos pool.whirlpool timestamp = .ok infos)
    (on : (pool.whirlpool.rewardInfos index).initialized = true) :
    (infos index).initialized = true := by
  rw [((nextWhirlpoolRewardInfos_eq_ok accrued).2 index).1]
  exact on

/-- Rewards stay set up. -/
theorem Effect.initialized (effect : pool.Effect m receipt pool') (index : Fin numRewards)
    (on : (pool.whirlpool.rewardInfos index).initialized = true) :
    (pool'.whirlpool.rewardInfos index).initialized = true := by
  change (pool'.market.rewardInfos index).initialized = true
  cases effect with
  | still _ market_eq => exact market_eq ▸ on
  | setsUp _ _ initialized market_eq => exact market_eq ▸ initialized index on
  | emits _ accrued _ initialized market_eq =>
      rw [market_eq]
      exact (initialized index).trans (accrued_initialized accrued on)
  | opens _ _ _ _ _ market_eq => exact market_eq ▸ on
  | closes _ _ _ _ market_eq => exact market_eq ▸ on
  | pays _ _ _ _ _ _ market_eq => exact market_eq ▸ on
  | paysProtocol _ market_eq => exact market_eq ▸ on
  | credits _ _ accrued _ _ market_eq => exact market_eq ▸ accrued_initialized accrued on
  | swaps _ _ accrued _ market_eq => exact market_eq ▸ accrued_initialized accrued on

/-- No position is owed anything of rewards that are not set up. -/
def RewardsIdle (pool : Pool) : Prop :=
  ∀ position, Holds pool.positions position → position.RewardsIdle pool.whirlpool.rewardInfos

/-- Rewards stay idle where the positions stay the same, or one more is idle. -/
theorem RewardsIdle.of_insert (idle : pool.RewardsIdle) (effect : pool.Effect m receipt pool')
    {positionMint : Pubkey} {position : Position}
    (positions_eq : pool'.positions = pool.positions.insert positionMint position)
    (inserted : position.RewardsIdle pool'.whirlpool.rewardInfos) : pool'.RewardsIdle := by
  intro other held
  rw [positions_eq] at held
  obtain rfl | ⟨key, -, found⟩ := held.of_insert
  · exact inserted
  · exact (idle other ⟨key, found⟩).mono effect.initialized

/-- An instruction that leaves the positions as they are keeps idle rewards idle. -/
theorem RewardsIdle.of_same (idle : pool.RewardsIdle) (effect : pool.Effect m receipt pool')
    (positions_eq : pool'.positions = pool.positions) : pool'.RewardsIdle := by
  intro other held
  exact (idle other (positions_eq ▸ held)).mono effect.initialized

/-- Changing the liquidity of a position keeps the rewards idle. -/
theorem RewardsIdle.modifyLiquidity (idle : pool.RewardsIdle) (ready : pool.Ready)
    (effect : pool.Effect m receipt pool') {args : ModifyLiquidityArgs} {positive : Bool}
    {synced : Pool} {deltaA deltaB : ℕ} {receipt' : Receipt}
    (modified : pool.modifyLiquidity m args positive = .ok (synced, deltaA, deltaB, receipt'))
    (positions_eq : pool'.positions = synced.positions)
    (whirlpool_eq : pool'.whirlpool = synced.whirlpool) : pool'.RewardsIdle := by
  obtain ⟨_, position, update, _, -, -, -, -, found, accrued, modifies, -, rest, -, -⟩ :=
    modifyLiquidity_eq_ok ready modified
  refine idle.of_insert effect (positions_eq.trans (by rw [rest])) ?_
  rw [whirlpool_eq, rest]
  refine Position.RewardsIdle.update ?_ (Market.accrue_idle accrued ready.booked.idle) modifies
  exact (idle position ⟨_, found⟩).mono fun index on => accrued_initialized accrued on

/-- Every instruction keeps the rewards idle. -/
theorem RewardsIdle.execute (idle : pool.RewardsIdle) (ready : pool.Ready)
    {instruction : Instruction} (returned : pool.execute m instruction = .ok (pool', receipt)) :
    pool'.RewardsIdle := by
  have effect := (execute_effect ready returned).1
  cases execute_eq_ok.mp returned with
  | openPosition _ opened =>
      simp only [Position.openPosition, guard_eq_ok, Except.ok.injEq] at opened
      obtain ⟨-, -, rfl⟩ := opened
      exact idle.of_insert effect rfl fun index _ => ⟨rfl, Nat.cast_zero⟩
  | closePosition => exact fun other held => idle other held.of_erase
  | increaseLiquidity modified _ _ moved =>
      have rest := (deposit_eq_ok moved).1
      exact idle.modifyLiquidity ready effect modified (by rw [rest]) (by rw [rest])
  | decreaseLiquidity modified _ _ moved =>
      have rest := (withdraw_eq_ok moved).1
      exact idle.modifyLiquidity ready effect modified (by rw [rest]) (by rw [rest])
  | swap _ _ written moved =>
      refine idle.of_same effect ?_
      rw [(performSwap_eq_ok moved).1, (updateAfterSwap_eq_ok written).1]
      rfl
  | updateFeesAndRewards _ found storedLower storedUpper computed =>
      obtain ⟨accrued, modifies, -⟩ :=
        calculateModifyLiquidity_modifies ready storedLower storedUpper computed
      refine idle.of_insert effect rfl ?_
      refine Position.RewardsIdle.update ?_ (Market.accrue_idle accrued ready.booked.idle) modifies
      exact (idle _ ⟨_, found⟩).mono fun index on => accrued_initialized accrued on
  | @collectFees _ position _ found moved =>
      have rest := (withdraw_eq_ok moved).1
      refine idle.of_insert effect (by rw [rest]; rfl) ?_
      rw [rest]
      exact idle position ⟨_, found⟩
  | collectProtocolFees moved =>
      refine idle.of_same effect ?_
      rw [(withdraw_eq_ok moved).1]
  | @collectReward _ collected _ position found on =>
      refine idle.of_insert effect rfl fun index unset => ?_
      have distinct : index ≠ collected := by
        rintro rfl
        exact Bool.false_ne_true (unset.symm.trans on)
      have before := idle position ⟨_, found⟩ index unset
      simpa only [Position.owed, Position.growthCheckpoint, Position.updateRewardOwed,
        Function.update_of_ne distinct] using before
  | _ => exact idle.of_same effect rfl

end Pool

/-- In a reachable pool a reward without a mint is idle. -/
theorem Reachable.rewardsIdle {m : Machine} {pool : Pool} (reachable : Reachable m pool) :
    pool.RewardsIdle := by
  refine reachable.invariant (fun returned position held => ?_)
    fun reachable idle executed => idle.execute (Pool.Consistent.of_reachable reachable).ready
      executed
  simp only [Pool.create, bind_eq_ok, Except.ok.injEq] at returned
  obtain ⟨whirlpool, -, rfl⟩ := returned
  obtain ⟨key, found⟩ := held
  exact absurd found (by simp only [AList.lookup_empty, reduceCtorEq, not_false_eq_true])

end Idle

namespace Pool

section Leaving

variable {m : Machine} {pool pool' : Pool} {receipt : Receipt} {positionMint : Pubkey}
  {position : Position}

/-- The rewards of a pool that are set up. -/
def initializedRewards (pool : Pool) : List (Fin numRewards) :=
  (List.finRange numRewards).filter fun index => (pool.whirlpool.rewardInfos index).initialized

/-- Leave a position: withdraw its liquidity, collect its fees and the rewards that are set up from
vaults of the given balances, and close it. -/
def exitInstructions (pool : Pool) (positionMint : Pubkey) (position : Position) (timestamp : ℕ)
    (rewardVaultAmounts : Fin numRewards → ℕ) : List Instruction :=
  (if position.liquidity = 0 then [] else
    [.decreaseLiquidity (pool.ownArgs positionMint position position.liquidity timestamp) 0 0]) ++
  .collectFees positionMint ::
    (pool.initializedRewards.map fun index : Fin numRewards =>
      .collectReward positionMint index (rewardVaultAmounts index)) ++
  [.closePosition positionMint]

/-- A pool that differs from another in one position and its vaults, after the rewards accrued. -/
structure Differs (pool : Pool) (positionMint : Pubkey) (pool' : Pool) : Prop where
  others : ∀ other, other ≠ positionMint →
    pool'.positions.lookup other = pool.positions.lookup other
  initialized : ∀ index, (pool'.whirlpool.rewardInfos index).initialized =
    (pool.whirlpool.rewardInfos index).initialized

theorem Differs.refl (pool : Pool) (positionMint : Pubkey) : pool.Differs positionMint pool :=
  ⟨fun _ _ => rfl, fun _ => rfl⟩

theorem Differs.trans {pool'' : Pool} (first : pool.Differs positionMint pool')
    (second : pool'.Differs positionMint pool'') : pool.Differs positionMint pool'' :=
  ⟨fun other distinct => (second.others other distinct).trans (first.others other distinct),
    fun index => (second.initialized index).trans (first.initialized index)⟩

/-- Collecting a reward pays what its vault has of what is owed. -/
theorem collectReward_ok (found : pool.positions.lookup positionMint = some position)
    {index : Fin numRewards} (on : (pool.whirlpool.rewardInfos index).initialized = true)
    (rewardVaultAmount : ℕ) :
    pool.execute m (.collectReward positionMint index rewardVaultAmount) =
      .ok (pool.setPosition positionMint (position.updateRewardOwed index
        ((position.rewardInfos index).amountOwed - rewardVaultAmount)), .quiet) := by
  have held : pool.position positionMint = .ok position := okOr_eq_ok.mpr found
  have left (owed : ℕ) : (calculateCollectReward owed rewardVaultAmount).2 =
      owed - rewardVaultAmount := by
    unfold calculateCollectReward
    split_ifs
    · rfl
    · dsimp only
      omega
  change pool.collectReward positionMint index rewardVaultAmount = _
  unfold collectReward
  rw [held, ok_bind, dif_pos index.isLt, if_neg (not_not.mpr on)]
  dsimp only
  rw [left]

/-- Collecting some rewards of a position one after the other. -/
theorem collectRewards_run {indices : List (Fin numRewards)} (distinct : indices.Nodup)
    (on : ∀ index ∈ indices, (pool.whirlpool.rewardInfos index).initialized = true)
    (found : pool.positions.lookup positionMint = some position)
    (rewardVaultAmounts : Fin numRewards → ℕ) :
    ∃ pool' position',
        (run (Whirlpools.execute m) (some pool)
          (indices.map fun index : Fin numRewards => .collectReward positionMint index
            (rewardVaultAmounts index))).1 = some pool' ∧
      pool.Differs positionMint pool' ∧ pool'.vault = pool.vault ∧
      pool'.positions.lookup positionMint = some position' ∧
      position'.liquidity = position.liquidity ∧
      (∀ isTokenA, position'.owed (.fee isTokenA) = position.owed (.fee isTokenA)) ∧
      ∀ index, position'.owed (.reward index) = if index ∈ indices then
        position.owed (.reward index) - rewardVaultAmounts index
      else position.owed (.reward index) := by
  induction indices generalizing pool position with
  | nil => exact ⟨pool, position, rfl, .refl _ _, rfl, found, rfl, fun _ => rfl, fun _ => rfl⟩
  | cons index indices ih =>
      obtain ⟨fresh, distinct⟩ := List.nodup_cons.mp distinct
      obtain ⟨first, others⟩ := List.forall_mem_cons.mp on
      let paid := position.updateRewardOwed index
        ((position.rewardInfos index).amountOwed - rewardVaultAmounts index)
      obtain ⟨pool', position', ran, differs, vault_eq, found', liquidity, fees, rewards⟩ :=
        @ih (pool.setPosition positionMint paid) paid distinct others (AList.lookup_insert _)
      have moved : pool.Differs positionMint (pool.setPosition positionMint paid) :=
        ⟨fun other apart => AList.lookup_insert_ne apart, fun _ => rfl⟩
      refine ⟨pool', position', ?_, moved.trans differs, vault_eq, found', liquidity,
        fun isTokenA => ?_, fun other => ?_⟩
      · rw [List.map_cons, run_cons_of_ok (execute_some (collectReward_ok found first _))]
        exact ran
      · rw [fees]
        cases isTokenA <;> rfl
      · rw [rewards]
        by_cases same : other = index
        · subst same
          rw [if_neg fresh, if_pos List.mem_cons_self]
          simp only [paid, Position.owed, Position.updateRewardOwed, Function.update_self]
        · simp only [List.mem_cons, same, false_or, paid, Position.owed, Position.updateRewardOwed,
            Function.update_of_ne same]

/-- What a position is owed once its liquidity is withdrawn. -/
def owedAfter (market : Market) (channel : Channel) (position : Position) : ℕ :=
  if position.liquidity = 0 then position.owed channel
  else wrappingAdd 64 (position.owed channel) (market.credit channel position)

/-- Withdrawing all liquidity of a position, if there is any. -/
theorem Consistent.withdrawAll_run (checks : Bool) (consistent : pool.Consistent)
    (idle : pool.RewardsIdle) (found : pool.positions.lookup positionMint = some position)
    {timestamp : ℕ} (later : pool.whirlpool.rewardLastUpdatedTimestamp ≤ timestamp) :
    ∃ pool' position' infos, nextWhirlpoolRewardInfos pool.whirlpool timestamp = .ok infos ∧
      (run (Whirlpools.execute (.exact checks)) (some pool)
        (if position.liquidity = 0 then [] else [.decreaseLiquidity
          (pool.ownArgs positionMint position position.liquidity timestamp) 0 0])).1 =
            some pool' ∧
      pool'.Consistent ∧ pool'.RewardsIdle ∧ pool.Differs positionMint pool' ∧
      pool'.positions.lookup positionMint = some position' ∧ position'.liquidity = 0 ∧
      (∀ isTokenA, position'.owed (.fee isTokenA) =
        exactOwed pool.market (.fee isTokenA) position) ∧
      (∀ index, position'.owed (.reward index) =
        owedAfter (pool.market.accrue infos) (.reward index) position) ∧
      ∀ isTokenA, pool.vault isTokenA = pool'.vault isTokenA +
        ⌊position.tokens isTokenA pool.whirlpool.sqrtPrice⌋₊ := by
  obtain ⟨infos, accrued⟩ := nextWhirlpoolRewardInfos_of_later later
  by_cases empty : position.liquidity = 0
  · refine ⟨pool, position, infos, accrued, by rw [if_pos empty]; rfl, consistent, idle, .refl _ _,
      found, empty, fun isTokenA => (exactOwed_of_empty _ _ empty).symm,
      fun index => (if_pos empty).symm, fun isTokenA => ?_⟩
    rw [(Position.claims_of_empty empty pool.market (.fee isTokenA) isTokenA _).2, Nat.floor_zero,
      Nat.add_zero]
  · obtain ⟨pool', receipt, update, executed, withdraws⟩ := consistent.decreaseLiquidity_ok checks
      found (Nat.pos_of_ne_zero empty) le_rfl later
    obtain rfl := Except.ok.inj (accrued.symm.trans withdraws.accrued)
    have liquidity := withdraws.modifies.liquidity
    refine ⟨pool', position.update update.positionUpdate, update.rewardInfos, accrued, ?_,
      consistent.execute executed, idle.execute consistent.ready executed, ⟨fun other apart => ?_,
      fun index => ?_⟩, ?_, ?_, consistent.owed_fee_eq found withdraws.modifies, fun index => ?_,
      withdraws.paid⟩
    · rw [if_neg empty, run_cons_of_ok (execute_some executed)]
      rfl
    · rw [withdraws.positions]
      exact AList.lookup_insert_ne apart
    · rw [withdraws.whirlpool]
      change (update.rewardInfos index).initialized = _
      rw [((nextWhirlpoolRewardInfos_eq_ok accrued).2 index).1]
      rfl
    · rw [withdraws.positions]
      exact AList.lookup_insert _
    · change update.positionUpdate.liquidity = 0
      omega
    · rw [owedAfter, if_neg empty]
      exact withdraws.modifies.owed _

/-- Collecting the fees of a position always succeeds. -/
theorem Consistent.collectFees_run (consistent : pool.Consistent)
    (found : pool.positions.lookup positionMint = some position) :
    ∃ pool', pool.execute m (.collectFees positionMint) = .ok (pool', .quiet) ∧
      pool'.positions.lookup positionMint = some position.resetFeesOwed ∧
      pool.Differs positionMint pool' ∧
      ∀ isTokenA, pool.vault isTokenA = pool'.vault isTokenA + position.owed (.fee isTokenA) := by
  have held : pool.position positionMint = .ok position := okOr_eq_ok.mpr found
  obtain ⟨pool', moved⟩ := consistent.collectFees_covered held
  obtain ⟨rest, paid⟩ := withdraw_eq_ok moved
  refine ⟨pool', ?_, ?_, ⟨fun other apart => ?_, fun index => ?_⟩, fun isTokenA => ?_⟩
  · change pool.collectFees positionMint = _
    rw [collectFees, held, ok_bind, moved, ok_bind]
  · rw [rest]
    exact AList.lookup_insert _
  · rw [rest]
    exact AList.lookup_insert_ne apart
  · rw [rest]
    rfl
  · have out := paid isTokenA
    change pool.vault isTokenA = _ at out
    rw [out]
    cases isTokenA <;> rfl

/-- Closing a position succeeds exactly when nothing is left in it or owed to it. Otherwise the
position stays as it is. -/
theorem closePosition_run (found : pool.positions.lookup positionMint = some position) :
    ∃ pool', (run (Whirlpools.execute m) (some pool) [.closePosition positionMint]).1 =
        some pool' ∧ pool'.vault = pool.vault ∧
      (∀ other, other ≠ positionMint →
        pool'.positions.lookup other = pool.positions.lookup other) ∧
      (∀ left, pool'.positions.lookup positionMint = some left → left = position) ∧
      (pool'.positions.lookup positionMint = none ↔
        position.liquidity = 0 ∧ ∀ channel, position.owed channel = 0) := by
  have held : pool.position positionMint = .ok position := okOr_eq_ok.mpr found
  rw [← isPositionEmpty_iff]
  by_cases empty : position.isPositionEmpty = true
  · have executed : pool.execute m (.closePosition positionMint) =
        .ok ({ pool with positions := pool.positions.erase positionMint }, .quiet) := by
      change pool.position positionMint >>= _ = _
      rw [held, ok_bind, if_neg (not_not.mpr empty)]
    refine ⟨_, run_cons_of_ok (execute_some executed) [], rfl,
      fun other apart => AList.lookup_erase_ne apart, fun left kept => ?_, fun _ => empty,
      fun _ => AList.lookup_erase _ _⟩
    exact absurd ((AList.lookup_erase _ _).symm.trans kept) nofun
  · have failed : Whirlpools.execute m (some pool) (.closePosition positionMint) =
        .error (.code .closePositionNotEmpty) := by
      change (pool.position positionMint >>= _) >>= _ = _
      rw [held, ok_bind, if_pos empty]
      rfl
    refine ⟨pool, run_cons_of_error failed [], rfl, fun _ _ => rfl,
      fun left kept => Option.some.inj (kept.symm.trans found), ?_⟩
    rw [found]
    simp only [reduceCtorEq, empty, Bool.false_eq_true]

end Leaving

end Pool

/-- In every reachable pool every position can be left from the last update of the rewards on: the
tokens in its liquidity and its exact fees are paid, no other position is touched, and the position
is closed exactly when the vaults of the rewards hold what it is owed. Otherwise it is still owed
what they do not hold, and nothing else. -/
theorem reachable_exits {checks : Bool} {pool : Pool} (reachable : Reachable (.exact checks) pool)
    {positionMint : Pubkey} {position : Position}
    (found : pool.positions.lookup positionMint = some position) {timestamp : ℕ}
    (later : pool.whirlpool.rewardLastUpdatedTimestamp ≤ timestamp)
    (rewardVaultAmounts : Fin numRewards → ℕ) :
    ∃ pool' infos, nextWhirlpoolRewardInfos pool.whirlpool timestamp = .ok infos ∧
      (run (execute (.exact checks)) (some pool)
        (pool.exitInstructions positionMint position timestamp rewardVaultAmounts)).1 = some pool' ∧
      (∀ isTokenA, pool.vault isTokenA = pool'.vault isTokenA +
        ⌊position.tokens isTokenA pool.whirlpool.sqrtPrice⌋₊ +
          exactOwed pool.market (.fee isTokenA) position) ∧
      (∀ other, other ≠ positionMint →
        pool'.positions.lookup other = pool.positions.lookup other) ∧
      (pool'.positions.lookup positionMint = none ↔
        ∀ index, (pool.whirlpool.rewardInfos index).initialized = true →
          Pool.owedAfter (pool.market.accrue infos) (.reward index) position ≤
            rewardVaultAmounts index) ∧
      ∀ left, pool'.positions.lookup positionMint = some left → left.liquidity = 0 ∧
        (∀ isTokenA, left.owed (.fee isTokenA) = 0) ∧
        ∀ index, left.owed (.reward index) =
          Pool.owedAfter (pool.market.accrue infos) (.reward index) position -
            rewardVaultAmounts index := by
  obtain ⟨pool1, position1, infos, accrued, withdrew, consistent1, idle1, differs1, found1, empty1,
    fees1, rewards1, paid1⟩ := (Pool.Consistent.of_reachable reachable).withdrawAll_run checks
      reachable.rewardsIdle found later
  obtain ⟨pool2, collected, found2, differs2, paid2⟩ :=
    consistent1.collectFees_run (m := .exact checks) found1
  have setUp (index : Fin numRewards) : index ∈ pool.initializedRewards ↔
      (pool.whirlpool.rewardInfos index).initialized = true := by
    simp only [Pool.initializedRewards, List.mem_filter, List.mem_finRange, true_and]
  have distinct : pool.initializedRewards.Nodup := (List.nodup_finRange numRewards).filter _
  obtain ⟨pool3, position3, rewarded, differs3, vault3, found3, empty3, fees3, rewards3⟩ :=
    Pool.collectRewards_run (m := .exact checks) distinct
      (fun index member => by
        rw [differs2.initialized, differs1.initialized]
        exact (setUp index).mp member) found2 rewardVaultAmounts
  obtain ⟨pool', closed, vault_eq, others, stays, gone⟩ :=
    Pool.closePosition_run (m := .exact checks) found3
  have noFees (isTokenA : Bool) : position3.owed (.fee isTokenA) = 0 := by
    rw [fees3]
    cases isTokenA <;> rfl
  have idle (index : Fin numRewards)
      (off : ¬ (pool.whirlpool.rewardInfos index).initialized = true) :
      position1.owed (.reward index) = 0 := by
    refine (idle1 position1 ⟨_, found1⟩ index ?_).1
    rw [differs1.initialized]
    exact Bool.eq_false_iff.mpr off
  -- a reward that is not set up owes nothing, so it may be read as collected like the others
  have unpaid (index : Fin numRewards) : position3.owed (.reward index) =
      Pool.owedAfter (pool.market.accrue infos) (.reward index) position -
        rewardVaultAmounts index := by
    rw [rewards3, ← rewards1]
    change (if _ then position1.owed (.reward index) - _ else position1.owed (.reward index)) = _
    by_cases on : (pool.whirlpool.rewardInfos index).initialized = true
    · rw [if_pos ((setUp index).mpr on)]
    · rw [if_neg (mt (setUp index).mp on), idle index on, Nat.zero_sub]
  refine ⟨pool', infos, accrued, ?_, fun isTokenA => ?_, fun other apart => ?_, ?_,
    fun left kept => ?_⟩
  · unfold Pool.exitInstructions
    rw [List.append_assoc, run_append, withdrew, List.cons_append,
      run_cons_of_ok (Pool.execute_some collected), run_append, rewarded, closed]
  · rw [paid1, paid2, fees1, vault_eq, vault3]
    omega
  · rw [others other apart, differs3.others other apart, differs2.others other apart,
      differs1.others other apart]
  · rw [gone]
    constructor
    · rintro ⟨-, nothing⟩ index on
      have owed := nothing (.reward index)
      rw [unpaid] at owed
      omega
    · intro covered
      refine ⟨empty3.trans empty1, ?_⟩
      rintro (isTokenA | index)
      · exact noFees isTokenA
      · rw [unpaid]
        by_cases on : (pool.whirlpool.rewardInfos index).initialized = true
        · have enough := covered index on
          omega
        · rw [← rewards1, idle index on, Nat.zero_sub]
  · rw [stays left kept]
    exact ⟨empty3.trans empty1, noFees, unpaid⟩

/-- After the run with a reward, a position is left and closed. -/
theorem reachable_exits_rewardRun : ∃ pool position pool', Reachable (.exact false) pool ∧
    pool.positions.lookup 7 = some position ∧ 0 < position.liquidity ∧
    (run (execute (.exact false)) (some pool)
      (pool.exitInstructions 7 position 200 fun _ => 10 ^ 9)).1 = some pool' ∧
    pool'.positions.lookup 7 = none ∧
    ∀ isTokenA, pool.vault isTokenA = pool'.vault isTokenA +
      ⌊position.tokens isTokenA pool.whirlpool.sqrtPrice⌋₊ +
        exactOwed pool.market (.fee isTokenA) position := by
  have ran : (run (execute (.exact false)) none rewardRun).1.any (fun pool =>
      (pool.positions.lookup 7).any fun position =>
        decide (0 < position.liquidity ∧ pool.whirlpool.rewardLastUpdatedTimestamp ≤ 200) &&
        yields (nextWhirlpoolRewardInfos pool.whirlpool 200) fun infos =>
          decide (∀ index, (pool.whirlpool.rewardInfos index).initialized = true →
            Pool.owedAfter (pool.market.accrue infos) (.reward index) position ≤ 10 ^ 9)) =
              true := by
    decide +kernel
  obtain ⟨pool, reached, held⟩ := (Option.any_eq_true _ _).mp ran
  obtain ⟨position, found, checked⟩ := (Option.any_eq_true _ _).mp held
  obtain ⟨present, owed⟩ := Bool.and_eq_true_iff.mp checked
  obtain ⟨liquid, later⟩ := of_decide_eq_true present
  obtain ⟨pool', infos, accrued, left, paid, -, gone, -⟩ :=
    reachable_exits ⟨rewardRun, reached⟩ found later fun _ => 10 ^ 9
  obtain ⟨infos', accrued', covered⟩ := yields_iff.mp owed
  obtain rfl := Except.ok.inj (accrued.symm.trans accrued')
  exact ⟨pool, position, pool', ⟨rewardRun, reached⟩, found, liquid, left,
    gone.mpr (of_decide_eq_true covered), paid⟩

end Whirlpools
