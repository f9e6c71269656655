import Whirlpools.Accounting.Invariant
import Whirlpools.FailureModes

/-! # Vault solvency

In every reachable state the vaults cover what the pool owes, counted exactly, so no
instruction is refused for lack of funds in a vault.
-/

namespace Whirlpools

open Outcome Ledger Rounding

/-- A failure other than a transfer refused for lack of funds. -/
def Funded (failure : Failure) : Prop := failure ≠ .insufficientFunds

instance (failure : Failure) : Decidable (Funded failure) := by
  unfold Funded
  infer_instance

section Funded

variable (m : Machine)

/-- The common failures are not about funds. -/
theorem Common.funded (failure : Failure) (common : Common failure) : Funded failure := common.1

/-- Adding a liquidity delta moves no tokens, so it never lacks funds. -/
theorem addLiquidityDelta_funded (liquidity : ℕ) (delta : ℤ) :
    FailsWithin Funded (addLiquidityDelta m liquidity delta) :=
  .ite (fun _ => .ok _) fun _ => .ite
    (fun _ => .ite (fun _ => .ok _) fun _ => .error (by decide))
    fun _ => .bind ((plainAbs_common m _).mono Common.funded) fun _ _ =>
      .ite (fun _ => .ok _) fun _ => .error (by decide)

theorem calculateModifyLiquidity_funded (whirlpool : Whirlpool) (position : Position)
    (tickArrayLower tickArrayUpper : TickArray) (liquidityDelta : ℤ) (timestamp : ℕ) :
    FailsWithin Funded (calculateModifyLiquidity m whirlpool position tickArrayLower tickArrayUpper
      liquidityDelta timestamp) := by
  have bound (tick : Tick) (index : ℤ) (infos : Fin numRewards → WhirlpoolRewardInfo)
      (isUpperTick : Bool) : FailsWithin Funded (nextTickModifyLiquidityUpdate m tick index
        whirlpool.tickCurrentIndex whirlpool.feeGrowthGlobalA whirlpool.feeGrowthGlobalB infos
        liquidityDelta isUpperTick) :=
    .ite (fun _ => .ok _) fun _ => .bind (addLiquidityDelta_funded m _ _) fun _ _ =>
      .ite (fun _ => .ok _) fun _ => .bind
        (.ite (fun _ => .ok _) fun _ => .error (by decide)) fun _ _ => .ok _
  exact .bind ((getTick_common _ _ _).mono Common.funded) fun _ _ =>
    .bind ((getTick_common _ _ _).mono Common.funded) fun _ _ =>
    .ite (fun _ => .error (by decide)) fun _ =>
    .bind ((nextWhirlpoolRewardInfos_common _ _).mono Common.funded) fun _ _ =>
    .bind (.ite (fun _ => addLiquidityDelta_funded m _ _) fun _ => .ok _) fun _ _ =>
    .bind (bound _ _ _ _) fun _ _ => .bind (bound _ _ _ _) fun _ _ =>
    .bind (.bind (addLiquidityDelta_funded m _ _) fun _ _ => .ok _) fun _ _ => .ok _

/-- Computing a swap moves no tokens, so it never lacks funds. -/
theorem swap_funded (whirlpool : Whirlpool) (sequence : SwapTickSequence)
    (amount sqrtPriceLimit timestamp : ℕ) (amountSpecifiedIsInput aToB : Bool) :
    FailsWithin Funded (swap m whirlpool sequence amount sqrtPriceLimit amountSpecifiedIsInput aToB
      timestamp) :=
  swap_failsWithin m Common.funded fun _ _ _ _ _ _ _ _ _ _ _ =>
    swapIteration_failsWithin m Common.funded
      (fun _ _ _ _ _ => accountAmounts_failsWithin Common.funded _ fun _ => by decide)
      fun _ _ _ _ _ _ _ _ =>
      .bind (.ite (fun _ => (plainNeg_common m _).mono Common.funded) fun _ => .ok _) fun _ _ =>
        .bind (addLiquidityDelta_funded m _ _) fun _ _ => .ok _

end Funded

namespace Pool

variable {m : Machine} {pool : Pool}

section Exits

/-- Amounts that the vaults hold can be withdrawn. -/
theorem withdraw_of_le {amountA amountB : ℕ}
    (covered : ∀ isTokenA, (if isTokenA then amountA else amountB) ≤ pool.vault isTokenA) :
    ∃ final, pool.withdraw amountA amountB = .ok final := by
  have coveredA : amountA ≤ pool.vaultA := covered true
  have coveredB : amountB ≤ pool.vaultB := covered false
  refine ⟨{ pool with vaultA := pool.vaultA - amountA, vaultB := pool.vaultB - amountB }, ?_⟩
  simp only [withdraw, transferFromVaultToOwner, coveredA, coveredB, ↓reduceIte, ok_bind]

variable (consistent : pool.Consistent)
include consistent

/-- The tokens of a part of a position's liquidity are in the vaults. -/
theorem Consistent.tokensOf_le {positionMint : Pubkey} {position : Position}
    (found : pool.positions.lookup positionMint = some position) {liquidity : ℕ}
    (enough : liquidity ≤ position.liquidity) (isTokenA : Bool) :
    position.tokensOf liquidity isTokenA pool.whirlpool.sqrtPrice ≤ pool.vault isTokenA := by
  have wellFormed := consistent.booked.ranges position ⟨positionMint, found⟩
  have unit := position.tokensOf_nonneg wellFormed 1 isTokenA pool.whirlpool.sqrtPrice
  have part := le_total (fun position : Position =>
    position.tokens isTokenA pool.whirlpool.sqrtPrice)
    (fun other held => Position.tokensOf_nonneg (consistent.booked.ranges other held) _ _ _) found
  have held := consistent.holdings_le isTokenA
  calc position.tokensOf liquidity isTokenA pool.whirlpool.sqrtPrice
      = liquidity * position.tokensOf 1 isTokenA pool.whirlpool.sqrtPrice :=
        position.tokensOf_eq_mul _ _ _
    _ ≤ position.liquidity * position.tokensOf 1 isTokenA pool.whirlpool.sqrtPrice :=
        mul_le_mul_of_nonneg_right (Nat.cast_le.mpr enough) unit
    _ = position.tokens isTokenA pool.whirlpool.sqrtPrice := (position.tokensOf_eq_mul _ _ _).symm
    _ ≤ pool.vault isTokenA := part.trans held

/-- The fees owed are in the vaults. -/
theorem Consistent.owed_le (isTokenA : Bool) :
    pool.protocolFeeOwed isTokenA + pool.feesOwed isTokenA ≤ pool.vault isTokenA := by
  have solvent := consistent.solvent isTokenA
  have pending := pool.market.totalPending_nonneg (.fee isTokenA) pool.positions
  have tokens := holdings_nonneg consistent.booked.ranges isTokenA pool.market.sqrtPrice
  unfold obligations Market.claims at solvent
  have bound : (pool.protocolFeeOwed isTokenA : ℚ) + pool.feesOwed isTokenA ≤
      pool.vault isTokenA := by linarith
  exact_mod_cast bound

/-- What a swap gives is in the vault. -/
theorem Consistent.output_le {args : SwapArgs} {timestamp : ℕ} {outcome : SwapOutcome}
    (returned : pool.computeSwap m args = .ok (timestamp, outcome)) :
    outcome.update.amount (!args.aToB) ≤ pool.vault (!args.aToB) := by
  obtain ⟨sequence, rewardInfos, last, final, -, accrued, traded⟩ :=
    computeSwap_traded consistent.ready returned
  have whirlpool_eq : (pool.whirlpool.swapContext args.sqrtPriceLimit args.amountSpecifiedIsInput
      args.aToB rewardInfos).whirlpool = pool.whirlpool := rfl
  have start := Effect.initial_market sequence args.amount.toNat whirlpool_eq
  obtain ⟨booked, -, output⟩ := traded.traversal.covered consistent.rate consistent.bounded
    (start ▸ consistent.booked.accrue accrued)
  rw [start, Market.claims_accrue] at output
  obtain ⟨-, given⟩ := postSwapUpdate_amounts sequence args.amount.toNat
    traded.traversal.remaining_le traded.update
  have left : 0 ≤ (final.market (pool.whirlpool.swapContext args.sqrtPriceLimit
      args.amountSpecifiedIsInput args.aToB rewardInfos) last).claims (!args.aToB)
        pool.positions :=
    add_nonneg (holdings_nonneg booked.ranges _ _) (Market.totalPending_nonneg _ _ _)
  have solvent := consistent.solvent (!args.aToB)
  have protocol : (0 : ℚ) ≤ pool.protocolFeeOwed (!args.aToB) := Nat.cast_nonneg _
  have owed : (0 : ℚ) ≤ pool.feesOwed (!args.aToB) := Nat.cast_nonneg _
  unfold obligations at solvent
  simp only [swapContext_aToB, swapContext_amountSpecifiedIsInput] at output given
  have bound : (outcome.update.amount (!args.aToB) : ℚ) ≤ pool.vault (!args.aToB) := by linarith
  exact_mod_cast bound

/-- Withdrawing a part of a position's liquidity finds its tokens in the vaults. -/
theorem Consistent.decrease_covered {args : ModifyLiquidityArgs} {synced : Pool}
    {deltaA deltaB : ℕ} {receipt : Receipt}
    (returned : pool.modifyLiquidity m args false = .ok (synced, deltaA, deltaB, receipt)) :
    ∃ final, synced.withdraw deltaA deltaB = .ok final := by
  obtain ⟨timestamp, position, update, liquidityDelta, -, delta_eq, -, -, found, -, modifies, -,
    rest, -, amounts⟩ := modifyLiquidity_eq_ok consistent.ready returned
  refine withdraw_of_le fun isTokenA => ?_
  have liquidity := modifies.liquidity
  rw [delta_eq, if_neg Bool.false_ne_true] at liquidity
  have same : synced.vault isTokenA = pool.vault isTokenA := by
    rw [rest]
    rfl
  rw [amounts isTokenA, same, roundTo_false]
  exact Nat.floor_le_of_le (consistent.tokensOf_le found (by omega) isTokenA)

/-- A position can always be paid its fees. -/
theorem Consistent.collectFees_covered {positionMint : Pubkey} {position : Position}
    (held : pool.position positionMint = .ok position) :
    ∃ final, (pool.setPosition positionMint position.resetFeesOwed).withdraw position.feeOwedA
      position.feeOwedB = .ok final := by
  refine withdraw_of_le fun isTokenA => ?_
  have part := le_total (fun position : Position => position.owed (.fee isTokenA))
    (fun _ _ => Nat.zero_le _) (position_eq_ok.mp held)
  have owed := consistent.owed_le isTokenA
  change _ ≤ pool.vault isTokenA
  unfold feesOwed at owed
  refine le_trans ?_ (le_trans part (by omega))
  cases isTokenA <;> exact le_rfl

/-- The protocol can always be paid its fees. -/
theorem Consistent.collectProtocolFees_covered :
    ∃ final, pool.withdraw pool.whirlpool.protocolFeeOwedA pool.whirlpool.protocolFeeOwedB =
      .ok final := by
  refine withdraw_of_le fun isTokenA => ?_
  have owed := consistent.owed_le isTokenA
  change pool.protocolFeeOwed isTokenA ≤ _
  omega

omit consistent in
private theorem modifyLiquidity_funded (args : ModifyLiquidityArgs) (positive : Bool) :
    FailsWithin Funded (pool.modifyLiquidity m args positive) := by
  have updated (pool : Pool) (start tickIndex : ℤ) (update : TickUpdate) :
      FailsWithin Funded (pool.updateTick start tickIndex update) :=
    .bind (.okOr (by decide)) fun _ _ => .bind ((updateTick_common _ _ _ _).mono Common.funded)
      fun _ _ => .ok _
  exact .ite (fun _ => .error (by decide)) fun _ =>
    .bind (.ite (fun _ => .error (by decide)) fun _ => .ok _) fun _ _ =>
    .bind (.ite (fun _ => .error (by decide)) fun _ => .ok _) fun _ _ =>
    .bind (.bind (.okOr (by decide)) fun _ _ => .bind (.okOr (by decide)) fun _ _ =>
      .bind (.okOr (by decide)) fun _ _ =>
      .bind (calculateModifyLiquidity_funded m _ _ _ _ _ _) fun _ _ => .ok _) fun _ _ =>
    .bind (.bind (updated _ _ _ _) fun _ _ => .bind (updated _ _ _ _) fun _ _ => .ok _) fun _ _ =>
    .bind ((calculateLiquidityTokenDeltas_common m _ _ _ _).mono Common.funded) fun _ _ => .ok _

omit consistent in
/-- A transfer into a vault lacks no funds of the pool. -/
private theorem transferFromOwnerToVault_funded (vault amount : ℕ) :
    FailsWithin Funded (transferFromOwnerToVault vault amount) :=
  .ite (fun _ => .ok _) fun _ => .error (by decide)

/-- A swap of a consistent pool does not lack funds: its vault covers what it pays out. -/
private theorem swap_funded (args : SwapArgs) : FailsWithin Funded (pool.swap m args) := by
  refine .bind (.bind (.ite (fun _ => .error (by decide)) fun _ => .ok _) fun _ _ =>
    .bind (.bind (.okOr (by decide)) fun _ _ => .bind (.okOr (by decide)) fun _ _ =>
      .bind (.okOr (by decide)) fun _ _ => .ok _) fun _ _ =>
    .bind (Whirlpools.swap_funded m _ _ _ _ _ _ _) fun _ _ => .ok _) fun result computed =>
    .bind (.ite (fun _ => .ite (fun _ => .error (by decide)) fun _ => .ok _)
      fun _ => .ite (fun _ => .error (by decide)) fun _ => .ok _) fun _ _ =>
    .bind (.bind (.ite (fun _ => .bind ((plainAdd_common m _ _ _).mono Common.funded) fun _ _ =>
        .ok _) fun _ => .bind ((plainAdd_common m _ _ _).mono Common.funded) fun _ _ => .ok _)
      fun _ _ => .ok _) fun updated recorded => .bind ?_ fun _ _ => .ok _
  -- The output is in the vault, whatever the input does to the other one.
  have enough := consistent.output_le computed
  obtain ⟨updated_eq, -, -⟩ := updateAfterSwap_eq_ok recorded
  have vaultA_eq : updated.vaultA = pool.vaultA := by
    rw [updated_eq]
    rfl
  have vaultB_eq : updated.vaultB = pool.vaultB := by
    rw [updated_eq]
    rfl
  unfold performSwap transferFromVaultToOwner
  rw [vaultA_eq, vaultB_eq]
  cases direction : args.aToB with
  | true =>
      rw [direction] at enough
      change result.2.update.amountB ≤ pool.vaultB at enough
      rw [if_pos rfl, if_pos enough]
      exact .bind (transferFromOwnerToVault_funded _ _) fun _ _ => .ok _
  | false =>
      rw [direction] at enough
      change result.2.update.amountA ≤ pool.vaultA at enough
      rw [if_neg Bool.false_ne_true, if_pos enough]
      exact .bind (transferFromOwnerToVault_funded _ _) fun _ _ => .ok _

/-- No instruction is refused for lack of funds. -/
theorem Consistent.funded (instruction : Instruction) :
    FailsWithin Funded (pool.execute m instruction) := by
  have held (positionMint : Pubkey) : FailsWithin Funded (pool.position positionMint) :=
    .okOr (by decide)
  have stored (start : ℤ) : FailsWithin Funded (pool.tickArray start) := .okOr (by decide)
  have clock (t : ℤ) : FailsWithin Funded (toTimestampU64 t) :=
    .ite (fun _ => .error (by decide)) fun _ => .ok _
  have fees (rate bound : ℕ) (code : ErrorCode) (whirlpool : Whirlpool) :
      FailsWithin Funded (if rate > bound then err code else .ok whirlpool : Result Whirlpool) :=
    .ite (fun _ => .error (by unfold Funded; simp only [ne_eq, reduceCtorEq, not_false_eq_true]))
      fun _ => .ok _
  cases instruction with
  | initializePool => exact .error (by decide)
  | initializeTickArray start =>
      cases present : pool.tickArrays start with
      | some array =>
          simp only [Pool.execute, present]
          exact .error (by decide)
      | none =>
          simp only [Pool.execute, present]
          exact .bind (.ite (fun _ => .error (by decide)) fun _ =>
            .ite (fun _ => .error (by decide)) fun _ => .ok _) fun _ _ => .ok _
  | openPosition positionMint tickLowerIndex tickUpperIndex =>
      cases present : pool.positions.lookup positionMint with
      | some position =>
          simp only [Pool.execute, present]
          exact .error (by decide)
      | none =>
          simp only [Pool.execute, present]
          exact .bind (.ite (fun _ => .error (by decide)) fun _ =>
            .ite (fun _ => .error (by decide)) fun _ => .ok _) fun _ _ => .ok _
  | closePosition positionMint =>
      exact .bind (held _) fun _ _ => .ite (fun _ => .error (by decide)) fun _ => .ok _
  | increaseLiquidity args tokenMaxA tokenMaxB =>
      exact .bind (modifyLiquidity_funded _ _) fun _ _ => .ite (fun _ => .error (by decide))
        fun _ => .ite (fun _ => .error (by decide)) fun _ =>
        .bind (.bind (transferFromOwnerToVault_funded _ _) fun _ _ =>
          .bind (transferFromOwnerToVault_funded _ _) fun _ _ => .ok _) fun _ _ => .ok _
  | decreaseLiquidity args tokenMinA tokenMinB =>
      refine .bind (modifyLiquidity_funded _ _) fun _ modified => .ite (fun _ => .error (by decide))
        fun _ => .ite (fun _ => .error (by decide)) fun _ => .bind ?_ fun _ _ => .ok _
      obtain ⟨final, moved⟩ := consistent.decrease_covered modified
      exact .of_ok moved
  | swap args => exact swap_funded consistent args
  | updateFeesAndRewards positionMint tickArrayLower tickArrayUpper unixTimestamp =>
      exact .bind (clock _) fun _ _ => .bind (held _) fun _ _ => .bind (stored _) fun _ _ =>
        .bind (stored _) fun _ _ => .bind (.bind (calculateModifyLiquidity_funded m _ _ _ _ _ _)
          fun _ _ => .ok _) fun _ _ => .ok _
  | collectFees positionMint =>
      refine .bind (held _) fun _ found => .bind ?_ fun _ _ => .ok _
      obtain ⟨final, moved⟩ := consistent.collectFees_covered found
      exact .of_ok moved
  | collectProtocolFees =>
      obtain ⟨final, moved⟩ := consistent.collectProtocolFees_covered
      exact .bind (.of_ok moved) fun _ _ => .ok _
  | initializeReward rewardIndex mint vault =>
      refine .ite (fun _ => .error (by decide)) fun _ => .bind (.ite (fun _ => .error (by decide))
        fun _ => ?_) fun _ _ => .ok _
      cases pool.whirlpool.lowestUninitializedReward with
      | none => exact .error (by decide)
      | some lowest => exact .ite (fun _ => .error (by decide)) fun _ => .ok _
  | setRewardEmissions rewardIndex emissionsPerSecondX64 rewardVaultAmount unixTimestamp =>
      change FailsWithin Funded (pool.setRewardEmissions _ _ _ _)
      unfold setRewardEmissions
      split_ifs
      · exact .bind ((checkedMulShiftRightRoundUpIf_common _ _ _).mono Common.funded) fun _ _ =>
          .ite (fun _ => .error (by decide)) fun _ => .bind (clock _) fun _ _ =>
          .bind ((nextWhirlpoolRewardInfos_common _ _).mono Common.funded) fun _ _ =>
          .bind (.ite (fun _ => .error (by decide)) fun _ => .ok _) fun _ _ => .ok _
      · exact .error (by decide)
      · exact .error (by decide)
  | collectReward positionMint rewardIndex rewardVaultAmount =>
      refine .bind (held _) fun _ _ => ?_
      split_ifs
      · exact .ok _
      · exact .error (by decide)
      · exact .error (by decide)
  | setFeeRate feeRate => exact .bind (fees _ _ _ _) fun _ _ => .ok _
  | setProtocolFeeRate protocolFeeRate => exact .bind (fees _ _ _ _) fun _ _ => .ok _

end Exits

/-- The exact fees a position has earned since its checkpoint, by the growth inside its
range that the program computes. -/
def pendingFee (pool : Pool) (isTokenA : Bool) (position : Position) : ℚ :=
  let inside := nextFeeGrowthsInside pool.whirlpool.tickCurrentIndex
    (pool.tickAt position.tickLowerIndex) position.tickLowerIndex
    (pool.tickAt position.tickUpperIndex) position.tickUpperIndex
    pool.whirlpool.feeGrowthGlobalA pool.whirlpool.feeGrowthGlobalB
  let growth := if isTokenA then wrappingSub inside.1 position.feeGrowthCheckpointA
    else wrappingSub inside.2 position.feeGrowthCheckpointB
  position.liquidity * growth / 2 ^ 64

/-- The fee pending to a position is the one of the books. -/
theorem pendingFee_eq (pool : Pool) (isTokenA : Bool) (position : Position) :
    pool.pendingFee isTokenA position = pool.market.pending (.fee isTokenA) position := by
  obtain ⟨insideA, insideB⟩ := nextFeeGrowthsInside_cast pool.market position.tickLowerIndex
    position.tickUpperIndex
  unfold pendingFee Market.pending Market.growthSince
  cases isTokenA <;> simp only [Bool.false_eq_true, ↓reduceIte, wrappingSub_eq_val]
  · rw [← insideB]
    rfl
  · rw [← insideA]
    rfl

end Pool

/-- In every reachable pool the vaults cover the protocol fees, the fees owed to
positions, their pending fees and the tokens in their liquidity, all counted exactly;
and no instruction is refused for lack of funds. -/
theorem reachable_solvent {m : Machine} {pool : Pool} (reachable : Reachable m pool) :
    (∀ isTokenA, (pool.protocolFeeOwed isTokenA : ℚ) + pool.feesOwed isTokenA +
      total (pool.pendingFee isTokenA) pool.positions +
      holdings pool.positions isTokenA pool.whirlpool.sqrtPrice ≤ pool.vault isTokenA) ∧
    ∀ instruction, pool.execute m instruction ≠ .error .insufficientFunds := by
  have consistent := Pool.Consistent.of_reachable reachable
  refine ⟨fun isTokenA => ?_, fun instruction failed => consistent.funded instruction _ failed rfl⟩
  have solvent := consistent.solvent isTokenA
  rw [total_congr fun position _ => pool.pendingFee_eq isTokenA position]
  unfold Pool.obligations Market.claims Market.totalPending at solvent
  change _ + (holdings pool.positions isTokenA pool.whirlpool.sqrtPrice + _) ≤ _ at solvent
  linarith

/-- A pool of spacing 64 with two overlapping positions, and trades in both directions
that cross a tick. -/
def sampleRun : List Instruction := [
  .initializePool ⟨300, 0⟩ 64 3000 (2 ^ 64) 1 11 2 12,
  .initializeTickArray 0,
  .initializeTickArray (-5632),
  .openPosition 7 (-128) 128,
  .increaseLiquidity ⟨7, -5632, 0, 10 ^ 9, 10⟩ (10 ^ 9) (10 ^ 9),
  .openPosition 8 (-64) 640,
  .increaseLiquidity ⟨8, -5632, 0, 10 ^ 8, 20⟩ (10 ^ 9) (10 ^ 9),
  .swap ⟨5000000, 0, minSqrtPriceX64, true, true, 0, -5632, -5632, 30⟩,
  .swap ⟨1000000, 10 ^ 9, maxSqrtPriceX64, false, false, -5632, 0, 0, 40⟩]

/-- The pool after the sample run has traded, owes fees and is solvent. -/
theorem reachable_solvent_sampleRun : ∃ pool, Reachable (.exact false) pool ∧
    0 < pool.protocolFeeOwed true ∧ 0 < pool.protocolFeeOwed false ∧
    pool.whirlpool.liquidity = 10 ^ 9 ∧
    (∀ isTokenA, (pool.protocolFeeOwed isTokenA : ℚ) + pool.feesOwed isTokenA +
      total (pool.pendingFee isTokenA) pool.positions +
      holdings pool.positions isTokenA pool.whirlpool.sqrtPrice ≤ pool.vault isTokenA) ∧
    ∀ instruction, pool.execute (.exact false) instruction ≠ .error .insufficientFunds := by
  have ran : (Ledger.run (execute (.exact false)) none sampleRun).1.any (fun pool =>
      decide (0 < pool.protocolFeeOwed true ∧ 0 < pool.protocolFeeOwed false ∧
        pool.whirlpool.liquidity = 10 ^ 9)) = true := by decide +kernel
  obtain ⟨pool, reached, traded⟩ := (Option.any_eq_true _ _).mp ran
  obtain ⟨feeA, feeB, liquidity⟩ := of_decide_eq_true traded
  have solvent := reachable_solvent (m := .exact false) ⟨sampleRun, reached⟩
  exact ⟨pool, ⟨sampleRun, reached⟩, feeA, feeB, liquidity, solvent.1, solvent.2⟩

end Whirlpools
