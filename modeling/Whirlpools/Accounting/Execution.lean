import Whirlpools.Accounting.Effects

/-! # The effects of the instructions

Each instruction that succeeds on a pool ready for it has its effect and keeps the
account data in shape.
-/

namespace Whirlpools

open Outcome Ledger Rounding

namespace Pool

variable {m : Machine} {pool pool' : Pool} {receipt : Receipt}

section Modify

/-- The update computed from the stored arrays of a position's bounds. -/
theorem calculateModifyLiquidity_modifies (ready : pool.Ready) {lower upper : ℤ}
    {tickArrayLower tickArrayUpper : TickArray} {position : Position} {liquidityDelta : ℤ}
    {timestamp : ℕ} {update : ModifyLiquidityUpdate}
    (storedLower : pool.tickArrays lower = some tickArrayLower)
    (storedUpper : pool.tickArrays upper = some tickArrayUpper)
    (returned : Whirlpools.calculateModifyLiquidity m pool.whirlpool position tickArrayLower
      tickArrayUpper liquidityDelta timestamp = .ok update) :
    nextWhirlpoolRewardInfos pool.whirlpool timestamp = .ok update.rewardInfos ∧
      Modifies m (pool.market.accrue update.rewardInfos) position liquidityDelta update ∧
      (liquidityDelta = 0 → 0 < position.liquidity) := by
  have accrued := calculateModifyLiquidity_rewardInfos returned
  simp only [Whirlpools.calculateModifyLiquidity, bind_eq_ok] at returned
  obtain ⟨tickLower, readLower, tickUpper, readUpper, returned⟩ := returned
  have positive := ready.filed.spacing storedLower
  obtain rfl := (ready.filed.carries storedLower).getTick_eq_ok positive readLower
  obtain rfl := (ready.filed.carries storedUpper).getTick_eq_ok positive readUpper
  obtain ⟨modifies, -, inUse⟩ := Modifies.of_calculate
    (pool.market.accrue update.rewardInfos) pool.tickAt
    ⟨rfl, rfl, rfl, rfl, rfl⟩ accrued (Market.accrue_idle accrued ready.booked.idle) returned
  exact ⟨accrued, modifies, fun zero => Nat.pos_of_ne_zero fun absent => inUse ⟨zero, absent⟩⟩

/-- Writing an update back changes the market and the position as it says. -/
theorem syncModifyLiquidityValues_eq_ok (filed : pool.ArraysFiled) {args : ModifyLiquidityArgs}
    {position : Position} {update : ModifyLiquidityUpdate} {timestamp : ℕ}
    (returned : pool.syncModifyLiquidityValues args position update timestamp = .ok pool') :
    pool'.market = (pool.market.accrue update.rewardInfos).modify position update ∧
      pool' = { pool with
        whirlpool := pool.whirlpool.updateRewardsAndLiquidity update.rewardInfos
          update.whirlpoolLiquidity timestamp
        positions := pool.positions.insert args.positionMint (position.update update.positionUpdate)
        tickArrays := pool'.tickArrays } ∧ pool'.ArraysFiled := by
  have synced := returned
  simp only [syncModifyLiquidityValues, bind_eq_ok, Except.ok.injEq] at synced
  obtain ⟨first, wroteLower, second, wroteUpper, rfl⟩ := synced
  have filed0 : (pool.setPosition args.positionMint
      (position.update update.positionUpdate)).ArraysFiled :=
        ⟨filed.start, filed.valid, filed.spacing⟩
  obtain ⟨table1, filed1, rest1⟩ := updateTick_eq_ok filed0 wroteLower
  obtain ⟨table2, filed2, rest2⟩ := updateTick_eq_ok filed1 wroteUpper
  have table : second.tickAt = Function.update (Function.update pool.tickAt
      position.tickLowerIndex update.tickLowerUpdate) position.tickUpperIndex
      update.tickUpperUpdate := by
    rw [table2, table1]
    rfl
  have whirlpool_eq : second.whirlpool = pool.whirlpool := by
    rw [rest2, rest1]
    rfl
  have sameTable : ({ second with
      whirlpool := second.whirlpool.updateRewardsAndLiquidity update.rewardInfos
        update.whirlpoolLiquidity timestamp } : Pool).tickAt = second.tickAt :=
    tickAt_congr rfl rfl
  refine ⟨?_, syncModifyLiquidityValues_writes returned, filed2.congr rfl rfl⟩
  unfold market Market.modify Market.accrue
  dsimp only
  rw [sameTable, table, whirlpool_eq]
  rfl

/-- The common part of increasing and decreasing liquidity. -/
theorem modifyLiquidity_eq_ok (ready : pool.Ready) {args : ModifyLiquidityArgs} {positive : Bool}
    {deltaA deltaB : ℕ}
    (returned : pool.modifyLiquidity m args positive = .ok (pool', deltaA, deltaB, receipt)) :
    ∃ timestamp position update, ∃ liquidityDelta : ℤ,
      receipt = .credit pool timestamp position update.positionUpdate ∧
      liquidityDelta = (if positive then (args.liquidityAmount : ℤ) else -args.liquidityAmount) ∧
      args.liquidityAmount ≠ 0 ∧ args.liquidityAmount < 2 ^ 127 ∧
      pool.positions.lookup args.positionMint = some position ∧
      nextWhirlpoolRewardInfos pool.whirlpool timestamp = .ok update.rewardInfos ∧
      Modifies m (pool.market.accrue update.rewardInfos) position liquidityDelta update ∧
      pool'.market = (pool.market.accrue update.rewardInfos).modify position update ∧
      pool' = { pool with
        whirlpool := pool.whirlpool.updateRewardsAndLiquidity update.rewardInfos
          update.whirlpoolLiquidity timestamp
        positions := pool.positions.insert args.positionMint (position.update update.positionUpdate)
        tickArrays := pool'.tickArrays } ∧ pool'.ArraysFiled ∧
      ∀ isTokenA : Bool, (if isTokenA then deltaA else deltaB) = roundTo positive
        (position.tokensOf args.liquidityAmount isTokenA pool.whirlpool.sqrtPrice) := by
  simp only [modifyLiquidity, guard_eq_ok, bind_eq_ok] at returned
  obtain ⟨nonzero, liquidityDelta, converted, timestamp, -, ⟨position, update⟩, computed, synced,
    wrote, ⟨amountA, amountB⟩, moved, returned⟩ := returned
  simp only [Except.ok.injEq, Prod.mk.injEq] at returned
  obtain ⟨rfl, rfl, rfl, rfl⟩ := returned
  obtain ⟨small, delta_eq⟩ := convertToLiquidityDelta_eq_ok converted
  simp only [calculateModifyLiquidity, bind_eq_ok, Except.ok.injEq, Prod.mk.injEq] at computed
  simp only [position_eq_ok, tickArray_eq_ok] at computed
  obtain ⟨position', found, lower, storedLower, upper, storedUpper, update', computed, rfl, rfl⟩ :=
    computed
  obtain ⟨accrued, modifies, -⟩ :=
    calculateModifyLiquidity_modifies ready storedLower storedUpper computed
  obtain ⟨market_eq, rest, filed⟩ := syncModifyLiquidityValues_eq_ok ready.filed wrote
  have wellFormed := ready.booked.ranges position' ⟨_, found⟩
  have magnitude : liquidityDelta.natAbs = args.liquidityAmount := by
    rw [delta_eq]
    cases positive
    · simp only [Bool.false_eq_true, ↓reduceIte, Int.natAbs_neg, Int.natAbs_natCast]
    · simp only [↓reduceIte, Int.natAbs_natCast]
  have sign : decide (liquidityDelta > 0) = positive := by
    rw [delta_eq]
    cases positive <;> simp only [Bool.false_eq_true, ↓reduceIte, decide_eq_true_eq,
      decide_eq_false_iff_not] <;> omega
  have price_eq : synced.whirlpool.sqrtPrice = pool.whirlpool.sqrtPrice ∧
      synced.whirlpool.tickCurrentIndex = pool.whirlpool.tickCurrentIndex := by
    rw [rest]
    exact ⟨rfl, rfl⟩
  rw [price_eq.1, price_eq.2, calculateLiquidityTokenDeltas_eq ready.place wellFormed
    (by omega)] at moved
  have amounts := clampedTokenDeltas_eq_ok wellFormed (by omega) moved
  rw [magnitude] at amounts
  simp only [sign] at amounts
  exact ⟨timestamp, position', update', liquidityDelta, rfl, delta_eq, nonzero, small, found,
    accrued, modifies, market_eq, rest, filed, amounts⟩

end Modify

section Liquidity

variable {args : ModifyLiquidityArgs}

/-- The market, positions and protocol fees of a pool whose vaults change. -/
private theorem vaults_eq {vaultA vaultB : ℕ}
    (rest : pool' = { pool with vaultA := vaultA, vaultB := vaultB }) :
    pool'.market = pool.market ∧ pool'.positions = pool.positions ∧
      pool'.whirlpool = pool.whirlpool ∧ (pool.ArraysFiled → pool'.ArraysFiled) := by
  subst rest
  exact ⟨rfl, rfl, rfl, fun filed => filed.congr rfl rfl⟩

/-- The exact tokens of a signed liquidity. -/
private theorem tokensOf_one_mul (position : Position) (liquidity : ℕ) (isTokenA : Bool)
    (sqrtPrice : ℕ) : ((liquidity : ℤ) : ℚ) * position.tokensOf 1 isTokenA sqrtPrice =
      position.tokensOf liquidity isTokenA sqrtPrice := by
  rw [Int.cast_natCast, ← Position.tokensOf_eq_mul]

/-- Adding liquidity credits the position, and the tokens deposited cover what it adds. -/
theorem increaseLiquidity_effect (ready : pool.Ready) {deltaA deltaB : ℕ} {synced : Pool}
    (modified : pool.modifyLiquidity m args true = .ok (synced, deltaA, deltaB, receipt))
    (moved : synced.deposit deltaA deltaB = .ok pool') :
    pool.Effect m receipt pool' ∧ pool.Kept pool' := by
  obtain ⟨timestamp, position, update, liquidityDelta, receipt_eq, delta_eq, nonzero, -, found,
    accrued, modifies, market_eq, rest, filed, amounts⟩ := modifyLiquidity_eq_ok ready modified
  obtain ⟨final_eq, vaults⟩ := deposit_eq_ok moved
  obtain ⟨market_eq', positions_eq, whirlpool_eq, filed'⟩ := vaults_eq final_eq
  simp only [↓reduceIte] at delta_eq
  refine ⟨.credits receipt_eq found accrued modifies (fun zero => absurd zero (by omega))
    (market_eq'.trans market_eq) ?_ ?_ fun isTokenA => ?_, filed' filed, ?_, ?_, fun _ isTokenA =>
      (vaults isTokenA).2⟩
  · rw [positions_eq, rest]
  · unfold protocolFeeOwed
    rw [whirlpool_eq, rest]
    rfl
  · rw [(vaults isTokenA).1, amounts isTokenA, delta_eq, tokensOf_one_mul]
    have same : synced.vault isTokenA = pool.vault isTokenA := by
      rw [rest]
      rfl
    rw [same]
    push_cast
    exact add_le_add le_rfl (Nat.le_ceil _)
  · rw [whirlpool_eq, rest]
    rfl
  · rw [whirlpool_eq, rest]
    exact id

/-- Withdrawing liquidity credits the position and pays no more than what it takes out. -/
theorem decreaseLiquidity_effect (ready : pool.Ready) {deltaA deltaB : ℕ} {synced : Pool}
    (modified : pool.modifyLiquidity m args false = .ok (synced, deltaA, deltaB, receipt))
    (moved : synced.withdraw deltaA deltaB = .ok pool') :
    pool.Effect m receipt pool' ∧ pool.Kept pool' := by
  obtain ⟨timestamp, position, update, liquidityDelta, receipt_eq, delta_eq, nonzero, -, found,
    accrued, modifies, market_eq, rest, filed, amounts⟩ := modifyLiquidity_eq_ok ready modified
  obtain ⟨final_eq, vaults⟩ := withdraw_eq_ok moved
  obtain ⟨market_eq', positions_eq, whirlpool_eq, filed'⟩ := vaults_eq final_eq
  have same (isTokenA : Bool) : synced.vault isTokenA = pool.vault isTokenA := by
    rw [rest]
    rfl
  simp only [Bool.false_eq_true, ↓reduceIte] at delta_eq
  refine ⟨.credits receipt_eq found accrued modifies (fun zero => absurd zero (by omega))
    (market_eq'.trans market_eq) ?_ ?_ fun isTokenA => ?_, filed' filed, ?_, ?_,
    fun fits isTokenA => ?_⟩
  · rw [positions_eq, rest]
  · unfold protocolFeeOwed
    rw [whirlpool_eq, rest]
    rfl
  · have moved := vaults isTokenA
    rw [amounts isTokenA, same] at moved
    rw [moved, delta_eq, Int.cast_neg, neg_mul, tokensOf_one_mul]
    have floor := Nat.floor_le (Position.tokensOf_nonneg (ready.booked.ranges position ⟨_, found⟩)
      args.liquidityAmount isTokenA pool.whirlpool.sqrtPrice)
    rw [roundTo_false]
    push_cast
    linarith
  · rw [whirlpool_eq, rest]
    rfl
  · rw [whirlpool_eq, rest]
    exact id
  · have moved := vaults isTokenA
    have bound := fits isTokenA
    rw [same] at moved
    omega

/-- Bringing a position up to date credits it and moves no tokens. -/
theorem updateFeesAndRewards_effect (ready : pool.Ready) {positionMint : Pubkey}
    {startLower startUpper : ℤ} {timestamp : ℕ} {position : Position}
    {tickArrayLower tickArrayUpper : TickArray} {update : ModifyLiquidityUpdate}
    (found : pool.positions.lookup positionMint = some position)
    (storedLower : pool.tickArrays startLower = some tickArrayLower)
    (storedUpper : pool.tickArrays startUpper = some tickArrayUpper)
    (computed : Whirlpools.calculateModifyLiquidity m pool.whirlpool position tickArrayLower
      tickArrayUpper 0 timestamp = .ok update) :
    let final := { pool with whirlpool := pool.whirlpool.updateRewards update.rewardInfos timestamp
      }.setPosition positionMint (position.update update.positionUpdate)
    pool.Effect m (.credit pool timestamp position update.positionUpdate) final ∧
      pool.Kept final := by
  obtain ⟨accrued, modifies, inUse⟩ :=
    calculateModifyLiquidity_modifies ready storedLower storedUpper computed
  refine ⟨.credits rfl found accrued modifies inUse ?_ rfl rfl fun isTokenA => ?_,
    ready.filed.congr rfl rfl, rfl, id, fun fits => fits⟩
  · rw [modifies.modify_eq_self]
    rfl
  · rw [Int.cast_zero, zero_mul, add_zero]
    exact le_rfl

end Liquidity

section Swap

/-- The computation of a swap on a pool traverses its table of ticks. -/
theorem computeSwap_traded (ready : pool.Ready) {args : SwapArgs} {timestamp : ℕ}
    {outcome : SwapOutcome} (returned : pool.computeSwap m args = .ok (timestamp, outcome)) :
    ∃ sequence rewardInfos last final,
      pool.swapTickSequence args.tickArray0 args.tickArray1 args.tickArray2 = .ok sequence ∧
      nextWhirlpoolRewardInfos pool.whirlpool timestamp = .ok rewardInfos ∧
      Traded m (pool.whirlpool.swapContext args.sqrtPriceLimit args.amountSpecifiedIsInput
        args.aToB rewardInfos) pool.tickAt sequence args.amount.toNat outcome last final := by
  simp only [computeSwap, bind_eq_ok, Except.ok.injEq, Prod.mk.injEq] at returned
  obtain ⟨timestamp, -, sequence, supplied, outcome, swapped, rfl, rfl⟩ := returned
  obtain ⟨carried, positive, -⟩ := swapTickSequence_eq_ok ready.filed supplied
  obtain ⟨-, rewardInfos, accrued, last, final, traded⟩ := swap_traded
    ⟨positive, ready.booked.usableOnly, ready.place, ready.liquidity, carried⟩
    args.amount.toNat_lt swapped
  exact ⟨sequence, rewardInfos, last, final, supplied, accrued, traded⟩

/-- A swap accrues the rewards, runs the swap loop over the ticks of the pool and moves what the
loop accounted for in and out of the vaults. -/
theorem swap_effect (ready : pool.Ready) {args : SwapArgs} {timestamp : ℕ} {outcome : SwapOutcome}
    {updated : Pool} (computed : pool.computeSwap m args = .ok (timestamp, outcome))
    (recorded : pool.updateAfterSwap m outcome args.aToB timestamp = .ok updated)
    (moved : updated.performSwap outcome.update.amountA outcome.update.amountB args.aToB =
      .ok pool') :
    pool.Effect m (.swap pool timestamp args.aToB outcome.iterations) pool' ∧
      pool.Kept pool' := by
  obtain ⟨sequence, rewardInfos, last, final, supplied, accrued, traded⟩ :=
    computeSwap_traded ready computed
  obtain ⟨carried, positive, stored⟩ := swapTickSequence_eq_ok ready.filed supplied
  obtain ⟨liquidity_eq, tick_eq, price_eq, growth_eq, infos_eq, protocol_eq⟩ :=
    postSwapUpdate_eq_ok traded.update
  obtain ⟨updated_eq, whirlpool_eq, owed⟩ := updateAfterSwap_eq_ok recorded
  obtain ⟨moved_eq, vaults⟩ := performSwap_eq_ok moved
  obtain ⟨market_eq, positions_eq, whirlpool_eq', filed⟩ := vaults_eq moved_eq
  have changed (tick : ℤ) (differs : last tick ≠ pool.tickAt tick) :
      (pool.tickAt tick).initialized = true ∧ ∃ array ∈ sequence.arrays,
        array.startTickIndex ≤ tick ∧
          tick < array.startTickIndex + arrayWidth pool.whirlpool.tickSpacing := by
    have crossed : tick ∈ crossings outcome.iterations := by
      by_contra uncrossed
      exact differs (traded.traversal.unchanged uncrossed)
    exact ⟨(traded.traversal.mem_crossings.mp crossed).1, traded.traversal.window crossed⟩
  obtain ⟨table_eq, filed'⟩ := setTickArrays_tickAt ready.filed stored positive
    (traded.sequence ▸ traded.ends.carried) (traded.sequence ▸ traded.traversal.starts) changed
  have spacing : updated.whirlpool.tickSpacing = pool.whirlpool.tickSpacing := by
    rw [whirlpool_eq]
  have table_eq' : updated.tickAt = last := by
    rw [← table_eq]
    refine tickAt_congr ?_ spacing
    rw [updated_eq]
  have vault_eq (isTokenA : Bool) : updated.vault isTokenA = pool.vault isTokenA := by
    rw [updated_eq]
    rfl
  have kept_rate : updated.whirlpool.protocolFeeRate = pool.whirlpool.protocolFeeRate := by
    rw [whirlpool_eq]
  have amounts (isTokenA : Bool) := vaults isTokenA
  simp only [vault_eq] at amounts
  refine ⟨@Effect.swaps _ _ _ _ _ _ (pool.whirlpool.swapContext args.sqrtPriceLimit
    args.amountSpecifiedIsInput args.aToB rewardInfos) _ _ _ _ rfl rfl accrued traded ?_ ?_ ?_ ?_,
    filed (filed'.congr ?_ spacing), ?_, ?_, ?_⟩
  · rw [market_eq]
    unfold market SwapState.market
    rw [table_eq', whirlpool_eq]
    dsimp only
    rw [tick_eq, price_eq, liquidity_eq, growth_eq, infos_eq]
    cases args.aToB <;> rfl
  · rw [positions_eq, updated_eq]
    rfl
  · intro isTokenA
    have fees := owed isTokenA
    rw [protocol_eq] at fees
    have same : pool'.protocolFeeOwed isTokenA = updated.protocolFeeOwed isTokenA := by
      unfold protocolFeeOwed
      rw [whirlpool_eq']
    rw [same]
    exact fees
  · intro isTokenA
    have transfer := amounts isTokenA
    by_cases input : isTokenA = args.aToB
    · rw [if_pos input] at transfer
      exact (if_pos input).mpr transfer.1
    · rw [if_neg input] at transfer
      exact (if_neg input).mpr transfer
  · rw [updated_eq]
  · rw [whirlpool_eq', spacing]
  · rw [whirlpool_eq', kept_rate]
    exact id
  · intro fits isTokenA
    have transfer := amounts isTokenA
    have bound := fits isTokenA
    by_cases input : isTokenA = args.aToB
    · rw [if_pos input] at transfer
      exact transfer.2
    · rw [if_neg input] at transfer
      omega

end Swap

section Small

/-- A position is opened over usable ticks, empty and owed nothing. -/
theorem openPosition_wellFormed {whirlpool : Whirlpool} {positionMint : Pubkey}
    {tickLowerIndex tickUpperIndex : ℤ} {position : Position}
    (returned : Position.openPosition whirlpool positionMint tickLowerIndex tickUpperIndex =
      .ok position) :
    position.WellFormed whirlpool.tickSpacing ∧ position.liquidity = 0 ∧
      ∀ channel, position.owed channel = 0 := by
  simp only [Position.openPosition, guard_eq_ok, not_or, not_not, ge_iff_le, not_le,
    Except.ok.injEq] at returned
  obtain ⟨-, ⟨lower, upper, ordered⟩, rfl⟩ := returned
  refine ⟨⟨lower, upper, ordered⟩, rfl, ?_⟩
  rintro ((_ | _) | index) <;> rfl

/-- A position may be closed when it has no liquidity and nothing is owed to it. -/
theorem isPositionEmpty_iff {position : Position} :
    position.isPositionEmpty = true ↔
      position.liquidity = 0 ∧ ∀ channel, position.owed channel = 0 := by
  unfold Position.isPositionEmpty
  simp only [decide_eq_true_eq]
  constructor
  · rintro ⟨empty, ⟨noFeeA, noFeeB⟩, noReward⟩
    refine ⟨empty, ?_⟩
    rintro ((_ | _) | index)
    · exact noFeeB
    · exact noFeeA
    · exact noReward index
  · rintro ⟨empty, nothing⟩
    exact ⟨empty, ⟨nothing (.fee true), nothing (.fee false)⟩, fun index => nothing (.reward index)⟩

/-- Collecting fees pays a position what it is owed of both tokens. -/
theorem collectFees_effect (ready : pool.Ready) {positionMint : Pubkey} {position : Position}
    (found : pool.positions.lookup positionMint = some position)
    (moved : (pool.setPosition positionMint position.resetFeesOwed).withdraw position.feeOwedA
      position.feeOwedB = .ok pool') :
    pool.Effect m .quiet pool' ∧ pool.Kept pool' := by
  obtain ⟨rest, vaults⟩ := withdraw_eq_ok moved
  obtain ⟨market_eq, positions_eq, whirlpool_eq, filed⟩ := vaults_eq rest
  refine ⟨@Effect.pays _ _ _ _ _ _ position.resetFeesOwed rfl found rfl ⟨rfl, rfl⟩ ?_
    (fun isTokenA => ?_) market_eq positions_eq ?_, filed (ready.filed.congr rfl rfl), ?_, ?_,
    fun fits isTokenA => ?_⟩
  · funext channel
    rcases channel with (_ | _) | index <;> rfl
  · have paid := vaults isTokenA
    change pool.vault isTokenA = _ at paid
    rw [paid]
    cases isTokenA <;>
      simp only [Position.owed, Position.resetFeesOwed, Bool.false_eq_true, ↓reduceIte] <;> omega
  · unfold protocolFeeOwed
    rw [whirlpool_eq]
    rfl
  · rw [whirlpool_eq]
    rfl
  · rw [whirlpool_eq]
    exact id
  · have paid := vaults isTokenA
    have bound := fits isTokenA
    change pool.vault isTokenA = _ at paid
    omega

/-- Collecting the protocol fees pays them out of the vaults and leaves none owed. -/
theorem collectProtocolFees_effect (ready : pool.Ready) {final : Pool}
    (moved : pool.withdraw pool.whirlpool.protocolFeeOwedA pool.whirlpool.protocolFeeOwedB =
      .ok final) :
    let paid := { final with whirlpool := final.whirlpool.resetProtocolFeesOwed }
    pool.Effect m (.protocolFees pool) paid ∧ pool.Kept paid := by
  obtain ⟨rest, vaults⟩ := withdraw_eq_ok moved
  have filed : final.ArraysFiled := by
    rw [rest]
    exact ready.filed.congr rfl rfl
  refine ⟨.paysProtocol rfl ?_ ?_ (fun isTokenA => ?_) fun isTokenA => ?_, filed.congr rfl rfl, ?_,
    ?_, fun fits isTokenA => ?_⟩
  · rw [rest]
    rfl
  · rw [rest]
  · cases isTokenA <;> rfl
  · have paid := vaults isTokenA
    cases isTokenA <;> exact paid
  · rw [rest]
    rfl
  · rw [rest]
    exact id
  · have paid := vaults isTokenA
    have bound := fits isTokenA
    change final.vault isTokenA < 2 ^ 64
    omega

/-- A reward is set up with its growth as it was; nothing else that the books count changes. -/
theorem initializeReward_effect (ready : pool.Ready) {index : Fin numRewards} {mint vault : Pubkey}
    (named : mint ≠ 0) :
    let final := { pool with
      whirlpool := { pool.whirlpool with
        rewardInfos := fun position =>
          if position = index then
            { pool.whirlpool.rewardInfos position with mint := mint, vault := vault }
          else pool.whirlpool.rewardInfos position } }
    pool.Effect m .quiet final ∧ pool.Kept final := by
  refine ⟨.setsUp rfl (fun position => ?_) (fun position on => ?_) rfl rfl rfl rfl,
    ready.filed.congr rfl rfl, rfl, id, fun fits => fits⟩
  · dsimp only
    split_ifs <;> rfl
  · dsimp only
    split_ifs
    · exact decide_eq_true named
    · exact on

/-- A new emission rate takes effect after the rewards accrued at the old one. -/
theorem setRewardEmissions_effect (ready : pool.Ready) {index : Fin numRewards}
    {emissionsPerSecondX64 timestamp : ℕ} {rewardInfos : Fin numRewards → WhirlpoolRewardInfo}
    (accrued : nextWhirlpoolRewardInfos pool.whirlpool timestamp = .ok rewardInfos) :
    let final := { pool with
      whirlpool := pool.whirlpool.updateRewards (fun position =>
        if position = index then
          { rewardInfos position with emissionsPerSecondX64 := emissionsPerSecondX64 }
        else rewardInfos position) timestamp }
    pool.Effect m (.emissions pool timestamp) final ∧ pool.Kept final := by
  refine ⟨.emits rfl accrued (fun position => ?_) (fun position => ?_) rfl rfl rfl rfl,
    ready.filed.congr rfl rfl, rfl, id, fun fits => fits⟩ <;>
  · dsimp only [Whirlpool.updateRewards]
    split_ifs <;> rfl

/-- Collecting a reward changes nothing but what the position is owed of that reward. -/
theorem collectReward_effect (ready : pool.Ready) {positionMint : Pubkey} {index : Fin numRewards}
    {amountOwed : ℕ} {position : Position}
    (found : pool.positions.lookup positionMint = some position) :
    let final := pool.setPosition positionMint (position.updateRewardOwed index amountOwed)
    pool.Effect m .quiet final ∧ pool.Kept final := by
  refine ⟨@Effect.pays _ _ _ _ _ _ (position.updateRewardOwed index amountOwed) rfl found rfl
    ⟨rfl, rfl⟩ ?_ (fun isTokenA => ?_) rfl rfl rfl, ready.filed.congr rfl rfl, rfl, id,
    fun fits => fits⟩
  · funext channel
    rcases channel with (_ | _) | other
    · rfl
    · rfl
    · change (Function.update position.rewardInfos _ _ other).growthInsideCheckpoint = _
      unfold Function.update
      split_ifs with same
      · subst same
        rfl
      · rfl
  · cases isTokenA <;> rfl

end Small

/-- Every successful instruction has an effect and keeps the account data in shape. -/
theorem execute_effect (ready : pool.Ready) {instruction : Instruction}
    (returned : pool.execute m instruction = .ok (pool', receipt)) :
    pool.Effect m receipt pool' ∧ pool.Kept pool' := by
  cases execute_eq_ok.mp returned with
  | initializeTickArray fresh created =>
      obtain ⟨table_eq, filed⟩ := initializeTickArray_eq_ok ready.filed fresh created
      refine ⟨.still rfl ?_ rfl rfl rfl, filed, rfl, id, fun fits => fits⟩
      unfold market
      rw [table_eq]
  | openPosition fresh opened =>
      obtain ⟨wellFormed, empty, nothing⟩ := openPosition_wellFormed opened
      exact ⟨.opens rfl fresh wellFormed empty nothing rfl rfl rfl rfl,
        ready.filed.congr rfl rfl, rfl, id, fun fits => fits⟩
  | closePosition found empty =>
      obtain ⟨absent, nothing⟩ := isPositionEmpty_iff.mp empty
      exact ⟨.closes rfl found absent nothing rfl rfl rfl rfl,
        ready.filed.congr rfl rfl, rfl, id, fun fits => fits⟩
  | increaseLiquidity modified _ _ moved => exact increaseLiquidity_effect ready modified moved
  | decreaseLiquidity modified _ _ moved => exact decreaseLiquidity_effect ready modified moved
  | swap computed _ written moved => exact swap_effect ready computed written moved
  | updateFeesAndRewards _ found storedLower storedUpper computed =>
      exact updateFeesAndRewards_effect ready found storedLower storedUpper computed
  | collectFees found moved => exact collectFees_effect ready found moved
  | collectProtocolFees moved => exact collectProtocolFees_effect ready moved
  | initializeReward named => exact initializeReward_effect ready named
  | setRewardEmissions _ _ _ _ accrued => exact setRewardEmissions_effect ready accrued
  | collectReward found => exact collectReward_effect ready found
  | setFeeRate =>
      exact ⟨.still rfl rfl rfl rfl rfl, ready.filed.congr rfl rfl, rfl, id, fun fits => fits⟩
  | setProtocolFeeRate bounded =>
      exact ⟨.still rfl rfl rfl rfl rfl, ready.filed.congr rfl rfl, rfl, fun _ => bounded,
        fun fits => fits⟩

end Pool
end Whirlpools
