import Whirlpools.Accounting.Coverage

/-! # The invariant of pools

A consistent pool keeps its books, has a tick that fits its price, and has vaults
that cover its obligations. A new pool is consistent and every instruction keeps a
pool consistent, so every reachable pool is.
-/

namespace Whirlpools

open Outcome Ledger

namespace Pool

/-- The fees of a token owed to all positions. -/
def feesOwed (pool : Pool) (isTokenA : Bool) : ℕ :=
  total (fun position => position.owed (.fee isTokenA)) pool.positions

/-- What the vault of a token has to cover. -/
def obligations (pool : Pool) (isTokenA : Bool) : ℚ :=
  pool.protocolFeeOwed isTokenA + pool.feesOwed isTokenA +
    pool.market.claims isTokenA pool.positions

/-- The invariant of pools. -/
structure Consistent (pool : Pool) : Prop where
  filed : pool.ArraysFiled
  booked : Booked pool.whirlpool.tickSpacing pool.market pool.positions
  place : PriceTick pool.whirlpool.sqrtPrice pool.whirlpool.tickCurrentIndex
  rate : pool.whirlpool.protocolFeeRate ≤ maxProtocolFeeRate
  fits : ∀ isTokenA, pool.vault isTokenA < 2 ^ 64
  solvent : ∀ isTokenA, pool.obligations isTokenA ≤ pool.vault isTokenA

namespace Consistent

variable {pool : Pool}

/-- The tokens in the liquidity are among the obligations. -/
theorem holdings_le (consistent : pool.Consistent) (isTokenA : Bool) :
    holdings pool.positions isTokenA pool.whirlpool.sqrtPrice ≤ pool.vault isTokenA := by
  have solvent := consistent.solvent isTokenA
  have pending := pool.market.totalPending_nonneg (.fee isTokenA) pool.positions
  have protocol : (0 : ℚ) ≤ pool.protocolFeeOwed isTokenA := Nat.cast_nonneg _
  have owed : (0 : ℚ) ≤ pool.feesOwed isTokenA := Nat.cast_nonneg _
  unfold obligations Market.claims at solvent
  change _ + (holdings pool.positions isTokenA pool.whirlpool.sqrtPrice + _) ≤ _ at solvent
  linarith

/-- The vaults bound the liquidity of all positions. -/
theorem totalLiquidity_lt (consistent : pool.Consistent) :
    totalLiquidity pool.positions < 2 ^ 115 := by
  have bound := totalLiquidity_le_holdings consistent.booked.ranges pool.whirlpool.sqrtPrice
  have heldA := consistent.holdings_le true
  have heldB := consistent.holdings_le false
  have fitsA : (pool.vault true : ℚ) < 2 ^ 64 := by exact_mod_cast consistent.fits true
  have fitsB : (pool.vault false : ℚ) < 2 ^ 64 := by exact_mod_cast consistent.fits false
  have small : (totalLiquidity pool.positions : ℚ) < 2 ^ 115 := by linarith
  exact_mod_cast small

/-- In particular all liquidity stays below the bound that signed liquidity needs. -/
theorem bounded (consistent : pool.Consistent) : totalLiquidity pool.positions < 2 ^ 127 :=
  lt_trans consistent.totalLiquidity_lt (by norm_num)

/-- The liquidity in range is a part of all liquidity. -/
theorem liquidity_lt (consistent : pool.Consistent) : pool.whirlpool.liquidity < 2 ^ 115 := by
  have active := activeAt_le pool.positions pool.whirlpool.tickCurrentIndex
  have same : pool.whirlpool.liquidity = activeAt pool.positions pool.whirlpool.tickCurrentIndex :=
    consistent.booked.liquidity
  have total := consistent.totalLiquidity_lt
  omega

/-- A consistent pool has what every instruction needs to find. -/
theorem ready (consistent : pool.Consistent) : pool.Ready :=
  ⟨consistent.filed, consistent.booked, consistent.place,
    lt_trans consistent.liquidity_lt (by norm_num)⟩

end Consistent
end Pool

section Books

variable {tickSpacing : ℕ} {market : Market} {positions positions' : Records Pubkey Position}

/-- The books depend on the positions through their sums. -/
theorem Booked.of_totals (booked : Booked tickSpacing market positions)
    (ranges : ∀ position, Holds positions' position → position.WellFormed tickSpacing)
    (gross : ∀ tick, total (fun position => position.grossAt tick) positions' =
      total (fun position => position.grossAt tick) positions)
    (net : ∀ tick, total (fun position => position.netAt tick) positions' =
      total (fun position => position.netAt tick) positions)
    (active : ∀ tick, activeAt positions' tick = activeAt positions tick) :
    Booked tickSpacing market positions' :=
  ⟨ranges, fun tick => (booked.gross tick).trans (gross tick).symm,
    fun tick => (booked.net tick).trans (net tick).symm, booked.initialized,
    booked.liquidity.trans (active _).symm, booked.idle⟩

/-- A position without liquidity has no part in anything. -/
theorem Position.parts_of_empty {position : Position} (empty : position.liquidity = 0)
    (tick : ℤ) : position.grossAt tick = 0 ∧ position.netAt tick = 0 ∧
    position.weight tick = 0 := by
  unfold grossAt netAt weight
  rw [empty]
  simp only [ite_self, Nat.cast_zero, sub_zero, and_self]

/-- A position without liquidity claims nothing. -/
theorem Position.claims_of_empty {position : Position} (empty : position.liquidity = 0)
    (market : Market) (channel : Channel) (isTokenA : Bool) (sqrtPrice : ℕ) :
    market.pending channel position = 0 ∧ position.tokens isTokenA sqrtPrice = 0 := by
  unfold Market.pending Position.tokens
  rw [tokensOf_eq_mul, empty]
  simp only [Nat.cast_zero, zero_mul, zero_div, and_self]

/-- Opening an empty position keeps the books. -/
theorem Booked.opens (booked : Booked tickSpacing market positions) {positionMint : Pubkey}
    {position : Position} (fresh : positions.lookup positionMint = none)
    (wellFormed : position.WellFormed tickSpacing) (empty : position.liquidity = 0) :
    Booked tickSpacing market (positions.insert positionMint position) := by
  have parts := Position.parts_of_empty empty
  refine booked.of_totals ?_ (fun tick => ?_) (fun tick => ?_) fun tick => ?_
  · intro other held
    obtain rfl | ⟨key, -, found⟩ := held.of_insert
    · exact wellFormed
    · exact booked.ranges other ⟨key, found⟩
  · rw [total_insert_new _ position fresh, (parts tick).1, zero_add]
  · rw [total_insert_new _ position fresh, (parts tick).2.1, zero_add]
  · rw [activeAt, total_insert_new _ position fresh, (parts tick).2.2, zero_add]
    rfl

/-- Closing an empty position keeps the books. -/
theorem Booked.closes (booked : Booked tickSpacing market positions) {positionMint : Pubkey}
    {position : Position} (found : positions.lookup positionMint = some position)
    (empty : position.liquidity = 0) :
    Booked tickSpacing market (positions.erase positionMint) := by
  have parts := Position.parts_of_empty empty
  refine booked.of_totals ?_ (fun tick => ?_) (fun tick => ?_) fun tick => ?_
  · exact fun other held => booked.ranges other held.of_erase
  · rw [total_erase (fun position : Position => position.grossAt tick) found, (parts tick).1,
      zero_add]
  · rw [total_erase (fun position : Position => position.netAt tick) found, (parts tick).2.1,
      zero_add]
  · unfold activeAt
    rw [total_erase (fun position : Position => position.weight tick) found, (parts tick).2.2,
      zero_add]

/-- Paying a position keeps the books, which read its range and liquidity only. -/
theorem Booked.pays (booked : Booked tickSpacing market positions) {positionMint : Pubkey}
    {position position' : Position} (found : positions.lookup positionMint = some position)
    (liquidity_eq : position'.liquidity = position.liquidity)
    (range_eq : position'.tickLowerIndex = position.tickLowerIndex ∧
      position'.tickUpperIndex = position.tickUpperIndex) :
    Booked tickSpacing market (positions.insert positionMint position') := by
  refine booked.of_totals ?_ (fun tick => ?_) (fun tick => ?_) fun tick => ?_
  · intro other held
    obtain rfl | ⟨key, -, present⟩ := held.of_insert
    · have old := booked.ranges position ⟨positionMint, found⟩
      exact ⟨range_eq.1 ▸ old.lower, range_eq.2 ▸ old.upper, range_eq.1 ▸ range_eq.2 ▸ old.ordered⟩
    · exact booked.ranges other ⟨key, present⟩
  · refine total_insert_same _ _ found ?_
    unfold Position.grossAt
    rw [liquidity_eq, range_eq.1, range_eq.2]
  · refine total_insert_same _ _ found ?_
    unfold Position.netAt
    rw [liquidity_eq, range_eq.1, range_eq.2]
  · refine total_insert_same _ _ found ?_
    unfold Position.weight
    rw [liquidity_eq, range_eq.1, range_eq.2]

/-- New rewards data keeps the books when it is idle where it was. -/
theorem Booked.infos (booked : Booked tickSpacing market positions)
    {infos : Fin numRewards → WhirlpoolRewardInfo}
    (growth_eq : ∀ index, (infos index).growthGlobalX64 =
      (market.rewardInfos index).growthGlobalX64)
    (initialized : ∀ index, (market.rewardInfos index).initialized = true →
      (infos index).initialized = true) : Booked tickSpacing (market.accrue infos) positions := by
  refine ⟨booked.ranges, booked.gross, booked.net, booked.initialized, booked.liquidity, ?_⟩
  intro index off
  have before : (market.rewardInfos index).initialized = false := by
    rw [Bool.eq_false_iff]
    intro on
    exact absurd (initialized index on) (by
      change (infos index).initialized = false at off
      rw [off]
      exact Bool.false_ne_true)
  obtain ⟨zero, nowhere⟩ := booked.idle index before
  exact ⟨(growth_eq index).trans zero, nowhere⟩

end Books

/-- Rewards have no part in the claims on the tokens of the pool. -/
theorem Market.claims_accrue (market : Market) (infos : Fin numRewards → WhirlpoolRewardInfo)
    (isTokenA : Bool) (positions : Records Pubkey Position) :
    (market.accrue infos).claims isTokenA positions = market.claims isTokenA positions := by
  cases isTokenA <;> rfl

namespace Pool.Effect

variable {m : Machine} {pool pool' : Pool} {receipt : Receipt}

/-- The start of a swap is the pool with its rewards accrued. -/
theorem initial_market {context : SwapContext} (sequence : SwapTickSequence) (amount : ℕ)
    (whirlpool_eq : context.whirlpool = pool.whirlpool) :
    (context.initialState sequence amount).market context pool.tickAt =
      pool.market.accrue context.nextRewardInfos := by
  unfold SwapState.market SwapContext.initialState crossingFeeGrowths Pool.market Market.accrue
  rw [whirlpool_eq]
  cases context.aToB <;> rfl

/-- Every instruction keeps the books. -/
theorem booked (effect : pool.Effect m receipt pool') (kept : pool.Kept pool')
    (consistent : pool.Consistent) :
    Booked pool'.whirlpool.tickSpacing pool'.market pool'.positions := by
  have before := consistent.booked
  rw [kept.spacing]
  cases effect with
  | still _ market_eq positions_eq => rwa [market_eq, positions_eq]
  | setsUp _ growth_eq initialized market_eq positions_eq =>
      rw [market_eq, positions_eq]
      exact before.infos growth_eq initialized
  | emits _ accrued growth_eq initialized market_eq positions_eq =>
      rw [market_eq, positions_eq]
      exact (before.accrue accrued).infos growth_eq fun index on => (initialized index).trans on
  | opens _ fresh wellFormed empty _ market_eq positions_eq =>
      rw [market_eq, positions_eq]
      exact before.opens fresh wellFormed empty
  | closes _ found empty _ market_eq positions_eq =>
      rw [market_eq, positions_eq]
      exact before.closes found empty
  | pays _ found liquidity_eq range_eq _ _ market_eq positions_eq =>
      rw [market_eq, positions_eq]
      exact before.pays found liquidity_eq range_eq
  | paysProtocol _ market_eq positions_eq => rwa [market_eq, positions_eq]
  | credits _ found accrued modifies _ market_eq positions_eq =>
      rw [market_eq, positions_eq]
      exact modifies.booked (before.accrue accrued) found
  | swaps _ whirlpool_eq accrued traded market_eq positions_eq =>
      rw [market_eq, positions_eq]
      refine (traded.traversal.covered (whirlpool_eq ▸ consistent.rate) consistent.bounded ?_).1
      rw [initial_market _ _ whirlpool_eq]
      exact before.accrue accrued

/-- Every instruction leaves a tick that fits the price. -/
theorem place (effect : pool.Effect m receipt pool') (consistent : pool.Consistent) :
    PriceTick pool'.whirlpool.sqrtPrice pool'.whirlpool.tickCurrentIndex := by
  have before := consistent.place
  change PriceTick pool.market.sqrtPrice pool.market.tickCurrentIndex at before
  change PriceTick pool'.market.sqrtPrice pool'.market.tickCurrentIndex
  cases effect with
  | still _ market_eq => rwa [market_eq]
  | setsUp _ _ _ market_eq => rwa [market_eq]
  | emits _ _ _ _ market_eq => rwa [market_eq]
  | opens _ _ _ _ _ market_eq => rwa [market_eq]
  | closes _ _ _ _ market_eq => rwa [market_eq]
  | pays _ _ _ _ _ _ market_eq => rwa [market_eq]
  | paysProtocol _ market_eq => rwa [market_eq]
  | credits _ _ _ _ _ market_eq => rwa [market_eq]
  | swaps _ _ _ traded market_eq =>
      rw [market_eq]
      exact traded.ends.place

/-- A position that is brought up to date moves its pending fees into the fees owed, and
its tokens change with its liquidity. -/
private theorem credits_covered {timestamp : ℕ} {positionMint : Pubkey} {position : Position}
    {liquidityDelta : ℤ} {update : ModifyLiquidityUpdate} (consistent : pool.Consistent)
    (found : pool.positions.lookup positionMint = some position)
    (accrued : nextWhirlpoolRewardInfos pool.whirlpool timestamp = .ok update.rewardInfos)
    (modifies : Modifies m (pool.market.accrue update.rewardInfos) position liquidityDelta update)
    (isTokenA : Bool) :
    let positions' := pool.positions.insert positionMint (position.update update.positionUpdate)
    ((total (fun position => position.owed (.fee isTokenA)) positions' : ℕ) : ℚ) +
        ((pool.market.accrue update.rewardInfos).modify position update).claims
          isTokenA positions' ≤
      pool.feesOwed isTokenA + pool.market.claims isTokenA pool.positions +
        liquidityDelta * position.tokensOf 1 isTokenA pool.whirlpool.sqrtPrice := by
  intro positions'
  have pending := modifies.totalPending_eq (consistent.booked.accrue accrued) found (.fee isTokenA)
  have owed := total_insert (fun position : Position => position.owed (.fee isTokenA))
    (position.update update.positionUpdate) found
  have tokens := total_insert (fun position : Position =>
    position.tokens isTokenA pool.whirlpool.sqrtPrice) (position.update update.positionUpdate) found
  have credited : (position.update update.positionUpdate).owed (.fee isTokenA) ≤
      position.owed (.fee isTokenA) +
        (pool.market.accrue update.rewardInfos).credit (.fee isTokenA) position := by
    rw [modifies.owed]
    exact wrappingAdd_le _ _ _
  have earned := (pool.market.accrue update.rewardInfos).credit_le_pending (.fee isTokenA) position
  have changed : (position.update update.positionUpdate).tokens isTokenA pool.whirlpool.sqrtPrice =
      position.tokens isTokenA pool.whirlpool.sqrtPrice +
        liquidityDelta * position.tokensOf 1 isTokenA pool.whirlpool.sqrtPrice := by
    have liquidity : (update.positionUpdate.liquidity : ℚ) =
        position.liquidity + liquidityDelta := by exact_mod_cast modifies.liquidity
    change position.tokensOf update.positionUpdate.liquidity _ _ = position.tokensOf _ _ _ + _
    rw [Position.tokensOf_eq_mul, Position.tokensOf_eq_mul position position.liquidity, liquidity]
    ring
  have same : (pool.market.accrue update.rewardInfos).totalPending (.fee isTokenA) pool.positions =
      pool.market.totalPending (.fee isTokenA) pool.positions := by cases isTokenA <;> rfl
  have owedLe : total (fun position : Position => position.owed (.fee isTokenA)) positions' ≤
      pool.feesOwed isTokenA +
        (pool.market.accrue update.rewardInfos).credit (.fee isTokenA) position := by
    change total _ positions' + position.owed (.fee isTokenA) =
      total _ pool.positions + (position.update update.positionUpdate).owed (.fee isTokenA) at owed
    unfold feesOwed
    omega
  have owedCast : ((total (fun position : Position => position.owed (.fee isTokenA)) positions' : ℕ)
      : ℚ) ≤ pool.feesOwed isTokenA +
        (pool.market.accrue update.rewardInfos).credit (.fee isTokenA) position := by
    exact_mod_cast owedLe
  unfold Market.claims
  change _ + (holdings positions' isTokenA pool.whirlpool.sqrtPrice + _) ≤
    _ + (holdings pool.positions isTokenA pool.whirlpool.sqrtPrice + _) + _
  unfold holdings
  rw [same] at pending
  linarith

/-- Every instruction keeps the vaults covering the obligations. -/
theorem solvent (effect : pool.Effect m receipt pool') (consistent : pool.Consistent)
    (isTokenA : Bool) : pool'.obligations isTokenA ≤ pool'.vault isTokenA := by
  have before := consistent.solvent isTokenA
  unfold obligations feesOwed at before ⊢
  cases effect with
  | still _ market_eq positions_eq owed_eq vault_eq =>
      rwa [market_eq, positions_eq, owed_eq, vault_eq]
  | setsUp _ _ _ market_eq positions_eq owed_eq vault_eq =>
      rwa [market_eq, positions_eq, owed_eq, vault_eq, Market.claims_accrue]
  | emits _ _ _ _ market_eq positions_eq owed_eq vault_eq =>
      rwa [market_eq, positions_eq, owed_eq, vault_eq, Market.claims_accrue]
  | @opens positionMint position _ fresh _ empty nothing market_eq positions_eq owed_eq vault_eq =>
      have parts := Position.claims_of_empty empty pool.market (.fee isTokenA) isTokenA
        pool.market.sqrtPrice
      unfold Market.claims holdings Market.totalPending at before ⊢
      rw [market_eq, positions_eq, owed_eq, vault_eq, total_insert_new _ position fresh,
        total_insert_new _ position fresh, total_insert_new _ position fresh, nothing, parts.1,
        parts.2, zero_add, zero_add, zero_add]
      exact before
  | @closes positionMint position _ found empty nothing market_eq positions_eq owed_eq vault_eq =>
      have parts := Position.claims_of_empty empty pool.market (.fee isTokenA) isTokenA
        pool.market.sqrtPrice
      unfold Market.claims holdings Market.totalPending at before ⊢
      rw [total_erase (fun position : Position => position.owed (.fee isTokenA)) found,
        total_erase (fun position : Position => position.tokens isTokenA _) found,
        total_erase (pool.market.pending (.fee isTokenA)) found, nothing, parts.1, parts.2,
        zero_add, zero_add, zero_add] at before
      rwa [market_eq, positions_eq, owed_eq, vault_eq]
  | @pays positionMint position position' _ found liquidity_eq range_eq checkpoint_eq paid market_eq
      positions_eq owed_eq =>
      have owed := total_insert (fun position : Position => position.owed (.fee isTokenA))
        position' found
      have tokens := total_insert_same (fun position : Position =>
        position.tokens isTokenA pool.market.sqrtPrice) position' found (by
          unfold Position.tokens Position.tokensOf
          rw [liquidity_eq, range_eq.1, range_eq.2])
      have pending := total_insert_same (pool.market.pending (.fee isTokenA)) position'
        found (by
          unfold Market.pending Market.growthSince
          rw [liquidity_eq, range_eq.1, range_eq.2, checkpoint_eq])
      have payment := paid isTokenA
      unfold Market.claims holdings Market.totalPending at before ⊢
      rw [market_eq, positions_eq, owed_eq, tokens, pending]
      have exchanged : ((total (fun position : Position => position.owed (.fee isTokenA))
          (pool.positions.insert positionMint position') : ℕ) : ℚ) + pool.vault isTokenA =
            (total (fun position : Position => position.owed (.fee isTokenA)) pool.positions : ℕ) +
              pool'.vault isTokenA := by
        have balance : total (fun position : Position => position.owed (.fee isTokenA))
            (pool.positions.insert positionMint position') + pool.vault isTokenA =
              total (fun position : Position => position.owed (.fee isTokenA)) pool.positions +
                pool'.vault isTokenA := by omega
        exact_mod_cast balance
      linarith
  | paysProtocol _ market_eq positions_eq owed_eq vault_eq =>
      rw [vault_eq isTokenA, Nat.cast_add] at before
      rw [market_eq, positions_eq, owed_eq isTokenA, Nat.cast_zero]
      linarith
  | credits _ found accrued modifies _ market_eq positions_eq owed_eq covered =>
      have claims := credits_covered consistent found accrued modifies isTokenA
      have moved := covered isTokenA
      unfold feesOwed at claims
      rw [market_eq, positions_eq, owed_eq]
      linarith
  | @swaps timestamp amount context sequence outcome last final _ whirlpool_eq accrued traded
      market_eq positions_eq owed_eq vault_eq =>
      have start := initial_market sequence amount whirlpool_eq
      obtain ⟨-, input, output⟩ := traded.traversal.covered (whirlpool_eq ▸ consistent.rate)
        consistent.bounded (start ▸ consistent.booked.accrue accrued)
      rw [start, Market.claims_accrue] at input output
      obtain ⟨taken, given⟩ := postSwapUpdate_amounts sequence amount
        traded.traversal.remaining_le traded.update
      have fees : ((context.initialState sequence amount).currProtocolFee : ℚ) = 0 :=
        Nat.cast_zero
      have protocol := owed_eq isTokenA
      have moved := vault_eq isTokenA
      rw [market_eq, positions_eq]
      by_cases side : isTokenA = context.aToB
      · subst side
        rw [if_pos rfl] at protocol moved
        have added : (pool'.protocolFeeOwed context.aToB : ℚ) ≤
            pool.protocolFeeOwed context.aToB + final.currProtocolFee := by
          exact_mod_cast m.plainAdd_le protocol
        rw [moved, Nat.cast_add, taken]
        linarith
      · rw [if_neg side] at protocol moved
        obtain rfl := Bool.eq_not_of_ne side
        rw [moved, Nat.cast_add, given] at before
        rw [protocol]
        linarith

end Pool.Effect

namespace Pool

variable {m : Machine} {pool pool' : Pool}

/-- Every instruction keeps a pool consistent. -/
theorem Consistent.execute (consistent : pool.Consistent) {instruction : Instruction}
    {receipt : Receipt} (returned : pool.execute m instruction = .ok (pool', receipt)) :
    pool'.Consistent := by
  obtain ⟨effect, kept⟩ := execute_effect consistent.ready returned
  exact ⟨kept.filed, effect.booked kept consistent, effect.place consistent,
    kept.rate consistent.rate, kept.fits consistent.fits, effect.solvent consistent⟩

/-- The books of a market without positions, ticks and growth. -/
theorem booked_empty {tickSpacing : ℕ} {market : Market} (empty : market.liquidity = 0)
    (ticks : market.ticks = fun _ => Tick.default)
    (noGrowth : ∀ index, (market.rewardInfos index).growthGlobalX64 = 0) :
    Booked tickSpacing market ∅ := by
  refine ⟨?_, fun tick => ?_, fun tick => ?_, fun tick => ?_, empty, fun index _ =>
    ⟨noGrowth index, fun tick => ?_⟩⟩
  · rintro position ⟨key, held⟩
    exact absurd held (by simp only [AList.lookup_empty, reduceCtorEq, not_false_eq_true])
  all_goals rw [ticks]
  · rfl
  · rfl
  · change false = true ↔ 0 < 0
    decide
  · rfl

/-- A new pool is consistent. -/
theorem create_consistent {config : WhirlpoolsConfig} {tickSpacing defaultFeeRate sqrtPrice : ℕ}
    {tokenMintA tokenVaultA tokenMintB tokenVaultB : Pubkey}
    (returned : create config tickSpacing defaultFeeRate sqrtPrice tokenMintA tokenVaultA tokenMintB
      tokenVaultB = .ok pool) : pool.Consistent := by
  simp only [create, Whirlpool.initializeWhirlpool, Whirlpool.updateFeeRate,
    Whirlpool.updateProtocolFeeRate, bind_eq_ok, guard_eq_ok, Except.ok.injEq, not_or,
    not_lt, gt_iff_lt] at returned
  obtain ⟨whirlpool, ⟨-, ⟨above, below⟩, _, ⟨-, rfl⟩, _, ⟨rate, rfl⟩, rfl⟩, rfl⟩ := returned
  refine ⟨?_, booked_empty rfl rfl fun _ => rfl, PriceTick.of_sqrtPrice above below, rate, ?_, ?_⟩
  · constructor <;> intro start array stored <;> simp only [reduceCtorEq] at stored
  · rintro (_ | _) <;> exact Nat.two_pow_pos 64
  · have nothing {isTokenA : Bool} {market : Market} : market.claims isTokenA ∅ = 0 := add_zero 0
    rintro (_ | _)
    · unfold obligations
      rw [nothing, add_zero]
      exact le_of_eq (by norm_num [protocolFeeOwed, feesOwed, vault])
    · unfold obligations
      rw [nothing, add_zero]
      exact le_of_eq (by norm_num [protocolFeeOwed, feesOwed, vault])

/-- Every reachable pool is consistent. -/
theorem Consistent.of_reachable (reachable : Reachable m pool) : pool.Consistent :=
  reachable.invariant create_consistent fun _ consistent executed => consistent.execute executed

end Pool
end Whirlpools
