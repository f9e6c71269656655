import Whirlpools.Deployment.PoolRuns
import Whirlpools.Pools.Withdrawal

/-! # Nobody but the holder moves a position

Whatever all others do, the authorities of the deployment among them, a position stays with its
range and its liquidity, and its liquidity can be withdrawn.
-/

namespace Whirlpools

open Outcome History

/-- The call that withdraws liquidity from a pool of mints of the older token program. -/
def Call.decreaseLiquidity (whirlpool : WhirlpoolSeeds) (args : ModifyLiquidityArgs)
    (tokenMinA tokenMinB : ℕ) : Call :=
  .openInstruction whirlpool ⟨.decreaseLiquidity args tokenMinA tokenMinB, rfl⟩

/-- The call that withdraws liquidity from a pool of any mints. -/
def Call.decreaseLiquidityV2 (whirlpool : WhirlpoolSeeds) (mintFees : Pubkey → Option TransferFee)
    (args : ModifyLiquidityArgs) (tokenMinA tokenMinB : ℕ) : Call :=
  .openInstructionV2 whirlpool mintFees ⟨.decreaseLiquidity args tokenMinA tokenMinB, rfl⟩

/-- Rewards whose authorities are changed and changed back are as before. -/
theorem Pool.withAuthorities_back (pool : Pool) (authorities : Fin numRewards → Pubkey) :
    (pool.withAuthorities authorities).withAuthorities
      (fun index => (pool.whirlpool.rewardInfos index).authority) = pool := rfl

namespace Deployment

variable {m : Machine} {lib : TokenLibrary} {whirlpoolAddress : WhirlpoolSeeds → Pubkey}
  {deployment final : Deployment} {address : WhirlpoolSeeds} {configured : ConfiguredPool}
  {positionMint : Pubkey}
  {position : Position}

/-- A pool stores a position with some range and liquidity. -/
def Staked (deployment : Deployment) (address : WhirlpoolSeeds) (positionMint : Pubkey)
    (position : Position) : Prop :=
  ∃ configured, deployment.whirlpools address = some configured ∧
    ∃ position', configured.pool.positions.lookup positionMint = some position' ∧
      position.SameStake position'

/-- Part of a position can be withdrawn, whoever signs: the position keeps the rest, the vaults pay
the exact tokens rounded down, and nothing else in the deployment changes. The second version of
the instruction does this whatever the mints withhold, and the first one where both vaults are of
the older token program. -/
def Withdrawable (m : Machine) (lib : TokenLibrary) (whirlpoolAddress : WhirlpoolSeeds → Pubkey)
    (deployment : Deployment) (address : WhirlpoolSeeds) (configured : ConfiguredPool)
    (positionMint : Pubkey) (position : Position) (liquidityAmount timestamp : ℕ) : Prop :=
  let args := configured.pool.ownArgs positionMint position liquidityAmount timestamp
  ∃ pool' position',
    (∀ signers mintFees, deployment.execute m lib whirlpoolAddress
      ⟨signers, .decreaseLiquidityV2 address mintFees args 0 0⟩ =
        .ok (deployment.setWhirlpool address { configured with pool := pool' })) ∧
    (configured.vaultPrograms.areToken → ∀ signers, deployment.execute m lib whirlpoolAddress
      ⟨signers, .decreaseLiquidity address args 0 0⟩ =
        .ok (deployment.setWhirlpool address { configured with pool := pool' })) ∧
    pool'.positions = configured.pool.positions.insert positionMint position' ∧
    position'.liquidity + liquidityAmount = position.liquidity ∧
    ∀ isTokenA, configured.pool.vault isTokenA = pool'.vault isTokenA +
      ⌊position.tokensOf liquidityAmount isTokenA configured.pool.whirlpool.sqrtPrice⌋₊

/-- An instruction that no authority has to sign for is executed on its pool. -/
theorem execute_openInstruction {signers : List Pubkey}
    {instruction : { instruction : Instruction // instruction.isOpen }} {pool' : Pool}
    {receipt : Receipt} (found : deployment.whirlpools address = some configured)
    (admitted : configured.vaultPrograms.accepts instruction.val)
    (returned : configured.pool.execute m instruction.val = .ok (pool', receipt)) :
    deployment.execute m lib whirlpoolAddress ⟨signers, .openInstruction address instruction⟩ =
      .ok (deployment.setWhirlpool address { configured with pool := pool' }) := by
  simp only [execute, mapError_eq_ok, openInstruction, bind_eq_ok, okOr_eq_ok, Except.ok.injEq,
    configuredExecute_eq_ok]
  exact ⟨configured, found, _, ⟨admitted, pool', receipt, returned, rfl⟩, rfl⟩

/-- The second version of an instruction is executed on its pool, whatever vaults it has. -/
theorem execute_openInstructionV2 {signers : List Pubkey} {mintFees : Pubkey → Option TransferFee}
    {instruction : { instruction : InstructionV2 // instruction.isOpen }} {pool' : Pool}
    (found : deployment.whirlpools address = some configured)
    (returned : configured.pool.executeV2 m lib (mintFees configured.pool.whirlpool.tokenMintA)
      (mintFees configured.pool.whirlpool.tokenMintB) instruction.val = .ok pool') :
    deployment.execute m lib whirlpoolAddress
        ⟨signers, .openInstructionV2 address mintFees instruction⟩ =
      .ok (deployment.setWhirlpool address { configured with pool := pool' }) := by
  simp only [execute, mapError_eq_ok, openInstructionV2, bind_eq_ok, okOr_eq_ok, Except.ok.injEq,
    ConfiguredPool.executeV2]
  exact ⟨configured, found, _, ⟨pool', returned, rfl⟩, rfl⟩

/-- In a reachable deployment any part of a position can be withdrawn. -/
theorem withdrawable_of_reachable {checks : Bool}
    (reachable : ReachableDeployment (.exact checks) lib whirlpoolAddress deployment)
    (found : deployment.whirlpools address = some configured)
    (held : configured.pool.positions.lookup positionMint = some position)
    {liquidityAmount timestamp : ℕ} (positive : 0 < liquidityAmount)
    (enough : liquidityAmount ≤ position.liquidity)
    (later : configured.pool.whirlpool.rewardLastUpdatedTimestamp ≤ timestamp) :
    deployment.Withdrawable (.exact checks) lib whirlpoolAddress address configured positionMint
      position liquidityAmount timestamp := by
  obtain ⟨authorities, reached⟩ :=
    (allEstablished_of_reachable reachable address configured found).isReached
  have consistent := Pool.Consistent.of_reachable reached
  -- the pool with the authorities of its own run pays, and the authorities are changed back
  obtain ⟨paying, receipt, update, executed, withdraws⟩ :=
    consistent.decreaseLiquidity_ok checks held positive enough later
  let own (index : Fin numRewards) := (configured.pool.whirlpool.rewardInfos index).authority
  obtain ⟨receipt', executed'⟩ := Pool.execute_withAuthorities own executed
  rw [Pool.withAuthorities_back] at executed'
  have liquidity := withdraws.modifies.liquidity
  refine ⟨paying.withAuthorities own, position.update update.positionUpdate,
    fun signers mintFees => execute_openInstructionV2 found
      (Pool.executeV2_decreaseLiquidity _ _ consistent.fits executed'),
    fun older signers => execute_openInstruction found older executed', withdraws.positions, ?_,
    withdraws.paid⟩
  change update.positionUpdate.liquidity + liquidityAmount = position.liquidity
  omega

/-- A position keeps its stake when a pool is written, as long as its own pool keeps it. -/
theorem Staked.setWhirlpool {written : WhirlpoolSeeds} {updated : ConfiguredPool}
    (staked : deployment.Staked address positionMint position)
    (found : deployment.whirlpools written = some configured)
    (kept : written = address → Pool.KeepsStake positionMint configured.pool updated.pool) :
    (deployment.setWhirlpool written updated).Staked address positionMint position := by
  obtain ⟨stored, storedAt, position', held, same⟩ := staked
  by_cases equal : written = address
  · obtain rfl := equal
    obtain rfl := Option.some.inj (found.symm.trans storedAt)
    obtain ⟨position'', held', same'⟩ := kept rfl position' held
    exact ⟨updated, Function.update_self _ _ _, position'', held', same.trans same'⟩
  · have elsewhere := Function.update_of_ne (Ne.symm equal) (some updated) deployment.whirlpools
    exact ⟨stored, elsewhere.trans storedAt, position', held, same⟩

/-- What the holder of a position does not sign keeps its stake. -/
theorem Effect.staked {signers : List Pubkey} {call : Call}
    (effect : Effect m deployment signers call final)
    (staked : deployment.Staked address positionMint position)
    (foreign : ¬ call.FromHolder address positionMint) :
    final.Staked address positionMint position := by
  cases effect with
  | config | feeTier | configExtension | badgeOpened | badgeClosed => exact staked
  | @created args _ _ _ _ _ _ _ fresh =>
      obtain ⟨stored, storedAt, kept⟩ := staked
      have apart : address ≠ args.seeds := by
        rintro rfl
        exact absurd (storedAt.symm.trans fresh) (Option.some_ne_none _)
      exact ⟨stored, (Function.update_of_ne apart _ _).trans storedAt, kept⟩
  | pool found _ _ _ _ stakes =>
      refine staked.setWhirlpool found fun same => ?_
      rw [same] at stakes
      exact (stakes positionMint).resolve_left foreign
  | twoPools distinct foundOne foundTwo _ _ _ _ stakesOne stakesTwo =>
      refine Staked.setWhirlpool ?_ ((Function.update_of_ne distinct.symm _ _).trans foundTwo)
        fun _ => stakesTwo positionMint
      exact staked.setWhirlpool foundOne fun _ => stakesOne positionMint

/-- A run that the holder of a position does not sign keeps its stake. -/
theorem after_staked (wellFormed : deployment.WellFormed) {transactions : List Transaction}
    (staked : deployment.Staked address positionMint position)
    (foreign : ∀ transaction ∈ transactions,
      ¬ transaction.call.FromHolder address positionMint) :
    (after (next m lib whirlpoolAddress) deployment transactions).Staked address positionMint
      position := by
  exact after_kept wellFormed staked
    (fun _ _ _ staked foreign effect => effect.staked staked foreign) foreign

end Deployment

/-- From every reachable deployment, over any transactions none of which the holder of a position
signs: the position stays in its pool with its range and its liquidity, and then any part of its
liquidity can be withdrawn from the last update of the rewards on. -/
theorem deployed_custody {checks : Bool} {lib : TokenLibrary}
    {whirlpoolAddress : WhirlpoolSeeds → Pubkey}
    {deployment : Deployment}
    (reachable : ReachableDeployment (.exact checks) lib whirlpoolAddress deployment)
    {address : WhirlpoolSeeds} {configured : ConfiguredPool}
    (found : deployment.whirlpools address = some configured) {positionMint : Pubkey}
    {position : Position} (held : configured.pool.positions.lookup positionMint = some position)
    {transactions : List Transaction}
    (foreign : ∀ transaction ∈ transactions,
      ¬ transaction.call.FromHolder address positionMint) :
    let deployment' := after (Deployment.next (.exact checks) lib whirlpoolAddress) deployment
      transactions
    ∃ configured' position', deployment'.whirlpools address = some configured' ∧
      configured'.pool.positions.lookup positionMint = some position' ∧
      position.SameStake position' ∧
      ∀ liquidityAmount timestamp, 0 < liquidityAmount → liquidityAmount ≤ position.liquidity →
        configured'.pool.whirlpool.rewardLastUpdatedTimestamp ≤ timestamp →
        deployment'.Withdrawable (.exact checks) lib whirlpoolAddress address
          configured' positionMint
          position' liquidityAmount timestamp := by
  have wellFormed := Deployment.wellFormed_of_reachable reachable
  obtain ⟨configured', found', position', held', same⟩ :=
    @Deployment.after_staked (.exact checks) lib whirlpoolAddress deployment address positionMint
      position wellFormed transactions ⟨configured, found, position, held, .refl position⟩ foreign
  obtain ⟨earlier, rfl⟩ := reachable
  have reachable' : ReachableDeployment (.exact checks) lib whirlpoolAddress
      (after (Deployment.next (.exact checks) lib whirlpoolAddress)
        (after (Deployment.next (.exact checks) lib whirlpoolAddress) .empty earlier)
        transactions) :=
    ⟨earlier ++ transactions, after_append earlier transactions⟩
  refine ⟨configured', position', found', held', same,
    fun liquidityAmount timestamp positive enough later => ?_⟩
  exact Deployment.withdrawable_of_reachable reachable' found' held' positive
    (enough.trans_eq same.liquidity.symm) later

/-- The second mint of a pool withholds a tenth of every transfer. -/
def withheldTenth (tokenMint : Pubkey) : Option TransferFee :=
  if tokenMint = 20 then some tenPercent else none

/-- A configuration with a pool, one of whose mints withholds fees, in which a position was
opened. -/
def openingRun : List Transaction :=
  [⟨[1], .initializeConfig 1 2 3 4 300⟩, ⟨[2], .initializeFeeTier 1 64 3000⟩,
    ⟨[], .initializePoolV2 ⟨1, ⟨1, 64⟩, ⟨10, .token, false, none, []⟩,
      ⟨20, .token2022, false, none, [.transferFeeConfig]⟩, 11, 21, 64, 2 ^ 64⟩⟩,
    ⟨[], .openInstruction ⟨1, 10, 20, 64⟩ ⟨.initializeTickArray 0, rfl⟩⟩,
    ⟨[], .openInstruction ⟨1, 10, 20, 64⟩ ⟨.initializeTickArray (-5632), rfl⟩⟩,
    ⟨[], .openInstruction ⟨1, 10, 20, 64⟩ ⟨.openPosition 7 (-128) 128, rfl⟩⟩,
    ⟨[], .openInstructionV2 ⟨1, 10, 20, 64⟩ withheldTenth
      ⟨.increaseLiquidity ⟨7, -5632, 0, 10 ^ 9, 10⟩ (10 ^ 9) (10 ^ 9), rfl⟩⟩]

/-- The authorities ask for the highest fees and hand a reward over, and somebody trades. -/
def dearRun : List Transaction :=
  [⟨[2], .setFeeRate 1 ⟨1, 10, 20, 64⟩ 30000⟩, ⟨[2], .setProtocolFeeRate 1 ⟨1, 10, 20, 64⟩ 2500⟩,
    ⟨[4], .setRewardAuthority ⟨1, 10, 20, 64⟩ 0 6⟩,
    ⟨[], .openInstructionV2 ⟨1, 10, 20, 64⟩ withheldTenth
      ⟨.swap ⟨5000000, 0, minSqrtPriceX64, true, true, 0, -5632, -5632, 30⟩, rfl⟩⟩]

/-- Half of the position can be withdrawn after the authorities had their way. -/
theorem deployed_custody_dearRun : ∃ deployment configured position configured' position',
    ReachableDeployment (.exact false) .formulas (fun _ => 0) deployment ∧
      deployment.whirlpools ⟨1, 10, 20, 64⟩ = some configured ∧
      configured.pool.positions.lookup 7 = some position ∧
      (after (Deployment.next (.exact false) .formulas fun _ => 0) deployment dearRun).whirlpools
        ⟨1, 10, 20, 64⟩ = some configured' ∧
      configured'.pool.whirlpool.feeRate = 30000 ∧
      configured'.pool.whirlpool.sqrtPrice ≠ configured.pool.whirlpool.sqrtPrice ∧
      position.SameStake position' ∧
      (after (Deployment.next (.exact false) .formulas fun _ => 0) deployment dearRun).Withdrawable
        (.exact false) .formulas (fun _ => 0) ⟨1, 10, 20, 64⟩ configured' 7 position' 500000000
        100 := by
  have opened : ((after (Deployment.next (.exact false) .formulas fun _ => 0) .empty
      openingRun).whirlpools ⟨1, 10, 20, 64⟩).any (fun configured =>
        decide (configured.pool.whirlpool.sqrtPrice = 2 ^ 64) &&
          (configured.pool.positions.lookup 7).any fun position =>
            decide (500000000 ≤ position.liquidity)) = true := by decide +kernel
  have dear : ((after (Deployment.next (.exact false) .formulas fun _ => 0)
      (after (Deployment.next (.exact false) .formulas fun _ => 0) .empty openingRun)
        dearRun).whirlpools ⟨1, 10, 20, 64⟩).any (fun configured =>
          decide (configured.pool.whirlpool.feeRate = 30000 ∧
            configured.pool.whirlpool.sqrtPrice ≠ 2 ^ 64 ∧
            configured.pool.whirlpool.rewardLastUpdatedTimestamp ≤ 100)) = true := by decide +kernel
  obtain ⟨configured, found, holds⟩ := (Option.any_eq_true _ _).mp opened
  obtain ⟨start, holds⟩ := (Bool.and_eq_true _ _).mp holds
  obtain ⟨position, held, enough⟩ := (Option.any_eq_true _ _).mp holds
  have foreign : ∀ transaction ∈ dearRun,
      ¬ transaction.call.FromHolder ⟨1, 10, 20, 64⟩ 7 := by
    simp only [dearRun, List.forall_mem_cons, List.not_mem_nil, Call.FromHolder,
      InstructionV2.heldPosition, reduceCtorEq, and_false, not_false_eq_true, false_imp_iff,
      implies_true, and_self]
  have reachable : ReachableDeployment (.exact false) .formulas (fun _ => 0)
      (after (Deployment.next (.exact false) .formulas fun _ => 0) .empty openingRun) :=
    ⟨openingRun, rfl⟩
  obtain ⟨configured', position', found', -, same, withdrawable⟩ :=
    deployed_custody reachable found held foreign
  rw [found'] at dear
  obtain ⟨feeRate, moved, later⟩ := of_decide_eq_true dear
  rw [← of_decide_eq_true start] at moved
  exact ⟨_, configured, position, configured', position', reachable, found, held, found', feeRate,
    moved, same, withdrawable _ _ (by norm_num) (of_decide_eq_true enough) later⟩

end Whirlpools
