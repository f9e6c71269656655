import Whirlpools.Deployment.Authorities
import Whirlpools.Pools.RewardAuthorities

/-! # The pools of a deployment run as pools alone

Whatever happens around it, each pool of a deployment is one that a run of its own instructions
leads to, up to the authorities over its rewards. So what holds of every reachable pool holds of it.
-/

namespace Whirlpools

open Outcome Ledger History

/-- A pool is one that some run leads to, up to the authorities over its rewards. -/
def Pool.IsReached (m : Machine) (pool : Pool) : Prop :=
  ∃ authorities, Reachable m (pool.withAuthorities authorities)

/-- A new pool is reached by its creation. -/
theorem Pool.create_isReached {m : Machine} {config : WhirlpoolsConfig}
    {tickSpacing defaultFeeRate sqrtPrice : ℕ}
    {tokenMintA tokenVaultA tokenMintB tokenVaultB : Pubkey}
    {pool : Pool} (returned : create config tickSpacing defaultFeeRate sqrtPrice tokenMintA
      tokenVaultA tokenMintB tokenVaultB = .ok pool) : pool.IsReached m :=
  ⟨fun index => (pool.whirlpool.rewardInfos index).authority, Reachable.created returned⟩

/-- Handing on an authority changes nothing else. -/
theorem Whirlpool.updateRewardAuthority_withAuthorities {whirlpool whirlpool' : Whirlpool}
    {index : ℕ} {authority : Pubkey} (authorities : Fin numRewards → Pubkey)
    (returned : whirlpool.updateRewardAuthority index authority = .ok whirlpool') :
    whirlpool'.withAuthorities authorities = whirlpool.withAuthorities authorities := by
  simp only [updateRewardAuthority, guard_eq_ok, Except.ok.injEq] at returned
  obtain ⟨-, rfl⟩ := returned
  simp only [withAuthorities, Whirlpool.mk.injEq, true_and]
  funext position
  simp only [Whirlpools.withAuthorities]
  split_ifs <;> rfl

/-- An instruction, or a handover of a reward, leaves a pool that some run leads to. -/
theorem PoolMove.isReached {m : Machine} {pool pool' : Pool} (move : PoolMove m pool pool')
    (isReached : pool.IsReached m) : pool'.IsReached m := by
  obtain ⟨authorities, reachable⟩ := isReached
  cases move with
  | executed returned =>
      obtain ⟨receipt', executed⟩ := Pool.execute_withAuthorities authorities returned
      exact ⟨authorities, reachable.executes executed⟩
  | handedOver returned =>
      refine ⟨authorities, ?_⟩
      rw [Pool.withAuthorities,
        Whirlpool.updateRewardAuthority_withAuthorities authorities returned]
      exact reachable

/-- The tokens and the tick spacing of a pool are those of its address. -/
structure Pool.At (pool : Pool) (address : WhirlpoolSeeds) : Prop where
  tokenMintA : pool.whirlpool.tokenMintA = address.tokenMintA
  tokenMintB : pool.whirlpool.tokenMintB = address.tokenMintB
  tickSpacing : pool.whirlpool.tickSpacing = address.tickSpacing

/-- A new pool has the mints and the spacing of its address. -/
theorem Pool.create_at {config : WhirlpoolsConfig} {tickSpacing defaultFeeRate sqrtPrice : ℕ}
    {whirlpoolsConfig tokenMintA tokenVaultA tokenMintB tokenVaultB : Pubkey} {pool : Pool}
    (returned : create config tickSpacing defaultFeeRate sqrtPrice tokenMintA tokenVaultA tokenMintB
      tokenVaultB = .ok pool) :
    pool.At ⟨whirlpoolsConfig, tokenMintA, tokenMintB, tickSpacing⟩ := by
  simp only [create, Whirlpool.initializeWhirlpool, Whirlpool.updateFeeRate,
    Whirlpool.updateProtocolFeeRate, bind_eq_ok, guard_eq_ok, Except.ok.injEq] at returned
  obtain ⟨_, ⟨-, -, _, ⟨-, rfl⟩, _, ⟨-, rfl⟩, rfl⟩, rfl⟩ := returned
  exact ⟨rfl, rfl, rfl⟩

/-- No move of a pool changes what its address is derived from. -/
theorem PoolMove.keepsPlace {m : Machine} {pool pool' : Pool} (move : PoolMove m pool pool')
    {address : WhirlpoolSeeds} (placed : pool.At address) : pool'.At address := by
  cases move with
  | @executed instruction _ _ returned =>
      have terms := Pool.execute_terms returned
      have tokenMintA := congrArg Terms.tokenMintA terms
      have tokenMintB := congrArg Terms.tokenMintB terms
      have tickSpacing := congrArg Terms.tickSpacing terms
      cases instruction <;> exact ⟨tokenMintA.trans placed.tokenMintA,
        tokenMintB.trans placed.tokenMintB, tickSpacing.trans placed.tickSpacing⟩
  | handedOver returned =>
      simp only [Whirlpool.updateRewardAuthority, guard_eq_ok, Except.ok.injEq] at returned
      obtain ⟨-, rfl⟩ := returned
      exact ⟨placed.tokenMintA, placed.tokenMintB, placed.tickSpacing⟩

namespace Deployment

variable {m : Machine} {lib : TokenLibrary} {whirlpoolAddress : WhirlpoolSeeds → Pubkey}
  {deployment final : Deployment}

/-- A pool in its place: its configuration offers its tick spacing, and it ran as a pool alone. -/
structure Established (m : Machine) (deployment : Deployment) (address : WhirlpoolSeeds)
    (pool : Pool) : Prop where
  config : ∃ config, deployment.configs address.whirlpoolsConfig = some config
  feeTier : ∃ feeTier,
    deployment.feeTiers ⟨address.whirlpoolsConfig, address.tickSpacing⟩ = some feeTier
  placed : pool.At address
  isReached : pool.IsReached m

/-- All pools are in their place. -/
def AllEstablished (m : Machine) (deployment : Deployment) : Prop :=
  ∀ address configured, deployment.whirlpools address = some configured →
    deployment.Established m address configured.pool

theorem update_some {κ α : Type} [DecidableEq κ] {accounts : κ → Option α} {written other : κ}
    {value : α} (stored : ∃ account, accounts other = some account) :
    ∃ account, Function.update accounts written (some value) other = some account := by
  by_cases same : other = written
  · exact ⟨value, by rw [same, Function.update_self]⟩
  · obtain ⟨account, found⟩ := stored
    exact ⟨account, by rw [Function.update_of_ne same, found]⟩

/-- A pool that is written to its place is established with the others. -/
theorem AllEstablished.setWhirlpool {address : WhirlpoolSeeds} {configured : ConfiguredPool}
    (standing : deployment.AllEstablished m)
    (established : deployment.Established m address configured.pool) :
    (deployment.setWhirlpool address configured).AllEstablished m := by
  intro other stored found
  rcases of_update found with ⟨rfl, written⟩ | kept
  · obtain rfl := Option.some.inj written
    exact ⟨established.config, established.feeTier, established.placed, established.isReached⟩
  · have before := standing other stored kept
    exact ⟨before.config, before.feeTier, before.placed, before.isReached⟩

/-- An established pool stays established as it moves. -/
theorem Established.moves {address : WhirlpoolSeeds} {pool pool' : Pool}
    (established : deployment.Established m address pool) (move : PoolMove m pool pool') :
    deployment.Established m address pool' :=
  ⟨established.config, established.feeTier, move.keepsPlace established.placed,
    move.isReached established.isReached⟩

/-- Every call that succeeds leaves all pools established. -/
theorem Effect.allEstablished {signers : List Pubkey} {call : Call}
    (effect : Effect m deployment signers call final) (standing : deployment.AllEstablished m) :
    final.AllEstablished m := by
  cases effect with
  | config =>
      intro address configured found
      have before := standing address configured found
      exact ⟨update_some before.config, before.feeTier, before.placed, before.isReached⟩
  | feeTier =>
      intro address configured found
      have before := standing address configured found
      exact ⟨before.config, update_some before.feeTier, before.placed, before.isReached⟩
  | configExtension | badgeOpened | badgeClosed =>
      intro address configured found
      have before := standing address configured found
      exact ⟨before.config, before.feeTier, before.placed, before.isReached⟩
  | created _ _ founded offered _ returned =>
      exact standing.setWhirlpool ⟨⟨_, founded⟩, ⟨_, offered⟩, Pool.create_at returned,
        Pool.create_isReached returned⟩
  | pool found _ moved =>
      exact standing.setWhirlpool ((standing _ _ found).moves moved)
  | twoPools distinct foundOne foundTwo movedOne movedTwo =>
      have first := (standing _ _ foundOne).moves movedOne
      have second := (standing _ _ foundTwo).moves movedTwo
      refine AllEstablished.setWhirlpool (standing.setWhirlpool first) ?_
      exact ⟨second.config, second.feeTier, second.placed, second.isReached⟩

/-- The pools of every reachable deployment are in their place. -/
theorem allEstablished_of_reachable
    (reachable : ReachableDeployment m lib whirlpoolAddress deployment) :
    deployment.AllEstablished m := by
  obtain ⟨transactions, rfl⟩ := reachable
  exact @after_kept m lib whirlpoolAddress .empty (AllEstablished m) (fun _ => True)
    wellFormed_empty
    (fun _ _ found => absurd found.symm (Option.some_ne_none _))
    (fun _ _ _ standing _ effect => effect.allEstablished standing) transactions fun _ _ => trivial

end Deployment

/-- Each pool of a reachable deployment stands at the address of its configuration, tokens and
tick spacing; that configuration and a fee tier for that spacing exist; its tokens are in order and
its rates within their bounds; and a run of its own instructions leads to it, up to the authorities
over its rewards. -/
theorem deployed_pools_reached {m : Machine} {lib : TokenLibrary}
    {whirlpoolAddress : WhirlpoolSeeds → Pubkey}
    {deployment : Deployment} (reachable : ReachableDeployment m lib whirlpoolAddress deployment)
    {address : WhirlpoolSeeds} {configured : ConfiguredPool}
    (found : deployment.whirlpools address = some configured) :
    configured.whirlpoolsConfig = address.whirlpoolsConfig ∧
      deployment.Established m address configured.pool ∧
      address.tokenMintA < address.tokenMintB ∧ configured.pool.Capped := by
  have wellFormed := Deployment.wellFormed_of_reachable reachable
  have established :=
    Deployment.allEstablished_of_reachable reachable address configured found
  obtain ⟨authorities, reached⟩ := established.isReached
  have ordered : configured.pool.whirlpool.tokenMintA < configured.pool.whirlpool.tokenMintB :=
    reached.mintsOrdered
  rw [established.placed.tokenMintA, established.placed.tokenMintB] at ordered
  have capped := reached.capped
  exact ⟨wellFormed.whirlpools _ _ found, established, ordered, capped.feeRate,
    capped.protocolFeeRate⟩

/-- The pool of the founding run, after its reward has been handed over. -/
theorem deployed_pools_reached_handedOver :
    ∃ deployment configured, ReachableDeployment (.exact false) .formulas (fun _ => 0) deployment ∧
      deployment.whirlpools ⟨1, 10, 20, 64⟩ = some configured ∧
      (configured.pool.whirlpool.rewardRights ⟨0, by decide⟩).authority = 6 ∧
      configured.whirlpoolsConfig = 1 ∧
      deployment.Established (.exact false) ⟨1, 10, 20, 64⟩ configured.pool ∧
      configured.pool.Capped := by
  let transactions := foundingRun ++ [⟨[4], .setRewardAuthority ⟨1, 10, 20, 64⟩ 0 6⟩]
  let deployment := after (Deployment.next (.exact false) .formulas fun _ => 0) .empty transactions
  have reachable : ReachableDeployment (.exact false) .formulas (fun _ => 0) deployment :=
    ⟨transactions, rfl⟩
  obtain ⟨configured, found⟩ : ∃ configured,
    deployment.whirlpools ⟨1, 10, 20, 64⟩ = some configured := ⟨_, rfl⟩
  have handed : ((deployment.whirlpools ⟨1, 10, 20, 64⟩).map fun configured =>
    (configured.pool.whirlpool.rewardRights ⟨0, by decide⟩).authority) = some 6 := rfl
  rw [found] at handed
  obtain ⟨placed, established, -, capped⟩ := deployed_pools_reached reachable found
  exact ⟨deployment, configured, reachable, found, Option.some.inj handed, placed, established,
    capped⟩

end Whirlpools
