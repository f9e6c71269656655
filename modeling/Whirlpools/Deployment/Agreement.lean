import Whirlpools.Deployment.Domain

/-! # The same domain stays the same

Two deployments that show the same domain of a configuration show the same one after the same
transaction, whatever else they hold: neither other configurations nor the trades of the pools
matter for it.
-/

namespace Whirlpools

open Outcome

namespace ConfiguredPool

/-- The pool after an update that may fail. -/
def settle (configured : ConfiguredPool) (updated : Result ConfiguredPool) : ConfiguredPool :=
  match updated with
  | .ok updated => updated
  | .error _ => configured

/-- An update changes the rights in a way that only the rights decide. -/
def RightsAlike (update : ConfiguredPool → Result ConfiguredPool) : Prop :=
  ∀ configured configured' : ConfiguredPool, configured.rights = configured'.rights →
    (configured.settle (update configured)).rights =
      (configured'.settle (update configured')).rights

variable {m : Machine} {configured configured' : ConfiguredPool}

/-- The rights after an instruction. -/
theorem settle_execute {instruction : Instruction} {updated : ConfiguredPool}
    (returned : configured.execute m instruction = .ok updated) :
    updated.rights = ⟨configured.rights.whirlpoolsConfig,
      instruction.newTerms configured.rights.terms,
      instruction.newRewardRights configured.rights.rewards⟩ := by
  obtain ⟨-, pool, receipt, executed, rfl⟩ := Deployment.configuredExecute_eq_ok.mp returned
  simp only [rights, Pool.execute_terms executed, Pool.execute_rewardRights executed]

/-- An instruction that succeeds where the rights are the same changes them alike. -/
theorem rightsAlike_of_succeeds {instruction : Instruction}
    (succeeds : ∀ configured configured' : ConfiguredPool, configured.rights = configured'.rights →
      ∀ updated, configured.execute m instruction = .ok updated →
        ∃ updated', configured'.execute m instruction = .ok updated') :
    RightsAlike fun configured => configured.execute m instruction := by
  intro configured configured' same
  dsimp only
  cases returned : configured.execute m instruction with
  | ok updated =>
      obtain ⟨updated', returned'⟩ := succeeds configured configured' same updated returned
      simp only [returned', settle, settle_execute returned, settle_execute returned', same]
  | error failure =>
      cases returned' : configured'.execute m instruction with
      | ok updated' =>
          obtain ⟨updated, succeeded⟩ :=
            succeeds configured' configured same.symm updated' returned'
          have : (Except.error failure : Result ConfiguredPool) = .ok updated :=
            returned.symm.trans succeeded
          simp only [reduceCtorEq] at this
      | error failure' => simp only [settle, same]

/-- Setting the fee rate does the same to the rights of pools that agree on them. -/
theorem setFeeRate_rightsAlike {feeRate : ℕ} :
    RightsAlike fun configured => configured.execute m (.setFeeRate feeRate) := by
  refine rightsAlike_of_succeeds fun configured configured' _ updated returned => ?_
  obtain ⟨-, pool, receipt, executed, -⟩ := Deployment.configuredExecute_eq_ok.mp returned
  cases Pool.execute_eq_ok.mp executed with
  | setFeeRate bounded =>
      exact ⟨_, Deployment.configuredExecute_eq_ok.mpr
        ⟨rfl, _, _, Pool.execute_eq_ok.mpr (.setFeeRate bounded), rfl⟩⟩

theorem setProtocolFeeRate_rightsAlike {protocolFeeRate : ℕ} :
    RightsAlike fun configured => configured.execute m (.setProtocolFeeRate protocolFeeRate) := by
  refine rightsAlike_of_succeeds fun configured configured' _ updated returned => ?_
  obtain ⟨-, pool, receipt, executed, -⟩ := Deployment.configuredExecute_eq_ok.mp returned
  cases Pool.execute_eq_ok.mp executed with
  | setProtocolFeeRate bounded =>
      exact ⟨_, Deployment.configuredExecute_eq_ok.mpr
        ⟨rfl, _, _, Pool.execute_eq_ok.mpr (.setProtocolFeeRate bounded), rfl⟩⟩

/-- The rewards that are set up are seen in the rights. -/
theorem lowestUninitializedReward_eq (same : configured.rights = configured'.rights) :
    configured.pool.whirlpool.lowestUninitializedReward =
      configured'.pool.whirlpool.lowestUninitializedReward := by
  have mints (index : Fin numRewards) : (configured.pool.whirlpool.rewardInfos index).mint =
      (configured'.pool.whirlpool.rewardInfos index).mint :=
    congrArg RewardRights.mint (congrFun (congrArg PoolRights.rewards same) index)
  simp only [Whirlpool.lowestUninitializedReward, WhirlpoolRewardInfo.initialized, mints]

/-- The rights after a reward was set up do not depend on the program of its vault. -/
theorem settle_initializeReward {args : InitializeRewardArgs} (configured : ConfiguredPool) :
    (configured.settle (configured.initializeReward m args)).rights =
      (configured.settle (configured.execute m
        (.initializeReward args.rewardIndex args.rewardMint.key args.rewardVault))).rights := by
  unfold initializeReward
  cases configured.execute m
    (.initializeReward args.rewardIndex args.rewardMint.key args.rewardVault) <;> rfl

theorem executeInitializeReward_rightsAlike {rewardIndex : ℕ} {mint vault : Pubkey} :
    RightsAlike fun configured =>
      configured.execute m (.initializeReward rewardIndex mint vault) := by
  refine rightsAlike_of_succeeds fun configured configured' same updated returned => ?_
  obtain ⟨-, pool, receipt, executed, -⟩ := Deployment.configuredExecute_eq_ok.mp returned
  cases Pool.execute_eq_ok.mp executed with
  | initializeReward named lowest =>
      rw [lowestUninitializedReward_eq same] at lowest
      exact ⟨_, Deployment.configuredExecute_eq_ok.mpr
        ⟨rfl, _, _, Pool.execute_eq_ok.mpr (.initializeReward named lowest), rfl⟩⟩

/-- Setting up a reward, vault included, does the same to the rights of pools that agree on them. -/
theorem initializeReward_rightsAlike {args : InitializeRewardArgs} :
    RightsAlike (ConfiguredPool.initializeReward m args) := by
  intro configured configured' same
  rw [settle_initializeReward, settle_initializeReward]
  exact executeInitializeReward_rightsAlike configured configured' same

theorem updateRewardAuthority_rightsAlike {rewardIndex : ℕ} {authority : Pubkey} :
    RightsAlike (ConfiguredPool.updateRewardAuthority rewardIndex authority) := by
  intro configured configured' same
  have rewards (index : Fin numRewards) := congrFun (congrArg PoolRights.rewards same) index
  simp only [updateRewardAuthority, Whirlpool.updateRewardAuthority]
  split_ifs
  · exact same
  · have config := congrArg PoolRights.whirlpoolsConfig same
    have terms := congrArg PoolRights.terms same
    simp only [ok_bind, settle, rights, PoolRights.mk.injEq]
    refine ⟨config, terms, funext fun index => ?_⟩
    have mint := congrArg RewardRights.mint (rewards index)
    have vault := congrArg RewardRights.vault (rewards index)
    simp only [rights, Whirlpool.rewardRights] at mint vault rewards ⊢
    split_ifs
    · simp only [mint, vault]
    · exact rewards index

end ConfiguredPool

namespace Deployment

variable {m : Machine} {lib : TokenLibrary} {whirlpoolAddress : WhirlpoolSeeds → Pubkey}
  {deployment deployment' : Deployment} {config : Pubkey} {pools : Set WhirlpoolSeeds}
  {signers : List Pubkey} {ε α : Type}

/-- How a failure is wrapped does not matter once the call is settled. -/
theorem settle_mapError {ε' : Type} {called : Except ε Deployment} {wrap : ε → ε'} :
    deployment.settle (called.mapError wrap) = deployment.settle called := by
  cases called <;> rfl

/-- Wrapping the failure of a missing account wraps it where it is raised. -/
theorem okOr_mapError {ε' : Type} {found : Option α} {failure : ε} {wrap : ε → ε'} :
    (okOr found failure).mapError wrap = okOr found (wrap failure) := by
  cases found <;> rfl

/-- A call that only writes elsewhere keeps the domain. -/
theorem settle_kept {called : Except ε Deployment}
    (kept : ∀ final, called = .ok final →
      final.domain config pools = deployment.domain config pools) :
    (deployment.settle called).domain config pools = deployment.domain config pools := by
  cases returned : called with
  | ok final => exact kept final returned
  | error failure => rfl

/-- Two calls go on alike after the same computation. -/
theorem settle_bind {computed : Except ε α} {rest rest' : α → Except ε Deployment}
    (same : deployment.domain config pools = deployment'.domain config pools)
    (alike : ∀ value, computed = .ok value → (deployment.settle (rest value)).domain config pools =
      (deployment'.settle (rest' value)).domain config pools) :
    (deployment.settle (computed >>= rest)).domain config pools =
      (deployment'.settle (computed >>= rest')).domain config pools := by
  cases returned : computed with
  | ok value => exact alike value returned
  | error failure => exact same

section Views

variable (same : deployment.domain config pools = deployment'.domain config pools)

include same

/-- Deployments that agree on a domain hold the same config of it. -/
theorem configs_eq : deployment.configs config = deployment'.configs config :=
  congrArg Domain.config same

theorem feeTiers_eq (tickSpacing : ℕ) :
    deployment.feeTiers ⟨config, tickSpacing⟩ = deployment'.feeTiers ⟨config, tickSpacing⟩ :=
  congrFun (congrArg Domain.feeTiers same) tickSpacing

theorem configExtensions_eq :
    deployment.configExtensions config = deployment'.configExtensions config :=
  congrArg Domain.configExtension same

theorem tokenBadges_eq (tokenMint : Pubkey) :
    deployment.tokenBadges ⟨config, tokenMint⟩ = deployment'.tokenBadges ⟨config, tokenMint⟩ :=
  congrFun (congrArg Domain.tokenBadges same) tokenMint

theorem whirlpools_eq {whirlpool : WhirlpoolSeeds} (member : whirlpool ∈ pools) :
    (deployment.whirlpools whirlpool).map ConfiguredPool.rights =
      (deployment'.whirlpools whirlpool).map ConfiguredPool.rights :=
  congrFun (congrArg Domain.whirlpools same) ⟨whirlpool, member⟩

end Views

section Writes

variable (same : deployment.domain config pools = deployment'.domain config pools)

include same

/-- Writing the same config keeps two deployments in agreement. -/
theorem domain_setConfig {account : ConfigAccount} :
    (deployment.setConfig config account).domain config pools =
      (deployment'.setConfig config account).domain config pools := by
  simp only [domain, setConfig, Function.update_self, Domain.mk.injEq, true_and] at same ⊢
  exact same.2

theorem domain_setFeeTier {tickSpacing : ℕ} {feeTier : FeeTier} :
    (deployment.setFeeTier ⟨config, tickSpacing⟩ feeTier).domain config pools =
      (deployment'.setFeeTier ⟨config, tickSpacing⟩ feeTier).domain config pools := by
  simp only [domain, setFeeTier, Domain.mk.injEq] at same ⊢
  refine ⟨same.1, funext fun other => ?_, same.2.2⟩
  by_cases equal : (⟨config, other⟩ : FeeTierSeeds) = ⟨config, tickSpacing⟩
  · rw [equal, Function.update_self, Function.update_self]
  · rw [Function.update_of_ne equal, Function.update_of_ne equal]
    exact congrFun same.2.1 other

theorem domain_setConfigExtension {extension : WhirlpoolsConfigExtension} :
    (deployment.setConfigExtension config extension).domain config pools =
      (deployment'.setConfigExtension config extension).domain config pools := by
  simp only [domain, setConfigExtension, Function.update_self, Domain.mk.injEq, true_and] at same ⊢
  exact ⟨same.1, same.2.1, same.2.2.2⟩

theorem domain_setTokenBadge {tokenMint : Pubkey} {tokenBadge : Option TokenBadge} :
    (deployment.setTokenBadge ⟨config, tokenMint⟩ tokenBadge).domain config pools =
      (deployment'.setTokenBadge ⟨config, tokenMint⟩ tokenBadge).domain config pools := by
  simp only [domain, setTokenBadge, Domain.mk.injEq] at same ⊢
  refine ⟨same.1, same.2.1, same.2.2.1, funext fun other => ?_, same.2.2.2.2⟩
  by_cases equal : (⟨config, other⟩ : TokenBadgeSeeds) = ⟨config, tokenMint⟩
  · rw [equal, Function.update_self, Function.update_self]
  · rw [Function.update_of_ne equal, Function.update_of_ne equal]
    exact congrFun same.2.2.2.1 other

theorem domain_setWhirlpool {address : WhirlpoolSeeds} {configured configured' : ConfiguredPool}
    (alike : configured.rights = configured'.rights) :
    (deployment.setWhirlpool address configured).domain config pools =
      (deployment'.setWhirlpool address configured').domain config pools := by
  simp only [domain, setWhirlpool, Domain.mk.injEq] at same ⊢
  refine ⟨same.1, same.2.1, same.2.2.1, same.2.2.2.1, funext fun other => ?_⟩
  by_cases equal : (other : WhirlpoolSeeds) = address
  · rw [equal, Function.update_self, Function.update_self, Option.map_some, Option.map_some, alike]
  · rw [Function.update_of_ne equal, Function.update_of_ne equal]
    exact congrFun same.2.2.2.2 other

end Writes

/-- Two calls that only write elsewhere. -/
theorem settle_elsewhere {called called' : Except ε Deployment}
    (same : deployment.domain config pools = deployment'.domain config pools)
    (kept : ∀ final, called = .ok final →
      final.domain config pools = deployment.domain config pools)
    (kept' : ∀ final, called' = .ok final →
      final.domain config pools = deployment'.domain config pools) :
    (deployment.settle called).domain config pools =
      (deployment'.settle called').domain config pools :=
  (settle_kept kept).trans (same.trans (settle_kept kept').symm)

section Configs

variable (same : deployment.domain config pools = deployment'.domain config pools)
  {address extensionAddress : Pubkey}

include same

/-- Creating a config treats agreeing deployments alike. -/
theorem initializeConfig_alike {fee collect super : Pubkey} {rate : ℕ} :
    (deployment.settle (deployment.initializeConfig signers address fee collect super
        rate)).domain config pools =
      (deployment'.settle (deployment'.initializeConfig signers address fee collect super
        rate)).domain config pools := by
  have elsewhere (other : address ≠ config) {deployment final : Deployment}
      (returned : deployment.initializeConfig signers address fee collect super rate = .ok final) :
      final.domain config pools = deployment.domain config pools := by
    simp only [initializeConfig, bind_eq_ok, Except.ok.injEq] at returned
    obtain ⟨_, -, _, -, _, -, rfl⟩ := returned
    exact domain_setConfig_of_ne other
  by_cases governed : address = config
  · subst governed
    unfold initializeConfig
    rw [configs_eq same]
    exact settle_bind same fun _ _ => settle_bind same fun _ _ => settle_bind same fun account _ =>
      domain_setConfig same
  · exact settle_elsewhere same (fun _ => elsewhere governed) fun _ => elsewhere governed

/-- An update of the config by its authority treats agreeing deployments alike. -/
theorem updateConfig_alike {authority : ConfigAccount → Pubkey}
    {update : ConfigAccount → Result ConfigAccount} :
    (deployment.settle (deployment.updateConfig signers address authority update)).domain config
        pools =
      (deployment'.settle (deployment'.updateConfig signers address authority update)).domain config
        pools := by
  have elsewhere (other : address ≠ config) {deployment final : Deployment}
      (returned : deployment.updateConfig signers address authority update = .ok final) :
      final.domain config pools = deployment.domain config pools := by
    simp only [updateConfig, bind_eq_ok, Except.ok.injEq] at returned
    obtain ⟨_, -, _, -, _, -, rfl⟩ := returned
    exact domain_setConfig_of_ne other
  by_cases governed : address = config
  · subst governed
    unfold updateConfig
    rw [configs_eq same]
    exact settle_bind same fun _ _ => settle_bind same fun _ _ => settle_bind same fun account _ =>
      domain_setConfig same
  · exact settle_elsewhere same (fun _ => elsewhere governed) fun _ => elsewhere governed

/-- Creating a fee tier treats agreeing deployments alike. -/
theorem initializeFeeTier_alike {tickSpacing rate : ℕ} :
    (deployment.settle (deployment.initializeFeeTier signers address tickSpacing rate)).domain
        config pools =
      (deployment'.settle (deployment'.initializeFeeTier signers address tickSpacing rate)).domain
        config pools := by
  have elsewhere (other : address ≠ config) {deployment final : Deployment}
      (returned : deployment.initializeFeeTier signers address tickSpacing rate = .ok final) :
      final.domain config pools = deployment.domain config pools := by
    simp only [initializeFeeTier, bind_eq_ok, Except.ok.injEq] at returned
    obtain ⟨_, -, _, -, _, -, _, -, rfl⟩ := returned
    exact domain_setFeeTier_of_ne other
  by_cases governed : address = config
  · subst governed
    unfold initializeFeeTier
    rw [configs_eq same, feeTiers_eq same tickSpacing]
    exact settle_bind same fun _ _ => settle_bind same fun _ _ => settle_bind same fun _ _ =>
      settle_bind same fun feeTier _ => domain_setFeeTier same
  · exact settle_elsewhere same (fun _ => elsewhere governed) fun _ => elsewhere governed

/-- Changing the rate of a fee tier treats agreeing deployments alike. -/
theorem setDefaultFeeRate_alike (wellFormed : deployment.WellFormed)
    (wellFormed' : deployment'.WellFormed) {feeTierAddress : FeeTierSeeds} {rate : ℕ} :
    (deployment.settle (deployment.setDefaultFeeRate signers address feeTierAddress rate)).domain
        config pools =
      (deployment'.settle
        (deployment'.setDefaultFeeRate signers address feeTierAddress rate)).domain config
          pools := by
  have elsewhere (other : ¬ (address = config ∧ feeTierAddress.whirlpoolsConfig = config))
      {deployment final : Deployment} (wellFormed : deployment.WellFormed)
      (returned : deployment.setDefaultFeeRate signers address feeTierAddress rate = .ok final) :
      final.domain config pools = deployment.domain config pools := by
    simp only [setDefaultFeeRate, bind_eq_ok, okOr_eq_ok, constraint_eq_ok, decide_eq_true_eq,
      Except.ok.injEq] at returned
    obtain ⟨_, -, _, offered, _, owned, _, -, _, -, rfl⟩ := returned
    refine domain_setFeeTier_of_ne fun placed => other ⟨?_, placed⟩
    rw [← owned, (wellFormed.feeTiers _ _ offered).1, placed]
  by_cases governed : address = config ∧ feeTierAddress.whirlpoolsConfig = config
  · obtain ⟨rfl, placed⟩ := governed
    obtain ⟨feeTierConfig, tickSpacing⟩ := feeTierAddress
    obtain rfl : feeTierConfig = address := placed
    unfold setDefaultFeeRate
    rw [configs_eq same, feeTiers_eq same tickSpacing]
    exact settle_bind same fun _ _ => settle_bind same fun _ _ => settle_bind same fun _ _ =>
      settle_bind same fun _ _ => settle_bind same fun feeTier _ => domain_setFeeTier same
  · exact settle_elsewhere same (fun _ => elsewhere governed wellFormed)
      fun _ => elsewhere governed wellFormed'

/-- Creating the extension treats agreeing deployments alike. -/
theorem initializeConfigExtension_alike :
    (deployment.settle (deployment.initializeConfigExtension signers address)).domain config pools =
      (deployment'.settle (deployment'.initializeConfigExtension signers address)).domain config
        pools := by
  have elsewhere (other : address ≠ config) {deployment final : Deployment}
      (returned : deployment.initializeConfigExtension signers address = .ok final) :
      final.domain config pools = deployment.domain config pools := by
    simp only [initializeConfigExtension, bind_eq_ok, Except.ok.injEq] at returned
    obtain ⟨_, -, _, -, _, -, rfl⟩ := returned
    exact domain_setConfigExtension_of_ne other
  by_cases governed : address = config
  · subst governed
    unfold initializeConfigExtension
    rw [configs_eq same, configExtensions_eq same]
    exact settle_bind same fun _ _ => settle_bind same fun _ _ => settle_bind same fun _ _ =>
      domain_setConfigExtension same
  · exact settle_elsewhere same (fun _ => elsewhere governed) fun _ => elsewhere governed

/-- The signed extension of the configuration is seen in its domain. -/
theorem extensionSigned_eq {authority : WhirlpoolsConfigExtension → Pubkey} :
    deployment.extensionSigned signers config config authority =
      deployment'.extensionSigned signers config config authority := by
  unfold extensionSigned
  rw [configs_eq same, configExtensions_eq same]

/-- A call on the extension of a configuration, with the signature of one of its authorities. -/
theorem extensionSigned_alike (wellFormed : deployment.WellFormed)
    (wellFormed' : deployment'.WellFormed) {authority : WhirlpoolsConfigExtension → Pubkey}
    {rest : Deployment → WhirlpoolsConfigExtension → Result Deployment}
    (elsewhere : extensionAddress = address → address ≠ config →
      ∀ {deployment final : Deployment} {extension},
      rest deployment extension = .ok final →
        final.domain config pools = deployment.domain config pools)
    (alike : address = config → extensionAddress = config → ∀ extension,
      (deployment.settle (rest deployment extension)).domain config pools =
        (deployment'.settle (rest deployment' extension)).domain config pools) :
    (deployment.settle (deployment.extensionSigned signers address extensionAddress authority >>=
        rest deployment)).domain config pools =
      (deployment'.settle (deployment'.extensionSigned signers address extensionAddress
        authority >>= rest deployment')).domain config pools := by
  have kept (other : ¬ (address = config ∧ extensionAddress = config))
      {deployment final : Deployment} (wellFormed : deployment.WellFormed)
      (returned : (deployment.extensionSigned signers address extensionAddress authority >>=
        rest deployment) = .ok final) :
      final.domain config pools = deployment.domain config pools := by
    rw [bind_eq_ok] at returned
    obtain ⟨extension, computed, written⟩ := returned
    obtain ⟨placed, -, -⟩ := extensionSigned_eq_ok wellFormed computed
    exact elsewhere placed (fun governed => other ⟨governed, placed.trans governed⟩) written
  by_cases governed : address = config ∧ extensionAddress = config
  · obtain ⟨rfl, rfl⟩ := governed
    rw [extensionSigned_eq same]
    exact settle_bind same fun extension _ => alike rfl rfl extension
  · exact settle_elsewhere same (fun _ => kept governed wellFormed)
      fun _ => kept governed wellFormed'

/-- An update of the extension by its authority treats agreeing deployments alike. -/
theorem setExtension_alike (wellFormed : deployment.WellFormed)
    (wellFormed' : deployment'.WellFormed)
    {update : WhirlpoolsConfigExtension → WhirlpoolsConfigExtension} :
    (deployment.settle (deployment.extensionSigned signers address extensionAddress
        (fun extension => extension.configExtensionAuthority) >>= fun extension =>
        .ok (deployment.setConfigExtension extensionAddress (update extension)))).domain config
        pools =
      (deployment'.settle (deployment'.extensionSigned signers address extensionAddress
        (fun extension => extension.configExtensionAuthority) >>= fun extension =>
        .ok (deployment'.setConfigExtension extensionAddress (update extension)))).domain config
        pools := by
  refine @extensionSigned_alike deployment deployment' config pools signers same address
    extensionAddress wellFormed wellFormed' _ (fun deployment extension =>
      .ok (deployment.setConfigExtension extensionAddress (update extension)))
    (fun placed other _ _ _ written => ?_) fun _ placed _ => ?_
  · obtain rfl := Except.ok.inj written
    exact domain_setConfigExtension_of_ne (placed.trans_ne other)
  · subst placed
    exact domain_setConfigExtension same

/-- Creating a badge treats agreeing deployments alike. -/
theorem initializeTokenBadge_alike (wellFormed : deployment.WellFormed)
    (wellFormed' : deployment'.WellFormed) {tokenMint : Pubkey} :
    (deployment.settle (deployment.initializeTokenBadge signers address extensionAddress
        tokenMint)).domain config pools =
      (deployment'.settle (deployment'.initializeTokenBadge signers address extensionAddress
        tokenMint)).domain config pools := by
  unfold initializeTokenBadge
  refine @extensionSigned_alike deployment deployment' config pools signers same address
    extensionAddress wellFormed wellFormed' _ (fun deployment _ =>
      constraint (deployment.tokenBadges ⟨address, tokenMint⟩).isNone >>= fun _ =>
      .ok (deployment.setTokenBadge ⟨address, tokenMint⟩ (some ⟨address, tokenMint⟩)))
    (fun _ other _ _ _ written => ?_) fun placed _ _ => ?_
  · simp only [bind_eq_ok, Except.ok.injEq] at written
    obtain ⟨_, -, rfl⟩ := written
    exact domain_setTokenBadge_of_ne other
  · subst placed
    rw [tokenBadges_eq same tokenMint]
    exact settle_bind same fun _ _ => domain_setTokenBadge same

/-- Deleting a badge treats agreeing deployments alike. -/
theorem deleteTokenBadge_alike (wellFormed : deployment.WellFormed)
    (wellFormed' : deployment'.WellFormed) {tokenMint : Pubkey} :
    (deployment.settle (deployment.deleteTokenBadge signers address extensionAddress
        tokenMint)).domain config pools =
      (deployment'.settle (deployment'.deleteTokenBadge signers address extensionAddress
        tokenMint)).domain config pools := by
  unfold deleteTokenBadge
  refine @extensionSigned_alike deployment deployment' config pools signers same address
    extensionAddress wellFormed wellFormed' _ (fun deployment _ =>
      okOr (deployment.tokenBadges ⟨address, tokenMint⟩) .account >>= fun tokenBadge =>
      constraint (tokenBadge.whirlpoolsConfig = address) >>= fun _ =>
      .ok (deployment.setTokenBadge ⟨address, tokenMint⟩ none))
    (fun _ other _ _ _ written => ?_) fun placed _ _ => ?_
  · simp only [bind_eq_ok, Except.ok.injEq] at written
    obtain ⟨_, -, _, -, rfl⟩ := written
    exact domain_setTokenBadge_of_ne other
  · subst placed
    rw [tokenBadges_eq same tokenMint]
    exact settle_bind same fun _ _ => settle_bind same fun _ _ => domain_setTokenBadge same

end Configs

section Pools

variable (same : deployment.domain config pools = deployment'.domain config pools)
  (wellFormed : deployment.WellFormed) (wellFormed' : deployment'.WellFormed)
  (within : ∀ address ∈ pools, WhirlpoolSeeds.whirlpoolsConfig address = config)
  {address : Pubkey} {whirlpool : WhirlpoolSeeds}

include same

/-- Two calls go on alike with a pool of the domain, of which they see the rights. -/
theorem settle_whirlpool {rest rest' : ConfiguredPool → Except ε Deployment}
    {failure : ε} (member : whirlpool ∈ pools)
    (alike : ∀ configured configured', deployment.whirlpools whirlpool = some configured →
      deployment'.whirlpools whirlpool = some configured' → configured.rights = configured'.rights →
      (deployment.settle (rest configured)).domain config pools =
        (deployment'.settle (rest' configured')).domain config pools) :
    (deployment.settle (okOr (deployment.whirlpools whirlpool) failure >>= rest)).domain config
        pools =
      (deployment'.settle (okOr (deployment'.whirlpools whirlpool) failure >>= rest')).domain config
        pools := by
  have rights := whirlpools_eq same member
  cases found : deployment.whirlpools whirlpool with
  | none =>
      cases found' : deployment'.whirlpools whirlpool with
      | none => exact same
      | some configured' => simp only [found, found', Option.map_none, Option.map_some,
          reduceCtorEq] at rights
  | some configured =>
      cases found' : deployment'.whirlpools whirlpool with
      | none => simp only [found, found', Option.map_none, Option.map_some, reduceCtorEq] at rights
      | some configured' =>
          simp only [found, found', Option.map_some, Option.some.injEq] at rights
          exact alike configured configured' found found' rights

/-- Updates of a pool that change its rights alike. -/
theorem settle_update {update : ConfiguredPool → Result ConfiguredPool}
    (alike : ConfiguredPool.RightsAlike update) {configured configured' : ConfiguredPool}
    (found : deployment.whirlpools whirlpool = some configured)
    (found' : deployment'.whirlpools whirlpool = some configured')
    (rights : configured.rights = configured'.rights) :
    (deployment.settle (update configured >>= fun updated =>
        .ok (deployment.setWhirlpool whirlpool updated))).domain config pools =
      (deployment'.settle (update configured' >>= fun updated =>
        .ok (deployment'.setWhirlpool whirlpool updated))).domain config pools := by
  have settled := alike configured configured' rights
  cases returned : update configured with
  | ok updated =>
      cases returned' : update configured' with
      | ok updated' =>
          simp only [returned, returned', ConfiguredPool.settle] at settled
          exact domain_setWhirlpool same settled
      | error failure' =>
          simp only [returned, returned', ConfiguredPool.settle] at settled
          exact (domain_setWhirlpool_of_rights found (settled.trans rights.symm)).trans same
  | error failure =>
      cases returned' : update configured' with
      | ok updated' =>
          simp only [returned, returned', ConfiguredPool.settle] at settled
          exact same.trans
            (domain_setWhirlpool_of_rights found' (settled.symm.trans rights)).symm
      | error failure' => exact same

include wellFormed wellFormed' within

/-- What an authority of the config does to a pool treats agreeing deployments alike. -/
theorem underConfig_alike {authority : ConfigAccount → Pubkey}
    {update : ConfiguredPool → Result ConfiguredPool} (alike : ConfiguredPool.RightsAlike update) :
    (deployment.settle (deployment.underConfig signers address whirlpool authority update)).domain
        config pools =
      (deployment'.settle
        (deployment'.underConfig signers address whirlpool authority update)).domain config
        pools := by
  have elsewhere (other : ¬ (address = config ∧ whirlpool ∈ pools)) {deployment final : Deployment}
      (wellFormed : deployment.WellFormed)
      (returned : deployment.underConfig signers address whirlpool authority update = .ok final) :
      final.domain config pools = deployment.domain config pools := by
    simp only [underConfig, bind_eq_ok, okOr_eq_ok, constraint_eq_ok, decide_eq_true_eq,
      Except.ok.injEq] at returned
    obtain ⟨_, -, configured, found, _, owned, _, -, _, -, rfl⟩ := returned
    refine domain_setWhirlpool_of_notMem fun member => other ⟨?_, member⟩
    rw [← owned, wellFormed.whirlpools _ _ found, within whirlpool member]
  by_cases governed : address = config ∧ whirlpool ∈ pools
  · obtain ⟨rfl, member⟩ := governed
    unfold underConfig
    rw [configs_eq same]
    refine settle_bind same fun account _ => settle_whirlpool same member
      fun configured configured' found found' rights => ?_
    have owned : configured.whirlpoolsConfig = configured'.whirlpoolsConfig :=
      congrArg PoolRights.whirlpoolsConfig rights
    rw [owned]
    exact settle_bind same fun _ _ => settle_bind same fun _ _ =>
      settle_update same alike found found' rights
  · exact settle_elsewhere same (fun _ => elsewhere governed wellFormed)
      fun _ => elsewhere governed wellFormed'

omit wellFormed wellFormed' within in
/-- What the authority of a reward does to a pool treats agreeing deployments alike. -/
theorem underReward_alike {rewardIndex : ℕ} {update : ConfiguredPool → Result ConfiguredPool}
    (alike : ConfiguredPool.RightsAlike update) :
    (deployment.settle (deployment.underReward signers whirlpool rewardIndex update)).domain config
        pools =
      (deployment'.settle (deployment'.underReward signers whirlpool rewardIndex update)).domain
        config pools := by
  have elsewhere (other : whirlpool ∉ pools) {deployment final : Deployment}
      (returned : deployment.underReward signers whirlpool rewardIndex update = .ok final) :
      final.domain config pools = deployment.domain config pools := by
    obtain ⟨_, _, _, -, -, rfl⟩ := underReward_eq_ok returned
    exact domain_setWhirlpool_of_notMem other
  by_cases member : whirlpool ∈ pools
  · refine settle_whirlpool same member fun configured configured' found found' rights => ?_
    have authority (index : Fin numRewards) :
        (configured.pool.whirlpool.rewardInfos index).authority =
          (configured'.pool.whirlpool.rewardInfos index).authority :=
      congrArg RewardRights.authority (congrFun (congrArg PoolRights.rewards rights) index)
    split_ifs with inside
    · rw [authority]
      exact settle_bind same fun _ _ => settle_update same alike found found' rights
    · exact same
  · exact settle_elsewhere same (fun _ => elsewhere member) fun _ => elsewhere member

omit wellFormed wellFormed' within in
/-- Whether a mint is supported is seen in the domain. -/
theorem supports_eq {tokenMint : TokenMint} :
    deployment.supports config tokenMint = deployment'.supports config tokenMint := by
  unfold supports
  rw [tokenBadges_eq same tokenMint.key]

/-- Setting up a reward on a mint that needs a badge treats agreeing deployments alike. -/
theorem initializeRewardV2_alike {args : InitializeRewardArgs} :
    (deployment.settle (deployment.initializeRewardV2 m signers args)).domain config pools =
      (deployment'.settle (deployment'.initializeRewardV2 m signers args)).domain config pools := by
  have created := @underReward_alike deployment deployment' config pools signers same args.whirlpool
    args.rewardIndex _ (@ConfiguredPool.initializeReward_rightsAlike m args)
  have elsewhere (other : args.whirlpool ∉ pools) {deployment final : Deployment}
      (returned : deployment.initializeRewardV2 m signers args = .ok final) :
      final.domain config pools = deployment.domain config pools := by
    simp only [initializeRewardV2, bind_eq_ok, guard_eq_ok, mapError_eq_ok] at returned
    obtain ⟨_, -, -, written⟩ := returned
    obtain ⟨_, _, _, -, -, rfl⟩ := underReward_eq_ok written
    exact domain_setWhirlpool_of_notMem other
  by_cases member : args.whirlpool ∈ pools
  · unfold initializeRewardV2
    rw [okOr_mapError, okOr_mapError]
    refine settle_whirlpool same member fun configured configured' found found' rights => ?_
    have owned : configured.whirlpoolsConfig = config :=
      (wellFormed.whirlpools _ _ found).trans (within _ member)
    have owned' : configured'.whirlpoolsConfig = config :=
      (wellFormed'.whirlpools _ _ found').trans (within _ member)
    rw [owned, owned', supports_eq same]
    split_ifs
    · exact same
    · rw [settle_mapError, settle_mapError]
      exact created
  · exact settle_elsewhere same (fun _ => elsewhere member) fun _ => elsewhere member

end Pools

/-- A pool of the domain cannot be created again. -/
theorem createPool_kept {final : Deployment} {args : InitializePoolArgs}
    (existing : ∀ address ∈ pools, ∃ configured, deployment.whirlpools address = some configured)
    (returned : deployment.createPool args = .ok final) :
    final.domain config pools = deployment.domain config pools := by
  simp only [createPool, bind_eq_ok, okOr_eq_ok, constraint_eq_ok, Option.isNone_iff_eq_none,
    Except.ok.injEq] at returned
  obtain ⟨_, -, _, fresh, _, -, _, -, _, -, _, -, rfl⟩ := returned
  refine domain_setWhirlpool_of_notMem fun member => ?_
  obtain ⟨configured, found⟩ := existing args.seeds member
  exact absurd (fresh.symm.trans found) (by simp only [reduceCtorEq, not_false_eq_true])

/-- An instruction that anyone may send leaves the domain as it was. -/
theorem openInstruction_kept {final : Deployment} {whirlpool : WhirlpoolSeeds}
    {instruction : Instruction} (isOpen : instruction.isOpen)
    (returned : deployment.openInstruction m whirlpool instruction = .ok final) :
    final.domain config pools = deployment.domain config pools := by
  simp only [openInstruction, bind_eq_ok, okOr_eq_ok, configuredExecute_eq_ok,
    Except.ok.injEq] at returned
  obtain ⟨_, found, _, ⟨-, _, _, executed, rfl⟩, rfl⟩ := returned
  exact domain_setWhirlpool_of_rights found
    (execute_rights rfl executed (keepsRights_of_isOpen isOpen))

/-- The second version of an instruction keeps the rights over the pool. -/
theorem executeV2_rights {configured updated : ConfiguredPool}
    {mintFees : Pubkey → Option TransferFee} {instruction : InstructionV2}
    (returned : configured.executeV2 m lib mintFees instruction = .ok updated) :
    updated.rights = configured.rights := by
  obtain ⟨net, receipt, nets, executed, owned⟩ := configuredExecuteV2_nets returned
  exact execute_rights owned executed (keepsRights_of_nets nets)

theorem openInstructionV2_kept {final : Deployment} {whirlpool : WhirlpoolSeeds}
    {mintFees : Pubkey → Option TransferFee} {instruction : InstructionV2}
    (returned : deployment.openInstructionV2 m lib whirlpool mintFees instruction = .ok final) :
    final.domain config pools = deployment.domain config pools := by
  simp only [openInstructionV2, bind_eq_ok, okOr_eq_ok, Except.ok.injEq] at returned
  obtain ⟨_, found, _, executed, rfl⟩ := returned
  exact domain_setWhirlpool_of_rights found (executeV2_rights executed)

theorem setTwoWhirlpools_kept {whirlpoolOne whirlpoolTwo : WhirlpoolSeeds}
    {one two : ConfiguredPool} {result : TwoHopOutcome}
    (foundOne : deployment.whirlpools whirlpoolOne = some one)
    (foundTwo : deployment.whirlpools whirlpoolTwo = some two)
    (swaps : result.SwapsBoth m
      ⟨whirlpoolAddress whirlpoolOne, one.pool, whirlpoolAddress whirlpoolTwo, two.pool⟩) :
    (deployment.setTwoWhirlpools whirlpoolOne whirlpoolTwo one two result.pools).domain config
      pools = deployment.domain config pools := by
  obtain ⟨distinct, swappedOne, swappedTwo⟩ := swaps
  exact domain_setTwo (fun same => distinct (congrArg whirlpoolAddress same)) foundOne foundTwo
    (move_of_swap swappedOne).2.1 (move_of_swap swappedTwo).2.1

/-- So a swap over two pools leaves the domain as it was. -/
theorem twoHopSwap_kept {final : Deployment} {whirlpoolOne whirlpoolTwo : WhirlpoolSeeds}
    {wallet : Wallet} {accounts : TwoHopOwnerAccounts} {args : TwoHopSwapArgs}
    (returned : deployment.twoHopSwap m whirlpoolAddress whirlpoolOne whirlpoolTwo wallet accounts
      args = .ok final) :
    final.domain config pools = deployment.domain config pools := by
  simp only [twoHopSwap, bind_eq_ok, okOr_eq_ok, Except.ok.injEq] at returned
  obtain ⟨_, foundOne, _, foundTwo, _, -, _, traded, rfl⟩ := returned
  exact setTwoWhirlpools_kept foundOne foundTwo (twoHopSwap_swaps traded)

theorem twoHopSwapV2_kept {final : Deployment} {whirlpoolOne whirlpoolTwo : WhirlpoolSeeds}
    {mintFees : Pubkey → Option TransferFee} {wallet : Wallet} {input output : Pubkey}
    {args : TwoHopSwapArgs}
    (returned : deployment.twoHopSwapV2 m lib whirlpoolAddress whirlpoolOne whirlpoolTwo mintFees
      wallet input output args = .ok final) :
    final.domain config pools = deployment.domain config pools := by
  simp only [twoHopSwapV2, bind_eq_ok, okOr_eq_ok, Except.ok.injEq] at returned
  obtain ⟨_, foundOne, _, foundTwo, _, traded, rfl⟩ := returned
  exact setTwoWhirlpools_kept foundOne foundTwo (twoHopSwapV2_swaps traded)

/-- An update that keeps the rights changes them alike. -/
theorem rightsAlike_of_kept {update : ConfiguredPool → Result ConfiguredPool}
    (kept : ∀ configured updated, update configured = .ok updated →
      updated.rights = configured.rights) : ConfiguredPool.RightsAlike update := by
  have still (configured : ConfiguredPool) :
      (configured.settle (update configured)).rights = configured.rights := by
    cases returned : update configured with
    | ok updated => exact kept configured updated returned
    | error failure => rfl
  exact fun configured configured' same =>
    (still configured).trans (same.trans (still configured').symm)

/-- An instruction that keeps the rights treats pools alike. -/
theorem rightsAlike_of_keepsRights {instruction : Instruction} (keeps : KeepsRights instruction) :
    ConfiguredPool.RightsAlike fun configured => configured.execute m instruction := by
  refine rightsAlike_of_kept fun configured updated returned => ?_
  obtain ⟨-, _, _, executed, rfl⟩ := configuredExecute_eq_ok.mp returned
  exact execute_rights rfl executed keeps

/-- Where the domain is the same, every transaction leaves the same domain. -/
theorem next_alike (transaction : Transaction)
    (same : deployment.domain config pools = deployment'.domain config pools)
    (wellFormed : deployment.WellFormed) (wellFormed' : deployment'.WellFormed)
    (within : ∀ address ∈ pools, WhirlpoolSeeds.whirlpoolsConfig address = config)
    (existing : ∀ address ∈ pools, ∃ configured, deployment.whirlpools address = some configured)
    (existing' : ∀ address ∈ pools,
      ∃ configured, deployment'.whirlpools address = some configured) :
    (deployment.next m lib whirlpoolAddress transaction).domain config pools =
      (deployment'.next m lib whirlpoolAddress transaction).domain config pools := by
  obtain ⟨signers, call⟩ := transaction
  unfold next
  cases call with
  | initializeConfig =>
      simp only [execute, settle_mapError]
      exact initializeConfig_alike same
  | setFeeAuthority | setCollectProtocolFeesAuthority | setRewardEmissionsSuperAuthority
  | setDefaultProtocolFeeRate =>
      simp only [execute, settle_mapError]
      exact updateConfig_alike same
  | initializeFeeTier =>
      simp only [execute, settle_mapError]
      exact initializeFeeTier_alike same
  | setDefaultFeeRate =>
      simp only [execute, settle_mapError]
      exact setDefaultFeeRate_alike same wellFormed wellFormed'
  | initializeConfigExtension =>
      simp only [execute, settle_mapError]
      exact initializeConfigExtension_alike same
  | setConfigExtensionAuthority | setTokenBadgeAuthority =>
      simp only [execute, settle_mapError]
      exact setExtension_alike same wellFormed wellFormed'
  | initializeTokenBadge =>
      simp only [execute, settle_mapError]
      exact initializeTokenBadge_alike same wellFormed wellFormed'
  | deleteTokenBadge =>
      simp only [execute, settle_mapError]
      exact deleteTokenBadge_alike same wellFormed wellFormed'
  | initializePool args =>
      simp only [execute, settle_mapError, initializePool]
      exact settle_bind same fun _ _ => settle_elsewhere same (fun _ => createPool_kept existing)
        fun _ => createPool_kept existing'
  | initializePoolV2 args =>
      refine settle_elsewhere same (fun final returned => ?_) fun final returned => ?_ <;>
        simp only [execute, initializePoolV2, guard_eq_ok, mapError_eq_ok] at returned
      · exact createPool_kept existing returned.2.2
      · exact createPool_kept existing' returned.2.2
  | setFeeRate =>
      simp only [execute, settle_mapError]
      exact underConfig_alike same wellFormed wellFormed' within
        ConfiguredPool.setFeeRate_rightsAlike
  | setProtocolFeeRate =>
      simp only [execute, settle_mapError]
      exact underConfig_alike same wellFormed wellFormed' within
        ConfiguredPool.setProtocolFeeRate_rightsAlike
  | collectProtocolFees =>
      simp only [execute, settle_mapError]
      exact underConfig_alike same wellFormed wellFormed' within
        (rightsAlike_of_keepsRights fun _ _ => ⟨rfl, rfl⟩)
  | setRewardAuthorityBySuperAuthority =>
      simp only [execute, settle_mapError]
      exact underConfig_alike same wellFormed wellFormed' within
        ConfiguredPool.updateRewardAuthority_rightsAlike
  | setRewardAuthority =>
      simp only [execute, settle_mapError]
      exact underReward_alike same ConfiguredPool.updateRewardAuthority_rightsAlike
  | initializeReward args =>
      simp only [execute, settle_mapError, initializeReward]
      exact settle_bind same fun _ _ =>
        underReward_alike same ConfiguredPool.initializeReward_rightsAlike
  | initializeRewardV2 args => exact initializeRewardV2_alike same wellFormed wellFormed' within
  | setRewardEmissions =>
      simp only [execute, settle_mapError]
      exact underReward_alike same (rightsAlike_of_keepsRights fun _ _ => ⟨rfl, rfl⟩)
  | openInstruction whirlpool instruction =>
      simp only [execute, settle_mapError]
      exact settle_elsewhere same (fun _ => openInstruction_kept instruction.property)
        fun _ => openInstruction_kept instruction.property
  | twoHopSwap =>
      simp only [execute, settle_mapError]
      exact settle_elsewhere same (fun _ => twoHopSwap_kept) fun _ => twoHopSwap_kept
  | collectProtocolFeesV2 =>
      simp only [execute, settle_mapError]
      exact underConfig_alike same wellFormed wellFormed' within
        (rightsAlike_of_kept fun _ _ => executeV2_rights)
  | setRewardEmissionsV2 =>
      simp only [execute, settle_mapError]
      exact underReward_alike same (rightsAlike_of_kept fun _ _ => executeV2_rights)
  | openInstructionV2 =>
      simp only [execute, settle_mapError]
      exact settle_elsewhere same (fun _ => openInstructionV2_kept) fun _ => openInstructionV2_kept
  | twoHopSwapV2 =>
      simp only [execute, settle_mapError]
      exact settle_elsewhere same (fun _ => twoHopSwapV2_kept) fun _ => twoHopSwapV2_kept

end Deployment
end Whirlpools
