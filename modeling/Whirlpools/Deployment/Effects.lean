import Mathlib.Data.Set.Insert
import Whirlpools.Deployment.Calls
import Whirlpools.Pools.Rights
import Whirlpools.Pools.Versions

/-! # What a transaction does

A successful transaction writes one account, or two pools. `Effect` lists these writes with the
keys that signed for them and the authorities they name; everything that holds of all runs is
proved from it.
-/

namespace Whirlpools

open Outcome

/-- The authorities named by a configuration. -/
inductive ConfigAccount.Names (config : ConfigAccount) : Pubkey → Prop
  | feeAuthority : config.Names config.feeAuthority
  | collectProtocolFeesAuthority : config.Names config.collectProtocolFeesAuthority
  | rewardEmissionsSuperAuthority : config.Names config.rewardEmissionsSuperAuthority

/-- The authorities named by a config extension. -/
inductive WhirlpoolsConfigExtension.Names (extension : WhirlpoolsConfigExtension) : Pubkey → Prop
  | configExtensionAuthority : extension.Names extension.configExtensionAuthority
  | tokenBadgeAuthority : extension.Names extension.tokenBadgeAuthority

/-- The rights over a pool: the config it names, its rates, and its rewards. -/
structure PoolRights where
  whirlpoolsConfig : Pubkey
  terms : Terms
  rewards : Fin numRewards → RewardRights

def ConfiguredPool.rights (configured : ConfiguredPool) : PoolRights :=
  ⟨configured.whirlpoolsConfig, configured.pool.whirlpool.terms,
    configured.pool.whirlpool.rewardRights⟩

/-- A call hands a key the authority over a configuration, or over one of some pools. -/
inductive Call.Hands (config : Pubkey) (pools : Set WhirlpoolSeeds) : Call → Pubkey → Prop
  | foundedFee {fee collect super : Pubkey} {rate : ℕ} :
      Hands config pools (.initializeConfig config fee collect super rate) fee
  | foundedCollect {fee collect super : Pubkey} {rate : ℕ} :
      Hands config pools (.initializeConfig config fee collect super rate) collect
  | foundedSuper {fee collect super : Pubkey} {rate : ℕ} :
      Hands config pools (.initializeConfig config fee collect super rate) super
  | feeAuthority {key : Pubkey} : Hands config pools (.setFeeAuthority config key) key
  | collectProtocolFeesAuthority {key : Pubkey} :
      Hands config pools (.setCollectProtocolFeesAuthority config key) key
  | rewardEmissionsSuperAuthority {key : Pubkey} :
      Hands config pools (.setRewardEmissionsSuperAuthority config key) key
  | configExtensionAuthority {address key : Pubkey} :
      Hands config pools (.setConfigExtensionAuthority address config key) key
  | tokenBadgeAuthority {address key : Pubkey} :
      Hands config pools (.setTokenBadgeAuthority address config key) key
  | rewardAuthority {whirlpool : WhirlpoolSeeds} {rewardIndex : ℕ} {key : Pubkey}
      (member : whirlpool ∈ pools) :
      Hands config pools (.setRewardAuthority whirlpool rewardIndex key) key
  | rewardAuthorityBySuper {address : Pubkey} {whirlpool : WhirlpoolSeeds} {rewardIndex : ℕ}
      {key : Pubkey} (member : whirlpool ∈ pools) :
      Hands config pools (.setRewardAuthorityBySuperAuthority address whirlpool rewardIndex key) key

/-- A call that the holder of a position signs. -/
def Call.FromHolder (address : WhirlpoolSeeds) (positionMint : Pubkey) : Call → Prop
  | .openInstruction whirlpool instruction =>
      whirlpool = address ∧ instruction.val.heldPosition = some positionMint
  | .openInstructionV2 whirlpool _ instruction =>
      whirlpool = address ∧ instruction.val.heldPosition = some positionMint
  | _ => False

/-- One instruction of the first version, or the handover of a reward. -/
inductive PoolMove (m : Machine) (pool : Pool) : Pool → Prop
  | executed {instruction : Instruction} {pool' : Pool} {receipt : Receipt}
      (returned : pool.execute m instruction = .ok (pool', receipt)) : PoolMove m pool pool'
  | handedOver {rewardIndex : ℕ} {authority : Pubkey} {whirlpool : Whirlpool}
      (returned : pool.whirlpool.updateRewardAuthority rewardIndex authority = .ok whirlpool) :
      PoolMove m pool { pool with whirlpool }

namespace Deployment

/-- Accounts at derived addresses keep the seeds of their addresses. -/
structure WellFormed (deployment : Deployment) : Prop where
  feeTiers : ∀ address feeTier, deployment.feeTiers address = some feeTier →
    feeTier.whirlpoolsConfig = address.whirlpoolsConfig ∧
      feeTier.tickSpacing = address.tickSpacing
  configExtensions : ∀ address extension, deployment.configExtensions address = some extension →
    extension.whirlpoolsConfig = address
  tokenBadges : ∀ address tokenBadge, deployment.tokenBadges address = some tokenBadge →
    tokenBadge = ⟨address.whirlpoolsConfig, address.tokenMint⟩
  whirlpools : ∀ address configured, deployment.whirlpools address = some configured →
    configured.whirlpoolsConfig = address.whirlpoolsConfig

/-- A key is an authority over a pool. -/
def Directs (deployment : Deployment) (configured : ConfiguredPool) (key : Pubkey) : Prop :=
  (∃ config, deployment.configs configured.whirlpoolsConfig = some config ∧ config.Names key) ∨
    ∃ index, (configured.pool.whirlpool.rewardRights index).authority = key

/-- What a successful call writes, who signed for it, and whom it names. -/
inductive Effect (m : Machine) (deployment : Deployment) (signers : List Pubkey) (call : Call) :
    Deployment → Prop
  | config {address : Pubkey} {config : ConfigAccount}
      (signed : (deployment.configs address = none ∧ address ∈ signers) ∨
        ∃ before, deployment.configs address = some before ∧ ∃ key ∈ signers, before.Names key)
      (named : ∀ key, config.Names key →
        (∃ before, deployment.configs address = some before ∧ before.Names key) ∨
          ∀ pools, call.Hands address pools key) :
      Effect m deployment signers call (deployment.setConfig address config)
  | feeTier {address : FeeTierSeeds} {config : ConfigAccount} {feeTier : FeeTier}
      (found : deployment.configs address.whirlpoolsConfig = some config)
      (signed : config.feeAuthority ∈ signers)
      (placed : feeTier.whirlpoolsConfig = address.whirlpoolsConfig ∧
        feeTier.tickSpacing = address.tickSpacing) :
      Effect m deployment signers call (deployment.setFeeTier address feeTier)
  | configExtension {address : Pubkey} {extension : WhirlpoolsConfigExtension}
      (signed : (∃ config, deployment.configs address = some config ∧
          ∃ key ∈ signers, config.Names key) ∨
        ∃ before, deployment.configExtensions address = some before ∧
          ∃ key ∈ signers, before.Names key)
      (placed : extension.whirlpoolsConfig = address)
      (named : ∀ key, extension.Names key →
        (∃ config, deployment.configs address = some config ∧ config.Names key) ∨
          (∃ before, deployment.configExtensions address = some before ∧ before.Names key) ∨
          ∀ pools, call.Hands address pools key) :
      Effect m deployment signers call (deployment.setConfigExtension address extension)
  | badgeOpened {address tokenMint : Pubkey} {extension : WhirlpoolsConfigExtension}
      (called : call = .initializeTokenBadge address address tokenMint)
      (found : deployment.configExtensions address = some extension)
      (signed : extension.tokenBadgeAuthority ∈ signers) :
      Effect m deployment signers call
        (deployment.setTokenBadge ⟨address, tokenMint⟩ (some ⟨address, tokenMint⟩))
  | badgeClosed {address tokenMint : Pubkey} {extension : WhirlpoolsConfigExtension}
      (called : call = .deleteTokenBadge address address tokenMint)
      (found : deployment.configExtensions address = some extension)
      (signed : extension.tokenBadgeAuthority ∈ signers) :
      Effect m deployment signers call (deployment.setTokenBadge ⟨address, tokenMint⟩ none)
  | created {args : InitializePoolArgs} {config : ConfigAccount} {feeTier : FeeTier} {pool : Pool}
      (called : call = .initializePool args ∨ call = .initializePoolV2 args)
      (supported : deployment.supports args.whirlpoolsConfig args.tokenMintA ∧
        deployment.supports args.whirlpoolsConfig args.tokenMintB)
      (founded : deployment.configs args.whirlpoolsConfig = some config)
      (offered : deployment.feeTiers ⟨args.whirlpoolsConfig, args.tickSpacing⟩ = some feeTier)
      (fresh : deployment.whirlpools args.seeds = none)
      (returned : Pool.create config.toWhirlpoolsConfig args.tickSpacing feeTier.defaultFeeRate
        args.initialSqrtPrice args.tokenMintA.key args.tokenVaultA args.tokenMintB.key
        args.tokenVaultB = .ok pool) :
      Effect m deployment signers call
        (deployment.setWhirlpool args.seeds ⟨args.whirlpoolsConfig, args.vaultPrograms, pool⟩)
  | pool {address : WhirlpoolSeeds} {configured updated : ConfiguredPool}
      (found : deployment.whirlpools address = some configured)
      (owned : updated.whirlpoolsConfig = configured.whirlpoolsConfig)
      (moved : PoolMove m configured.pool updated.pool)
      (signed : updated.rights = configured.rights ∨
        ∃ key ∈ signers, deployment.Directs configured key)
      (named : ∀ index, (updated.pool.whirlpool.rewardRights index).authority =
          (configured.pool.whirlpool.rewardRights index).authority ∨
        ∀ config pools, address ∈ pools →
          call.Hands config pools (updated.pool.whirlpool.rewardRights index).authority)
      (stakes : ∀ positionMint, call.FromHolder address positionMint ∨
        Pool.KeepsStake positionMint configured.pool updated.pool) :
      Effect m deployment signers call (deployment.setWhirlpool address updated)
  | twoPools {addressOne addressTwo : WhirlpoolSeeds} {one two : ConfiguredPool}
      {poolOne poolTwo : Pool} (distinct : addressOne ≠ addressTwo)
      (foundOne : deployment.whirlpools addressOne = some one)
      (foundTwo : deployment.whirlpools addressTwo = some two)
      (movedOne : PoolMove m one.pool poolOne) (movedTwo : PoolMove m two.pool poolTwo)
      (keptOne : { one with pool := poolOne }.rights = one.rights)
      (keptTwo : { two with pool := poolTwo }.rights = two.rights)
      (stakesOne : ∀ positionMint, Pool.KeepsStake positionMint one.pool poolOne)
      (stakesTwo : ∀ positionMint, Pool.KeepsStake positionMint two.pool poolTwo) :
      Effect m deployment signers call
        ((deployment.setWhirlpool addressOne { one with pool := poolOne }).setWhirlpool addressTwo
          { two with pool := poolTwo })

variable {m : Machine} {lib : TokenLibrary} {whirlpoolAddress : WhirlpoolSeeds → Pubkey}
  {deployment final : Deployment} {signers : List Pubkey} {call : Call}

theorem constraint_eq_ok {met : Bool} {done : Unit} : constraint met = .ok done ↔ met = true := by
  unfold constraint
  cases met <;> simp only [Bool.false_eq_true, ↓reduceIte, reduceCtorEq]

/-- An authority has signed when it is among the signers. -/
theorem signedBy_eq_ok {authority : Pubkey} {done : Unit} :
    signedBy signers authority = .ok done ↔ authority ∈ signers := by
  unfold signedBy
  split_ifs with signed <;> simp only [signed]

/-- Wrapping failures leaves successes as they are. -/
theorem mapError_eq_ok {ε ε' α : Type} {computed : Except ε α} {wrap : ε → ε'} {value : α} :
    computed.mapError wrap = .ok value ↔ computed = .ok value := by
  cases computed <;> simp only [Except.mapError, reduceCtorEq, Except.ok.injEq]

/-- An update of a configuration under an authority it names, which keeps the others. -/
theorem updateConfig_effect {address : Pubkey} {authority : ConfigAccount → Pubkey}
    {update : ConfigAccount → Result ConfigAccount}
    (returned : deployment.updateConfig signers address authority update = .ok final)
    (official : ∀ config : ConfigAccount, config.Names (authority config))
    (named : ∀ config updated, update config = .ok updated → ∀ key, updated.Names key →
      config.Names key ∨ ∀ pools, call.Hands address pools key) :
    Effect m deployment signers call final := by
  simp only [updateConfig, bind_eq_ok, okOr_eq_ok, signedBy_eq_ok, Except.ok.injEq] at returned
  obtain ⟨config, found, _, signed, updated, computed, rfl⟩ := returned
  refine .config (.inr ⟨config, found, _, signed, official config⟩) fun key names => ?_
  rcases named config updated computed key names with kept | handed
  · exact .inl ⟨config, found, kept⟩
  · exact .inr handed

/-- What a call for the extension has checked: the address, and a signature of the authority asked
for. -/
theorem extensionSigned_eq_ok {address extensionAddress : Pubkey}
    {authority : WhirlpoolsConfigExtension → Pubkey} {extension : WhirlpoolsConfigExtension}
    (wellFormed : deployment.WellFormed)
    (returned : deployment.extensionSigned signers address extensionAddress authority =
      .ok extension) :
    extensionAddress = address ∧ deployment.configExtensions address = some extension ∧
      authority extension ∈ signers := by
  simp only [extensionSigned, bind_eq_ok, okOr_eq_ok, constraint_eq_ok, decide_eq_true_eq,
    signedBy_eq_ok, Except.ok.injEq] at returned
  obtain ⟨_, -, stored, found, _, placed, _, signed, rfl⟩ := returned
  obtain rfl := (wellFormed.configExtensions _ _ found).symm.trans placed
  exact ⟨rfl, found, signed⟩

/-- An update of a config extension under its own authority. -/
theorem updateExtension_effect {address extensionAddress : Pubkey}
    {update : WhirlpoolsConfigExtension → WhirlpoolsConfigExtension}
    (wellFormed : deployment.WellFormed)
    (returned : (deployment.extensionSigned signers address extensionAddress
        (fun extension => extension.configExtensionAuthority) >>= fun extension =>
      .ok (deployment.setConfigExtension extensionAddress (update extension))) = .ok final)
    (placed : ∀ extension, (update extension).whirlpoolsConfig = extension.whirlpoolsConfig)
    (named : ∀ extension key, (update extension).Names key →
      extension.Names key ∨ ∀ pools, call.Hands extensionAddress pools key) :
    Effect m deployment signers call final := by
  simp only [bind_eq_ok, Except.ok.injEq] at returned
  obtain ⟨extension, computed, rfl⟩ := returned
  obtain ⟨rfl, found, signed⟩ := extensionSigned_eq_ok wellFormed computed
  refine .configExtension (.inr ⟨extension, found, _, signed, .configExtensionAuthority⟩)
    ((placed extension).trans (wellFormed.configExtensions _ _ found)) fun key names => ?_
  rcases named extension key names with kept | handed
  · exact .inr (.inl ⟨extension, found, kept⟩)
  · exact .inr (.inr handed)

/-- A mint of the older token program needs no badge. -/
theorem supports_of_owner {whirlpoolsConfig : Pubkey} {tokenMint : TokenMint}
    (owned : tokenMint.owner = .token) : deployment.supports whirlpoolsConfig tokenMint :=
  if_pos owned

/-- Creating a pool fills an empty address with a pool over two supported mints. -/
theorem createPool_effect {args : InitializePoolArgs} (wellFormed : deployment.WellFormed)
    (called : call = .initializePool args ∨ call = .initializePoolV2 args)
    (supported : deployment.supports args.whirlpoolsConfig args.tokenMintA ∧
      deployment.supports args.whirlpoolsConfig args.tokenMintB)
    (returned : deployment.createPool args = .ok final) :
    Effect m deployment signers call final := by
  simp only [createPool, bind_eq_ok, okOr_eq_ok, constraint_eq_ok, Option.isNone_iff_eq_none,
    decide_eq_true_eq, Except.ok.injEq] at returned
  obtain ⟨config, founded, _, fresh, feeTier, offered, _, owned, _, spaced, pool, created, rfl⟩ :=
    returned
  obtain ⟨config', spacing'⟩ := wellFormed.feeTiers _ _ offered
  have address : args.feeTier = ⟨args.whirlpoolsConfig, args.tickSpacing⟩ := by
    rw [← owned, ← spaced, config', spacing']
  rw [address] at offered
  exact .created called supported founded offered fresh created

/-- The instructions that keep the rights over a pool. -/
def KeepsRights (instruction : Instruction) : Prop :=
  ∀ terms rights, instruction.newTerms terms = terms ∧ instruction.newRewardRights rights = rights

/-- The instructions that anyone may send keep the rights. -/
theorem keepsRights_of_isOpen {instruction : Instruction} (isOpen : instruction.isOpen) :
    KeepsRights instruction := fun _ _ => by
  cases instruction <;> first | exact ⟨rfl, rfl⟩ | exact absurd isOpen Bool.false_ne_true

/-- What the first version of an instruction does to a pool account. -/
theorem configuredExecute_eq_ok {configured updated : ConfiguredPool} {instruction : Instruction} :
    configured.execute m instruction = .ok updated ↔
      configured.vaultPrograms.accepts instruction ∧ ∃ pool receipt,
        configured.pool.execute m instruction = .ok (pool, receipt) ∧
          { configured with pool := pool } = updated := by
  simp only [ConfiguredPool.execute, bind_eq_ok, constraint_eq_ok, Except.ok.injEq, Prod.exists,
    exists_const]

/-- What the second version does, which is an instruction of the first version with net amounts. -/
theorem configuredExecuteV2_nets {configured updated : ConfiguredPool} {instruction : InstructionV2}
    {mintFees : Pubkey → Option TransferFee}
    (returned : configured.executeV2 m lib mintFees instruction = .ok updated) :
    ∃ net receipt, instruction.Nets net ∧
      configured.pool.execute m net = .ok (updated.pool, receipt) ∧
        updated.whirlpoolsConfig = configured.whirlpoolsConfig := by
  simp only [ConfiguredPool.executeV2, bind_eq_ok, Except.ok.injEq] at returned
  obtain ⟨pool, executed, rfl⟩ := returned
  obtain ⟨net, receipt, nets, executed⟩ := Pool.executeV2_nets executed
  exact ⟨net, receipt, nets, executed, rfl⟩

theorem keepsRights_of_nets {instruction : InstructionV2} {net : Instruction}
    (nets : instruction.Nets net) : KeepsRights net := fun _ _ => by
  cases nets <;> exact ⟨rfl, rfl⟩

/-- An instruction that keeps the rights of a pool keeps those of its account. -/
theorem execute_rights {configured updated : ConfiguredPool} {instruction : Instruction}
    {receipt : Receipt} (owned : updated.whirlpoolsConfig = configured.whirlpoolsConfig)
    (executed : configured.pool.execute m instruction = .ok (updated.pool, receipt))
    (keeps : KeepsRights instruction) : updated.rights = configured.rights := by
  obtain ⟨terms, rewards⟩ := keeps configured.pool.whirlpool.terms
    configured.pool.whirlpool.rewardRights
  have newTerms := (Pool.execute_terms executed).trans terms
  have newRewards := (Pool.execute_rewardRights executed).trans rewards
  simp only [ConfiguredPool.rights, owned, newTerms, newRewards]

/-- No instruction hands a reward over. -/
theorem newRewardRights_authority (instruction : Instruction)
    (rights : Fin numRewards → RewardRights) (index : Fin numRewards) :
    (instruction.newRewardRights rights index).authority = (rights index).authority := by
  cases instruction <;> first
    | rfl
    | simp only [Instruction.newRewardRights]
      split_ifs <;> rfl

/-- An instruction on a pool, where it keeps the rights or an authority signed. -/
theorem execute_effect {address : WhirlpoolSeeds} {configured updated : ConfiguredPool}
    {instruction : Instruction} {receipt : Receipt}
    (found : deployment.whirlpools address = some configured)
    (owned : updated.whirlpoolsConfig = configured.whirlpoolsConfig)
    (executed : configured.pool.execute m instruction = .ok (updated.pool, receipt))
    (signed : KeepsRights instruction ∨ ∃ key ∈ signers, deployment.Directs configured key)
    (held : instruction.heldPosition = none ∨ ∀ positionMint,
      instruction.heldPosition = some positionMint → call.FromHolder address positionMint) :
    Effect m deployment signers call (deployment.setWhirlpool address updated) := by
  refine .pool found owned (.executed executed) (signed.imp_left (execute_rights owned executed))
    (fun index => .inl ?_) fun positionMint => ?_
  · rw [Pool.execute_rewardRights executed, newRewardRights_authority]
  · by_cases same : instruction.heldPosition = some positionMint
    · rcases held with unheld | fromHolder
      · exact absurd (same.symm.trans unheld) (Option.some_ne_none _)
      · exact .inl (fromHolder positionMint same)
    · exact .inr (Pool.execute_keepsStake executed same)

/-- The first version of an instruction under an authority over the pool. -/
theorem directed_effect {address : WhirlpoolSeeds} {configured updated : ConfiguredPool}
    {instruction : Instruction} (found : deployment.whirlpools address = some configured)
    (returned : configured.execute m instruction = .ok updated)
    (signed : ∃ key ∈ signers, deployment.Directs configured key)
    (unheld : instruction.heldPosition = none) :
    Effect m deployment signers call (deployment.setWhirlpool address updated) := by
  obtain ⟨-, _, _, executed, rfl⟩ := configuredExecute_eq_ok.mp returned
  exact execute_effect found rfl executed (.inr signed) (.inl unheld)

/-- The second version of an instruction keeps the rights over the pool. -/
theorem executeV2_effect {address : WhirlpoolSeeds} {configured updated : ConfiguredPool}
    {instruction : InstructionV2} {mintFees : Pubkey → Option TransferFee}
    (found : deployment.whirlpools address = some configured)
    (returned : configured.executeV2 m lib mintFees instruction = .ok updated)
    (held : instruction.heldPosition = none ∨ ∀ positionMint,
      instruction.heldPosition = some positionMint → call.FromHolder address positionMint) :
    Effect m deployment signers call (deployment.setWhirlpool address updated) := by
  obtain ⟨net, receipt, nets, executed, owned⟩ := configuredExecuteV2_nets returned
  rw [← nets.heldPosition] at held
  exact execute_effect found owned executed (.inl (keepsRights_of_nets nets)) held

/-- The handover of a reward, with the signature of an authority over the pool. -/
theorem updateRewardAuthority_effect {address : WhirlpoolSeeds}
    {configured updated : ConfiguredPool} {rewardIndex : ℕ} {authority : Pubkey}
    (found : deployment.whirlpools address = some configured)
    (returned : configured.updateRewardAuthority rewardIndex authority = .ok updated)
    (signed : ∃ key ∈ signers, deployment.Directs configured key)
    (handed : ∀ config pools, address ∈ pools → call.Hands config pools authority) :
    Effect m deployment signers call (deployment.setWhirlpool address updated) := by
  simp only [ConfiguredPool.updateRewardAuthority, bind_eq_ok, Except.ok.injEq] at returned
  obtain ⟨whirlpool, written, rfl⟩ := returned
  refine .pool found rfl (.handedOver written) (.inr signed) (fun index => ?_)
    fun _ => .inr (Pool.keepsStake_of_positions rfl)
  simp only [Whirlpool.updateRewardAuthority, guard_eq_ok, Except.ok.injEq] at written
  obtain ⟨-, rfl⟩ := written
  simp only [Whirlpool.rewardRights]
  split_ifs
  · exact .inr handed
  · exact .inl rfl

/-- An update of a pool under an authority of its configuration. -/
theorem underConfig_eq_ok {address : Pubkey} {whirlpool : WhirlpoolSeeds}
    {authority : ConfigAccount → Pubkey} {update : ConfiguredPool → Result ConfiguredPool}
    (official : ∀ config : ConfigAccount, config.Names (authority config))
    (returned : deployment.underConfig signers address whirlpool authority update = .ok final) :
    ∃ configured updated, deployment.whirlpools whirlpool = some configured ∧
      (∃ key ∈ signers, deployment.Directs configured key) ∧ update configured = .ok updated ∧
      final = deployment.setWhirlpool whirlpool updated := by
  simp only [underConfig, bind_eq_ok, okOr_eq_ok, constraint_eq_ok, decide_eq_true_eq,
    signedBy_eq_ok, Except.ok.injEq] at returned
  obtain ⟨config, founded, configured, found, _, rfl, _, signed, updated, computed, rfl⟩ := returned
  exact ⟨configured, updated, found, ⟨_, signed, .inl ⟨config, founded, official config⟩⟩, computed,
    rfl⟩

/-- An update of a pool under the authority of one of its rewards. -/
theorem underReward_eq_ok {whirlpool : WhirlpoolSeeds} {rewardIndex : ℕ}
    {update : ConfiguredPool → Result ConfiguredPool}
    (returned : deployment.underReward signers whirlpool rewardIndex update = .ok final) :
    ∃ configured updated, deployment.whirlpools whirlpool = some configured ∧
      (∃ key ∈ signers, deployment.Directs configured key) ∧ update configured = .ok updated ∧
      final = deployment.setWhirlpool whirlpool updated := by
  simp only [underReward, bind_eq_ok, okOr_eq_ok] at returned
  obtain ⟨configured, found, returned⟩ := returned
  split at returned
  · simp only [bind_eq_ok, signedBy_eq_ok, Except.ok.injEq] at returned
    obtain ⟨_, signed, updated, computed, rfl⟩ := returned
    exact ⟨configured, updated, found, ⟨_, signed, .inr ⟨_, rfl⟩⟩, computed, rfl⟩
  · simp only [reduceCtorEq] at returned

/-- Setting up a reward writes the pool, under the authority of that reward. -/
theorem createReward_effect {args : InitializeRewardArgs}
    (returned : deployment.createReward m signers args = .ok final) :
    Effect m deployment signers call final := by
  obtain ⟨configured, updated, found, signed, computed, rfl⟩ := underReward_eq_ok returned
  simp only [ConfiguredPool.initializeReward, bind_eq_ok, configuredExecute_eq_ok,
    Except.ok.injEq] at computed
  obtain ⟨_, ⟨-, pool, receipt, executed, rfl⟩, rfl⟩ := computed
  exact execute_effect found rfl executed (.inr signed) (.inl rfl)

/-- Recording a swap is a move of the pool that keeps its rights and every stake. -/
theorem move_of_swap {configured : ConfiguredPool} {pool : Pool}
    (swapped : ∃ args receipt, configured.pool.execute m (.swap args) = .ok (pool, receipt)) :
    PoolMove m configured.pool pool ∧ { configured with pool }.rights = configured.rights ∧
      ∀ positionMint, Pool.KeepsStake positionMint configured.pool pool := by
  obtain ⟨args, receipt, executed⟩ := swapped
  refine ⟨.executed executed, ?_, fun _ =>
    Pool.execute_keepsStake executed (Option.some_ne_none _).symm⟩
  exact @execute_rights m configured { configured with pool } (.swap args) receipt rfl executed
    (keepsRights_of_isOpen rfl)

/-- A trade through two pools writes both. -/
theorem swapsBoth_effect {whirlpoolOne whirlpoolTwo : WhirlpoolSeeds} {one two : ConfiguredPool}
    {result : TwoHopOutcome} (foundOne : deployment.whirlpools whirlpoolOne = some one)
    (foundTwo : deployment.whirlpools whirlpoolTwo = some two)
    (swaps : result.SwapsBoth m
      ⟨whirlpoolAddress whirlpoolOne, one.pool, whirlpoolAddress whirlpoolTwo, two.pool⟩) :
    Effect m deployment signers call
      (deployment.setTwoWhirlpools whirlpoolOne whirlpoolTwo one two result.pools) := by
  obtain ⟨distinct, swappedOne, swappedTwo⟩ := swaps
  obtain ⟨movedOne, keptOne, stakesOne⟩ := move_of_swap swappedOne
  obtain ⟨movedTwo, keptTwo, stakesTwo⟩ := move_of_swap swappedTwo
  have apart : whirlpoolOne ≠ whirlpoolTwo := fun same => distinct (congrArg whirlpoolAddress same)
  exact .twoPools apart foundOne foundTwo movedOne movedTwo keptOne keptTwo stakesOne stakesTwo

/-- Every successful transaction has one of the effects. -/
theorem effect_of_execute {transaction : Transaction} (wellFormed : deployment.WellFormed)
    (returned : deployment.execute m lib whirlpoolAddress transaction = .ok final) :
    Effect m deployment transaction.signers transaction.call final := by
  obtain ⟨signers, call⟩ := transaction
  cases call with
  | initializeConfig config feeAuthority collectAuthority superAuthority rate =>
      simp only [execute, mapError_eq_ok, initializeConfig, bind_eq_ok, constraint_eq_ok,
        Option.isNone_iff_eq_none, signedBy_eq_ok, ConfigAccount.initializeConfig,
        ConfigAccount.updateDefaultProtocolFeeRate, guard_eq_ok, Except.ok.injEq] at returned
      obtain ⟨_, fresh, _, signed, _, ⟨-, rfl⟩, rfl⟩ := returned
      refine .config (.inl ⟨fresh, signed⟩) fun key names => .inr fun pools => ?_
      cases names with
      | feeAuthority => exact .foundedFee
      | collectProtocolFeesAuthority => exact .foundedCollect
      | rewardEmissionsSuperAuthority => exact .foundedSuper
  | setFeeAuthority config newAuthority =>
      simp only [execute, mapError_eq_ok, setFeeAuthority] at returned
      refine updateConfig_effect returned (fun _ => .feeAuthority)
        fun config' updated computed key names => ?_
      obtain rfl := Except.ok.inj computed
      cases names with
      | feeAuthority => exact .inr fun pools => .feeAuthority
      | collectProtocolFeesAuthority => exact .inl .collectProtocolFeesAuthority
      | rewardEmissionsSuperAuthority => exact .inl .rewardEmissionsSuperAuthority
  | setCollectProtocolFeesAuthority config newAuthority =>
      simp only [execute, mapError_eq_ok, setCollectProtocolFeesAuthority] at returned
      refine updateConfig_effect returned (fun _ => .collectProtocolFeesAuthority)
        fun config' updated computed key names => ?_
      obtain rfl := Except.ok.inj computed
      cases names with
      | feeAuthority => exact .inl .feeAuthority
      | collectProtocolFeesAuthority => exact .inr fun pools => .collectProtocolFeesAuthority
      | rewardEmissionsSuperAuthority => exact .inl .rewardEmissionsSuperAuthority
  | setRewardEmissionsSuperAuthority config newAuthority =>
      simp only [execute, mapError_eq_ok, setRewardEmissionsSuperAuthority] at returned
      refine updateConfig_effect returned (fun _ => .rewardEmissionsSuperAuthority)
        fun config' updated computed key names => ?_
      obtain rfl := Except.ok.inj computed
      cases names with
      | feeAuthority => exact .inl .feeAuthority
      | collectProtocolFeesAuthority => exact .inl .collectProtocolFeesAuthority
      | rewardEmissionsSuperAuthority => exact .inr fun pools => .rewardEmissionsSuperAuthority
  | setDefaultProtocolFeeRate config rate =>
      simp only [execute, mapError_eq_ok, setDefaultProtocolFeeRate] at returned
      refine updateConfig_effect returned (fun _ => .feeAuthority)
        fun config' updated computed key names => ?_
      simp only [ConfigAccount.updateDefaultProtocolFeeRate, guard_eq_ok,
        Except.ok.injEq] at computed
      obtain ⟨-, rfl⟩ := computed
      cases names with
      | feeAuthority => exact .inl .feeAuthority
      | collectProtocolFeesAuthority => exact .inl .collectProtocolFeesAuthority
      | rewardEmissionsSuperAuthority => exact .inl .rewardEmissionsSuperAuthority
  | initializeFeeTier config tickSpacing rate =>
      simp only [execute, mapError_eq_ok, initializeFeeTier, bind_eq_ok, okOr_eq_ok,
        signedBy_eq_ok, FeeTier.initializeFeeTier, FeeTier.updateDefaultFeeRate, guard_eq_ok,
        Except.ok.injEq] at returned
      obtain ⟨account, found, _, -, _, signed, _, ⟨-, rfl⟩, rfl⟩ := returned
      exact .feeTier found signed ⟨rfl, rfl⟩
  | setDefaultFeeRate config feeTier rate =>
      simp only [execute, mapError_eq_ok, setDefaultFeeRate, bind_eq_ok, okOr_eq_ok,
        constraint_eq_ok, decide_eq_true_eq, signedBy_eq_ok, FeeTier.updateDefaultFeeRate,
        guard_eq_ok, Except.ok.injEq] at returned
      obtain ⟨account, found, stored, offered, _, owned, _, signed, _, ⟨-, rfl⟩, rfl⟩ := returned
      have placed := wellFormed.feeTiers _ _ offered
      rw [← owned, placed.1] at found
      exact .feeTier found signed placed
  | initializeConfigExtension config =>
      simp only [execute, mapError_eq_ok, initializeConfigExtension, bind_eq_ok, okOr_eq_ok,
        signedBy_eq_ok, Except.ok.injEq] at returned
      obtain ⟨account, found, _, -, _, signed, rfl⟩ := returned
      refine .configExtension (.inl ⟨account, found, _, signed, .feeAuthority⟩) rfl
        fun key names => .inl ⟨account, found, ?_⟩
      cases names <;> exact .feeAuthority
  | setConfigExtensionAuthority config extension newAuthority =>
      simp only [execute, mapError_eq_ok, setConfigExtensionAuthority] at returned
      refine updateExtension_effect wellFormed returned (fun _ => rfl) fun before key names => ?_
      cases names with
      | configExtensionAuthority => exact .inr fun pools => .configExtensionAuthority
      | tokenBadgeAuthority => exact .inl .tokenBadgeAuthority
  | setTokenBadgeAuthority config extension newAuthority =>
      simp only [execute, mapError_eq_ok, setTokenBadgeAuthority] at returned
      refine updateExtension_effect wellFormed returned (fun _ => rfl) fun before key names => ?_
      cases names with
      | configExtensionAuthority => exact .inl .configExtensionAuthority
      | tokenBadgeAuthority => exact .inr fun pools => .tokenBadgeAuthority
  | initializeTokenBadge config extension tokenMint =>
      simp only [execute, mapError_eq_ok, initializeTokenBadge, bind_eq_ok,
        Except.ok.injEq] at returned
      obtain ⟨stored, computed, _, -, rfl⟩ := returned
      obtain ⟨rfl, found, signed⟩ := extensionSigned_eq_ok wellFormed computed
      exact .badgeOpened rfl found signed
  | deleteTokenBadge config extension tokenMint =>
      simp only [execute, mapError_eq_ok, deleteTokenBadge, bind_eq_ok, Except.ok.injEq] at returned
      obtain ⟨stored, computed, _, -, _, -, rfl⟩ := returned
      obtain ⟨rfl, found, signed⟩ := extensionSigned_eq_ok wellFormed computed
      exact .badgeClosed rfl found signed
  | initializePool args =>
      simp only [execute, mapError_eq_ok, initializePool, bind_eq_ok, constraint_eq_ok,
        Bool.and_eq_true, decide_eq_true_eq] at returned
      obtain ⟨_, ⟨ownedA, ownedB⟩, created⟩ := returned
      exact createPool_effect wellFormed (.inl rfl)
        ⟨supports_of_owner ownedA, supports_of_owner ownedB⟩ created
  | initializePoolV2 args =>
      simp only [execute, initializePoolV2, guard_eq_ok, Bool.not_eq_true',
        Bool.not_eq_false, mapError_eq_ok] at returned
      exact createPool_effect wellFormed (.inr rfl) ⟨returned.1, returned.2.1⟩ returned.2.2
  | setFeeRate config whirlpool rate =>
      simp only [execute, mapError_eq_ok, setFeeRate] at returned
      obtain ⟨_, _, found, signed, computed, rfl⟩ :=
        underConfig_eq_ok (fun _ => .feeAuthority) returned
      exact directed_effect found computed signed rfl
  | setProtocolFeeRate config whirlpool rate =>
      simp only [execute, mapError_eq_ok, setProtocolFeeRate] at returned
      obtain ⟨_, _, found, signed, computed, rfl⟩ :=
        underConfig_eq_ok (fun _ => .feeAuthority) returned
      exact directed_effect found computed signed rfl
  | collectProtocolFees config whirlpool =>
      simp only [execute, mapError_eq_ok, collectProtocolFees] at returned
      obtain ⟨_, _, found, signed, computed, rfl⟩ :=
        underConfig_eq_ok (fun _ => .collectProtocolFeesAuthority) returned
      exact directed_effect found computed signed rfl
  | setRewardAuthorityBySuperAuthority config whirlpool rewardIndex newAuthority =>
      simp only [execute, mapError_eq_ok, setRewardAuthorityBySuperAuthority] at returned
      obtain ⟨_, _, found, signed, computed, rfl⟩ :=
        underConfig_eq_ok (fun _ => .rewardEmissionsSuperAuthority) returned
      exact updateRewardAuthority_effect found computed signed
        fun _ _ member => .rewardAuthorityBySuper member
  | setRewardAuthority whirlpool rewardIndex newAuthority =>
      simp only [execute, mapError_eq_ok, setRewardAuthority] at returned
      obtain ⟨_, _, found, signed, computed, rfl⟩ := underReward_eq_ok returned
      exact updateRewardAuthority_effect found computed signed
        fun _ _ member => .rewardAuthority member
  | initializeReward args =>
      simp only [execute, mapError_eq_ok, initializeReward, bind_eq_ok] at returned
      obtain ⟨_, -, created⟩ := returned
      exact createReward_effect created
  | initializeRewardV2 args =>
      simp only [execute, initializeRewardV2, bind_eq_ok, guard_eq_ok, mapError_eq_ok] at returned
      obtain ⟨_, -, -, created⟩ := returned
      exact createReward_effect created
  | setRewardEmissions whirlpool rewardIndex emissions vaultAmount unixTimestamp =>
      simp only [execute, mapError_eq_ok, setRewardEmissions] at returned
      obtain ⟨_, _, found, signed, computed, rfl⟩ := underReward_eq_ok returned
      exact directed_effect found computed signed rfl
  | openInstruction whirlpool instruction =>
      simp only [execute, mapError_eq_ok, openInstruction, bind_eq_ok, okOr_eq_ok,
        configuredExecute_eq_ok, Except.ok.injEq] at returned
      obtain ⟨_, found, _, ⟨-, _, _, executed, rfl⟩, rfl⟩ := returned
      exact execute_effect found rfl executed (.inl (keepsRights_of_isOpen instruction.property))
        (.inr fun _ held => ⟨rfl, held⟩)
  | twoHopSwap whirlpoolOne whirlpoolTwo wallet accounts args =>
      simp only [execute, mapError_eq_ok, twoHopSwap, bind_eq_ok, okOr_eq_ok,
        Except.ok.injEq] at returned
      obtain ⟨_, foundOne, _, foundTwo, _, -, _, traded, rfl⟩ := returned
      exact swapsBoth_effect foundOne foundTwo (twoHopSwap_swaps traded)
  | collectProtocolFeesV2 config whirlpool mintFees =>
      simp only [execute, mapError_eq_ok, collectProtocolFeesV2] at returned
      obtain ⟨_, _, found, -, computed, rfl⟩ :=
        underConfig_eq_ok (fun _ => .collectProtocolFeesAuthority) returned
      exact executeV2_effect found computed (.inl rfl)
  | setRewardEmissionsV2 whirlpool rewardIndex emissions vaultAmount unixTimestamp =>
      simp only [execute, mapError_eq_ok, setRewardEmissionsV2] at returned
      obtain ⟨_, _, found, -, computed, rfl⟩ := underReward_eq_ok returned
      exact executeV2_effect found computed (.inl rfl)
  | openInstructionV2 whirlpool mintFees instruction =>
      simp only [execute, mapError_eq_ok, openInstructionV2, bind_eq_ok, okOr_eq_ok,
        Except.ok.injEq] at returned
      obtain ⟨_, found, _, computed, rfl⟩ := returned
      exact executeV2_effect found computed (.inr fun _ held => ⟨rfl, held⟩)
  | twoHopSwapV2 whirlpoolOne whirlpoolTwo mintFees wallet input output args =>
      simp only [execute, mapError_eq_ok, twoHopSwapV2, bind_eq_ok, okOr_eq_ok,
        Except.ok.injEq] at returned
      obtain ⟨_, foundOne, _, foundTwo, _, traded, rfl⟩ := returned
      exact swapsBoth_effect foundOne foundTwo (twoHopSwapV2_swaps traded)

end Deployment
end Whirlpools
