import Whirlpools.Deployment.Effects
import Whirlpools.Foundation.Unwinding

/-! # The domain of a configuration

The domain of a configuration is what its authorities decide: its account, its fee tiers, its
token badges with their authorities, and the rights over some of its pools. A transaction that no
authority signs keeps it.
-/

namespace Whirlpools

open Outcome

/-- The accounts of a configuration, and the rights over some of its pools. -/
structure Domain (pools : Set WhirlpoolSeeds) where
  config : Option ConfigAccount
  feeTiers : ℕ → Option FeeTier
  configExtension : Option WhirlpoolsConfigExtension
  tokenBadges : Pubkey → Option TokenBadge
  whirlpools : pools → Option PoolRights

/-- No outsider is an authority of the domain, or may found the configuration; the pools exist. -/
structure Domain.SealedFrom {pools : Set WhirlpoolSeeds} (domain : Domain pools) (config : Pubkey)
    (outsider : Pubkey → Bool) : Prop where
  founder : domain.config = none → ¬ outsider config
  config : ∀ account key, domain.config = some account → account.Names key → ¬ outsider key
  configExtension : ∀ extension key, domain.configExtension = some extension →
    extension.Names key → ¬ outsider key
  whirlpools : ∀ address, ∃ rights, domain.whirlpools address = some rights ∧
    ∀ index, ¬ outsider (rights.rewards index).authority

/-- Only outsiders signed a transaction. -/
def Transaction.isOutside (outsider : Pubkey → Bool) (transaction : Transaction) : Bool :=
  transaction.signers.all outsider

namespace Deployment

variable {m : Machine} {deployment final : Deployment}
  {config : Pubkey} {pools : Set WhirlpoolSeeds} {outsider : Pubkey → Bool}

/-- The domain of a configuration, with the rights over some pools. -/
def domain (deployment : Deployment) (config : Pubkey) (pools : Set WhirlpoolSeeds) :
    Domain pools where
  config := deployment.configs config
  feeTiers tickSpacing := deployment.feeTiers ⟨config, tickSpacing⟩
  configExtension := deployment.configExtensions config
  tokenBadges tokenMint := deployment.tokenBadges ⟨config, tokenMint⟩
  whirlpools address := (deployment.whirlpools address).map ConfiguredPool.rights

/-- Writing another config leaves the domain as it was. -/
theorem domain_setConfig_of_ne {address : Pubkey} {account : ConfigAccount}
    (other : address ≠ config) :
    (deployment.setConfig address account).domain config pools =
      deployment.domain config pools := by
  simp only [domain, setConfig, Function.update_of_ne other.symm]

theorem domain_setFeeTier_of_ne {address : FeeTierSeeds} {feeTier : FeeTier}
    (other : address.whirlpoolsConfig ≠ config) :
    (deployment.setFeeTier address feeTier).domain config pools =
      deployment.domain config pools := by
  have apart (tickSpacing : ℕ) : (⟨config, tickSpacing⟩ : FeeTierSeeds) ≠ address :=
    fun same => other (congrArg FeeTierSeeds.whirlpoolsConfig same).symm
  simp only [domain, setFeeTier, Function.update_of_ne (apart _)]

theorem domain_setConfigExtension_of_ne {address : Pubkey} {extension : WhirlpoolsConfigExtension}
    (other : address ≠ config) :
    (deployment.setConfigExtension address extension).domain config pools =
      deployment.domain config pools := by
  simp only [domain, setConfigExtension, Function.update_of_ne other.symm]

theorem domain_setTokenBadge_of_ne {address : TokenBadgeSeeds} {tokenBadge : Option TokenBadge}
    (other : address.whirlpoolsConfig ≠ config) :
    (deployment.setTokenBadge address tokenBadge).domain config pools =
      deployment.domain config pools := by
  have apart (tokenMint : Pubkey) : (⟨config, tokenMint⟩ : TokenBadgeSeeds) ≠ address :=
    fun same => other (congrArg TokenBadgeSeeds.whirlpoolsConfig same).symm
  simp only [domain, setTokenBadge, Function.update_of_ne (apart _)]

/-- Writing a pool that is not among those of the domain leaves the domain as it was. -/
theorem domain_setWhirlpool_of_notMem {address : WhirlpoolSeeds} {configured : ConfiguredPool}
    (other : address ∉ pools) :
    (deployment.setWhirlpool address configured).domain config pools =
      deployment.domain config pools := by
  have apart (member : pools) : (member : WhirlpoolSeeds) ≠ address :=
    fun same => other (same ▸ member.property)
  simp only [domain, setWhirlpool, Function.update_of_ne (apart _)]

/-- A pool that keeps its rights keeps the domain. -/
theorem domain_setWhirlpool_of_rights {address : WhirlpoolSeeds}
    {configured updated : ConfiguredPool} (found : deployment.whirlpools address = some configured)
    (kept : updated.rights = configured.rights) :
    (deployment.setWhirlpool address updated).domain config pools =
      deployment.domain config pools := by
  have rights (other : WhirlpoolSeeds) :
      (Function.update deployment.whirlpools address (some updated) other).map
        ConfiguredPool.rights = (deployment.whirlpools other).map ConfiguredPool.rights := by
    by_cases same : other = address
    · rw [same, Function.update_self, found, Option.map_some, Option.map_some, kept]
    · rw [Function.update_of_ne same]
  simp only [domain, setWhirlpool, rights]

/-- What is stored after a write was written, or is stored elsewhere. -/
theorem of_update {κ α : Type} [DecidableEq κ] {accounts : κ → Option α} {written other : κ}
    {value : Option α} {stored : α}
    (found : Function.update accounts written value other = some stored) :
    (other = written ∧ value = some stored) ∨ accounts other = some stored := by
  by_cases same : other = written
  · rw [same, Function.update_self] at found
    exact .inl ⟨same, found⟩
  · rw [Function.update_of_ne same] at found
    exact .inr found

/-- Writing a pool at an address of its own config keeps a deployment well formed. -/
theorem WellFormed.setWhirlpool {address : WhirlpoolSeeds} {configured : ConfiguredPool}
    (wellFormed : deployment.WellFormed)
    (placed : configured.whirlpoolsConfig = address.whirlpoolsConfig) :
    (deployment.setWhirlpool address configured).WellFormed := by
  refine ⟨wellFormed.feeTiers, wellFormed.configExtensions, wellFormed.tokenBadges,
    fun other found stored => ?_⟩
  rcases of_update stored with ⟨rfl, written⟩ | kept
  · obtain rfl := Option.some.inj written
    exact placed
  · exact wellFormed.whirlpools other found kept

/-- Every call that succeeds keeps a deployment well formed. -/
theorem Effect.wellFormed {signers : List Pubkey} {call : Call}
    (effect : Effect m deployment signers call final) (wellFormed : deployment.WellFormed) :
    final.WellFormed := by
  cases effect with
  | config => exact ⟨wellFormed.feeTiers, wellFormed.configExtensions, wellFormed.tokenBadges,
      wellFormed.whirlpools⟩
  | @feeTier address _ feeTier _ _ placed =>
      refine ⟨fun other found stored => ?_, wellFormed.configExtensions, wellFormed.tokenBadges,
        wellFormed.whirlpools⟩
      rcases of_update stored with ⟨rfl, written⟩ | kept
      · obtain rfl := Option.some.inj written
        exact placed
      · exact wellFormed.feeTiers other found kept
  | @configExtension address extension _ placed =>
      refine ⟨wellFormed.feeTiers, fun other found stored => ?_, wellFormed.tokenBadges,
        wellFormed.whirlpools⟩
      rcases of_update stored with ⟨rfl, written⟩ | kept
      · obtain rfl := Option.some.inj written
        exact placed
      · exact wellFormed.configExtensions other found kept
  | @badgeOpened address tokenMint =>
      refine ⟨wellFormed.feeTiers, wellFormed.configExtensions, fun other found stored => ?_,
        wellFormed.whirlpools⟩
      rcases of_update stored with ⟨rfl, written⟩ | kept
      · exact (Option.some.inj written).symm
      · exact wellFormed.tokenBadges other found kept
  | @badgeClosed address tokenMint =>
      refine ⟨wellFormed.feeTiers, wellFormed.configExtensions, fun other found stored => ?_,
        wellFormed.whirlpools⟩
      rcases of_update stored with ⟨rfl, written⟩ | kept
      · exact absurd written (Option.some_ne_none _).symm
      · exact wellFormed.tokenBadges other found kept
  | created => exact wellFormed.setWhirlpool rfl
  | @pool address configured _ found owned =>
      have placed := wellFormed.whirlpools address configured found
      exact wellFormed.setWhirlpool (owned.trans placed)
  | @twoPools addressOne addressTwo one two _ _ _ foundOne foundTwo =>
      have placedOne := wellFormed.whirlpools addressOne one foundOne
      have placedTwo := wellFormed.whirlpools addressTwo two foundTwo
      refine WellFormed.setWhirlpool ?_ placedTwo
      exact wellFormed.setWhirlpool placedOne

/-- The two writes of a trade through two pools keep the domain. -/
theorem domain_setTwo {addressOne addressTwo : WhirlpoolSeeds} {one two one' two' : ConfiguredPool}
    (distinct : addressOne ≠ addressTwo) (foundOne : deployment.whirlpools addressOne = some one)
    (foundTwo : deployment.whirlpools addressTwo = some two) (keptOne : one'.rights = one.rights)
    (keptTwo : two'.rights = two.rights) :
    ((deployment.setWhirlpool addressOne one').setWhirlpool addressTwo two').domain config pools =
      deployment.domain config pools := by
  have still : (deployment.setWhirlpool addressOne one').whirlpools addressTwo = some two :=
    (Function.update_of_ne distinct.symm _ _).trans foundTwo
  exact (domain_setWhirlpool_of_rights still keptTwo).trans
    (domain_setWhirlpool_of_rights foundOne keptOne)

/-- A key over one of the pools is not an outsider's. -/
theorem Directs.inside (sealedFrom : (deployment.domain config pools).SealedFrom config outsider)
    (wellFormed : deployment.WellFormed)
    (within : ∀ address ∈ pools, WhirlpoolSeeds.whirlpoolsConfig address = config)
    {address : WhirlpoolSeeds} (member : address ∈ pools) {configured : ConfiguredPool}
    (found : deployment.whirlpools address = some configured) {key : Pubkey}
    (directs : deployment.Directs configured key) : ¬ outsider key := by
  rcases directs with ⟨account, founded, names⟩ | ⟨index, rfl⟩
  · rw [wellFormed.whirlpools _ _ found, within address member] at founded
    exact sealedFrom.config account key founded names
  · obtain ⟨rights, shown, safe⟩ := sealedFrom.whirlpools ⟨address, member⟩
    simp only [domain, found, Option.map_some, Option.some.injEq] at shown
    subst shown
    exact safe index

/-- What outsiders do keeps a domain sealed from them. -/
theorem Effect.respects {signers : List Pubkey} {call : Call}
    (effect : Effect m deployment signers call final) (wellFormed : deployment.WellFormed)
    (within : ∀ address ∈ pools, WhirlpoolSeeds.whirlpoolsConfig address = config)
    (sealedFrom : (deployment.domain config pools).SealedFrom config outsider)
    (outside : ∀ key ∈ signers, outsider key) :
    final.domain config pools = deployment.domain config pools := by
  cases effect with
  | @config address account signed =>
      refine domain_setConfig_of_ne fun same => ?_
      subst same
      rcases signed with ⟨absent, signed⟩ | ⟨before, found, key, signed, names⟩
      · exact sealedFrom.founder absent (outside _ signed)
      · exact sealedFrom.config before key found names (outside _ signed)
  | @feeTier address account feeTier found signed =>
      refine domain_setFeeTier_of_ne fun same => ?_
      rw [same] at found
      exact sealedFrom.config account _ found .feeAuthority (outside _ signed)
  | @configExtension address extension signed =>
      refine domain_setConfigExtension_of_ne fun same => ?_
      subst same
      rcases signed with ⟨account, found, key, signed, names⟩ | ⟨before, found, key, signed, names⟩
      · exact sealedFrom.config account key found names (outside _ signed)
      · exact sealedFrom.configExtension before key found names (outside _ signed)
  | @badgeOpened address tokenMint extension _ found signed =>
      refine domain_setTokenBadge_of_ne fun same => ?_
      obtain rfl : address = config := same
      exact sealedFrom.configExtension extension _ found .tokenBadgeAuthority (outside _ signed)
  | @badgeClosed address tokenMint extension _ found signed =>
      refine domain_setTokenBadge_of_ne fun same => ?_
      obtain rfl : address = config := same
      exact sealedFrom.configExtension extension _ found .tokenBadgeAuthority (outside _ signed)
  | @created args _ _ _ _ _ _ _ fresh =>
      refine domain_setWhirlpool_of_notMem fun member => ?_
      obtain ⟨rights, shown, -⟩ := sealedFrom.whirlpools ⟨args.seeds, member⟩
      simp only [domain, fresh, Option.map_none, reduceCtorEq] at shown
  | @pool address configured updated found _ _ signed =>
      by_cases member : address ∈ pools
      · refine domain_setWhirlpool_of_rights found (signed.resolve_right ?_)
        rintro ⟨key, signed, directs⟩
        exact directs.inside sealedFrom wellFormed within member found (outside _ signed)
      · exact domain_setWhirlpool_of_notMem member
  | twoPools distinct foundOne foundTwo _ _ keptOne keptTwo =>
      exact domain_setTwo distinct foundOne foundTwo keptOne keptTwo

end Deployment
end Whirlpools
