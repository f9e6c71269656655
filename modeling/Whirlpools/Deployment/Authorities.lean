import Whirlpools.Deployment.Agreement

/-! # Outsiders have no power

Keys that are no authority of a configuration never become one unless an authority hands it to
them. Whatever they sign, the configuration, its fee tiers, its badges and the rights over its
pools are as if they had signed nothing.
-/

namespace Whirlpools

open Outcome History Unwinding

namespace Deployment

variable {m : Machine} {lib : TokenLibrary} {whirlpoolAddress : WhirlpoolSeeds → Pubkey}
  {deployment final : Deployment} {config : Pubkey} {pools : Set WhirlpoolSeeds}
  {outsider : Pubkey → Bool}

theorem SealedFrom.existing
    (sealedFrom : (deployment.domain config pools).SealedFrom config outsider) :
    ∀ address ∈ pools, ∃ configured, deployment.whirlpools address = some configured := by
  intro address member
  obtain ⟨rights, shown, -⟩ := sealedFrom.whirlpools ⟨address, member⟩
  obtain ⟨configured, found, -⟩ := Option.map_eq_some_iff.mp shown
  exact ⟨configured, found⟩

/-- A call that hands nothing to outsiders keeps the domain sealed from them. -/
theorem Effect.seals {signers : List Pubkey} {call : Call}
    (effect : Effect m deployment signers call final)
    (sealedFrom : (deployment.domain config pools).SealedFrom config outsider)
    (loyal : ∀ key, call.Hands config pools key → ¬ outsider key) :
    (final.domain config pools).SealedFrom config outsider := by
  cases effect with
  | @config address account signed named =>
      by_cases same : address = config
      · subst same
        refine ⟨fun absent => ?_, fun founded key found names => ?_, sealedFrom.configExtension,
          sealedFrom.whirlpools⟩
        · simp only [domain, setConfig, Function.update_self, reduceCtorEq] at absent
        · simp only [domain, setConfig, Function.update_self, Option.some.injEq] at found
          subst found
          rcases named key names with ⟨before, stored, kept⟩ | handed
          · exact sealedFrom.config before key stored kept
          · exact loyal key (handed pools)
      · rw [domain_setConfig_of_ne same]
        exact sealedFrom
  | feeTier => exact ⟨sealedFrom.founder, sealedFrom.config, sealedFrom.configExtension,
      sealedFrom.whirlpools⟩
  | @configExtension address extension signed placed named =>
      by_cases same : address = config
      · subst same
        refine ⟨sealedFrom.founder, sealedFrom.config, fun stored key found names => ?_,
          sealedFrom.whirlpools⟩
        simp only [domain, setConfigExtension, Function.update_self, Option.some.injEq] at found
        subst found
        rcases named key names with ⟨account, stored, kept⟩ | ⟨before, stored, kept⟩ | handed
        · exact sealedFrom.config account key stored kept
        · exact sealedFrom.configExtension before key stored kept
        · exact loyal key (handed pools)
      · rw [domain_setConfigExtension_of_ne same]
        exact sealedFrom
  | badgeOpened => exact ⟨sealedFrom.founder, sealedFrom.config, sealedFrom.configExtension,
      sealedFrom.whirlpools⟩
  | badgeClosed => exact ⟨sealedFrom.founder, sealedFrom.config, sealedFrom.configExtension,
      sealedFrom.whirlpools⟩
  | @created args _ _ _ _ _ _ _ fresh =>
      rw [domain_setWhirlpool_of_notMem fun member => ?_]
      · exact sealedFrom
      · obtain ⟨configured, found⟩ := SealedFrom.existing sealedFrom args.seeds member
        exact absurd (fresh.symm.trans found) (by simp only [reduceCtorEq, not_false_eq_true])
  | @pool address configured updated found _ _ _ named =>
      refine ⟨sealedFrom.founder, sealedFrom.config, sealedFrom.configExtension,
        fun place => ?_⟩
      obtain ⟨other, member⟩ := place
      obtain ⟨rights, shown, safe⟩ := sealedFrom.whirlpools ⟨other, member⟩
      by_cases same : other = address
      · subst same
        simp only [domain, found, Option.map_some, Option.some.injEq] at shown
        subst shown
        refine ⟨updated.rights, ?_, fun index => ?_⟩
        · simp only [domain, setWhirlpool, Function.update_self, Option.map_some]
        · rcases named index with kept | handed
          · have still := safe index
            simp only [ConfiguredPool.rights] at still ⊢
            rw [kept]
            exact still
          · exact loyal _ (handed config pools member)
      · refine ⟨rights, ?_, safe⟩
        simp only [domain, setWhirlpool, Function.update_of_ne same]
        exact shown
  | twoPools distinct foundOne foundTwo _ _ keptOne keptTwo =>
      rw [domain_setTwo distinct foundOne foundTwo keptOne keptTwo]
      exact sealedFrom

/-- What every effect keeps, a transaction keeps; one that fails changes nothing. -/
theorem next_kept {holds : Deployment → Prop} {transaction : Transaction}
    (wellFormed : deployment.WellFormed) (initially : holds deployment)
    (kept : ∀ final, Effect m deployment transaction.signers transaction.call final →
      holds final) : holds (deployment.next m lib whirlpoolAddress transaction) := by
  unfold Deployment.next
  cases returned : deployment.execute m lib whirlpoolAddress transaction with
  | ok final => exact kept final (effect_of_execute wellFormed returned)
  | error failure => exact initially

/-- Every transaction keeps a deployment well formed. -/
theorem WellFormed.next (wellFormed : deployment.WellFormed) (transaction : Transaction) :
    (deployment.next m lib whirlpoolAddress transaction).WellFormed :=
  next_kept wellFormed wellFormed fun _ effect => effect.wellFormed wellFormed

/-- What every effect of the allowed transactions keeps holds after a run of them. -/
theorem after_kept {holds : Deployment → Prop} {allowed : Transaction → Prop}
    (wellFormed : deployment.WellFormed) (initially : holds deployment)
    (kept : ∀ (deployment : Deployment) (transaction : Transaction) (final : Deployment),
      holds deployment → allowed transaction →
      Effect m deployment transaction.signers transaction.call final → holds final)
    {transactions : List Transaction}
    (permitted : ∀ transaction ∈ transactions, allowed transaction) :
    holds (after (Deployment.next m lib whirlpoolAddress) deployment transactions) := by
  have invariant := @invariant_after_of Deployment Transaction
    (Deployment.next m lib whirlpoolAddress)
    deployment (fun deployment => deployment.WellFormed ∧ holds deployment) allowed
    (fun deployment transaction invariant permitted =>
      ⟨invariant.1.next transaction, next_kept invariant.1 invariant.2
        fun final effect => kept deployment transaction final invariant.2 permitted effect⟩)
    ⟨wellFormed, initially⟩ transactions permitted
  exact invariant.2

theorem wellFormed_empty : WellFormed empty where
  feeTiers _ _ found := by simp only [empty, reduceCtorEq] at found
  configExtensions _ _ found := by simp only [empty, reduceCtorEq] at found
  tokenBadges _ _ found := by simp only [empty, reduceCtorEq] at found
  whirlpools _ _ found := by simp only [empty, reduceCtorEq] at found

/-- The accounts of every reachable deployment are at their addresses. -/
theorem wellFormed_of_reachable
    (reachable : ReachableDeployment m lib whirlpoolAddress deployment) :
    deployment.WellFormed := by
  obtain ⟨transactions, rfl⟩ := reachable
  exact invariant_after (fun _ transaction wellFormed => wellFormed.next transaction)
    wellFormed_empty transactions

/-- The transactions of outsiders are not noticed in a domain sealed from them. -/
theorem outsiders_unnoticed
    (within : ∀ address ∈ pools, WhirlpoolSeeds.whirlpoolsConfig address = config) :
    Unnoticed (next m lib whirlpoolAddress) (fun deployment => deployment.domain config pools)
      (Transaction.isOutside outsider)
      (fun transaction => transaction.isOutside outsider ∨
        ∀ key, transaction.call.Hands config pools key → ¬ outsider key)
      (fun deployment => deployment.WellFormed ∧
        (deployment.domain config pools).SealedFrom config outsider) := by
  have respected (deployment : Deployment) (transaction : Transaction)
      (wellFormed : deployment.WellFormed)
      (sealedFrom : (deployment.domain config pools).SealedFrom config outsider)
      (outside : transaction.isOutside outsider) :
      (deployment.next m lib whirlpoolAddress transaction).domain config pools =
        deployment.domain config pools := by
    refine settle_kept fun final returned => ?_
    exact (effect_of_execute wellFormed returned).respects wellFormed within sealedFrom
      (List.all_eq_true.mp outside)
  refine ⟨?_, ?_, ?_⟩
  · rintro deployment transaction ⟨wellFormed, sealedFrom⟩ (outside | loyal)
    · refine ⟨wellFormed.next transaction, ?_⟩
      rw [respected deployment transaction wellFormed sealedFrom outside]
      exact sealedFrom
    · refine ⟨wellFormed.next transaction, ?_⟩
      exact @next_kept m lib whirlpoolAddress deployment
        (fun deployment => (deployment.domain config pools).SealedFrom config outsider)
        transaction wellFormed sealedFrom fun _ effect => effect.seals sealedFrom loyal
  · rintro deployment transaction ⟨wellFormed, sealedFrom⟩ outside
    exact respected deployment transaction wellFormed sealedFrom outside
  · rintro deployment deployment' transaction ⟨wellFormed, sealedFrom⟩
      ⟨wellFormed', sealedFrom'⟩ same
    exact next_alike transaction same wellFormed wellFormed' within
      (SealedFrom.existing sealedFrom) (SealedFrom.existing sealedFrom')

end Deployment

/-- Whatever keys without authority sign among the transactions of others, who hand them none, they
have none afterwards, and the domain is as if they had signed nothing. -/
theorem outsiders_powerless {m : Machine} {lib : TokenLibrary}
    {whirlpoolAddress : WhirlpoolSeeds → Pubkey}
    {deployment : Deployment} {config : Pubkey} {pools : Set WhirlpoolSeeds}
    {outsider : Pubkey → Bool} (reachable : ReachableDeployment m lib whirlpoolAddress deployment)
    (within : ∀ address ∈ pools, WhirlpoolSeeds.whirlpoolsConfig address = config)
    (sealedFrom : (deployment.domain config pools).SealedFrom config outsider)
    {transactions : List Transaction}
    (loyal : ∀ transaction ∈ transactions, ¬ transaction.isOutside outsider →
      ∀ key, transaction.call.Hands config pools key → ¬ outsider key) :
    ((after (Deployment.next m lib whirlpoolAddress) deployment transactions).domain config
        pools).SealedFrom config outsider ∧
      (after (Deployment.next m lib whirlpoolAddress) deployment transactions).domain config pools =
        (after (Deployment.next m lib whirlpoolAddress) deployment
          (transactions.filter fun transaction => !transaction.isOutside outsider)).domain config
          pools := by
  have unnoticed := @Deployment.outsiders_unnoticed m lib whirlpoolAddress config pools
    outsider within
  have initially := And.intro (Deployment.wellFormed_of_reachable reachable) sealedFrom
  have permitted (transaction : Transaction) (sent : transaction ∈ transactions) :
      transaction.isOutside outsider ∨
        ∀ key, transaction.call.Hands config pools key → ¬ outsider key :=
    or_iff_not_imp_left.mpr (loyal transaction sent)
  exact ⟨(unnoticed.holds_after initially permitted).2,
    unnoticed.view_filter initially initially rfl permitted⟩

/-- A configuration with a fee tier and a pool. -/
def foundingRun : List Transaction :=
  [⟨[1], .initializeConfig 1 2 3 4 300⟩, ⟨[2], .initializeFeeTier 1 64 3000⟩,
    ⟨[], .initializePool ⟨1, ⟨1, 64⟩, ⟨10, .token, false, none, []⟩, ⟨20, .token, false, none, []⟩,
      11, 21, 64, 2 ^ 64⟩⟩]

/-- Key 9 tries to take over a configuration, its pool and a reward, while key 2 hands its authority
to key 5. -/
def takeover : List Transaction :=
  [⟨[9], .setFeeAuthority 1 9⟩, ⟨[2], .setFeeAuthority 1 5⟩, ⟨[9], .setFeeRate 1 ⟨1, 10, 20, 64⟩ 0⟩,
    ⟨[9], .setRewardAuthority ⟨1, 10, 20, 64⟩ 0 9⟩]

/-- The takeover fails: key 9 has no authority after it, and only the handover to key 5 is seen. -/
theorem outsiders_powerless_takeover :
    ∃ deployment, ReachableDeployment (.exact false) .formulas (fun _ => 0) deployment ∧
      ((after (Deployment.next (.exact false) .formulas fun _ => 0) deployment takeover).domain 1
        {⟨1, 10, 20, 64⟩}).SealedFrom 1 (fun key => key = 9) ∧
      (after (Deployment.next (.exact false) .formulas fun _ => 0) deployment takeover).domain 1
          {⟨1, 10, 20, 64⟩} =
        (after (Deployment.next (.exact false) .formulas fun _ => 0) deployment
          [⟨[2], .setFeeAuthority 1 5⟩]).domain 1 {⟨1, 10, 20, 64⟩} ∧
      (((after (Deployment.next (.exact false) .formulas fun _ => 0) deployment takeover).domain 1
        {⟨1, 10, 20, 64⟩}).config.map fun config => config.feeAuthority) = some 5 := by
  let deployment := after (Deployment.next (.exact false) .formulas fun _ => 0) .empty foundingRun
  have sealedFrom : (deployment.domain 1 {⟨1, 10, 20, 64⟩}).SealedFrom 1 fun key => key = 9 := by
    refine ⟨fun absent => ?_, fun account key found names => ?_, fun extension key found _ => ?_,
      fun place => ?_⟩
    · exact absurd absent (Option.some_ne_none _)
    · obtain rfl := Option.some.inj found
      cases names <;> decide
    · exact absurd found.symm (Option.some_ne_none _)
    · obtain ⟨address, member⟩ := place
      obtain rfl := Set.mem_singleton_iff.mp member
      exact ⟨_, rfl, fun index => by decide +revert⟩
  have loyal : ∀ transaction ∈ takeover, ¬ transaction.isOutside (fun key => key = 9) →
      ∀ key, transaction.call.Hands 1 {⟨1, 10, 20, 64⟩} key → ¬ decide (key = 9) := by
    refine List.forall_mem_cons.mpr ⟨fun inside => absurd rfl inside,
      List.forall_mem_cons.mpr ⟨fun _ key hands => ?_, List.forall_mem_cons.mpr
        ⟨fun inside => absurd rfl inside, List.forall_mem_singleton.mpr fun inside =>
          absurd rfl inside⟩⟩⟩
    cases hands
    decide
  obtain ⟨safe, unnoticed⟩ := outsiders_powerless ⟨foundingRun, rfl⟩
    (fun address member => by rw [Set.mem_singleton_iff.mp member]) sealedFrom loyal
  have only : (takeover.filter fun transaction => !transaction.isOutside fun key => key = 9) =
      [⟨[2], .setFeeAuthority 1 5⟩] := rfl
  rw [only] at unnoticed
  exact ⟨deployment, ⟨foundingRun, rfl⟩, safe, unnoticed, rfl⟩

end Whirlpools
