import Whirlpools.Deployment.Authorities

/-! # Mints that need a badge

A pool is created for two admitted mints. A mint that needs a badge is admitted while it has one:
the token badge authority of the configuration opened it and did not close it since.
-/

namespace Whirlpools

open Outcome History

/-- An extension that no badge makes up for. -/
def MintExtension.Excluded : MintExtension → Prop
  | .nonTransferable => True
  | .other => True
  | .defaultAccountState state => state ≠ .initialized
  | _ => False

/-- An extension that is supported with a badge only. -/
def MintExtension.Restricted : MintExtension → Prop
  | .permanentDelegate => True
  | .transferHook => True
  | .mintCloseAuthority => True
  | .defaultAccountState _ => True
  | _ => False

/-- A mint that is supported with a badge only. -/
def TokenMint.NeedsBadge (tokenMint : TokenMint) : Prop :=
  tokenMint.freezeAuthority.isSome ∨ ∃ extension ∈ tokenMint.extensions, extension.Restricted

/-- A mint of the older token program, or one without excluded extensions that has a badge if it
needs one. -/
def TokenMint.Admitted (tokenMint : TokenMint) (badged : Prop) : Prop :=
  tokenMint.owner = .token ∨ (¬ tokenMint.isNative2022 ∧
    (∀ extension ∈ tokenMint.extensions, ¬ extension.Excluded) ∧ (tokenMint.NeedsBadge → badged))

/-- A mint stays admitted when it gains a badge. -/
theorem TokenMint.Admitted.mono {tokenMint : TokenMint} {badged badged' : Prop}
    (admitted : tokenMint.Admitted badged) (implies : badged → badged') :
    tokenMint.Admitted badged' := by
  rcases admitted with older | ⟨foreign, usable, needed⟩
  · exact .inl older
  · exact .inr ⟨foreign, usable, fun needs => implies (needed needs)⟩

/-- An extension is supported when it is not excluded and, if restricted, the mint has a badge. -/
theorem MintExtension.isSupported_iff {badged : Bool} {extension : MintExtension} :
    extension.isSupported badged ↔ ¬ extension.Excluded ∧ (extension.Restricted → badged) := by
  cases extension <;> cases badged <;> simp [isSupported, Excluded, Restricted]

/-- The program's check admits exactly the admitted mints. -/
theorem isSupportedTokenMint_iff {tokenMint : TokenMint} {badged : Bool} :
    isSupportedTokenMint tokenMint badged ↔ tokenMint.Admitted badged := by
  unfold isSupportedTokenMint TokenMint.Admitted TokenMint.NeedsBadge
  split_ifs with older native frozen
  · exact iff_of_true rfl (.inl older)
  · simp only [older, native, not_true_eq_false, false_and, or_self]
  · simp only [Bool.and_eq_true, Bool.not_eq_true'] at frozen
    simp only [Bool.false_eq_true, older, native, frozen.1, frozen.2, true_or, forall_const,
      and_false, or_self]
  · simp only [Bool.and_eq_true, Bool.not_eq_true', not_and, Bool.not_eq_false] at frozen
    simp only [older, native, List.all_eq_true, MintExtension.isSupported_iff, false_or,
      not_false_eq_true, true_and, Bool.false_eq_true]
    constructor
    · intro supported
      refine ⟨fun extension member => (supported extension member).1, ?_⟩
      rintro (freezable | ⟨extension, member, restricted⟩)
      · exact frozen freezable
      · exact (supported extension member).2 restricted
    · rintro ⟨usable, badged⟩ extension member
      exact ⟨usable extension member,
        fun restricted => badged (.inr ⟨extension, member, restricted⟩)⟩

namespace Deployment

variable {m : Machine} {lib : TokenLibrary} {whirlpoolAddress : WhirlpoolSeeds → Pubkey}
  {deployment final : Deployment} {config tokenMint : Pubkey}

/-- The token badge authority of a configuration signed a transaction. -/
def SignedForBadges (deployment : Deployment) (config : Pubkey) (transaction : Transaction) :
    Prop :=
  ∃ extension, deployment.configExtensions config = some extension ∧
    extension.tokenBadgeAuthority ∈ transaction.signers

/-- A transaction opens the badge of a mint. -/
def Opens (m : Machine) (lib : TokenLibrary)
    (whirlpoolAddress : WhirlpoolSeeds → Pubkey) (config tokenMint : Pubkey)
    (deployment : Deployment) (transaction : Transaction) : Prop :=
  transaction.call = .initializeTokenBadge config config tokenMint ∧
    deployment.SignedForBadges config transaction ∧
    ∃ final, deployment.execute m lib whirlpoolAddress transaction = .ok final

/-- A transaction closes the badge of a mint. -/
def Closes (m : Machine) (lib : TokenLibrary)
    (whirlpoolAddress : WhirlpoolSeeds → Pubkey) (config tokenMint : Pubkey)
    (deployment : Deployment) (transaction : Transaction) : Prop :=
  transaction.call = .deleteTokenBadge config config tokenMint ∧
    deployment.SignedForBadges config transaction ∧
    ∃ final, deployment.execute m lib whirlpoolAddress transaction = .ok final

/-- A mint has a badge. -/
def Badged (config tokenMint : Pubkey) (deployment : Deployment) : Prop :=
  deployment.tokenBadges ⟨config, tokenMint⟩ = some ⟨config, tokenMint⟩

/-- A badge was opened by its authority, and not closed since. -/
def BadgedSince (m : Machine) (lib : TokenLibrary)
    (whirlpoolAddress : WhirlpoolSeeds → Pubkey)
    (config tokenMint : Pubkey) (transactions : List Transaction) : Prop :=
  Since (next m lib whirlpoolAddress) .empty (Opens m lib whirlpoolAddress config tokenMint)
    (Closes m lib whirlpoolAddress config tokenMint) transactions

/-- A transaction that opens a badge leaves the mint with one. -/
theorem badged_of_open {transaction : Transaction}
    (opens : Opens m lib whirlpoolAddress config tokenMint deployment transaction) :
    Badged config tokenMint (deployment.next m lib whirlpoolAddress transaction) := by
  obtain ⟨signers, call⟩ := transaction
  obtain ⟨rfl, -, final, returned⟩ := opens
  unfold next
  rw [returned]
  simp only [execute, mapError_eq_ok, initializeTokenBadge, bind_eq_ok, Except.ok.injEq] at returned
  obtain ⟨_, -, _, -, rfl⟩ := returned
  exact Function.update_self _ _ _

/-- A transaction that closes the badge leaves the mint without one. -/
theorem not_badged_of_close {transaction : Transaction}
    (closes : Closes m lib whirlpoolAddress config tokenMint deployment transaction) :
    ¬ Badged config tokenMint (deployment.next m lib whirlpoolAddress transaction) := by
  obtain ⟨signers, call⟩ := transaction
  obtain ⟨rfl, -, final, returned⟩ := closes
  unfold next
  rw [returned]
  simp only [execute, mapError_eq_ok, deleteTokenBadge, bind_eq_ok, Except.ok.injEq] at returned
  obtain ⟨_, -, _, -, _, -, rfl⟩ := returned
  intro badged
  change Function.update deployment.tokenBadges ⟨config, tokenMint⟩ none ⟨config, tokenMint⟩ =
    some ⟨config, tokenMint⟩ at badged
  rw [Function.update_self] at badged
  exact absurd badged.symm (Option.some_ne_none _)

/-- Only opening and closing a badge changes whether a mint has one. -/
theorem badged_next_iff (wellFormed : deployment.WellFormed) (transaction : Transaction) :
    Badged config tokenMint (deployment.next m lib whirlpoolAddress transaction) ↔
      Opens m lib whirlpoolAddress config tokenMint deployment transaction ∨
        Badged config tokenMint deployment ∧
          ¬ Closes m lib whirlpoolAddress config tokenMint deployment transaction := by
  constructor
  · intro badged
    by_cases opens : Opens m lib whirlpoolAddress config tokenMint deployment transaction
    · exact .inl opens
    · refine .inr ⟨?_, fun closes => not_badged_of_close closes badged⟩
      unfold next at badged
      cases returned : deployment.execute m lib whirlpoolAddress transaction with
      | error failure =>
          rw [returned] at badged
          exact badged
      | ok final =>
          rw [returned] at badged
          have effect := effect_of_execute wellFormed returned
          change Badged config tokenMint final at badged
          cases effect with
          | config | feeTier | configExtension | created | pool | twoPools => exact badged
          | @badgeOpened address mint extension called found signed =>
              rcases of_update badged with ⟨same, -⟩ | kept
              · obtain ⟨rfl, rfl⟩ := TokenBadgeSeeds.mk.inj same
                exact absurd ⟨called, ⟨extension, found, signed⟩, _, returned⟩ opens
              · exact kept
          | badgeClosed =>
              rcases of_update badged with ⟨-, absent⟩ | kept
              · exact absurd absent.symm (Option.some_ne_none _)
              · exact kept
  · rintro (opens | ⟨badged, open'⟩)
    · exact badged_of_open opens
    · unfold next
      cases returned : deployment.execute m lib whirlpoolAddress transaction with
      | error failure => exact badged
      | ok final =>
          change Badged config tokenMint final
          have effect := effect_of_execute wellFormed returned
          cases effect with
          | config | feeTier | configExtension | created | pool | twoPools => exact badged
          | @badgeOpened address mint =>
              by_cases same : (⟨config, tokenMint⟩ : TokenBadgeSeeds) = ⟨address, mint⟩
              · obtain ⟨rfl, rfl⟩ := TokenBadgeSeeds.mk.inj same
                exact Function.update_self _ _ _
              · exact (Function.update_of_ne same _ _).trans badged
          | @badgeClosed address mint extension called found signed =>
              by_cases same : (⟨config, tokenMint⟩ : TokenBadgeSeeds) = ⟨address, mint⟩
              · obtain ⟨rfl, rfl⟩ := TokenBadgeSeeds.mk.inj same
                exact absurd ⟨called, ⟨extension, found, signed⟩, _, returned⟩ open'
              · exact (Function.update_of_ne same _ _).trans badged

/-- A mint has a badge exactly when it was opened and not closed since. -/
theorem badged_iff_since (transactions : List Transaction) :
    Badged config tokenMint (after (next m lib whirlpoolAddress) .empty transactions) ↔
      BadgedSince m lib whirlpoolAddress config tokenMint transactions :=
  holds_iff_since_of_invariant WellFormed
    (fun _ transaction wellFormed => wellFormed.next transaction) wellFormed_empty
    (Badged config tokenMint) (fun badged => absurd badged.symm (Option.some_ne_none _))
    (fun _ transaction wellFormed => badged_next_iff wellFormed transaction) transactions

/-- A supported mint is admitted. -/
theorem admitted_of_supports {mint : TokenMint} (wellFormed : deployment.WellFormed)
    (supported : deployment.supports config mint) :
    mint.Admitted (Badged config mint.key deployment) := by
  unfold supports at supported
  rcases isSupportedTokenMint_iff.mp supported with older | ⟨foreign, usable, badged⟩
  · exact .inl older
  refine .inr ⟨foreign, usable, fun needs => ?_⟩
  have stored := badged needs
  unfold isTokenBadgeInitialized at stored
  cases found : deployment.tokenBadges ⟨config, mint.key⟩ with
  | none => simp only [found, Bool.false_eq_true] at stored
  | some badge => exact found.trans (congrArg some (wellFormed.tokenBadges _ _ found))

end Deployment

/-- A transaction succeeds in creating the pool at an address, for two mints admitted after the
transactions before it. -/
def Creates (m : Machine) (lib : TokenLibrary)
    (whirlpoolAddress : WhirlpoolSeeds → Pubkey) (address : WhirlpoolSeeds)
    (earlier : List Transaction) (transaction : Transaction) : Prop :=
  ∃ args, (transaction.call = .initializePool args ∨ transaction.call = .initializePoolV2 args) ∧
    args.seeds = address ∧
    (∃ final, Deployment.execute m lib whirlpoolAddress
      (after (Deployment.next m lib whirlpoolAddress) .empty earlier) transaction = .ok final) ∧
    args.tokenMintA.Admitted (Deployment.BadgedSince m lib whirlpoolAddress address.whirlpoolsConfig
      address.tokenMintA earlier) ∧
    args.tokenMintB.Admitted (Deployment.BadgedSince m lib whirlpoolAddress address.whirlpoolsConfig
      address.tokenMintB earlier)

/-- Each pool that a run leads to was created by one of its transactions for two admitted mints: a
mint that needs a badge had one then, which the token badge authority of the configuration had
opened and not closed since. -/
theorem deployed_mints_admitted {m : Machine} {lib : TokenLibrary}
    {whirlpoolAddress : WhirlpoolSeeds → Pubkey}
    (transactions : List Transaction) {address : WhirlpoolSeeds} {configured : ConfiguredPool}
    (found : (after (Deployment.next m lib whirlpoolAddress) .empty transactions).whirlpools
      address = some configured) :
    ∃ earlier transaction later, transactions = earlier ++ transaction :: later ∧
      Creates m lib whirlpoolAddress address earlier transaction := by
  induction transactions using List.reverseRecOn generalizing configured with
  | nil => exact absurd found.symm (Option.some_ne_none _)
  | append_singleton transactions transaction ih =>
      have wellFormed :
          (after (Deployment.next m lib whirlpoolAddress) .empty transactions).WellFormed :=
        Deployment.wellFormed_of_reachable ⟨transactions, rfl⟩
      have before {configured : ConfiguredPool}
          (found : (after (Deployment.next m lib whirlpoolAddress) .empty transactions).whirlpools
            address = some configured) : ∃ earlier creating later,
          transactions ++ [transaction] = earlier ++ creating :: later ∧
            Creates m lib whirlpoolAddress address earlier creating := by
        obtain ⟨earlier, creating, later, rfl, creates⟩ := ih found
        exact ⟨earlier, creating, later ++ [transaction],
          by rw [List.append_assoc, List.cons_append], creates⟩
      rw [after_append_singleton, Deployment.next] at found
      cases returned : Deployment.execute m lib whirlpoolAddress
          (after (Deployment.next m lib whirlpoolAddress) .empty transactions) transaction with
      | error failure =>
          rw [returned] at found
          exact before found
      | ok final =>
          rw [returned] at found
          change final.whirlpools address = some configured at found
          have effect := Deployment.effect_of_execute wellFormed returned
          cases effect with
          | config | feeTier | configExtension | badgeOpened | badgeClosed => exact before found
          | @created args _ _ _ called supported =>
              rcases Deployment.of_update found with ⟨rfl, -⟩ | kept
              · have admitted {mint : TokenMint} (supported : Deployment.supports
                    (after (Deployment.next m lib whirlpoolAddress) .empty transactions)
                    args.whirlpoolsConfig mint) :=
                  (Deployment.admitted_of_supports wellFormed supported).mono
                    (Deployment.badged_iff_since transactions).mp
                exact ⟨transactions, transaction, [], rfl, args, called, rfl, ⟨_, returned⟩,
                  admitted supported.1, admitted supported.2⟩
              · exact before kept
          | pool stored =>
              rcases Deployment.of_update found with ⟨rfl, -⟩ | kept
              · exact before stored
              · exact before kept
          | twoPools _ foundOne foundTwo =>
              rcases Deployment.of_update found with ⟨rfl, -⟩ | kept
              · exact before foundTwo
              · rcases Deployment.of_update kept with ⟨rfl, -⟩ | kept
                · exact before foundOne
                · exact before kept

/-- A configuration that admits a freezable mint by a badge, with a pool for it. -/
def badgeRun : List Transaction :=
  [⟨[1], .initializeConfig 1 2 3 4 300⟩, ⟨[2], .initializeFeeTier 1 64 3000⟩,
    ⟨[2], .initializeConfigExtension 1⟩, ⟨[2], .initializeTokenBadge 1 1 20⟩,
    ⟨[], .initializePoolV2 ⟨1, ⟨1, 64⟩, ⟨10, .token, false, none, []⟩,
      ⟨20, .token2022, false, some 7, [.transferHook]⟩, 11, 21, 64, 2 ^ 64⟩⟩,
    ⟨[2], .deleteTokenBadge 1 1 20⟩]

/-- The pool of the run was created while its second mint had its badge, which is closed now. -/
theorem deployed_mints_admitted_badgeRun :
    (∃ earlier transaction later, badgeRun = earlier ++ transaction :: later ∧
      Creates (.exact false) .formulas (fun _ => 0) ⟨1, 10, 20, 64⟩ earlier transaction) ∧
      ((after (Deployment.next (.exact false) .formulas fun _ => 0) .empty badgeRun).whirlpools
        ⟨1, 10, 20, 64⟩).isSome ∧
      ((after (Deployment.next (.exact false) .formulas fun _ => 0) .empty badgeRun).tokenBadges
        ⟨1, 20⟩).isNone := by
  obtain ⟨configured, found⟩ : ∃ configured,
    (after (Deployment.next (.exact false) .formulas fun _ => 0) .empty badgeRun).whirlpools
      ⟨1, 10, 20, 64⟩ = some configured := ⟨_, rfl⟩
  exact ⟨deployed_mints_admitted badgeRun found, Option.isSome_of_eq_some found, rfl⟩

end Whirlpools
