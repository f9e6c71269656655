import Whirlpools.Foundation.History
import Whirlpools.Instructions.V2.Execute
import Whirlpools.Util.TokenMint

/-! # All pools and their configurations

A deployment is every account of the program on the chain. Accounts at derived addresses are found
by the seeds of their addresses. A transaction is one call with the keys that signed it; a call
that fails leaves the deployment as it is. Token accounts, mints and clocks belong to the
environment: what a call reads of them is an argument. Only the token programs of the vaults, which
are fixed when the program creates them, are kept with each pool.
-/

namespace Whirlpools

open Outcome

/-- The seeds of a fee tier's address. -/
structure FeeTierSeeds where
  whirlpoolsConfig : Pubkey
  tickSpacing : ℕ
  deriving DecidableEq

/-- The seeds of a token badge's address. -/
structure TokenBadgeSeeds where
  whirlpoolsConfig : Pubkey
  tokenMint : Pubkey
  deriving DecidableEq

/-- The seeds of a pool's address. -/
structure WhirlpoolSeeds where
  whirlpoolsConfig : Pubkey
  tokenMintA : Pubkey
  tokenMintB : Pubkey
  tickSpacing : ℕ
  deriving DecidableEq

/-- The token programs that own the vaults of a pool and of its rewards. -/
structure VaultPrograms where
  tokenA : TokenProgram
  tokenB : TokenProgram
  rewards : Fin numRewards → TokenProgram

/-- A pool with the configuration its account names and the token programs of its vaults. -/
structure ConfiguredPool where
  whirlpoolsConfig : Pubkey
  vaultPrograms : VaultPrograms
  pool : Pool

/-- The accounts of the program. The address of a config extension has its config as seed. -/
structure Deployment where
  configs : Pubkey → Option ConfigAccount
  feeTiers : FeeTierSeeds → Option FeeTier
  configExtensions : Pubkey → Option WhirlpoolsConfigExtension
  tokenBadges : TokenBadgeSeeds → Option TokenBadge
  whirlpools : WhirlpoolSeeds → Option ConfiguredPool

/-- Why a call fails. -/
inductive Refusal where
  | failed (failure : Failure)
  | unsupportedTokenMint
  deriving DecidableEq

/-- The instructions on a pool that no authority has to sign. -/
def Instruction.isOpen : Instruction → Bool
  | .initializeTickArray _ => true
  | .openPosition .. => true
  | .closePosition _ => true
  | .increaseLiquidity .. => true
  | .decreaseLiquidity .. => true
  | .swap _ => true
  | .updateFeesAndRewards .. => true
  | .collectFees _ => true
  | .collectReward .. => true
  | _ => false

def InstructionV2.isOpen : InstructionV2 → Bool
  | .increaseLiquidity .. => true
  | .decreaseLiquidity .. => true
  | .swap _ => true
  | .collectFees _ => true
  | .collectReward .. => true
  | _ => false

namespace VaultPrograms

/-- The vaults of a pool are of the older token program. -/
def areToken (programs : VaultPrograms) : Bool :=
  programs.tokenA = .token && programs.tokenB = .token

/-- The first version of an instruction takes vaults of the older token program only. -/
def accepts (programs : VaultPrograms) : Instruction → Bool
  | .increaseLiquidity .. => programs.areToken
  | .decreaseLiquidity .. => programs.areToken
  | .swap _ => programs.areToken
  | .collectFees _ => programs.areToken
  | .collectProtocolFees => programs.areToken
  | .setRewardEmissions rewardIndex .. =>
      ∀ index : Fin numRewards, index.val = rewardIndex → programs.rewards index = .token
  | .collectReward _ rewardIndex _ =>
      ∀ index : Fin numRewards, index.val = rewardIndex → programs.rewards index = .token
  | _ => true

/-- The vault of a reward is created by the token program of its mint. -/
def setReward (programs : VaultPrograms) (rewardIndex : ℕ) (owner : TokenProgram) : VaultPrograms :=
  { programs with
    rewards := fun index => if index.val = rewardIndex then owner else programs.rewards index }

end VaultPrograms

/-- The arguments of the two instructions that create a pool. -/
structure InitializePoolArgs where
  whirlpoolsConfig : Pubkey
  feeTier : FeeTierSeeds
  tokenMintA : TokenMint
  tokenMintB : TokenMint
  tokenVaultA : Pubkey
  tokenVaultB : Pubkey
  tickSpacing : ℕ
  initialSqrtPrice : ℕ

/-- The seeds of the pool that is created. -/
def InitializePoolArgs.seeds (args : InitializePoolArgs) : WhirlpoolSeeds :=
  ⟨args.whirlpoolsConfig, args.tokenMintA.key, args.tokenMintB.key, args.tickSpacing⟩

/-- The vaults are created by the token programs of their mints; no reward has one yet. -/
def InitializePoolArgs.vaultPrograms (args : InitializePoolArgs) : VaultPrograms :=
  ⟨args.tokenMintA.owner, args.tokenMintB.owner, fun _ => .token⟩

/-- The arguments of the two instructions that set up a reward. -/
structure InitializeRewardArgs where
  whirlpool : WhirlpoolSeeds
  rewardIndex : ℕ
  rewardMint : TokenMint
  rewardVault : Pubkey

/-- The calls of the program, with the addresses of the accounts they name. Those on position
bundles are left out: the positions of a bundle share its mint. A position opened with metadata is
one opened without, as far as the program keeps it. -/
inductive Call where
  | initializeConfig (config feeAuthority collectProtocolFeesAuthority
      rewardEmissionsSuperAuthority : Pubkey) (defaultProtocolFeeRate : ℕ)
  | setFeeAuthority (config newFeeAuthority : Pubkey)
  | setCollectProtocolFeesAuthority (config newCollectProtocolFeesAuthority : Pubkey)
  | setRewardEmissionsSuperAuthority (config newRewardEmissionsSuperAuthority : Pubkey)
  | setDefaultProtocolFeeRate (config : Pubkey) (defaultProtocolFeeRate : ℕ)
  | initializeFeeTier (config : Pubkey) (tickSpacing defaultFeeRate : ℕ)
  | setDefaultFeeRate (config : Pubkey) (feeTier : FeeTierSeeds) (defaultFeeRate : ℕ)
  | initializeConfigExtension (config : Pubkey)
  | setConfigExtensionAuthority (config extension newConfigExtensionAuthority : Pubkey)
  | setTokenBadgeAuthority (config extension newTokenBadgeAuthority : Pubkey)
  | initializeTokenBadge (config extension tokenMint : Pubkey)
  | deleteTokenBadge (config extension tokenMint : Pubkey)
  | initializePool (args : InitializePoolArgs)
  | initializePoolV2 (args : InitializePoolArgs)
  | setFeeRate (config : Pubkey) (whirlpool : WhirlpoolSeeds) (feeRate : ℕ)
  | setProtocolFeeRate (config : Pubkey) (whirlpool : WhirlpoolSeeds) (protocolFeeRate : ℕ)
  | collectProtocolFees (config : Pubkey) (whirlpool : WhirlpoolSeeds)
  | setRewardAuthorityBySuperAuthority (config : Pubkey) (whirlpool : WhirlpoolSeeds)
      (rewardIndex : ℕ) (newRewardAuthority : Pubkey)
  | setRewardAuthority (whirlpool : WhirlpoolSeeds) (rewardIndex : ℕ)
      (newRewardAuthority : Pubkey)
  | initializeReward (args : InitializeRewardArgs)
  | initializeRewardV2 (args : InitializeRewardArgs)
  | setRewardEmissions (whirlpool : WhirlpoolSeeds) (rewardIndex emissionsPerSecondX64
      rewardVaultAmount : ℕ) (unixTimestamp : ℤ)
  | openInstruction (whirlpool : WhirlpoolSeeds)
      (instruction : { instruction : Instruction // instruction.isOpen })
  | twoHopSwap (whirlpoolOne whirlpoolTwo : WhirlpoolSeeds) (wallet : Wallet)
      (accounts : TwoHopOwnerAccounts) (args : TwoHopSwapArgs)
  | collectProtocolFeesV2 (config : Pubkey) (whirlpool : WhirlpoolSeeds)
      (mintFees : Pubkey → Option TransferFee)
  | setRewardEmissionsV2 (whirlpool : WhirlpoolSeeds) (rewardIndex emissionsPerSecondX64
      rewardVaultAmount : ℕ) (unixTimestamp : ℤ)
  | openInstructionV2 (whirlpool : WhirlpoolSeeds) (mintFees : Pubkey → Option TransferFee)
      (instruction : { instruction : InstructionV2 // instruction.isOpen })
  | twoHopSwapV2 (whirlpoolOne whirlpoolTwo : WhirlpoolSeeds)
      (mintFees : Pubkey → Option TransferFee) (wallet : Wallet)
      (tokenOwnerAccountInput tokenOwnerAccountOutput : Pubkey) (args : TwoHopSwapArgs)

/-- A call with the keys that signed it. -/
structure Transaction where
  signers : List Pubkey
  call : Call

/-- The key of an authority is among the signers. -/
def signedBy (signers : List Pubkey) (authority : Pubkey) : Result Unit :=
  if authority ∈ signers then .ok () else .error .account

/-- An account constraint. -/
def constraint (met : Bool) : Result Unit := if met then .ok () else .error .account

namespace ConfiguredPool

/-- Execute the first version of an instruction on a pool account. -/
def execute (m : Machine) (configured : ConfiguredPool) (instruction : Instruction) :
    Result ConfiguredPool :=
  constraint (configured.vaultPrograms.accepts instruction) >>= fun _ =>
  configured.pool.execute m instruction >>= fun outcome =>
  .ok { configured with pool := outcome.1 }

/-- Execute the second version of an instruction on a pool account. -/
def executeV2 (m : Machine) (lib : TokenLibrary) (mintFees : Pubkey → Option TransferFee)
    (configured : ConfiguredPool) (instruction : InstructionV2) : Result ConfiguredPool :=
  configured.pool.executeV2 m lib (mintFees configured.pool.whirlpool.tokenMintA)
    (mintFees configured.pool.whirlpool.tokenMintB) instruction >>= fun pool =>
  .ok { configured with pool := pool }

/-- Set up a reward and create its vault. -/
def initializeReward (m : Machine) (args : InitializeRewardArgs) (configured : ConfiguredPool) :
    Result ConfiguredPool :=
  configured.execute m (.initializeReward args.rewardIndex args.rewardMint.key args.rewardVault)
    >>= fun updated =>
  .ok { updated with
    vaultPrograms := updated.vaultPrograms.setReward args.rewardIndex args.rewardMint.owner }

/-- Hand a reward of a pool over. -/
def updateRewardAuthority (rewardIndex : ℕ) (newRewardAuthority : Pubkey)
    (configured : ConfiguredPool) : Result ConfiguredPool :=
  configured.pool.whirlpool.updateRewardAuthority rewardIndex newRewardAuthority
    >>= fun whirlpool => .ok { configured with pool := { configured.pool with whirlpool } }

end ConfiguredPool

namespace Deployment

/-- No accounts at all. -/
def empty : Deployment where
  configs := fun _ => none
  feeTiers := fun _ => none
  configExtensions := fun _ => none
  tokenBadges := fun _ => none
  whirlpools := fun _ => none

def setConfig (deployment : Deployment) (address : Pubkey) (config : ConfigAccount) : Deployment :=
  { deployment with configs := Function.update deployment.configs address (some config) }

def setFeeTier (deployment : Deployment) (address : FeeTierSeeds) (feeTier : FeeTier) :
    Deployment :=
  { deployment with feeTiers := Function.update deployment.feeTiers address (some feeTier) }

def setConfigExtension (deployment : Deployment) (address : Pubkey)
    (extension : WhirlpoolsConfigExtension) : Deployment :=
  { deployment with
    configExtensions := Function.update deployment.configExtensions address (some extension) }

/-- Open a badge account, or close it. -/
def setTokenBadge (deployment : Deployment) (address : TokenBadgeSeeds)
    (tokenBadge : Option TokenBadge) : Deployment :=
  { deployment with tokenBadges := Function.update deployment.tokenBadges address tokenBadge }

def setWhirlpool (deployment : Deployment) (address : WhirlpoolSeeds) (pool : ConfiguredPool) :
    Deployment :=
  { deployment with whirlpools := Function.update deployment.whirlpools address (some pool) }

def initializeConfig (deployment : Deployment) (signers : List Pubkey) (address feeAuthority
    collectProtocolFeesAuthority rewardEmissionsSuperAuthority : Pubkey)
    (defaultProtocolFeeRate : ℕ) : Result Deployment :=
  constraint (deployment.configs address).isNone >>= fun _ =>
  -- The address of a config is not derived, so its key signs for the new account.
  signedBy signers address >>= fun _ =>
  ConfigAccount.initializeConfig feeAuthority collectProtocolFeesAuthority
    rewardEmissionsSuperAuthority defaultProtocolFeeRate >>= fun config =>
  .ok (deployment.setConfig address config)

/-- Update a configuration with the signature of one of its authorities. -/
def updateConfig (deployment : Deployment) (signers : List Pubkey) (address : Pubkey)
    (authority : ConfigAccount → Pubkey) (update : ConfigAccount → Result ConfigAccount) :
    Result Deployment :=
  okOr (deployment.configs address) .account >>= fun config =>
  signedBy signers (authority config) >>= fun _ =>
  update config >>= fun updated => .ok (deployment.setConfig address updated)

def setFeeAuthority (deployment : Deployment) (signers : List Pubkey)
    (address newFeeAuthority : Pubkey) : Result Deployment :=
  deployment.updateConfig signers address (fun config => config.feeAuthority)
    fun config => .ok (config.updateFeeAuthority newFeeAuthority)

def setCollectProtocolFeesAuthority (deployment : Deployment) (signers : List Pubkey)
    (address newCollectProtocolFeesAuthority : Pubkey) : Result Deployment :=
  deployment.updateConfig signers address (fun config => config.collectProtocolFeesAuthority)
    fun config => .ok (config.updateCollectProtocolFeesAuthority newCollectProtocolFeesAuthority)

def setRewardEmissionsSuperAuthority (deployment : Deployment) (signers : List Pubkey)
    (address newRewardEmissionsSuperAuthority : Pubkey) : Result Deployment :=
  deployment.updateConfig signers address (fun config => config.rewardEmissionsSuperAuthority)
    fun config => .ok (config.updateRewardEmissionsSuperAuthority newRewardEmissionsSuperAuthority)

def setDefaultProtocolFeeRate (deployment : Deployment) (signers : List Pubkey) (address : Pubkey)
    (defaultProtocolFeeRate : ℕ) : Result Deployment :=
  deployment.updateConfig signers address (fun config => config.feeAuthority)
    fun config => config.updateDefaultProtocolFeeRate defaultProtocolFeeRate

def initializeFeeTier (deployment : Deployment) (signers : List Pubkey) (address : Pubkey)
    (tickSpacing defaultFeeRate : ℕ) : Result Deployment :=
  okOr (deployment.configs address) .account >>= fun config =>
  constraint (deployment.feeTiers ⟨address, tickSpacing⟩).isNone >>= fun _ =>
  signedBy signers config.feeAuthority >>= fun _ =>
  FeeTier.initializeFeeTier address tickSpacing defaultFeeRate >>= fun feeTier =>
  .ok (deployment.setFeeTier ⟨address, tickSpacing⟩ feeTier)

def setDefaultFeeRate (deployment : Deployment) (signers : List Pubkey) (address : Pubkey)
    (feeTierAddress : FeeTierSeeds) (defaultFeeRate : ℕ) : Result Deployment :=
  okOr (deployment.configs address) .account >>= fun config =>
  okOr (deployment.feeTiers feeTierAddress) .account >>= fun feeTier =>
  constraint (feeTier.whirlpoolsConfig = address) >>= fun _ =>
  signedBy signers config.feeAuthority >>= fun _ =>
  feeTier.updateDefaultFeeRate defaultFeeRate >>= fun updated =>
  .ok (deployment.setFeeTier feeTierAddress updated)

def initializeConfigExtension (deployment : Deployment) (signers : List Pubkey)
    (address : Pubkey) : Result Deployment :=
  okOr (deployment.configs address) .account >>= fun config =>
  constraint (deployment.configExtensions address).isNone >>= fun _ =>
  signedBy signers config.feeAuthority >>= fun _ =>
  .ok (deployment.setConfigExtension address
    (.initializeConfigExtension address config.feeAuthority))

/-- The extension of a configuration, with the signature of one of its authorities. -/
def extensionSigned (deployment : Deployment) (signers : List Pubkey)
    (address extensionAddress : Pubkey) (authority : WhirlpoolsConfigExtension → Pubkey) :
    Result WhirlpoolsConfigExtension :=
  okOr (deployment.configs address) .account >>= fun _ =>
  okOr (deployment.configExtensions extensionAddress) .account >>= fun extension =>
  constraint (extension.whirlpoolsConfig = address) >>= fun _ =>
  signedBy signers (authority extension) >>= fun _ => .ok extension

def setConfigExtensionAuthority (deployment : Deployment) (signers : List Pubkey)
    (address extensionAddress newConfigExtensionAuthority : Pubkey) : Result Deployment :=
  deployment.extensionSigned signers address extensionAddress
    (fun extension => extension.configExtensionAuthority) >>= fun extension =>
  .ok (deployment.setConfigExtension extensionAddress
    (extension.updateConfigExtensionAuthority newConfigExtensionAuthority))

def setTokenBadgeAuthority (deployment : Deployment) (signers : List Pubkey)
    (address extensionAddress newTokenBadgeAuthority : Pubkey) : Result Deployment :=
  deployment.extensionSigned signers address extensionAddress
    (fun extension => extension.configExtensionAuthority) >>= fun extension =>
  .ok (deployment.setConfigExtension extensionAddress
    (extension.updateTokenBadgeAuthority newTokenBadgeAuthority))

def initializeTokenBadge (deployment : Deployment) (signers : List Pubkey)
    (address extensionAddress tokenMint : Pubkey) : Result Deployment :=
  deployment.extensionSigned signers address extensionAddress
    (fun extension => extension.tokenBadgeAuthority) >>= fun _ =>
  constraint (deployment.tokenBadges ⟨address, tokenMint⟩).isNone >>= fun _ =>
  .ok (deployment.setTokenBadge ⟨address, tokenMint⟩ (some ⟨address, tokenMint⟩))

def deleteTokenBadge (deployment : Deployment) (signers : List Pubkey)
    (address extensionAddress tokenMint : Pubkey) : Result Deployment :=
  deployment.extensionSigned signers address extensionAddress
    (fun extension => extension.tokenBadgeAuthority) >>= fun _ =>
  okOr (deployment.tokenBadges ⟨address, tokenMint⟩) .account >>= fun tokenBadge =>
  constraint (tokenBadge.whirlpoolsConfig = address) >>= fun _ =>
  .ok (deployment.setTokenBadge ⟨address, tokenMint⟩ none)

/-- Create the pool; both versions of the instruction end so. -/
def createPool (deployment : Deployment) (args : InitializePoolArgs) : Result Deployment :=
  okOr (deployment.configs args.whirlpoolsConfig) .account >>= fun config =>
  constraint (deployment.whirlpools args.seeds).isNone >>= fun _ =>
  okOr (deployment.feeTiers args.feeTier) .account >>= fun feeTier =>
  constraint (feeTier.whirlpoolsConfig = args.whirlpoolsConfig) >>= fun _ =>
  constraint (feeTier.tickSpacing = args.tickSpacing) >>= fun _ =>
  Pool.create config.toWhirlpoolsConfig args.tickSpacing feeTier.defaultFeeRate
    args.initialSqrtPrice args.tokenMintA.key args.tokenVaultA args.tokenMintB.key
    args.tokenVaultB >>= fun pool =>
  .ok (deployment.setWhirlpool args.seeds ⟨args.whirlpoolsConfig, args.vaultPrograms, pool⟩)

/-- The first version takes mints of the older token program only. -/
def initializePool (deployment : Deployment) (args : InitializePoolArgs) : Result Deployment :=
  constraint (args.tokenMintA.owner = .token && args.tokenMintB.owner = .token) >>= fun _ =>
  deployment.createPool args

/-- Whether a mint is supported by a configuration. -/
def supports (deployment : Deployment) (whirlpoolsConfig : Pubkey) (tokenMint : TokenMint) : Bool :=
  isSupportedTokenMint tokenMint (isTokenBadgeInitialized whirlpoolsConfig tokenMint.key
    (deployment.tokenBadges ⟨whirlpoolsConfig, tokenMint.key⟩))

def initializePoolV2 (deployment : Deployment) (args : InitializePoolArgs) :
    Except Refusal Deployment :=
  if !deployment.supports args.whirlpoolsConfig args.tokenMintA then .error .unsupportedTokenMint
  else if !deployment.supports args.whirlpoolsConfig args.tokenMintB then
    .error .unsupportedTokenMint
  else (deployment.createPool args).mapError .failed

/-- Update a pool with the signature of an authority of the configuration it names. -/
def underConfig (deployment : Deployment) (signers : List Pubkey) (address : Pubkey)
    (whirlpool : WhirlpoolSeeds) (authority : ConfigAccount → Pubkey)
    (update : ConfiguredPool → Result ConfiguredPool) : Result Deployment :=
  okOr (deployment.configs address) .account >>= fun config =>
  okOr (deployment.whirlpools whirlpool) .account >>= fun configured =>
  constraint (configured.whirlpoolsConfig = address) >>= fun _ =>
  signedBy signers (authority config) >>= fun _ =>
  update configured >>= fun updated => .ok (deployment.setWhirlpool whirlpool updated)

def setFeeRate (m : Machine) (deployment : Deployment) (signers : List Pubkey) (address : Pubkey)
    (whirlpool : WhirlpoolSeeds) (feeRate : ℕ) : Result Deployment :=
  deployment.underConfig signers address whirlpool (fun config => config.feeAuthority)
    fun configured => configured.execute m (.setFeeRate feeRate)

def setProtocolFeeRate (m : Machine) (deployment : Deployment) (signers : List Pubkey)
    (address : Pubkey) (whirlpool : WhirlpoolSeeds) (protocolFeeRate : ℕ) : Result Deployment :=
  deployment.underConfig signers address whirlpool (fun config => config.feeAuthority)
    fun configured => configured.execute m (.setProtocolFeeRate protocolFeeRate)

def collectProtocolFees (m : Machine) (deployment : Deployment) (signers : List Pubkey)
    (address : Pubkey) (whirlpool : WhirlpoolSeeds) : Result Deployment :=
  deployment.underConfig signers address whirlpool
    (fun config => config.collectProtocolFeesAuthority)
    fun configured => configured.execute m .collectProtocolFees

def setRewardAuthorityBySuperAuthority (deployment : Deployment) (signers : List Pubkey)
    (address : Pubkey) (whirlpool : WhirlpoolSeeds) (rewardIndex : ℕ)
    (newRewardAuthority : Pubkey) : Result Deployment :=
  deployment.underConfig signers address whirlpool
    (fun config => config.rewardEmissionsSuperAuthority)
    (ConfiguredPool.updateRewardAuthority rewardIndex newRewardAuthority)

/-- Update a pool with the signature of the authority of one of its rewards. -/
def underReward (deployment : Deployment) (signers : List Pubkey) (whirlpool : WhirlpoolSeeds)
    (rewardIndex : ℕ) (update : ConfiguredPool → Result ConfiguredPool) : Result Deployment :=
  okOr (deployment.whirlpools whirlpool) .account >>= fun configured =>
  if inside : rewardIndex < numRewards then
    signedBy signers (configured.pool.whirlpool.rewardInfos ⟨rewardIndex, inside⟩).authority
      >>= fun _ =>
    update configured >>= fun updated => .ok (deployment.setWhirlpool whirlpool updated)
  else .error .panic

def setRewardAuthority (deployment : Deployment) (signers : List Pubkey)
    (whirlpool : WhirlpoolSeeds) (rewardIndex : ℕ) (newRewardAuthority : Pubkey) :
    Result Deployment :=
  deployment.underReward signers whirlpool rewardIndex
    (ConfiguredPool.updateRewardAuthority rewardIndex newRewardAuthority)

/-- Set up the reward; both versions of the instruction end so. -/
def createReward (m : Machine) (deployment : Deployment) (signers : List Pubkey)
    (args : InitializeRewardArgs) : Result Deployment :=
  deployment.underReward signers args.whirlpool args.rewardIndex
    (ConfiguredPool.initializeReward m args)

/-- The first version takes a mint of the older token program only. -/
def initializeReward (m : Machine) (deployment : Deployment) (signers : List Pubkey)
    (args : InitializeRewardArgs) : Result Deployment :=
  constraint (args.rewardMint.owner = .token) >>= fun _ => deployment.createReward m signers args

def initializeRewardV2 (m : Machine) (deployment : Deployment) (signers : List Pubkey)
    (args : InitializeRewardArgs) : Except Refusal Deployment :=
  (okOr (deployment.whirlpools args.whirlpool) .account).mapError .failed >>= fun configured =>
  if !deployment.supports configured.whirlpoolsConfig args.rewardMint then
    .error .unsupportedTokenMint
  else (deployment.createReward m signers args).mapError .failed

def setRewardEmissions (m : Machine) (deployment : Deployment) (signers : List Pubkey)
    (whirlpool : WhirlpoolSeeds) (rewardIndex emissionsPerSecondX64 rewardVaultAmount : ℕ)
    (unixTimestamp : ℤ) : Result Deployment :=
  deployment.underReward signers whirlpool rewardIndex fun configured =>
    configured.execute m
      (.setRewardEmissions rewardIndex emissionsPerSecondX64 rewardVaultAmount unixTimestamp)

def openInstruction (m : Machine) (deployment : Deployment) (whirlpool : WhirlpoolSeeds)
    (instruction : Instruction) : Result Deployment :=
  okOr (deployment.whirlpools whirlpool) .account >>= fun configured =>
  configured.execute m instruction >>= fun updated =>
  .ok (deployment.setWhirlpool whirlpool updated)

def collectProtocolFeesV2 (m : Machine) (lib : TokenLibrary) (deployment : Deployment)
    (signers : List Pubkey) (address : Pubkey) (whirlpool : WhirlpoolSeeds)
    (mintFees : Pubkey → Option TransferFee) : Result Deployment :=
  deployment.underConfig signers address whirlpool
    (fun config => config.collectProtocolFeesAuthority)
    fun configured => configured.executeV2 m lib mintFees .collectProtocolFees

/-- It reads no mint. -/
def setRewardEmissionsV2 (m : Machine) (lib : TokenLibrary) (deployment : Deployment)
    (signers : List Pubkey) (whirlpool : WhirlpoolSeeds)
    (rewardIndex emissionsPerSecondX64 rewardVaultAmount : ℕ) (unixTimestamp : ℤ) :
    Result Deployment :=
  deployment.underReward signers whirlpool rewardIndex fun configured =>
    configured.executeV2 m lib (fun _ => none)
      (.setRewardEmissions rewardIndex emissionsPerSecondX64 rewardVaultAmount unixTimestamp)

def openInstructionV2 (m : Machine) (lib : TokenLibrary) (deployment : Deployment)
    (whirlpool : WhirlpoolSeeds) (mintFees : Pubkey → Option TransferFee)
    (instruction : InstructionV2) : Result Deployment :=
  okOr (deployment.whirlpools whirlpool) .account >>= fun configured =>
  configured.executeV2 m lib mintFees instruction >>= fun updated =>
  .ok (deployment.setWhirlpool whirlpool updated)

/-- Write two pools back. -/
def setTwoWhirlpools (deployment : Deployment) (whirlpoolOne whirlpoolTwo : WhirlpoolSeeds)
    (one two : ConfiguredPool) (pools : TwoHopPools) : Deployment :=
  (deployment.setWhirlpool whirlpoolOne { one with pool := pools.one }).setWhirlpool whirlpoolTwo
    { two with pool := pools.two }

/-- Swap through two pools of the deployment; `whirlpoolAddress` derives the addresses of pools. -/
def twoHopSwap (m : Machine) (whirlpoolAddress : WhirlpoolSeeds → Pubkey) (deployment : Deployment)
    (whirlpoolOne whirlpoolTwo : WhirlpoolSeeds) (wallet : Wallet) (accounts : TwoHopOwnerAccounts)
    (args : TwoHopSwapArgs) : Result Deployment :=
  okOr (deployment.whirlpools whirlpoolOne) .account >>= fun one =>
  okOr (deployment.whirlpools whirlpoolTwo) .account >>= fun two =>
  constraint (one.vaultPrograms.areToken && two.vaultPrograms.areToken) >>= fun _ =>
  Whirlpools.twoHopSwap m
    ⟨whirlpoolAddress whirlpoolOne, one.pool, whirlpoolAddress whirlpoolTwo, two.pool⟩ wallet
    accounts args >>= fun outcome =>
  .ok (deployment.setTwoWhirlpools whirlpoolOne whirlpoolTwo one two outcome.pools)

def twoHopSwapV2 (m : Machine) (lib : TokenLibrary) (whirlpoolAddress : WhirlpoolSeeds → Pubkey)
    (deployment : Deployment) (whirlpoolOne whirlpoolTwo : WhirlpoolSeeds)
    (mintFees : Pubkey → Option TransferFee) (wallet : Wallet)
    (tokenOwnerAccountInput tokenOwnerAccountOutput : Pubkey) (args : TwoHopSwapArgs) :
    Result Deployment :=
  okOr (deployment.whirlpools whirlpoolOne) .account >>= fun one =>
  okOr (deployment.whirlpools whirlpoolTwo) .account >>= fun two =>
  Whirlpools.twoHopSwapV2 m lib mintFees
    ⟨whirlpoolAddress whirlpoolOne, one.pool, whirlpoolAddress whirlpoolTwo, two.pool⟩ wallet
    tokenOwnerAccountInput tokenOwnerAccountOutput args >>= fun outcome =>
  .ok (deployment.setTwoWhirlpools whirlpoolOne whirlpoolTwo one two outcome.pools)

/-- Execute a transaction. -/
def execute (m : Machine) (lib : TokenLibrary) (whirlpoolAddress : WhirlpoolSeeds → Pubkey)
    (deployment : Deployment) (transaction : Transaction) : Except Refusal Deployment :=
  let signers := transaction.signers
  match transaction.call with
  | .initializeConfig config feeAuthority collectProtocolFeesAuthority
      rewardEmissionsSuperAuthority defaultProtocolFeeRate =>
      (deployment.initializeConfig signers config feeAuthority collectProtocolFeesAuthority
        rewardEmissionsSuperAuthority defaultProtocolFeeRate).mapError .failed
  | .setFeeAuthority config newFeeAuthority =>
      (deployment.setFeeAuthority signers config newFeeAuthority).mapError .failed
  | .setCollectProtocolFeesAuthority config newCollectProtocolFeesAuthority =>
      (deployment.setCollectProtocolFeesAuthority signers config
        newCollectProtocolFeesAuthority).mapError .failed
  | .setRewardEmissionsSuperAuthority config newRewardEmissionsSuperAuthority =>
      (deployment.setRewardEmissionsSuperAuthority signers config
        newRewardEmissionsSuperAuthority).mapError .failed
  | .setDefaultProtocolFeeRate config defaultProtocolFeeRate =>
      (deployment.setDefaultProtocolFeeRate signers config defaultProtocolFeeRate).mapError .failed
  | .initializeFeeTier config tickSpacing defaultFeeRate =>
      (deployment.initializeFeeTier signers config tickSpacing defaultFeeRate).mapError .failed
  | .setDefaultFeeRate config feeTier defaultFeeRate =>
      (deployment.setDefaultFeeRate signers config feeTier defaultFeeRate).mapError .failed
  | .initializeConfigExtension config =>
      (deployment.initializeConfigExtension signers config).mapError .failed
  | .setConfigExtensionAuthority config extension newConfigExtensionAuthority =>
      (deployment.setConfigExtensionAuthority signers config extension
        newConfigExtensionAuthority).mapError .failed
  | .setTokenBadgeAuthority config extension newTokenBadgeAuthority =>
      (deployment.setTokenBadgeAuthority signers config extension
        newTokenBadgeAuthority).mapError .failed
  | .initializeTokenBadge config extension tokenMint =>
      (deployment.initializeTokenBadge signers config extension tokenMint).mapError .failed
  | .deleteTokenBadge config extension tokenMint =>
      (deployment.deleteTokenBadge signers config extension tokenMint).mapError .failed
  | .initializePool args => (deployment.initializePool args).mapError .failed
  | .initializePoolV2 args => deployment.initializePoolV2 args
  | .setFeeRate config whirlpool feeRate =>
      (deployment.setFeeRate m signers config whirlpool feeRate).mapError .failed
  | .setProtocolFeeRate config whirlpool protocolFeeRate =>
      (deployment.setProtocolFeeRate m signers config whirlpool protocolFeeRate).mapError .failed
  | .collectProtocolFees config whirlpool =>
      (deployment.collectProtocolFees m signers config whirlpool).mapError .failed
  | .setRewardAuthorityBySuperAuthority config whirlpool rewardIndex newRewardAuthority =>
      (deployment.setRewardAuthorityBySuperAuthority signers config whirlpool rewardIndex
        newRewardAuthority).mapError .failed
  | .setRewardAuthority whirlpool rewardIndex newRewardAuthority =>
      (deployment.setRewardAuthority signers whirlpool rewardIndex
        newRewardAuthority).mapError .failed
  | .initializeReward args => (deployment.initializeReward m signers args).mapError .failed
  | .initializeRewardV2 args => deployment.initializeRewardV2 m signers args
  | .setRewardEmissions whirlpool rewardIndex emissionsPerSecondX64 rewardVaultAmount
      unixTimestamp =>
      (deployment.setRewardEmissions m signers whirlpool rewardIndex emissionsPerSecondX64
        rewardVaultAmount unixTimestamp).mapError .failed
  | .openInstruction whirlpool instruction =>
      (deployment.openInstruction m whirlpool instruction.val).mapError .failed
  | .twoHopSwap whirlpoolOne whirlpoolTwo wallet accounts args =>
      (deployment.twoHopSwap m whirlpoolAddress whirlpoolOne whirlpoolTwo wallet accounts
        args).mapError .failed
  | .collectProtocolFeesV2 config whirlpool mintFees =>
      (deployment.collectProtocolFeesV2 m lib signers config whirlpool mintFees).mapError .failed
  | .setRewardEmissionsV2 whirlpool rewardIndex emissionsPerSecondX64 rewardVaultAmount
      unixTimestamp =>
      (deployment.setRewardEmissionsV2 m lib signers whirlpool rewardIndex emissionsPerSecondX64
        rewardVaultAmount unixTimestamp).mapError .failed
  | .openInstructionV2 whirlpool mintFees instruction =>
      (deployment.openInstructionV2 m lib whirlpool mintFees instruction.val).mapError .failed
  | .twoHopSwapV2 whirlpoolOne whirlpoolTwo mintFees wallet tokenOwnerAccountInput
      tokenOwnerAccountOutput args =>
      (deployment.twoHopSwapV2 m lib whirlpoolAddress whirlpoolOne whirlpoolTwo mintFees wallet
        tokenOwnerAccountInput tokenOwnerAccountOutput args).mapError .failed

/-- The deployment after a call that may fail. -/
def settle {ε : Type} (deployment : Deployment) (called : Except ε Deployment) : Deployment :=
  match called with
  | .ok next => next
  | .error _ => deployment

/-- The deployment after a transaction; one that fails changes nothing. -/
def next (m : Machine) (lib : TokenLibrary) (whirlpoolAddress : WhirlpoolSeeds → Pubkey)
    (deployment : Deployment) (transaction : Transaction) : Deployment :=
  deployment.settle (deployment.execute m lib whirlpoolAddress transaction)

end Deployment

/-- The deployments some run of transactions leads to. -/
def ReachableDeployment (m : Machine) (lib : TokenLibrary)
    (whirlpoolAddress : WhirlpoolSeeds → Pubkey) (deployment : Deployment) : Prop :=
  ∃ transactions,
    History.after (Deployment.next m lib whirlpoolAddress) .empty transactions = deployment

end Whirlpools
