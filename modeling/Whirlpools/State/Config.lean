import Whirlpools.State.Whirlpool

/-! # The accounts that configure pools

A configuration names the authorities over its pools and their rates. A fee tier offers a tick
spacing with a fee rate, a config extension names the authorities over token badges, and a token
badge admits a mint.
-/

namespace Whirlpools

open Outcome

/-- The configuration account. -/
structure ConfigAccount extends WhirlpoolsConfig where
  feeAuthority : Pubkey
  collectProtocolFeesAuthority : Pubkey

namespace ConfigAccount

def updateFeeAuthority (config : ConfigAccount) (feeAuthority : Pubkey) : ConfigAccount :=
  { config with feeAuthority := feeAuthority }

def updateCollectProtocolFeesAuthority (config : ConfigAccount)
    (collectProtocolFeesAuthority : Pubkey) : ConfigAccount :=
  { config with collectProtocolFeesAuthority := collectProtocolFeesAuthority }

def updateRewardEmissionsSuperAuthority (config : ConfigAccount)
    (rewardEmissionsSuperAuthority : Pubkey) : ConfigAccount :=
  { config with rewardEmissionsSuperAuthority := rewardEmissionsSuperAuthority }

def updateDefaultProtocolFeeRate (config : ConfigAccount) (defaultProtocolFeeRate : ℕ) :
    Result ConfigAccount :=
  if defaultProtocolFeeRate > maxProtocolFeeRate then err .protocolFeeRateMaxExceeded
  else .ok { config with defaultProtocolFeeRate := defaultProtocolFeeRate }

/-- Set up a new configuration. -/
def initializeConfig (feeAuthority collectProtocolFeesAuthority
    rewardEmissionsSuperAuthority : Pubkey) (defaultProtocolFeeRate : ℕ) : Result ConfigAccount :=
  updateDefaultProtocolFeeRate {
    feeAuthority := feeAuthority
    collectProtocolFeesAuthority := collectProtocolFeesAuthority
    rewardEmissionsSuperAuthority := rewardEmissionsSuperAuthority
    defaultProtocolFeeRate := 0 } defaultProtocolFeeRate

end ConfigAccount

/-- A tick spacing offered by a configuration, with the fee rate of its new pools. -/
structure FeeTier where
  whirlpoolsConfig : Pubkey
  tickSpacing : ℕ
  defaultFeeRate : ℕ

namespace FeeTier

def updateDefaultFeeRate (feeTier : FeeTier) (defaultFeeRate : ℕ) : Result FeeTier :=
  if defaultFeeRate > maxFeeRate then err .feeRateMaxExceeded
  else .ok { feeTier with defaultFeeRate := defaultFeeRate }

/-- Set up a new fee tier. -/
def initializeFeeTier (whirlpoolsConfig : Pubkey) (tickSpacing defaultFeeRate : ℕ) :
    Result FeeTier :=
  updateDefaultFeeRate ⟨whirlpoolsConfig, tickSpacing, 0⟩ defaultFeeRate

end FeeTier

/-- The authorities of a configuration over its token badges. -/
structure WhirlpoolsConfigExtension where
  whirlpoolsConfig : Pubkey
  configExtensionAuthority : Pubkey
  tokenBadgeAuthority : Pubkey

namespace WhirlpoolsConfigExtension

/-- Set up a new extension, with one authority for everything. -/
def initializeConfigExtension (whirlpoolsConfig defaultAuthority : Pubkey) :
    WhirlpoolsConfigExtension :=
  ⟨whirlpoolsConfig, defaultAuthority, defaultAuthority⟩

def updateConfigExtensionAuthority (extension : WhirlpoolsConfigExtension)
    (configExtensionAuthority : Pubkey) : WhirlpoolsConfigExtension :=
  { extension with configExtensionAuthority := configExtensionAuthority }

def updateTokenBadgeAuthority (extension : WhirlpoolsConfigExtension)
    (tokenBadgeAuthority : Pubkey) : WhirlpoolsConfigExtension :=
  { extension with tokenBadgeAuthority := tokenBadgeAuthority }

end WhirlpoolsConfigExtension

/-- The badge of a mint that a configuration admits. -/
structure TokenBadge where
  whirlpoolsConfig : Pubkey
  tokenMint : Pubkey

/-- The handover of a reward. -/
def Whirlpool.updateRewardAuthority (whirlpool : Whirlpool) (index : ℕ) (authority : Pubkey) :
    Result Whirlpool :=
  if index ≥ numRewards then err .invalidRewardIndex
  else .ok { whirlpool with
    rewardInfos := fun position =>
      if position.val = index then { whirlpool.rewardInfos position with authority := authority }
      else whirlpool.rewardInfos position }

end Whirlpools
