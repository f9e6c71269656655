import Whirlpools.State.Config

/-! # The mints a pool may have

Mints of the older token program are admitted. A mint of the newer one is refused for some of its
extensions, and needs a token badge for others.
-/

namespace Whirlpools

/-- The two token programs. -/
inductive TokenProgram where
  | token
  | token2022
  deriving DecidableEq

/-- The state new accounts of a mint start in. -/
inductive AccountState where
  | uninitialized
  | initialized
  | frozen
  deriving DecidableEq

/-- The extensions of a mint that the program tells apart. -/
inductive MintExtension where
  | transferFeeConfig
  | tokenMetadata
  | metadataPointer
  | confidentialTransferMint
  | confidentialTransferFeeConfig
  | permanentDelegate
  | transferHook
  | mintCloseAuthority
  | defaultAccountState (state : AccountState)
  | nonTransferable
  /-- Unknown to the program, or not supported. -/
  | other

/-- What the program reads of a mint. -/
structure TokenMint where
  key : Pubkey
  owner : TokenProgram
  /-- The key is that of the native mint of Token-2022. -/
  isNative2022 : Bool
  freezeAuthority : Option Pubkey
  extensions : List MintExtension

/-- Whether an extension is supported, given whether the mint has a badge. -/
def MintExtension.isSupported (isTokenBadgeInitialized : Bool) : MintExtension → Bool
  | .transferFeeConfig => true
  | .tokenMetadata => true
  | .metadataPointer => true
  | .confidentialTransferMint => true
  | .confidentialTransferFeeConfig => true
  | .permanentDelegate => isTokenBadgeInitialized
  | .transferHook => isTokenBadgeInitialized
  | .mintCloseAuthority => isTokenBadgeInitialized
  -- Accounts that start frozen are refused, also with a badge.
  | .defaultAccountState state => isTokenBadgeInitialized && state = .initialized
  | .nonTransferable => false
  | .other => false

/-- Whether a pool or a reward may have a mint, given whether the mint has a badge. -/
def isSupportedTokenMint (tokenMint : TokenMint) (isTokenBadgeInitialized : Bool) : Bool :=
  if tokenMint.owner = .token then true
  else if tokenMint.isNative2022 then false
  else if tokenMint.freezeAuthority.isSome && !isTokenBadgeInitialized then false
  else tokenMint.extensions.all (MintExtension.isSupported isTokenBadgeInitialized)

/-- Whether a badge account, where there is one, is that of a mint. -/
def isTokenBadgeInitialized (whirlpoolsConfig tokenMint : Pubkey) (tokenBadge : Option TokenBadge) :
    Bool :=
  match tokenBadge with
  | none => false
  | some tokenBadge =>
      tokenBadge.whirlpoolsConfig = whirlpoolsConfig && tokenBadge.tokenMint = tokenMint

end Whirlpools
