import Whirlpools.Instructions.V2.SwapV2

/-! # The second versions of the instructions on one pool

They take mints of both token programs. What the owner sends has its transfer fee withheld before
it reaches a vault, and what a vault sends, on its way to the owner: the bounds of the caller are
those of the owner. Transfer hooks and memos belong to the environment, as the owner's accounts do.
-/

namespace Whirlpools

open Outcome

/-- The second versions of the instructions that move or read the tokens of a pool. -/
inductive InstructionV2 where
  | increaseLiquidity (args : ModifyLiquidityArgs) (tokenMaxA tokenMaxB : ℕ)
  | decreaseLiquidity (args : ModifyLiquidityArgs) (tokenMinA tokenMinB : ℕ)
  | swap (args : SwapArgs)
  | collectFees (positionMint : Pubkey)
  | collectProtocolFees
  | setRewardEmissions (rewardIndex emissionsPerSecondX64 rewardVaultAmount : ℕ)
      (unixTimestamp : ℤ)
  | collectReward (positionMint : Pubkey) (rewardIndex rewardVaultAmount : ℕ)

namespace Pool

/-- Move both amounts into the vaults, less their transfer fees. -/
def depositV2 (lib : TokenLibrary) (pool : Pool) (tokenMintA tokenMintB : Option TransferFee)
    (amountA amountB : ℕ) : Result Pool :=
  transferDelivers lib tokenMintA amountA >>= fun deliveredA =>
  transferFromOwnerToVault pool.vaultA deliveredA >>= fun vaultA =>
  transferDelivers lib tokenMintB amountB >>= fun deliveredB =>
  transferFromOwnerToVault pool.vaultB deliveredB >>= fun vaultB =>
  .ok { pool with vaultA := vaultA, vaultB := vaultB }

/-- The maxima apply to what the owner sends, transfer fees included. -/
def increaseLiquidityV2 (m : Machine) (lib : TokenLibrary) (pool : Pool)
    (tokenMintA tokenMintB : Option TransferFee) (args : ModifyLiquidityArgs)
    (tokenMaxA tokenMaxB : ℕ) : Result Pool :=
  pool.modifyLiquidity m args true >>= fun (synced, deltaA, deltaB, _) =>
  calculateTransferFeeIncludedAmount lib tokenMintA deltaA >>= fun transferFeeIncludedDeltaA =>
  calculateTransferFeeIncludedAmount lib tokenMintB deltaB >>= fun transferFeeIncludedDeltaB =>
  if transferFeeIncludedDeltaA.amount > tokenMaxA then err .tokenMaxExceeded
  else if transferFeeIncludedDeltaB.amount > tokenMaxB then err .tokenMaxExceeded
  else
    synced.depositV2 lib tokenMintA tokenMintB transferFeeIncludedDeltaA.amount
      transferFeeIncludedDeltaB.amount

/-- The minima apply to what the owner receives, transfer fees excluded. -/
def decreaseLiquidityV2 (m : Machine) (lib : TokenLibrary) (pool : Pool)
    (tokenMintA tokenMintB : Option TransferFee) (args : ModifyLiquidityArgs)
    (tokenMinA tokenMinB : ℕ) : Result Pool :=
  pool.modifyLiquidity m args false >>= fun (synced, deltaA, deltaB, _) =>
  calculateTransferFeeExcludedAmount lib tokenMintA deltaA >>= fun transferFeeExcludedDeltaA =>
  calculateTransferFeeExcludedAmount lib tokenMintB deltaB >>= fun transferFeeExcludedDeltaB =>
  if transferFeeExcludedDeltaA.amount < tokenMinA then err .tokenMinSubceeded
  else if transferFeeExcludedDeltaB.amount < tokenMinB then err .tokenMinSubceeded
  else synced.withdraw deltaA deltaB

/-- Execute the second version of an instruction, given the transfer fees of the pool's mints. -/
def executeV2 (m : Machine) (lib : TokenLibrary) (pool : Pool)
    (tokenMintA tokenMintB : Option TransferFee) : InstructionV2 → Result Pool
  | .increaseLiquidity args tokenMaxA tokenMaxB =>
      pool.increaseLiquidityV2 m lib tokenMintA tokenMintB args tokenMaxA tokenMaxB
  | .decreaseLiquidity args tokenMinA tokenMinB =>
      pool.decreaseLiquidityV2 m lib tokenMintA tokenMintB args tokenMinA tokenMinB
  | .swap args => pool.swapV2 m lib tokenMintA tokenMintB args >>= fun traded => .ok traded.1
  -- What the vaults pay is what they pay in the first versions.
  | .collectFees positionMint =>
      pool.collectFees positionMint >>= fun collected => .ok collected.1
  | .collectProtocolFees => pool.collectProtocolFees >>= fun collected => .ok collected.1
  | .setRewardEmissions rewardIndex emissionsPerSecondX64 rewardVaultAmount unixTimestamp =>
      pool.setRewardEmissions rewardIndex emissionsPerSecondX64 rewardVaultAmount unixTimestamp
        >>= fun updated => .ok updated.1
  | .collectReward positionMint rewardIndex rewardVaultAmount =>
      pool.collectReward positionMint rewardIndex rewardVaultAmount
        >>= fun collected => .ok collected.1

end Pool
end Whirlpools
