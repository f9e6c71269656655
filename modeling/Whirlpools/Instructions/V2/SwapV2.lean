import Whirlpools.Instructions.V2.TwoHopSwap

/-! # The swap instruction with transfer fees

The trader pays and receives transfers of token-extension mints. The accounts of the trader, the
transfer hooks and the memo belong to the environment; what the trader pays and receives is
returned.
-/

namespace Whirlpools

open Outcome

namespace Pool

/-- Whether the other amount of a swap, as far as it arrives, misses the trader's threshold. -/
def checkThresholdV2 (lib : TokenLibrary) (tokenMintA tokenMintB : Option TransferFee)
    (update : PostSwapUpdate) (args : SwapArgs) : Result Unit :=
  if args.amountSpecifiedIsInput then
    (if args.aToB then calculateTransferFeeExcludedAmount lib tokenMintB update.amountB
      else calculateTransferFeeExcludedAmount lib tokenMintA update.amountA)
      >>= fun transferFeeExcludedOutput =>
    if transferFeeExcludedOutput.amount < args.otherAmountThreshold then err .amountOutBelowMinimum
    else .ok ()
  else
    let transferFeeIncludedInputAmount := if args.aToB then update.amountA else update.amountB
    if transferFeeIncludedInputAmount > args.otherAmountThreshold then err .amountInAboveMaximum
    else .ok ()

/-- The computation of a swap with transfer fees on the pool's account and tick arrays, with the
check of the threshold. -/
def computeSwapV2 (m : Machine) (lib : TokenLibrary) (pool : Pool)
    (tokenMintA tokenMintB : Option TransferFee) (args : SwapArgs) : Result (ℕ × SwapOutcome) :=
  toTimestampU64 args.unixTimestamp >>= fun timestamp =>
  pool.swapTickSequence args.tickArray0 args.tickArray1 args.tickArray2 >>= fun sequence =>
  swapWithTransferFeeExtension m lib pool.whirlpool tokenMintA tokenMintB sequence
    args.amount.toNat args.sqrtPriceLimit args.amountSpecifiedIsInput args.aToB timestamp
    >>= fun outcome =>
  checkThresholdV2 lib tokenMintA tokenMintB outcome.update args >>= fun _ =>
  .ok (timestamp, outcome)

/-- Move the tokens of a swap with transfer fees: the input first, then the output. -/
def performSwapV2 (lib : TokenLibrary) (pool : Pool) (tokenMintA tokenMintB : Option TransferFee)
    (amountA amountB : ℕ) (aToB : Bool) : Result (Pool × ℕ × ℕ) :=
  let deposit := if aToB then amountA else amountB
  let withdrawal := if aToB then amountB else amountA
  transferDelivers lib (if aToB then tokenMintA else tokenMintB) deposit >>= fun deposited =>
  transferFromOwnerToVault (pool.inputVault aToB) deposited >>= fun inputVault =>
  transferFromVaultToOwner (pool.outputVault aToB) withdrawal >>= fun outputVault =>
  transferDelivers lib (if aToB then tokenMintB else tokenMintA) withdrawal >>= fun received =>
  .ok (pool.withVaults aToB inputVault outputVault, deposit, received)

/-- A swap with transfer fees, and what the trader pays and receives. -/
def swapV2 (m : Machine) (lib : TokenLibrary) (pool : Pool)
    (tokenMintA tokenMintB : Option TransferFee) (args : SwapArgs) : Result (Pool × ℕ × ℕ) :=
  pool.computeSwapV2 m lib tokenMintA tokenMintB args >>= fun (timestamp, outcome) =>
  pool.updateAfterSwap m outcome args.aToB timestamp >>= fun updated =>
  updated.performSwapV2 lib tokenMintA tokenMintB outcome.update.amountA outcome.update.amountB
    args.aToB

end Pool
end Whirlpools
