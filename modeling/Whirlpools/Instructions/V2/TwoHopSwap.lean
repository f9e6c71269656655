import Whirlpools.Instructions.TwoHopSwap
import Whirlpools.Instructions.V2.Swap

/-! # Two swaps in one instruction, with transfer fees

The intermediate token moves from the vault of the first pool to the vault of the second one, so
that its transfer fee is withheld once. What the first swap sends has to be what the second one
takes. Transfer hooks and memos belong to the environment.
-/

namespace Whirlpools

open Outcome

/-- What a transfer delivers: the token program withholds the fee of the mint. -/
def transferDelivers (lib : TokenLibrary) (tokenMint : Option TransferFee) (amount : ℕ) :
    Result ℕ :=
  calculateTransferFeeExcludedAmount lib tokenMint amount >>= fun delivered => .ok delivered.amount

namespace Pool

def inputVault (pool : Pool) (aToB : Bool) : ℕ := if aToB then pool.vaultA else pool.vaultB

def outputVault (pool : Pool) (aToB : Bool) : ℕ := if aToB then pool.vaultB else pool.vaultA

/-- The pool with other balances of its input and output vaults. -/
def withVaults (pool : Pool) (aToB : Bool) (input output : ℕ) : Pool :=
  { pool with
    vaultA := if aToB then input else output
    vaultB := if aToB then output else input }

end Pool

/-- The transfer fees of the three mints of a trade. -/
structure TwoHopMints where
  input : Option TransferFee
  intermediate : Option TransferFee
  output : Option TransferFee

/-- The mints of a pool are those of its input and its output. -/
def swapOneMints (mints : TwoHopMints) (aToBOne : Bool) : Option TransferFee × Option TransferFee :=
  (if aToBOne then mints.input else mints.intermediate,
    if aToBOne then mints.intermediate else mints.input)

def swapTwoMints (mints : TwoHopMints) (aToBTwo : Bool) : Option TransferFee × Option TransferFee :=
  (if aToBTwo then mints.intermediate else mints.output,
    if aToBTwo then mints.output else mints.intermediate)

/-- All output of the first swap should be consumed by the second one. -/
def checkIntermediateAmount (args : TwoHopSwapArgs) (updates : TwoHopUpdates) : Result Unit :=
  if (updates.one.update.inputAndOutput args.aToBOne).2 ≠
      (updates.two.update.inputAndOutput args.aToBTwo).1 then
    err .intermediateTokenAmountMismatch
  else .ok ()

/-- Whether the other amount of the trade, as far as it arrives, misses the trader's threshold. -/
def checkTwoHopThresholdV2 (lib : TokenLibrary) (tokenMintOutput : Option TransferFee)
    (args : TwoHopSwapArgs) (updates : TwoHopUpdates) : Result Unit :=
  if args.amountSpecifiedIsInput then
    calculateTransferFeeExcludedAmount lib tokenMintOutput
      (updates.two.update.inputAndOutput args.aToBTwo).2 >>= fun output =>
    if output.amount < args.otherAmountThreshold then err .amountOutBelowMinimum else .ok ()
  else if (updates.one.update.inputAndOutput args.aToBOne).1 > args.otherAmountThreshold then
    err .amountInAboveMaximum
  else .ok ()

/-- Write both swaps to their pools, and move the tokens: from the trader to the first pool, from
the first pool to the second one, and from there to the trader. -/
def updateAndTwoHopSwapWhirlpoolV2 (m : Machine) (lib : TokenLibrary) (mints : TwoHopMints)
    (pools : TwoHopPools) (wallet : Wallet)
    (tokenOwnerAccountInput tokenOwnerAccountOutput : Pubkey)
    (updates : TwoHopUpdates) (aToBOne aToBTwo : Bool) (timestamp : ℕ) : Result TwoHopOutcome :=
  pools.one.updateAfterSwap m updates.one aToBOne timestamp >>= fun one =>
  pools.two.updateAfterSwap m updates.two aToBTwo timestamp >>= fun two =>
  let inputAmount := (updates.one.update.inputAndOutput aToBOne).1
  let intermediateAmount := (updates.one.update.inputAndOutput aToBOne).2
  let outputAmount := (updates.two.update.inputAndOutput aToBTwo).2
  wallet.withdraw tokenOwnerAccountInput inputAmount >>= fun wallet =>
  transferDelivers lib mints.input inputAmount >>= fun input =>
  transferFromOwnerToVault (one.inputVault aToBOne) input >>= fun vaultOneInput =>
  transferFromVaultToOwner (one.outputVault aToBOne) intermediateAmount
    >>= fun vaultOneIntermediate =>
  transferDelivers lib mints.intermediate intermediateAmount >>= fun intermediate =>
  transferFromOwnerToVault (two.inputVault aToBTwo) intermediate >>= fun vaultTwoIntermediate =>
  transferFromVaultToOwner (two.outputVault aToBTwo) outputAmount >>= fun vaultTwoOutput =>
  transferDelivers lib mints.output outputAmount >>= fun output =>
  wallet.deposit tokenOwnerAccountOutput output >>= fun wallet =>
  .ok {
    pools := { pools with
      one := one.withVaults aToBOne vaultOneInput vaultOneIntermediate
      two := two.withVaults aToBTwo vaultTwoIntermediate vaultTwoOutput }
    wallet := wallet
    updates := updates }

/-- `mintFees` is the transfer fee of each mint; the accounts of the three mints are those that the
pools name. -/
def twoHopSwapV2 (m : Machine) (lib : TokenLibrary) (mintFees : Pubkey → Option TransferFee)
    (pools : TwoHopPools) (wallet : Wallet)
    (tokenOwnerAccountInput tokenOwnerAccountOutput : Pubkey)
    (args : TwoHopSwapArgs) : Result TwoHopOutcome :=
  let mintInput := pools.one.whirlpool.inputTokenMint args.aToBOne
  let mintOutput := pools.two.whirlpool.outputTokenMint args.aToBTwo
  let mints : TwoHopMints := {
    input := mintFees mintInput
    intermediate := mintFees (pools.one.whirlpool.outputTokenMint args.aToBOne)
    output := mintFees mintOutput }
  if (wallet tokenOwnerAccountInput).mint ≠ mintInput ∨
      (wallet tokenOwnerAccountOutput).mint ≠ mintOutput then .error .account
  else
    toTimestampU64 args.unixTimestamp >>= fun timestamp =>
    checkTwoHopPools pools args.aToBOne args.aToBTwo >>= fun _ =>
    pools.one.swapTickSequence args.tickArrayOne0 args.tickArrayOne1 args.tickArrayOne2
      >>= fun sequenceOne =>
    pools.two.swapTickSequence args.tickArrayTwo0 args.tickArrayTwo1 args.tickArrayTwo2
      >>= fun sequenceTwo =>
    twoHopUpdates
      (fun amount => swapWithTransferFeeExtension m lib pools.one.whirlpool
        (swapOneMints mints args.aToBOne).1 (swapOneMints mints args.aToBOne).2 sequenceOne amount
        args.sqrtPriceLimitOne args.amountSpecifiedIsInput args.aToBOne timestamp)
      (fun amount => swapWithTransferFeeExtension m lib pools.two.whirlpool
        (swapTwoMints mints args.aToBTwo).1 (swapTwoMints mints args.aToBTwo).2 sequenceTwo amount
        args.sqrtPriceLimitTwo args.amountSpecifiedIsInput args.aToBTwo timestamp)
      (fun amount => calculateTransferFeeExcludedAmount lib mints.intermediate amount
        >>= fun excluded => .ok excluded.amount) args >>= fun updates =>
    checkIntermediateAmount args updates >>= fun _ =>
    checkTwoHopThresholdV2 lib mints.output args updates >>= fun _ =>
    updateAndTwoHopSwapWhirlpoolV2 m lib mints pools wallet tokenOwnerAccountInput
      tokenOwnerAccountOutput updates args.aToBOne args.aToBTwo timestamp

end Whirlpools
