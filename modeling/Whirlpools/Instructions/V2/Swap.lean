import Whirlpools.Manager.SwapManager
import Whirlpools.Util.Token

/-! # The swap with transfer fees

The pool computes with what reaches its vaults. The fee of the input is removed before the
swap and added to what the swap used; the fee of the output is added to the amount requested.
-/

namespace Whirlpools

open Outcome

namespace PostSwapUpdate

/-- The update with other amounts of the input and of the output. -/
def withAmounts (update : PostSwapUpdate) (aToB : Bool) (input output : ℕ) : PostSwapUpdate :=
  { update with
    amountA := if aToB then input else output
    amountB := if aToB then output else input }

end PostSwapUpdate

/-- A swap whose amounts include the transfer fees of the two mints. -/
def swapWithTransferFeeExtension (m : Machine) (lib : TokenLibrary) (whirlpool : Whirlpool)
    (tokenMintA tokenMintB : Option TransferFee) (sequence : SwapTickSequence) (amount : ℕ)
    (sqrtPriceLimit : ℕ) (amountSpecifiedIsInput aToB : Bool) (timestamp : ℕ) :
    Result SwapOutcome :=
  let inputTokenMint := if aToB then tokenMintA else tokenMintB
  let outputTokenMint := if aToB then tokenMintB else tokenMintA
  if amountSpecifiedIsInput then
    calculateTransferFeeExcludedAmount lib inputTokenMint amount
      >>= fun transferFeeExcludedInput =>
    swap m whirlpool sequence transferFeeExcludedInput.amount sqrtPriceLimit
      amountSpecifiedIsInput aToB timestamp >>= fun outcome =>
    let amounts := outcome.update.inputAndOutput aToB
    let fullfilled : Bool := amounts.1 = transferFeeExcludedInput.amount
    (if fullfilled then .ok amount
      else calculateTransferFeeIncludedAmount lib inputTokenMint amounts.1 >>= fun included =>
        .ok included.amount) >>= fun adjustedTransferFeeIncludedInput =>
    .ok { outcome with
      update := outcome.update.withAmounts aToB adjustedTransferFeeIncludedInput amounts.2 }
  else
    calculateTransferFeeIncludedAmount lib outputTokenMint amount
      >>= fun transferFeeIncludedOutput =>
    swap m whirlpool sequence transferFeeIncludedOutput.amount sqrtPriceLimit
      amountSpecifiedIsInput aToB timestamp >>= fun outcome =>
    let amounts := outcome.update.inputAndOutput aToB
    calculateTransferFeeIncludedAmount lib inputTokenMint amounts.1
      >>= fun transferFeeIncludedInput =>
    .ok { outcome with
      update := outcome.update.withAmounts aToB transferFeeIncludedInput.amount amounts.2 }

end Whirlpools
