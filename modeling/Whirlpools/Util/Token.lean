import Mathlib.Algebra.Order.Floor.Div
import Whirlpools.Errors

/-! # Transfer fees

A mint of the token extensions may withhold a fee from every transfer. The program adds the
fee to an amount to be received, or removes it from an amount sent, by the functions of the
token library.
-/

namespace Whirlpools

open Outcome

/-- A fee of 100%. -/
def maxFeeBasisPoints : ℕ := 10000

/-- The transfer fee of an epoch; the token program admits rates up to 100%. -/
structure TransferFee where
  transferFeeBasisPoints : ℕ
  maximumFee : ℕ
  rate : transferFeeBasisPoints ≤ maxFeeBasisPoints
  fits : maximumFee < 2 ^ 64

/-- What the token library computes from a transfer fee. The fee of an amount is its rate,
rounded up, but at most the maximum fee. The inverse fee is the fee of the amount that is
expected to leave the given one. -/
structure TokenLibrary where
  calculateFee : TransferFee → ℕ → Option ℕ
  calculateFee_eq : ∀ fee amount, amount < 2 ^ 64 → calculateFee fee amount =
    some (min ((amount * fee.transferFeeBasisPoints) ⌈/⌉ maxFeeBasisPoints) fee.maximumFee)
  calculateInverseFee : TransferFee → ℕ → Option ℕ
  calculateInverseFee_eq : ∀ fee amount, amount < 2 ^ 64 →
    fee.transferFeeBasisPoints < maxFeeBasisPoints →
    calculateInverseFee fee amount =
      let raw := (amount * maxFeeBasisPoints) ⌈/⌉
        (maxFeeBasisPoints - fee.transferFeeBasisPoints)
      let preFeeAmount := if raw - amount ≥ fee.maximumFee then amount + fee.maximumFee else raw
      if preFeeAmount < 2 ^ 64 then calculateFee fee preFeeAmount else none

structure TransferFeeIncludedAmount where
  amount : ℕ
  transferFee : ℕ
  deriving DecidableEq

structure TransferFeeExcludedAmount where
  amount : ℕ
  transferFee : ℕ
  deriving DecidableEq

section Calculate

variable (lib : TokenLibrary)

/-- The amount of a transfer that arrives, for a mint with or without a transfer fee. -/
def calculateTransferFeeExcludedAmount (tokenMint : Option TransferFee)
    (transferFeeIncludedAmount : ℕ) : Result TransferFeeExcludedAmount :=
  match tokenMint with
  | some epochTransferFee =>
      okOr (lib.calculateFee epochTransferFee transferFeeIncludedAmount) .panic
        >>= fun transferFee =>
      if transferFee > transferFeeIncludedAmount then .error .panic
      else .ok ⟨transferFeeIncludedAmount - transferFee, transferFee⟩
  | none => .ok ⟨transferFeeIncludedAmount, 0⟩

/-- The fee to add to a positive amount: the maximum fee where the rate is 100%. -/
def inverseTransferFee (epochTransferFee : TransferFee) (transferFeeExcludedAmount : ℕ) :
    Result ℕ :=
  if epochTransferFee.transferFeeBasisPoints = maxFeeBasisPoints then
    .ok epochTransferFee.maximumFee
  else
    okOr (lib.calculateInverseFee epochTransferFee transferFeeExcludedAmount)
      (.code .transferFeeCalculationError)

/-- The amount to transfer so that an amount arrives; the fee is calculated again and compared. -/
def calculateTransferFeeIncludedAmount (tokenMint : Option TransferFee)
    (transferFeeExcludedAmount : ℕ) : Result TransferFeeIncludedAmount :=
  if transferFeeExcludedAmount = 0 then .ok ⟨0, 0⟩
  else
    match tokenMint with
    | some epochTransferFee =>
        inverseTransferFee lib epochTransferFee transferFeeExcludedAmount >>= fun transferFee =>
        if transferFeeExcludedAmount + transferFee ≥ 2 ^ 64 then err .transferFeeCalculationError
        else
          okOr (lib.calculateFee epochTransferFee (transferFeeExcludedAmount + transferFee)) .panic
            >>= fun transferFeeVerification =>
          if transferFee ≠ transferFeeVerification then err .transferFeeCalculationError
          else .ok ⟨transferFeeExcludedAmount + transferFee, transferFee⟩
    | none => .ok ⟨transferFeeExcludedAmount, 0⟩

end Calculate
end Whirlpools
