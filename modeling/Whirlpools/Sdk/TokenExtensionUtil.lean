import Whirlpools.Sdk.SwapStep
import Whirlpools.Util.Token

/-! # Transfer fees in the SDK

The SDK repeats the calculations of the program on integers of any size. It takes the
fee of an amount from the token library, and computes the inverse itself.
-/

namespace Whirlpools.Sdk

open Outcome

/-- What the SDK uses of the token library. -/
structure SplToken where
  calculateFee : TransferFee → BN → BN
  calculateFee_eq : ∀ fee amount, 0 ≤ amount → calculateFee fee amount =
    min ((amount.toNat * fee.transferFeeBasisPoints) ⌈/⌉ maxFeeBasisPoints : ℕ) fee.maximumFee

structure TransferFeeIncludedAmount where
  amount : BN
  fee : BN
  deriving DecidableEq

structure TransferFeeExcludedAmount where
  amount : BN
  fee : BN
  deriving DecidableEq

def ceilDivBN (num denom : BN) : Attempt BN := BN.div (num + (denom - 1)) denom

/-- The message thrown for an amount beyond `u64`. -/
def totalOverflow : Thrown := .error "The total amount and fees overflow"

def calculateTransferFeeIncludedAmount (transferFee : TransferFee) (amount : BN) :
    Attempt TransferFeeIncludedAmount :=
  let oneInBasisPoints : ℤ := 10000
  let maxFeeBN : BN := transferFee.maximumFee
  if transferFee.transferFeeBasisPoints = 0 then .ok ⟨amount, 0⟩
  else if amount = 0 then .ok ⟨amount, 0⟩
  else if (transferFee.transferFeeBasisPoints : ℤ) = oneInBasisPoints then
    if amount + maxFeeBN > u64Max then .error totalOverflow
    else .ok ⟨amount + maxFeeBN, maxFeeBN⟩
  else
    let num := amount * oneInBasisPoints
    let denom := oneInBasisPoints - transferFee.transferFeeBasisPoints
    ceilDivBN num denom >>= fun rawFeeIncludedAmount =>
    let result : TransferFeeIncludedAmount :=
      if rawFeeIncludedAmount - amount ≥ maxFeeBN then ⟨amount + maxFeeBN, maxFeeBN⟩
      else ⟨rawFeeIncludedAmount, rawFeeIncludedAmount - amount⟩
    if result.amount > u64Max then .error totalOverflow else .ok result

def calculateTransferFeeExcludedAmount (spl : SplToken) (transferFee : TransferFee)
    (amount : BN) : TransferFeeExcludedAmount :=
  let fee := spl.calculateFee transferFee amount
  ⟨amount - fee, fee⟩

/-- The transfer fees of the two mints of a pool in the current epoch. -/
structure TokenExtensionContextForPool where
  tokenMintWithProgramA : Option TransferFee
  tokenMintWithProgramB : Option TransferFee

namespace TokenExtensionUtil

/-- The amount to transfer so that an amount arrives, for a mint with or without a fee. -/
def calculateTransferFeeIncludedAmount (transferFeeExcludedAmount : BN)
    (tokenInfo : Option TransferFee) : Attempt TransferFeeIncludedAmount :=
  match tokenInfo with
  | none => .ok ⟨transferFeeExcludedAmount, 0⟩
  | some transferFee =>
      Sdk.calculateTransferFeeIncludedAmount transferFee transferFeeExcludedAmount

/-- The amount of a transfer that arrives. -/
def calculateTransferFeeExcludedAmount (spl : SplToken) (transferFeeIncludedAmount : BN)
    (tokenInfo : Option TransferFee) : TransferFeeExcludedAmount :=
  match tokenInfo with
  | none => ⟨transferFeeIncludedAmount, 0⟩
  | some transferFee =>
      Sdk.calculateTransferFeeExcludedAmount spl transferFee transferFeeIncludedAmount

end TokenExtensionUtil
end Whirlpools.Sdk
