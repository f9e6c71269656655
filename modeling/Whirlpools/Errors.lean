import Whirlpools.Foundation.Outcome

/-! # Failures of the program

`ErrorCode` lists the error codes of the program. A transaction also fails, with
its accounts unchanged, when the program panics or when an account constraint or
a token transfer is refused.
-/

namespace Whirlpools

/-- The custom error codes raised by the modelled instructions. -/
inductive ErrorCode where
  | invalidStartTick
  | tickArrayIndexOutofBounds
  | invalidTickSpacing
  | closePositionNotEmpty
  | divideByZero
  | numberCastError
  | numberDownCastError
  | tickNotFound
  | invalidTickIndex
  | sqrtPriceOutOfBounds
  | liquidityZero
  | liquidityTooHigh
  | liquidityOverflow
  | liquidityUnderflow
  | liquidityNetError
  | tokenMaxExceeded
  | tokenMinSubceeded
  | invalidTimestampConversion
  | invalidTimestamp
  | invalidTickArraySequence
  | invalidTokenMintOrder
  | invalidRewardIndex
  | rewardVaultAmountInsufficient
  | feeRateMaxExceeded
  | protocolFeeRateMaxExceeded
  | multiplicationShiftRightOverflow
  | mulDivOverflow
  | multiplicationOverflow
  | invalidSqrtPriceLimitDirection
  | zeroTradableAmount
  | amountOutBelowMinimum
  | amountInAboveMaximum
  | tickArraySequenceInvalidIndex
  | amountCalcOverflow
  | amountRemainingOverflow
  | transferFeeCalculationError
  | invalidIntermediaryMint
  | duplicateTwoHopPool
  | intermediateTokenAmountMismatch
  | invalidBundleIndex
  | bundledPositionAlreadyOpened
  | bundledPositionAlreadyClosed
  | remainingAccountsInvalidSlice
  | remainingAccountsInsufficient
  | remainingAccountsDuplicatedAccountsType
  deriving DecidableEq, Repr

/-- Why a transaction fails. -/
inductive Failure where
  /-- The program returns an error code. -/
  | code (code : ErrorCode)
  /-- The program panics: an out-of-range access, an `unwrap`, or an arithmetic
  overflow in a build that checks for it. -/
  | panic
  /-- An account is missing, already in use, or violates a constraint. -/
  | account
  /-- The token program refuses a transfer out of a vault for lack of funds. -/
  | insufficientFunds
  /-- The token program refuses a transfer that would overflow the destination. -/
  | tokenOverflow
  /-- The modelled loop ran out of fuel. -/
  | outOfFuel
  deriving DecidableEq, Repr

/-- The outcome of a fallible function of the program. -/
abbrev Result (α : Type) := Except Failure α

/-- Return an error code. -/
abbrev err {α : Type} (code : ErrorCode) : Result α := .error (.code code)

end Whirlpools
