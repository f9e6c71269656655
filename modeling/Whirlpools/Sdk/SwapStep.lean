import Whirlpools.Foundation.Agreement
import Whirlpools.Math.SwapMath

/-! # The swap step of the SDK

The quotes of the SDK recompute a swap with integers of any size, and check the
limits of the program's types by hand. Two things come from the library the SDK is
built on: the shift out of a Q64.64 number and the difference modulo `2 ^ 128`. A thrown
error ends the computation.
-/

namespace Whirlpools.Sdk

open Outcome

/-- Integers of any size. -/
abbrev BN := ℤ

/-- What the SDK uses of the common library. -/
structure CommonSdk where
  fromX64BN : BN → BN
  fromX64BN_eq : ∀ num, 0 ≤ num → fromX64BN num = num / 2 ^ 64
  subUnderflowU128 : BN → BN → BN
  subUnderflowU128_eq : ∀ n0 n1, 0 ≤ n0 → n0 < 2 ^ 128 → 0 ≤ n1 → n1 < 2 ^ 128 →
    subUnderflowU128 n0 n1 = (n0 - n1) % 2 ^ 128

inductive MathErrorCode where
  | multiplicationOverflow
  | mulDivOverflow
  | multiplicationShiftRightOverflow
  | divideByZero
  deriving DecidableEq

inductive TokenErrorCode where
  | tokenMaxExceeded
  | tokenMinSubceeded
  deriving DecidableEq

inductive SwapErrorCode where
  | tickArrayIndexNotInitialized
  | tickArraySequenceInvalid
  deriving DecidableEq

inductive WhirlpoolsErrorCode where
  | math (code : MathErrorCode)
  | token (code : TokenErrorCode)
  | swap (code : SwapErrorCode)
  deriving DecidableEq

/-- What is thrown. -/
inductive Thrown where
  | whirlpoolsError (message : String) (errorCode : WhirlpoolsErrorCode)
  | error (message : String)
  /-- An assertion of the integer library. -/
  | assertion
  /-- The modelled loop ran out of fuel. -/
  | outOfFuel
  deriving DecidableEq

/-- A computation that may throw. -/
abbrev Attempt (α : Type) := Except Thrown α

def u64Max : BN := 2 ^ 64 - 1

def feeRateMulValue : BN := 1000000

def maxSqrtPrice : BN := 79226673515401279992447579055

def minSqrtPrice : BN := 4295048016

/-- Division that truncates, and asserts that the divisor is not zero. -/
def BN.div (n d : BN) : Attempt BN := if d = 0 then .error .assertion else .ok (n.tdiv d)

def BN.mod (n d : BN) : Attempt BN := if d = 0 then .error .assertion else .ok (n.tmod d)

section BitMath

def isOverLimit (n0 : BN) (limit : ℕ) : Bool := n0 > 2 ^ limit - 1

/-- A product that is checked to fit a number of bits. -/
def mul (n0 n1 : BN) (limit : ℕ) : Attempt BN :=
  let result := n0 * n1
  if isOverLimit result limit then
    .error (.whirlpoolsError s!"Mul result higher than u{limit}" (.math .multiplicationOverflow))
  else .ok result

def mulDivRoundUpIf (n0 n1 d : BN) (roundUp : Bool) (limit : ℕ) : Attempt BN :=
  if d = 0 then .error (.whirlpoolsError "mulDiv denominator is zero" (.math .divideByZero))
  else
    mul n0 n1 limit >>= fun p =>
    BN.div p d >>= fun n =>
    BN.mod p d >>= fun remainder =>
    .ok (if roundUp ∧ remainder > 0 then n + 1 else n)

def mulDiv (n0 n1 d : BN) (limit : ℕ) : Attempt BN := mulDivRoundUpIf n0 n1 d false limit

def mulDivRoundUp (n0 n1 d : BN) (limit : ℕ) : Attempt BN := mulDivRoundUpIf n0 n1 d true limit

/-- A product without its lower 64 bits. Whether it is rounded up depends on the lower
bits of the result, not on those that are dropped. -/
def checkedMulShiftRightRoundUpIf (lib : CommonSdk) (n0 n1 : BN) (roundUp : Bool) (limit : ℕ) :
    Attempt BN :=
  if n0 = 0 ∨ n1 = 0 then .ok 0
  else
    mul n0 n1 limit >>= fun p =>
    if isOverLimit p limit then
      .error (.whirlpoolsError s!"MulShiftRight overflowed u{limit}."
        (.math .multiplicationShiftRightOverflow))
    else
      let result := lib.fromX64BN p
      let shouldRound := roundUp ∧ result.toNat &&& u64Max.toNat > 0
      if shouldRound ∧ result = u64Max then
        .error (.whirlpoolsError s!"MulShiftRight overflowed u{limit}."
          (.math .multiplicationOverflow))
      else .ok (if shouldRound then result + 1 else result)

def divRoundUpIf (n d : BN) (roundUp : Bool) : Attempt BN :=
  if d = 0 then
    .error (.whirlpoolsError "divRoundUpIf - divide by zero" (.math .divideByZero))
  else
    BN.div n d >>= fun q =>
    BN.mod n d >>= fun remainder =>
    .ok (if roundUp ∧ remainder > 0 then q + 1 else q)

def divRoundUp (n d : BN) : Attempt BN := divRoundUpIf n d true

end BitMath

section TokenMath

/-- Two prices, the smaller first. -/
def toIncreasingPriceOrder (sqrtPrice0 sqrtPrice1 : BN) : BN × BN :=
  if sqrtPrice0 > sqrtPrice1 then (sqrtPrice1, sqrtPrice0) else (sqrtPrice0, sqrtPrice1)

def getAmountDeltaA (currSqrtPrice targetSqrtPrice currLiquidity : BN) (roundUp : Bool) :
    Attempt BN :=
  let (sqrtPriceLower, sqrtPriceUpper) := toIncreasingPriceOrder currSqrtPrice targetSqrtPrice
  let sqrtPriceDiff := sqrtPriceUpper - sqrtPriceLower
  let numerator := currLiquidity * sqrtPriceDiff * 2 ^ 64
  let denominator := sqrtPriceLower * sqrtPriceUpper
  BN.div numerator denominator >>= fun quotient =>
  BN.mod numerator denominator >>= fun remainder =>
  let result := if roundUp ∧ ¬ remainder = 0 then quotient + 1 else quotient
  if result > u64Max then
    .error (.whirlpoolsError "Results larger than U64" (.token .tokenMaxExceeded))
  else .ok result

def getAmountDeltaB (lib : CommonSdk) (currSqrtPrice targetSqrtPrice currLiquidity : BN)
    (roundUp : Bool) : Attempt BN :=
  let (sqrtPriceLower, sqrtPriceUpper) := toIncreasingPriceOrder currSqrtPrice targetSqrtPrice
  let sqrtPriceDiff := sqrtPriceUpper - sqrtPriceLower
  checkedMulShiftRightRoundUpIf lib currLiquidity sqrtPriceDiff roundUp 128

def getNextSqrtPriceFromARoundUp (sqrtPrice currLiquidity amount : BN)
    (amountSpecifiedIsInput : Bool) : Attempt BN :=
  if amount = 0 then .ok sqrtPrice
  else
    mul sqrtPrice amount 256 >>= fun p =>
    mul currLiquidity sqrtPrice 256 >>= fun product =>
    let numerator := product * 2 ^ 64
    if isOverLimit numerator 256 then
      .error (.whirlpoolsError "getNextSqrtPriceFromARoundUp - numerator overflow u256"
        (.math .multiplicationOverflow))
    else
      let currLiquidityShiftLeft := currLiquidity * 2 ^ 64
      if ¬ amountSpecifiedIsInput ∧ currLiquidityShiftLeft ≤ p then
        .error (.whirlpoolsError
          "getNextSqrtPriceFromARoundUp - Unable to divide currLiquidityX64 by product"
          (.math .divideByZero))
      else
        let denominator :=
          if amountSpecifiedIsInput then currLiquidityShiftLeft + p
          else currLiquidityShiftLeft - p
        divRoundUp numerator denominator >>= fun price =>
        if price < minSqrtPrice then
          .error (.whirlpoolsError
            "getNextSqrtPriceFromARoundUp - price less than min sqrt price"
            (.token .tokenMinSubceeded))
        else if price > maxSqrtPrice then
          .error (.whirlpoolsError
            "getNextSqrtPriceFromARoundUp - price less than max sqrt price"
            (.token .tokenMaxExceeded))
        else .ok price

/-- The price after an amount of token B; the SDK does not check its range. -/
def getNextSqrtPriceFromBRoundDown (sqrtPrice currLiquidity amount : BN)
    (amountSpecifiedIsInput : Bool) : Attempt BN :=
  let amountX64 := amount * 2 ^ 64
  divRoundUpIf amountX64 currLiquidity (!amountSpecifiedIsInput) >>= fun delta =>
  .ok (if amountSpecifiedIsInput then sqrtPrice + delta else sqrtPrice - delta)

def getNextSqrtPrice (sqrtPrice currLiquidity amount : BN) (amountSpecifiedIsInput aToB : Bool) :
    Attempt BN :=
  if amountSpecifiedIsInput = aToB then
    getNextSqrtPriceFromARoundUp sqrtPrice currLiquidity amount amountSpecifiedIsInput
  else getNextSqrtPriceFromBRoundDown sqrtPrice currLiquidity amount amountSpecifiedIsInput

end TokenMath

section SwapMath

/-- The amounts, the price and the fee of one swap step. -/
structure SwapStep where
  amountIn : BN
  amountOut : BN
  nextPrice : BN
  feeAmount : BN
  deriving DecidableEq

def getAmountFixedDelta (lib : CommonSdk) (currSqrtPrice targetSqrtPrice currLiquidity : BN)
    (amountSpecifiedIsInput aToB : Bool) : Attempt BN :=
  if aToB = amountSpecifiedIsInput then
    getAmountDeltaA currSqrtPrice targetSqrtPrice currLiquidity amountSpecifiedIsInput
  else getAmountDeltaB lib currSqrtPrice targetSqrtPrice currLiquidity amountSpecifiedIsInput

def getAmountUnfixedDelta (lib : CommonSdk) (currSqrtPrice targetSqrtPrice currLiquidity : BN)
    (amountSpecifiedIsInput aToB : Bool) : Attempt BN :=
  if aToB = amountSpecifiedIsInput then
    getAmountDeltaB lib currSqrtPrice targetSqrtPrice currLiquidity (!amountSpecifiedIsInput)
  else getAmountDeltaA currSqrtPrice targetSqrtPrice currLiquidity (!amountSpecifiedIsInput)

/-- Move the price towards the target as far as the remaining amount allows. -/
def computeSwapStep (lib : CommonSdk) (amountRemaining : BN) (feeRate : ℕ)
    (currLiquidity currSqrtPrice targetSqrtPrice : BN) (amountSpecifiedIsInput aToB : Bool) :
    Attempt SwapStep :=
  getAmountFixedDelta lib currSqrtPrice targetSqrtPrice currLiquidity amountSpecifiedIsInput aToB
    >>= fun initialFixedDelta =>
  (if amountSpecifiedIsInput then
      mulDiv amountRemaining (feeRateMulValue - feeRate) feeRateMulValue 128
    else .ok amountRemaining) >>= fun amountCalc =>
  (if amountCalc ≥ initialFixedDelta then .ok targetSqrtPrice
    else getNextSqrtPrice currSqrtPrice currLiquidity amountCalc amountSpecifiedIsInput aToB)
    >>= fun nextSqrtPrice =>
  let isMaxSwap := nextSqrtPrice = targetSqrtPrice
  getAmountUnfixedDelta lib currSqrtPrice nextSqrtPrice currLiquidity amountSpecifiedIsInput aToB
    >>= fun amountUnfixedDelta =>
  (if ¬ isMaxSwap then
      getAmountFixedDelta lib currSqrtPrice nextSqrtPrice currLiquidity amountSpecifiedIsInput aToB
    else .ok initialFixedDelta) >>= fun amountFixedDelta =>
  let amountIn := if amountSpecifiedIsInput then amountFixedDelta else amountUnfixedDelta
  let uncappedOut := if amountSpecifiedIsInput then amountUnfixedDelta else amountFixedDelta
  let amountOut :=
    if ¬ amountSpecifiedIsInput ∧ uncappedOut > amountRemaining then amountRemaining
    else uncappedOut
  (if amountSpecifiedIsInput ∧ ¬ isMaxSwap then .ok (amountRemaining - amountIn)
    else mulDivRoundUp amountIn feeRate (feeRateMulValue - feeRate) 128) >>= fun feeAmount =>
  .ok { amountIn := amountIn, amountOut := amountOut, nextPrice := nextSqrtPrice,
        feeAmount := feeAmount }

end SwapMath

end Whirlpools.Sdk
