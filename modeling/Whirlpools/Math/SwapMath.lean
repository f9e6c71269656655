import Whirlpools.Math.TokenMath

/-! # One step of a swap -/

namespace Whirlpools

open Outcome

/-- The amounts, the fee and the price of one swap step. -/
structure SwapStepComputation where
  amountIn : ℕ
  amountOut : ℕ
  nextPrice : ℕ
  feeAmount : ℕ
  deriving DecidableEq, Repr

/-- The amount of the specified token between two prices, rounded against the trader. -/
def getAmountFixedDelta (m : Machine) (sqrtPriceCurrent sqrtPriceTarget liquidity : ℕ)
    (amountSpecifiedIsInput aToB : Bool) : Result ℕ :=
  if aToB = amountSpecifiedIsInput then
    getAmountDeltaA m sqrtPriceCurrent sqrtPriceTarget liquidity amountSpecifiedIsInput
  else
    getAmountDeltaB sqrtPriceCurrent sqrtPriceTarget liquidity amountSpecifiedIsInput

/-- The amount of the other token between two prices, rounded against the trader. -/
def getAmountUnfixedDelta (m : Machine) (sqrtPriceCurrent sqrtPriceTarget liquidity : ℕ)
    (amountSpecifiedIsInput aToB : Bool) : Result ℕ :=
  if aToB = amountSpecifiedIsInput then
    getAmountDeltaB sqrtPriceCurrent sqrtPriceTarget liquidity (!amountSpecifiedIsInput)
  else
    getAmountDeltaA m sqrtPriceCurrent sqrtPriceTarget liquidity (!amountSpecifiedIsInput)

/-- `try_into` from `u128` to `u64`. -/
def tryIntoU64 (value : ℕ) : Result ℕ :=
  if value < 2 ^ 64 then .ok value else err .numberCastError

/-- Move the price towards the target as far as the remaining amount allows. -/
def computeSwap (m : Machine) (amountRemaining feeRate liquidity sqrtPriceCurrent
    sqrtPriceTarget : ℕ) (amountSpecifiedIsInput aToB : Bool) : Result SwapStepComputation :=
  getAmountFixedDelta m sqrtPriceCurrent sqrtPriceTarget liquidity amountSpecifiedIsInput aToB
    >>= fun initialFixedDelta =>
  (if amountSpecifiedIsInput then
      checkedMulDiv amountRemaining (feeRateMulValue - feeRate) feeRateMulValue >>= tryIntoU64
    else .ok amountRemaining) >>= fun amountCalc =>
  (if amountCalc ≥ initialFixedDelta then .ok sqrtPriceTarget
    else getNextSqrtPrice m sqrtPriceCurrent liquidity amountCalc amountSpecifiedIsInput aToB)
    >>= fun nextSqrtPrice =>
  let isMaxSwap := nextSqrtPrice = sqrtPriceTarget
  getAmountUnfixedDelta m sqrtPriceCurrent nextSqrtPrice liquidity amountSpecifiedIsInput aToB
    >>= fun amountUnfixedDelta =>
  -- Short of the target, the fixed amount is the one used up to the price reached.
  (if isMaxSwap then .ok initialFixedDelta
    else getAmountFixedDelta m sqrtPriceCurrent nextSqrtPrice liquidity amountSpecifiedIsInput
      aToB) >>= fun amountFixedDelta =>
  let amountIn := if amountSpecifiedIsInput then amountFixedDelta else amountUnfixedDelta
  let uncappedOut := if amountSpecifiedIsInput then amountUnfixedDelta else amountFixedDelta
  let amountOut :=
    if ¬ amountSpecifiedIsInput ∧ uncappedOut > amountRemaining then amountRemaining
    else uncappedOut
  (if amountSpecifiedIsInput ∧ ¬ isMaxSwap then m.plainSub 64 amountRemaining amountIn
    else checkedMulDivRoundUp amountIn feeRate (feeRateMulValue - feeRate) >>= tryIntoU64)
    >>= fun feeAmount =>
  .ok { amountIn := amountIn, amountOut := amountOut, nextPrice := nextSqrtPrice,
        feeAmount := feeAmount }

end Whirlpools
