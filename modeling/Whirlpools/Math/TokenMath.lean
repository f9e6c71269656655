import Whirlpools.Math.BitMath
import Whirlpools.Math.TickMath

/-! # Token amounts and price moves -/

namespace Whirlpools

open Outcome

/-- Fee rates are in hundredths of a basis point. -/
def maxFeeRate : ℕ := 30000
def feeRateMulValue : ℕ := 1000000

/-- Protocol fee rates are in basis points of the fee. -/
def maxProtocolFeeRate : ℕ := 2500
def protocolFeeRateMulValue : ℕ := 10000

/-- Two prices, the smaller first. -/
def increasingPriceOrder (sqrtPrice0 sqrtPrice1 : ℕ) : ℕ × ℕ :=
  if sqrtPrice0 > sqrtPrice1 then (sqrtPrice1, sqrtPrice0) else (sqrtPrice0, sqrtPrice1)

/-- The amount of token A that moves a liquidity between two prices. -/
def getAmountDeltaA (m : Machine) (sqrtPrice0 sqrtPrice1 liquidity : ℕ) (roundUp : Bool) :
    Result ℕ :=
  let (sqrtPriceLower, sqrtPriceUpper) := increasingPriceOrder sqrtPrice0 sqrtPrice1
  let sqrtPriceDiff := sqrtPriceUpper - sqrtPriceLower
  okOr (mulU256 liquidity sqrtPriceDiff).checkedShiftWordLeft (.code .multiplicationOverflow)
    >>= fun numerator =>
  let denominator := mulU256 sqrtPriceUpper sqrtPriceLower
  m.div numerator denominator roundUp >>= fun (quotient, remainder) =>
  (if roundUp ∧ ¬ remainder.isZero then (quotient.add (.new 0 1)).tryIntoU128
    else quotient.tryIntoU128) >>= fun result =>
  if result > u64Max then err .tokenMaxExceeded else .ok result

/-- The amount of token B that moves a liquidity between two prices. -/
def getAmountDeltaB (sqrtPrice0 sqrtPrice1 liquidity : ℕ) (roundUp : Bool) : Result ℕ :=
  let (priceLower, priceUpper) := increasingPriceOrder sqrtPrice0 sqrtPrice1
  checkedMulShiftRightRoundUpIf liquidity (priceUpper - priceLower) roundUp

/-- The price after adding or removing an amount of token A, rounded up. -/
def getNextSqrtPriceFromARoundUp (m : Machine) (sqrtPrice liquidity amount : ℕ)
    (amountSpecifiedIsInput : Bool) : Result ℕ :=
  if amount = 0 then .ok sqrtPrice
  else
    let product := mulU256 sqrtPrice amount
    okOr (mulU256 liquidity sqrtPrice).checkedShiftWordLeft (.code .multiplicationOverflow)
      >>= fun numerator =>
    let liquidityShiftLeft := (U256Muldiv.new 0 liquidity).shiftWordLeft
    if ¬ amountSpecifiedIsInput ∧ liquidityShiftLeft.lte product then err .divideByZero
    else
      let denominator :=
        if amountSpecifiedIsInput then liquidityShiftLeft.add product
        else liquidityShiftLeft.sub product
      divRoundUpIfU256 m numerator denominator true >>= fun price =>
      if price < minSqrtPriceX64 then err .tokenMinSubceeded
      else if price > maxSqrtPriceX64 then err .tokenMaxExceeded
      else .ok price

/-- The price after adding or removing an amount of token B, rounded down. -/
def getNextSqrtPriceFromBRoundDown (sqrtPrice liquidity amount : ℕ)
    (amountSpecifiedIsInput : Bool) : Result ℕ :=
  let amountX64 := amount * 2 ^ 64
  divRoundUpIf amountX64 liquidity (!amountSpecifiedIsInput) >>= fun delta =>
  if amountSpecifiedIsInput then
    if sqrtPrice + delta < 2 ^ 128 then .ok (sqrtPrice + delta) else err .sqrtPriceOutOfBounds
  else
    if delta ≤ sqrtPrice then .ok (sqrtPrice - delta) else err .sqrtPriceOutOfBounds

/-- The price after trading an amount of the specified token. -/
def getNextSqrtPrice (m : Machine) (sqrtPrice liquidity amount : ℕ)
    (amountSpecifiedIsInput aToB : Bool) : Result ℕ :=
  if amountSpecifiedIsInput = aToB then
    getNextSqrtPriceFromARoundUp m sqrtPrice liquidity amount amountSpecifiedIsInput
  else
    getNextSqrtPriceFromBRoundDown sqrtPrice liquidity amount amountSpecifiedIsInput

end Whirlpools
