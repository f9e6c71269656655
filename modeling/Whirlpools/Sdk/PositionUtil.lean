import Mathlib.Algebra.Order.Floor.Div
import Mathlib.GroupTheory.GroupAction.Ring
import Whirlpools.Sdk.PriceMath

/-! # Positions in the SDK

Where a price stands to the range of a position, and the tokens of a liquidity within a range of
prices, and back.
-/

namespace Whirlpools.Sdk

open Outcome

/-- What the SDK uses of the common library to round up. -/
structure MathUtil where
  divRoundUp : BN → BN → BN
  divRoundUp_eq : ∀ n d, 0 ≤ n → 0 < d → divRoundUp n d = (n.toNat ⌈/⌉ d.toNat : ℕ)
  shiftRightRoundUp : BN → BN
  shiftRightRoundUp_eq : ∀ n, 0 ≤ n → shiftRightRoundUp n = (n.toNat ⌈/⌉ 2 ^ 64 : ℕ)

inductive PositionStatus where
  | belowRange
  | inRange
  | aboveRange
  deriving DecidableEq

namespace PositionUtil

/-- A price at an end of the range is outside of it. -/
def getStrictPositionStatus (sqrtPriceX64 : BN) (tickLowerIndex tickUpperIndex : ℤ) :
    PositionStatus :=
  let sqrtPriceLowerX64 := PriceMath.tickIndexToSqrtPriceX64 tickLowerIndex
  let sqrtPriceUpperX64 := PriceMath.tickIndexToSqrtPriceX64 tickUpperIndex
  if sqrtPriceX64 ≤ sqrtPriceLowerX64 then .belowRange
  else if sqrtPriceX64 ≥ sqrtPriceUpperX64 then .aboveRange
  else .inRange

end PositionUtil

section Amounts

variable (math : MathUtil)

/-- The liquidity that an amount of token A provides. -/
def getLiquidityFromTokenA (amount sqrtPriceLowerX64 sqrtPriceUpperX64 : BN) (roundUp : Bool) :
    Attempt BN :=
  BN.div (amount * sqrtPriceLowerX64 * sqrtPriceUpperX64) (sqrtPriceUpperX64 - sqrtPriceLowerX64)
    >>= fun result =>
  .ok (if roundUp then math.shiftRightRoundUp result else result / 2 ^ 64)

/-- The liquidity that an amount of token B provides. -/
def getLiquidityFromTokenB (amount sqrtPriceLowerX64 sqrtPriceUpperX64 : BN) (roundUp : Bool) :
    Attempt BN :=
  let numerator := amount * 2 ^ 64
  let denominator := sqrtPriceUpperX64 - sqrtPriceLowerX64
  if roundUp then .ok (math.divRoundUp numerator denominator) else BN.div numerator denominator

def orderSqrtPrice (sqrtPrice0X64 sqrtPrice1X64 : BN) : BN × BN :=
  if sqrtPrice0X64 < sqrtPrice1X64 then (sqrtPrice0X64, sqrtPrice1X64)
  else (sqrtPrice1X64, sqrtPrice0X64)

/-- The amount of token A of a liquidity between two prices. -/
def getTokenAFromLiquidity (liquidity sqrtPrice0X64 sqrtPrice1X64 : BN) (roundUp : Bool) :
    Attempt BN :=
  let sqrtPriceLowerX64 := (orderSqrtPrice sqrtPrice0X64 sqrtPrice1X64).1
  let sqrtPriceUpperX64 := (orderSqrtPrice sqrtPrice0X64 sqrtPrice1X64).2
  let numerator := liquidity * (sqrtPriceUpperX64 - sqrtPriceLowerX64) * 2 ^ 64
  let denominator := sqrtPriceUpperX64 * sqrtPriceLowerX64
  if roundUp then .ok (math.divRoundUp numerator denominator) else BN.div numerator denominator

/-- The amount of token B of a liquidity between two prices. -/
def getTokenBFromLiquidity (liquidity sqrtPrice0X64 sqrtPrice1X64 : BN) (roundUp : Bool) : BN :=
  let sqrtPriceLowerX64 := (orderSqrtPrice sqrtPrice0X64 sqrtPrice1X64).1
  let sqrtPriceUpperX64 := (orderSqrtPrice sqrtPrice0X64 sqrtPrice1X64).2
  let result := liquidity * (sqrtPriceUpperX64 - sqrtPriceLowerX64)
  if roundUp then math.shiftRightRoundUp result else result / 2 ^ 64

end Amounts
end Whirlpools.Sdk
