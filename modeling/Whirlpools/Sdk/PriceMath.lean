import Whirlpools.Foundation.TwosComplement
import Whirlpools.Sdk.SwapStep

/-! # Ticks and prices in the SDK

The SDK repeats the conversions of the program on integers of any size. The program shifts
signed numbers of a fixed width; the SDK passes through their two's complement.
-/

namespace Whirlpools.Sdk

open Outcome TwosComplement

/-- The number of bits of a nonnegative number. -/
def BN.bitLength (n : BN) : ℕ := if n = 0 then 0 else n.toNat.log2 + 1

/-- A number that is asserted to be exact in floating point. -/
def BN.toNumber (n : BN) : Attempt ℤ := if |n| < 2 ^ 53 then .ok n else .error .assertion

/-- A left shift of a signed number. -/
def signedShiftLeft (n0 : BN) (shiftBy bitWidth : ℕ) : BN :=
  let twosN0 := toTwos n0 bitWidth * 2 ^ shiftBy
  fromTwos (twosN0 % 2 ^ (bitWidth + 1)) bitWidth

/-- A right shift of a signed number. -/
def signedShiftRight (n0 : BN) (shiftBy bitWidth : ℕ) : BN :=
  let twoN0 := toTwos n0 bitWidth / 2 ^ shiftBy
  fromTwos (twoN0 % 2 ^ (bitWidth - shiftBy + 1)) (bitWidth - shiftBy)

/-- The factors of bits 1 to 18 of a positive tick. -/
def positiveRatios : List BN :=
  [79236085330515764027303304731, 79244008939048815603706035061, 79259858533276714757314932305,
    79291567232598584799939703904, 79355022692464371645785046466, 79482085999252804386437311141,
    79736823300114093921829183326, 80248749790819932309965073892, 81282483887344747381513967011,
    83390072131320151908154831281, 87770609709833776024991924138, 97234110755111693312479820773,
    119332217159966728226237229890, 179736315981702064433883588727,
    407748233172238350107850275304, 2098478828474011932436660412517,
    55581415166113811149459800483533, 38992368544603139932233054999993551]

/-- The factors of bits 1 to 18 of the magnitude of a negative tick. -/
def negativeRatios : List BN :=
  [18444899583751176498, 18443055278223354162, 18439367220385604838, 18431993317065449817,
    18417254355718160513, 18387811781193591352, 18329067761203520168, 18212142134806087854,
    17980523815641551639, 17526086738831147013, 16651378430235024244, 15030750278693429944,
    12247334978882834399, 8131365268884726200, 3584323654723342297, 696457651847595233,
    26294789957452057, 37481735321082]

/-- Multiply the factors of the set bits of a tick into a ratio, lowest bit first. -/
def mulRatios (shiftBy : ℕ) : List BN → ℕ → ℕ → BN → BN
  | [], _, _, ratio => ratio
  | factor :: factors, bit, tick, ratio =>
      mulRatios shiftBy factors (bit + 1) tick
        (if tick.testBit bit then signedShiftRight (ratio * factor) shiftBy 256 else ratio)

def tickIndexToSqrtPricePositive (tick : ℕ) : BN :=
  let ratio : BN := if tick.testBit 0 then 79232123823359799118286999567
    else 79228162514264337593543950336
  signedShiftRight (mulRatios 96 positiveRatios 1 tick ratio) 32 256

def tickIndexToSqrtPriceNegative (tickIndex : ℤ) : BN :=
  let tick := tickIndex.natAbs
  let ratio : BN := if tick.testBit 0 then 18445821805675392311 else 18446744073709551616
  mulRatios 64 negativeRatios 1 tick ratio

def bitPrecision : ℕ := 14
def logB2X32 : BN := 59543866431248
def logBPErrMarginLowerX64 : BN := 184467440737095516
def logBPErrMarginUpperX64 : BN := 15793534762490258745

/-- The variables of the loop over the bits of the logarithm. -/
structure LogState where
  r : BN
  bit : BN
  log2pFractionX64 : BN

/-- Square the mantissa and append one bit of the logarithm. -/
def logStep (state : LogState) : Attempt LogState :=
  let r := state.r * state.r
  let rMoreThanTwo := r / 2 ^ 127
  BN.toNumber rMoreThanTwo >>= fun more =>
  .ok { r := r / 2 ^ (63 + more).toNat
        bit := state.bit / 2
        log2pFractionX64 := state.log2pFractionX64 + state.bit * rMoreThanTwo }

/-- The loop over the bits of the logarithm, with the iterations that precision leaves. -/
def logLoop : ℕ → LogState → Attempt LogState
  | 0, state => .ok state
  | precision + 1, state =>
      if state.bit > 0 then logStep state >>= logLoop precision else .ok state

structure Percentage where
  numerator : BN
  denominator : BN

/-- What the SDK computes with decimal numbers: a price times the root of a quotient, rounded to
an integer. -/
structure DecimalMath where
  mulSqrtRatio : BN → BN → BN → BN

namespace PriceMath

/-- The price of a tick. -/
def tickIndexToSqrtPriceX64 (tickIndex : ℤ) : BN :=
  if tickIndex > 0 then tickIndexToSqrtPricePositive tickIndex.toNat
  else tickIndexToSqrtPriceNegative tickIndex

/-- The tick of a price. -/
def sqrtPriceX64ToTickIndex (sqrtPriceX64 : BN) : Attempt ℤ :=
  if sqrtPriceX64 > maxSqrtPrice ∨ sqrtPriceX64 < minSqrtPrice then
    .error (.error "Provided sqrtPrice is not within the supported sqrtPrice range.")
  else
    let msb : ℤ := BN.bitLength sqrtPriceX64 - 1
    let log2pIntegerX32 := signedShiftLeft (msb - 64) 32 128
    let r := if msb ≥ 64 then sqrtPriceX64 / 2 ^ (msb - 63).toNat
      else sqrtPriceX64 * 2 ^ (63 - msb).toNat
    logLoop bitPrecision ⟨r, 0x8000000000000000, 0⟩ >>= fun final =>
    let log2pX32 := log2pIntegerX32 + final.log2pFractionX64 / 2 ^ 32
    let logbpX64 := log2pX32 * logB2X32
    BN.toNumber (signedShiftRight (logbpX64 - logBPErrMarginLowerX64) 64 128) >>= fun tickLow =>
    BN.toNumber (signedShiftRight (logbpX64 + logBPErrMarginUpperX64) 64 128) >>= fun tickHigh =>
    .ok (if tickLow = tickHigh then tickLow
      else if tickIndexToSqrtPriceX64 tickHigh ≤ sqrtPriceX64 then tickHigh else tickLow)

/-- The bounds of a price under a slippage, within the supported range, and their ticks. -/
def getSlippageBoundForSqrtPrice (decimal : DecimalMath) (sqrtPriceX64 : BN)
    (slippage : Percentage) : Attempt ((BN × ℤ) × (BN × ℤ)) :=
  let lowerBoundSqrtPrice := min (max (decimal.mulSqrtRatio sqrtPriceX64
    (slippage.denominator - slippage.numerator) slippage.denominator) minSqrtPrice) maxSqrtPrice
  let upperBoundSqrtPrice := min (max (decimal.mulSqrtRatio sqrtPriceX64
    (slippage.denominator + slippage.numerator) slippage.denominator) minSqrtPrice) maxSqrtPrice
  sqrtPriceX64ToTickIndex lowerBoundSqrtPrice >>= fun lowerTickCurrentIndex =>
  sqrtPriceX64ToTickIndex upperBoundSqrtPrice >>= fun upperTickCurrentIndex =>
  .ok ((lowerBoundSqrtPrice, lowerTickCurrentIndex), (upperBoundSqrtPrice, upperTickCurrentIndex))

end PriceMath
end Whirlpools.Sdk
