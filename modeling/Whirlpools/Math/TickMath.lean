import Whirlpools.Math.U256Math

/-! # Square-root prices of ticks

A price is a Q64.64 number. The price of a tick is a product of precomputed
powers, one for each set bit of the tick; the tick of a price is a truncated
logarithm corrected by one comparison.
-/

namespace Whirlpools

open Outcome

/-- The largest and the smallest price, those of the extreme ticks. -/
def maxSqrtPriceX64 : ℕ := 79226673515401279992447579055
def minSqrtPriceX64 : ℕ := 4295048016

def logB2X32 : ℤ := 59543866431248
def bitPrecision : ℕ := 14
def logBPErrMarginLowerX64 : ℤ := 184467440737095516
def logBPErrMarginUpperX64 : ℤ := 15793534762490258745

/-- The Q32.96 factors of bits 1 to 18 of a nonnegative tick. -/
def positiveTickRatios : List ℕ :=
  [79236085330515764027303304731,
    79244008939048815603706035061, 79259858533276714757314932305,
    79291567232598584799939703904, 79355022692464371645785046466,
    79482085999252804386437311141, 79736823300114093921829183326,
    80248749790819932309965073892, 81282483887344747381513967011,
    83390072131320151908154831281, 87770609709833776024991924138,
    97234110755111693312479820773, 119332217159966728226237229890,
    179736315981702064433883588727, 407748233172238350107850275304,
    2098478828474011932436660412517, 55581415166113811149459800483533,
    38992368544603139932233054999993551]

/-- The Q64.64 factors of bits 1 to 18 of the magnitude of a negative tick. -/
def negativeTickRatios : List ℕ :=
  [18444899583751176498,
    18443055278223354162, 18439367220385604838,
    18431993317065449817, 18417254355718160513,
    18387811781193591352, 18329067761203520168,
    18212142134806087854, 17980523815641551639,
    17526086738831147013, 16651378430235024244,
    15030750278693429944, 12247334978882834399,
    8131365268884726200, 3584323654723342297,
    696457651847595233, 26294789957452057,
    37481735321082]

/-- A product of two Q32.96 numbers, truncated. -/
def mulShift96 (n0 n1 : ℕ) : ℕ := n0 * n1 / 2 ^ 96

/-- A product of two Q64.64 numbers, truncated. -/
def mulShift64 (n0 n1 : ℕ) : ℕ := n0 * n1 / 2 ^ 64

/-- Multiply the factors of the set bits of a tick into a ratio, lowest bit first. -/
def mulTickRatios (mulShift : ℕ → ℕ → ℕ) : List ℕ → ℕ → ℕ → ℕ → ℕ
  | [], _, _, ratio => ratio
  | factor :: factors, bit, tick, ratio =>
      mulTickRatios mulShift factors (bit + 1) tick
        (if tick.testBit bit then mulShift ratio factor else ratio)

def getSqrtPricePositiveTick (tick : ℕ) : ℕ :=
  let ratio := if tick.testBit 0 then 79232123823359799118286999567
    else 79228162514264337593543950336
  mulTickRatios mulShift96 positiveTickRatios 1 tick ratio / 2 ^ 32

def getSqrtPriceNegativeTick (absTick : ℕ) : ℕ :=
  let ratio := if absTick.testBit 0 then 18445821805675392311 else 18446744073709551616
  mulTickRatios mulShift64 negativeTickRatios 1 absTick ratio

/-- The price of a tick. -/
def sqrtPriceFromTickIndex (tick : ℤ) : ℕ :=
  if tick ≥ 0 then getSqrtPricePositiveTick tick.toNat
  else getSqrtPriceNegativeTick tick.natAbs

/-- The state of the iterated squaring: the mantissa, the weight of the next
bit, and the fraction found so far. -/
structure Log2State where
  r : ℕ
  bit : ℤ
  log2pFractionX64 : ℤ

/-- Square the mantissa and append one bit of the logarithm. -/
def log2Step (state : Log2State) : Log2State :=
  let squared := state.r * state.r
  let isRMoreThanTwo : ℕ := squared / 2 ^ 127
  { r := squared / 2 ^ (63 + isRMoreThanTwo : ℕ)
    bit := state.bit / 2
    log2pFractionX64 := state.log2pFractionX64 + state.bit * isRMoreThanTwo }

/-- The truncated binary logarithm of a price, in units of `2 ^ (-32)`. -/
def log2pX32 (sqrtPriceX64 : ℕ) : ℤ :=
  let msb := sqrtPriceX64.log2
  let r := if msb ≥ 64 then sqrtPriceX64 / 2 ^ (msb - 63) else sqrtPriceX64 * 2 ^ (63 - msb)
  let final := log2Step^[bitPrecision] ⟨r, 0x8000000000000000, 0⟩
  ((msb : ℤ) - 64) * 2 ^ 32 + final.log2pFractionX64 / 2 ^ 32

/-- The greatest tick whose price is at most a price within bounds. -/
def tickIndexFromSqrtPrice (sqrtPriceX64 : ℕ) : ℤ :=
  let logbpX64 := log2pX32 sqrtPriceX64 * logB2X32
  let tickLow := (logbpX64 - logBPErrMarginLowerX64) / 2 ^ 64
  let tickHigh := (logbpX64 + logBPErrMarginUpperX64) / 2 ^ 64
  if tickLow = tickHigh then tickLow
  else if sqrtPriceFromTickIndex tickHigh ≤ sqrtPriceX64 then tickHigh
  else tickLow

end Whirlpools
