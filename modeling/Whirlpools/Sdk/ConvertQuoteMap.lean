import Mathlib.Data.List.Infix
import Mathlib.Data.PNat.Basic
import Whirlpools.Foundation.Choices
import Whirlpools.Sdk.KSmallestPartition
import Whirlpools.Sdk.PoolGraph

/-! # Routes that split a trade

The quote map holds, for each percent of a trade, quotes for sending that part over one path. A
route combines quotes to 100 percent; the best routes are selected and sorted.
-/

namespace Whirlpools.Sdk

open Choices Outcome

/-- A quote for sending a percent of the trade over a path. -/
structure PathQuote where
  path : Path
  edgesPoolAddrs : List String
  splitPercent : ℕ+
  amountIn : ℤ
  amountOut : ℤ
  deriving DecidableEq

/-- Quotes by percent; the keys are visited from the largest to the smallest. -/
structure SanitizedQuoteMap where
  percents : List ℕ+
  ascending : percents.Pairwise (· < ·)
  quotes : ℕ+ → List PathQuote

/-- Replace the quotes of a percent. -/
def SanitizedQuoteMap.set (percentMap : SanitizedQuoteMap) (percent : ℕ+)
    (quotes : List PathQuote) : SanitizedQuoteMap :=
  { percentMap with quotes := Function.update percentMap.quotes percent quotes }

structure InternalRoute where
  quotes : List PathQuote
  splitPercent : ℕ
  totalIn : ℤ
  totalOut : ℤ

/-- The text contains the other text. -/
def containsText (text other : String) : Bool := decide (other.toList <:+: text.toList)

/-- The quote shares a pool with a quote of the route; addresses are compared by containment. -/
def hasReusedPools (quotes : List PathQuote) (nextQuote : PathQuote) : Bool :=
  nextQuote.edgesPoolAddrs.any fun r1 =>
    quotes.any fun r2 => r2.edgesPoolAddrs.any fun r3 => containsText r3 r1

/-- The percent exceeds that of the last quote of the route. -/
def nextPercentExceeds (quotes : List PathQuote) (nextPercent : ℕ+) : Bool :=
  match quotes.getLast? with
  | some last => decide (last.splitPercent < nextPercent)
  | none => false

/-- The route with one more quote. -/
def InternalRoute.push (currentRoute : InternalRoute) (nextQuote : PathQuote)
    (newPercentTotal : ℕ) : InternalRoute where
  quotes := currentRoute.quotes ++ [nextQuote]
  splitPercent := newPercentTotal
  totalIn := currentRoute.totalIn + nextQuote.amountIn
  totalOut := currentRoute.totalOut + nextQuote.amountOut

/-- Extend a route by quotes of decreasing percents, in all ways that reach 100 percent. -/
def buildRoutes (quotePercentMap : SanitizedQuoteMap) (maxSplits : ℕ)
    (currentRoute : InternalRoute) : List InternalRoute :=
  quotePercentMap.percents.reverse.flatMap fun (nextPercent : ℕ+) =>
    let newPercentTotal := currentRoute.splitPercent + nextPercent
    if newPercentTotal > 100 ∨ nextPercentExceeds currentRoute.quotes nextPercent = true then []
    else
      (choices (quotePercentMap.quotes nextPercent)).flatMap fun choice =>
        let nextQuote := choice.1
        let nextCandidateQuotes := choice.2
        if hasReusedPools currentRoute.quotes nextQuote then []
        else
          let nextRoute := currentRoute.push nextQuote newPercentTotal
          if newPercentTotal = 100 then [nextRoute]
          else if currentRoute.quotes.length + 1 ≠ maxSplits then
            buildRoutes (quotePercentMap.set nextPercent nextCandidateQuotes) maxSplits nextRoute
          else []
termination_by 100 - currentRoute.splitPercent
decreasing_by
  have positive := nextPercent.pos
  change 100 - (currentRoute.splitPercent + nextPercent) < 100 - currentRoute.splitPercent
  omega

def generateRoutes (percentMap : SanitizedQuoteMap) (maxSplits : ℕ) : List InternalRoute :=
  buildRoutes percentMap maxSplits ⟨[], 0, 0, 0⟩

section Ranking

/-- The sign of the difference of two amounts. -/
def cmp (a b : ℤ) : ℤ := if a < b then -1 else if a = b then 0 else 1

def routesCompareForInputAmount (a b : InternalRoute) : ℤ := cmp b.totalOut a.totalOut

def routesCompareForOutputAmount (a b : InternalRoute) : ℤ := cmp a.totalIn b.totalIn

def getRouteCompareFn (amountSpecifiedIsInput : Bool) : InternalRoute → InternalRoute → ℤ :=
  if amountSpecifiedIsInput then routesCompareForInputAmount else routesCompareForOutputAmount

/-- Stable sorting by a comparison. -/
def sortBy {T : Type} (compare : T → T → ℤ) (items : List T) : List T :=
  items.mergeSort fun a b => decide (compare a b ≤ 0)

def getRankedRoutes (sampling : Sampling) (fuel : ℕ) (percentMap : SanitizedQuoteMap)
    (amountSpecifiedIsInput : Bool) (topN maxSplits : ℕ) : Result (List InternalRoute) :=
  let routes := generateRoutes percentMap maxSplits
  let routeCompare := getRouteCompareFn amountSpecifiedIsInput
  if routes.length ≤ topN then .ok (sortBy routeCompare routes)
  else
    kSmallestPartition sampling routeCompare fuel routes.toArray.toVector topN 0
      (routes.toArray.size - 1) >>= fun routes =>
    .ok (sortBy routeCompare (routes.toList.take topN))

end Ranking

end Whirlpools.Sdk
