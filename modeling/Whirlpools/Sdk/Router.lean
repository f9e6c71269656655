import Whirlpools.Sdk.QuoteMap

/-! # The routes of a trade

The router searches the paths between the two tokens, quotes all parts of the trade over them, and
ranks the routes that the quotes make. Trades over a single pool are offered besides the best
routes. Whatever is thrown on the way is reported as a general error.
-/

namespace Whirlpools.Sdk

inductive RouteQueryErrorCode where
  | routeDoesNotExist
  | tradeAmountTooHigh
  | zeroInputAmount
  | general
  deriving DecidableEq

/-- Why a query of routes is rejected. -/
structure RouteQueryError where
  message : String
  errorCode : RouteQueryErrorCode
  deriving DecidableEq

/-- A part of a route; the quotes of its hops are those of the quote map. -/
structure SubTradeRoute where
  path : Path
  splitPercent : ℕ+
  amountIn : BN
  amountOut : BN

structure TradeRoute where
  subRoutes : List SubTradeRoute
  totalAmountIn : BN
  totalAmountOut : BN

def convertPathQuoteToSubTradeRoute (pathQuote : PathQuote) : SubTradeRoute where
  path := pathQuote.path
  splitPercent := pathQuote.splitPercent
  amountIn := pathQuote.amountIn
  amountOut := pathQuote.amountOut

def convertInternalRoutesToTradeRoutes (internalRoutes : List InternalRoute) : List TradeRoute :=
  internalRoutes.map fun internalRoute =>
    ⟨internalRoute.quotes.map convertPathQuoteToSubTradeRoute, internalRoute.totalIn,
      internalRoute.totalOut⟩

/-- The quotes of the whole trade over a single pool, as routes. -/
def getSingleHopSplit (quoteMap : HopQuoteMap) : List InternalRoute :=
  if 100 ∈ quoteMap.percents then
    (quoteMap.quotes 100).filterMap fun f =>
      match f.calculatedEdgeQuotes with
      | [oneHop] => some ⟨[f.quote], 100, oneHop.amountIn, oneHop.amountOut⟩
      | _ => none
  else []

section Routes

variable (sampling : Sampling) (fuel : ℕ)

/-- The best routes of a quote map, before they are converted. -/
def sortedRoutes (quoteMap : HopQuoteMap) (amountSpecifiedIsInput : Bool) (opts : RoutingOptions) :
    Result (List InternalRoute) :=
  getRankedRoutes sampling fuel quoteMap.quoteMap amountSpecifiedIsInput opts.numTopRoutes
    opts.maxSplits >>= fun ranked =>
  .ok (sortBy (getRouteCompareFn amountSpecifiedIsInput) (ranked ++ getSingleHopSplit quoteMap))

def getBestRoutesFromQuoteMap (quoteMap : HopQuoteMap) (amountSpecifiedIsInput : Bool)
    (opts : RoutingOptions) : Result (List TradeRoute) :=
  sortedRoutes sampling fuel quoteMap amountSpecifiedIsInput opts >>= fun sortedRoutes =>
  .ok (convertInternalRoutesToTradeRoutes sortedRoutes)

variable (lib : CommonSdk) (spl : SplToken) (fetcher : Fetcher)

/-- Find the routes of a trade. -/
def findAllRoutes (poolGraph : AdjacencyListPoolGraph) (trade : Trade) (opts : RoutingOptions) :
    Except RouteQueryError (List TradeRoute) :=
  let paths := poolGraph.getPath none trade.tokenIn trade.tokenOut
  if paths.length = 0 then
    .error ⟨s!"Could not find route for {trade.tokenIn.text} -> {trade.tokenOut.text}",
      .routeDoesNotExist⟩
  else if trade.tradeAmount = 0 then
    .error ⟨"findBestRoutes error - input amount is zero.", .zeroInputAmount⟩
  else
    let general : RouteQueryError := ⟨"Stack error received on quote generation.", .general⟩
    (getQuoteMap lib spl fetcher trade paths opts).mapError (fun _ => general)
      >>= fun (quoteMap, failures) =>
    (getBestRoutesFromQuoteMap sampling fuel quoteMap trade.amountSpecifiedIsInput opts).mapError
      (fun _ => general) >>= fun bestRoutes =>
    if bestRoutes.length = 0 ∧ hasError failures (some (.quote .tickArraySequenceInvalid)) then
      .error ⟨"All swap quote generation failed on amount too high.", .tradeAmountTooHigh⟩
    else .ok bestRoutes

end Routes

end Whirlpools.Sdk
