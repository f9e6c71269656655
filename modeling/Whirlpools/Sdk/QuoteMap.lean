import Mathlib.Data.List.Sort
import Whirlpools.Sdk.ConvertQuoteMap
import Whirlpools.Sdk.SwapQuote

/-! # The quote map of a trade

A trade is quoted in parts: every percent of it over every path. The hops of all paths are quoted
together, one hop after the other, each with the amount that the hop before it gives or takes. The
parts that succeed at every hop are kept, the best ones of each percent first.

The accounts are those in the cache of the fetcher. Of a route, only what ranks it is kept in the
ranking; the quotes of its hops stay in the quote map.
-/

namespace Whirlpools.Sdk

open Outcome

/-- The cached accounts of pools and tick arrays, and the texts of public keys. A tick array is
found by its pool and its start. -/
structure Fetcher where
  toBase58 : Pubkey → Address
  toPubKey : Address → Pubkey
  toPubKey_toBase58 : ∀ key, toPubKey (toBase58 key) = key
  getPool : Address → Option Whirlpool
  getTickArray : Address × ℤ → Option TickArray

inductive TokenType where
  | tokenA
  | tokenB
  deriving DecidableEq

inductive SwapDirection where
  | aToB
  | bToA
  deriving DecidableEq

def PoolUtil.getTokenType (pool : Whirlpool) (mint : Pubkey) : Option TokenType :=
  if pool.tokenMintA = mint then some .tokenA
  else if pool.tokenMintB = mint then some .tokenB
  else none

/-- Stored as hundredths of a basis point. -/
def PoolUtil.getFeeRate (feeRate : ℕ) : Percentage := ⟨feeRate, 1000000⟩

/-- The direction of a swap of a token; a token that is not of the pool has none. -/
def SwapUtils.getSwapDirection (pool : Whirlpool) (swapTokenMint : Pubkey)
    (swapTokenIsInput : Bool) : Option SwapDirection :=
  (PoolUtil.getTokenType pool swapTokenMint).map fun tokenType =>
    if (tokenType = .tokenA : Bool) = swapTokenIsInput then .aToB else .bToA

section TickArrays

structure TickArrayRequest where
  whirlpoolAddress : Address
  tickCurrentIndex : ℤ
  tickSpacing : ℕ
  aToB : Bool

/-- The addresses of the tick arrays of a request. -/
def TickArrayRequest.addresses (request : TickArrayRequest) : List (Address × ℤ) :=
  SwapUtils.getTickArrayPublicKeys (Prod.mk request.whirlpoolAddress) request.tickCurrentIndex
    request.tickSpacing request.aToB

def slice {α : Type} (items : List α) (indices : ℕ × ℕ) : List α :=
  (items.drop indices.1).take (indices.2 - indices.1)

/-- Fetch the tick arrays of all requests together, and map them back to the requests. -/
def SwapUtils.getBatchTickArrays (fetcher : Fetcher) (tickArrayRequests : List TickArrayRequest) :
    List (List ((Address × ℤ) × Option TickArray)) :=
  let gathered := tickArrayRequests.foldl (fun gathered request =>
    (gathered.1 ++ request.addresses,
      gathered.2 ++ [(gathered.1.length, gathered.1.length + request.addresses.length)]))
    (([], []) : List (Address × ℤ) × List (ℕ × ℕ))
  let addresses := gathered.1
  let requestToIndices := gathered.2
  let data := addresses.map fetcher.getTickArray
  requestToIndices.map fun indices => (slice addresses indices).zip (slice data indices)

end TickArrays

structure SwapQuoteRequest where
  whirlpool : Address
  tradeTokenMint : Address
  tokenAmount : BN
  amountSpecifiedIsInput : Bool

/-- The pool of a request, and the direction of its swap. -/
def swapTarget (fetcher : Fetcher) (quoteReq : SwapQuoteRequest) : Attempt (Whirlpool × Bool) :=
  okOr (fetcher.getPool quoteReq.whirlpool) (.error "Cannot read properties of undefined")
    >>= fun whirlpoolData =>
  let swapMintKey := fetcher.toPubKey quoteReq.tradeTokenMint
  let swapTokenType := PoolUtil.getTokenType whirlpoolData swapMintKey
  invariant swapTokenType.isSome "swapTokenMint does not match any tokens on this pool" >>= fun _ =>
  .ok (whirlpoolData, SwapUtils.getSwapDirection whirlpoolData swapMintKey
    quoteReq.amountSpecifiedIsInput = some .aToB)

/-- The parameters of a quote on a pool; the router does not support token extensions. -/
def swapQuoteParam (quoteReq : SwapQuoteRequest) (target : Whirlpool × Bool)
    (tickArrays : List ((Address × ℤ) × Option TickArray)) : SwapQuoteParam (Address × ℤ) where
  whirlpoolData := target.1
  tokenAmount := quoteReq.tokenAmount
  aToB := target.2
  amountSpecifiedIsInput := quoteReq.amountSpecifiedIsInput
  sqrtPriceLimit := getDefaultSqrtPriceLimit target.2
  otherAmountThreshold := getDefaultOtherAmountThreshold quoteReq.amountSpecifiedIsInput
  tickArrays := tickArrays
  tokenExtensionCtx := ⟨none, none⟩

/-- The tick arrays of a request on a pool. -/
def tickArrayRequest (quoteReq : SwapQuoteRequest) (target : Whirlpool × Bool) :
    TickArrayRequest where
  whirlpoolAddress := quoteReq.whirlpool
  tickCurrentIndex := target.1.tickCurrentIndex
  tickSpacing := target.1.tickSpacing
  aToB := target.2

/-- The parameters of all quotes of a batch. -/
def batchBuildSwapQuoteParams (fetcher : Fetcher) (quoteRequests : List SwapQuoteRequest) :
    Attempt (List (SwapQuoteParam (Address × ℤ))) :=
  quoteRequests.mapM (swapTarget fetcher) >>= fun targets =>
  let requests := quoteRequests.zip targets
  let tickArrays := SwapUtils.getBatchTickArrays fetcher
    (requests.map fun request => tickArrayRequest request.1 request.2)
  .ok ((requests.zip tickArrays).map fun request =>
    swapQuoteParam request.1.1 request.1.2 request.2)

/-- The quote of a hop, with what its pool was like. -/
structure TradeHop where
  amountIn : BN
  amountOut : BN
  whirlpool : Address
  inputMint : Address
  outputMint : Address
  mintA : Address
  mintB : Address
  vaultA : Address
  vaultB : Address
  quote : SwapQuote (Address × ℤ)
  aToB : Bool
  sqrtPrice : BN
  feeRate : Percentage

/-- The code of what is thrown; only errors of the SDK have one. -/
inductive HopErrorCode where
  | quote (code : QuoteErrorCode)
  | computation (code : WhirlpoolsErrorCode)
  deriving DecidableEq

def QuoteThrown.errorCode : QuoteThrown → Option HopErrorCode
  | .whirlpoolsError _ code => some (.quote code)
  -- A quote and the sequence of its tick arrays share this code.
  | .thrown (.whirlpoolsError _ (.swap .tickArraySequenceInvalid)) =>
      some (.quote .tickArraySequenceInvalid)
  | .thrown (.whirlpoolsError _ code) => some (.computation code)
  | .thrown _ => none

inductive TradeHopQuoteResult where
  | success (hop : TradeHop)
  | failure (error : Option HopErrorCode)

/-- A path quoted for a percent of the trade; hops that are not quoted yet are missing. -/
structure InternalPathQuote where
  path : Path
  edgesPoolAddrs : List Address
  splitPercent : ℕ+
  calculatedEdgeQuotes : List (Option TradeHopQuoteResult)

/-- Quotes by percent and path. The keys are visited in ascending order; paths whose quotes have
not been started are missing. -/
structure InternalQuoteMap where
  percents : List ℕ+
  ascending : percents.Pairwise (· < ·)
  quotes : ℕ+ × ℕ → Option InternalPathQuote

namespace InternalQuoteMap

def empty : InternalQuoteMap := ⟨[], List.Pairwise.nil, fun _ => none⟩

/-- Add the key of a percent. -/
def openPercent (quoteMap : InternalQuoteMap) (percent : ℕ+) : InternalQuoteMap where
  percents := if percent ∈ quoteMap.percents then quoteMap.percents
    else quoteMap.percents.orderedInsert (· ≤ ·) percent
  ascending := by
    split_ifs with known
    · exact quoteMap.ascending
    · have sorted := (quoteMap.ascending.imp fun less => le_of_lt less).orderedInsert percent
      have distinct : (quoteMap.percents.orderedInsert (· ≤ ·) percent).Nodup :=
        (List.perm_orderedInsert _ _ _).nodup_iff.mpr (List.nodup_cons.mpr
          ⟨known, quoteMap.ascending.imp fun less => ne_of_lt less⟩)
      exact (sorted.and distinct).imp fun both => lt_of_le_of_ne both.1 both.2
  quotes := quoteMap.quotes

def set (quoteMap : InternalQuoteMap) (place : ℕ+ × ℕ) (quote : Option InternalPathQuote) :
    InternalQuoteMap :=
  { quoteMap with quotes := Function.update quoteMap.quotes place quote }

end InternalQuoteMap

/-- The parts of an amount, up to all of it in steps of a percent. -/
def getSplitPercentageAmts (inputAmount : BN) (minPercent : ℕ+) : List (ℕ+ × BN) :=
  (List.range (100 / minPercent)).map fun place =>
    (place.succPNat * minPercent, (inputAmount * (place.succPNat * minPercent : ℕ+)).tdiv 100)

/-- A request in a batch: where it stands in the batch, and where its quote belongs. -/
structure QuoteRequest where
  quoteIndex : ℕ
  pathIndex : ℕ
  edgeIndex : ℕ
  splitPercent : ℕ+
  request : SwapQuoteRequest

section Hops

variable (tokenIn tokenOut : Address) (hop : ℕ) (amountSpecifiedIsInput : Bool)

/-- Whether a path is quoted from this hop. -/
def startingRouteEval (edges : List Edge) : Prop :=
  if amountSpecifiedIsInput then hop = 0 else hop + 1 = edges.length

instance (edges : List Edge) : Decidable (startingRouteEval hop amountSpecifiedIsInput edges) := by
  unfold startingRouteEval
  infer_instance

/-- A path before its first quote. -/
def InternalPathQuote.start (path : Path) (percent : ℕ+) : InternalPathQuote where
  path := path
  splitPercent := percent
  edgesPoolAddrs := path.edges.map Edge.poolAddress
  calculatedEdgeQuotes := List.replicate path.edges.length none

/-- The quote of the hop before, in the order of the quotes. -/
def InternalPathQuote.lastHop (currentQuote : InternalPathQuote) :
    Option (Option TradeHopQuoteResult) :=
  if amountSpecifiedIsInput then
    if hop = 0 then none else currentQuote.calculatedEdgeQuotes[hop - 1]?
  else currentQuote.calculatedEdgeQuotes[hop + 1]?

/-- The quote of a path at a hop: a path that is quoted from here is started, and the request is
for the amount and the token that the hop before leaves, unless that has failed. -/
def hopRequest (path : Path) (percent : ℕ+) (tradeAmount : BN) (cell : Option InternalPathQuote) :
    Attempt (Option InternalPathQuote × Option SwapQuoteRequest) :=
  let edges := path.edges
  if edges.length ≤ hop then .ok (cell, none)
  else
    let poolsPath := edges.map Edge.poolAddress
    let cell := if startingRouteEval hop amountSpecifiedIsInput edges then
      some (InternalPathQuote.start path percent) else cell
    okOr cell (.error "Cannot read properties of undefined") >>= fun currentQuote =>
    okOr poolsPath[hop]? (.error "Cannot read properties of undefined") >>= fun poolAddr =>
    if startingRouteEval hop amountSpecifiedIsInput edges then
      .ok (cell, some {
        whirlpool := poolAddr
        tradeTokenMint := if amountSpecifiedIsInput then tokenIn else tokenOut
        tokenAmount := tradeAmount
        amountSpecifiedIsInput := amountSpecifiedIsInput })
    else
      match currentQuote.lastHop hop amountSpecifiedIsInput with
      | some (some (.success lastHop)) =>
          .ok (cell, some {
            whirlpool := poolAddr
            tradeTokenMint := if amountSpecifiedIsInput then lastHop.outputMint
              else lastHop.inputMint
            tokenAmount := if amountSpecifiedIsInput then lastHop.amountOut else lastHop.amountIn
            amountSpecifiedIsInput := amountSpecifiedIsInput })
      | _ => .ok (cell, none)

/-- The requests of a hop for all parts of the trade and all paths. -/
def buildQuoteUpdateRequests (paths : List Path) (shares : List (ℕ+ × BN))
    (quoteMap : InternalQuoteMap) : Attempt (InternalQuoteMap × List QuoteRequest) :=
  shares.foldlM (fun (updates : InternalQuoteMap × List QuoteRequest) share =>
    paths.zipIdx.foldlM (fun updates entry =>
      let place := (share.1, entry.2)
      hopRequest tokenIn tokenOut hop amountSpecifiedIsInput entry.1 share.1 share.2
        (updates.1.quotes place) >>= fun asked =>
      .ok (updates.1.set place asked.1, updates.2 ++ (asked.2.map fun request =>
        QuoteRequest.mk updates.2.length entry.2 hop share.1 request).toList))
      (updates.1.openPercent share.1, updates.2)) (quoteMap, [])

end Hops

section Populate

variable (lib : CommonSdk) (spl : SplToken) (fetcher : Fetcher)

/-- The quote of a hop without slippage. -/
def tradeHopQuote (whirlpool : Address) (swapParam : SwapQuoteParam (Address × ℤ)) :
    TradeHopQuoteResult :=
  match swapQuoteWithParams lib spl swapParam ⟨0, 1000⟩ with
  | .ok quote =>
      let whirlpoolData := swapParam.whirlpoolData
      let mintA := fetcher.toBase58 whirlpoolData.tokenMintA
      let mintB := fetcher.toBase58 whirlpoolData.tokenMintB
      .success {
        amountIn := if swapParam.amountSpecifiedIsInput then swapParam.tokenAmount
          else quote.estimatedAmountIn
        amountOut := if swapParam.amountSpecifiedIsInput then quote.estimatedAmountOut
          else swapParam.tokenAmount
        whirlpool := whirlpool
        inputMint := if swapParam.aToB then mintA else mintB
        outputMint := if swapParam.aToB then mintB else mintA
        mintA := mintA
        mintB := mintB
        vaultA := fetcher.toBase58 whirlpoolData.tokenVaultA
        vaultB := fetcher.toBase58 whirlpoolData.tokenVaultB
        quote := quote
        aToB := swapParam.aToB
        sqrtPrice := whirlpoolData.sqrtPrice
        feeRate := PoolUtil.getFeeRate whirlpoolData.feeRate }
  | .error thrown => .failure thrown.errorCode

/-- The quote of a path with the quote of one hop. -/
def InternalPathQuote.setHop (quote : InternalPathQuote) (edgeIndex : ℕ)
    (result : TradeHopQuoteResult) : InternalPathQuote :=
  { quote with calculatedEdgeQuotes := quote.calculatedEdgeQuotes.set edgeIndex (some result) }

/-- Quote the requests of a batch. -/
def populateQuoteMap (quoteUpdates : List QuoteRequest)
    (quoteParams : List (SwapQuoteParam (Address × ℤ))) (quoteMap : InternalQuoteMap) :
    InternalQuoteMap :=
  quoteUpdates.foldl (fun quoteMap update =>
    let place := (update.splitPercent, update.pathIndex)
    let result := match quoteParams[update.quoteIndex]? with
      | some swapParam => tradeHopQuote lib spl fetcher update.request.whirlpool swapParam
      | none => .failure none
    quoteMap.set place
      ((quoteMap.quotes place).map fun path => path.setHop update.edgeIndex result))
    quoteMap

end Populate

/-- A quote of a part of the trade over a path, with the quotes of its hops. -/
structure QuotedPath where
  quote : PathQuote
  calculatedEdgeQuotes : List TradeHop

/-- The quotes of a percent, with those of their hops. -/
structure HopQuoteMap where
  percents : List ℕ+
  ascending : percents.Pairwise (· < ·)
  quotes : ℕ+ → List QuotedPath

/-- What the ranking reads of the quotes. -/
def HopQuoteMap.quoteMap (hopQuotes : HopQuoteMap) : SanitizedQuoteMap where
  percents := hopQuotes.percents
  ascending := hopQuotes.ascending
  quotes := fun percent => (hopQuotes.quotes percent).map QuotedPath.quote

section Sanitize

def TradeHopQuoteResult.hop? : TradeHopQuoteResult → Option TradeHop
  | .success hop => some hop
  | .failure _ => none

def TradeHopQuoteResult.error? : TradeHopQuoteResult → Option (Option HopErrorCode)
  | .success _ => none
  | .failure error => some error

/-- Whether an error is noted. -/
def hasError (errors : List (Option HopErrorCode)) (error : Option HopErrorCode) : Bool :=
  decide (error ∈ errors)

/-- Note an error once. -/
def noteError (errors : List (Option HopErrorCode)) (error : Option HopErrorCode) :
    List (Option HopErrorCode) :=
  if hasError errors error then errors else errors ++ [error]

/-- The quotes that succeeded at each step are kept, and of the others the first error. -/
def cleanQuote (percent : ℕ+) (cleaned : List QuotedPath × List (Option HopErrorCode))
    (uncleanedQuote : Option InternalPathQuote) :
    Attempt (List QuotedPath × List (Option HopErrorCode)) :=
  okOr uncleanedQuote (.error "Cannot read properties of undefined") >>= fun uncleaned =>
  let filteredCalculatedEdges := uncleaned.calculatedEdgeQuotes.filterMap fun val =>
    val.bind TradeHopQuoteResult.hop?
  if filteredCalculatedEdges.length = uncleaned.edgesPoolAddrs.length then
    okOr filteredCalculatedEdges.head? (.error "Cannot read properties of undefined")
      >>= fun first =>
    okOr filteredCalculatedEdges.getLast? (.error "Cannot read properties of undefined")
      >>= fun last =>
    .ok (cleaned.1 ++ [⟨⟨uncleaned.path, uncleaned.edgesPoolAddrs.map Address.text, percent,
      first.amountIn, last.amountOut⟩, filteredCalculatedEdges⟩], cleaned.2)
  else
    let quoteFailures := uncleaned.calculatedEdgeQuotes.filterMap fun val =>
      val.bind TradeHopQuoteResult.error?
    okOr quoteFailures.head? (.error "Cannot read properties of undefined") >>= fun error =>
    .ok (cleaned.1, noteError cleaned.2 error)

/-- The order of the quotes of a percent. -/
def quoteCompare (amountSpecifiedIsInput : Bool) (a b : QuotedPath) : ℤ :=
  if amountSpecifiedIsInput then cmp b.quote.amountOut a.quote.amountOut
  else cmp a.quote.amountIn b.quote.amountIn

/-- Keep the best quotes of every percent, and the errors of the others. -/
def sanitizeQuoteMap (quoteMap : InternalQuoteMap) (numPaths pruneN : ℕ)
    (amountSpecifiedIsInput : Bool) : Attempt (HopQuoteMap × List (Option HopErrorCode)) :=
  quoteMap.percents.foldlM (fun (cleaned : (ℕ+ → List QuotedPath) × List (Option HopErrorCode))
      percent =>
    ((List.range numPaths).map fun pathIndex => quoteMap.quotes (percent, pathIndex)).foldlM
      (cleanQuote percent) ([], cleaned.2) >>= fun quotes =>
    .ok (Function.update cleaned.1 percent quotes.1, quotes.2)) ((fun _ => []), [])
    >>= fun cleaned =>
  .ok (⟨quoteMap.percents, quoteMap.ascending, fun percent =>
    (sortBy (quoteCompare amountSpecifiedIsInput) (cleaned.1 percent)).take pruneN⟩, cleaned.2)

end Sanitize

structure Trade where
  tokenIn : Address
  tokenOut : Address
  tradeAmount : BN
  amountSpecifiedIsInput : Bool

structure RoutingOptions where
  percentIncrement : ℕ+
  numTopRoutes : ℕ
  numTopPartialQuotes : ℕ
  maxSplits : ℕ

def RouterUtils.getDefaultRouteOptions : RoutingOptions := ⟨20, 50, 10, 3⟩

section Quotes

variable (lib : CommonSdk) (spl : SplToken) (fetcher : Fetcher)

/-- Quote one hop of all paths. -/
def quoteHop (trade : Trade) (paths : List Path) (shares : List (ℕ+ × BN))
    (quoteMap : InternalQuoteMap) (hop : ℕ) : Attempt InternalQuoteMap :=
  buildQuoteUpdateRequests trade.tokenIn trade.tokenOut hop trade.amountSpecifiedIsInput
    paths shares
    quoteMap >>= fun quoteUpdates =>
  batchBuildSwapQuoteParams fetcher (quoteUpdates.2.map QuoteRequest.request) >>= fun quoteParams =>
  .ok (populateQuoteMap lib spl fetcher quoteUpdates.2 quoteParams quoteUpdates.1)

/-- The hops in the order of the quotes: the last one first when the output is specified. -/
def hopOrder (paths : List Path) (amountSpecifiedIsInput : Bool) : List ℕ :=
  let maxRouteLength := (paths.map fun path => path.edges.length).foldl max 0
  if amountSpecifiedIsInput then List.range maxRouteLength else (List.range maxRouteLength).reverse

def getQuoteMap (trade : Trade) (paths : List Path) (opts : RoutingOptions) :
    Attempt (HopQuoteMap × List (Option HopErrorCode)) :=
  let shares := getSplitPercentageAmts trade.tradeAmount opts.percentIncrement
  (hopOrder paths trade.amountSpecifiedIsInput).foldlM (quoteHop lib spl fetcher trade paths shares)
    .empty >>= fun quoteMap =>
  sanitizeQuoteMap quoteMap paths.length opts.numTopPartialQuotes trade.amountSpecifiedIsInput

end Quotes

end Whirlpools.Sdk
