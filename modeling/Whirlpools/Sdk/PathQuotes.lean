import Whirlpools.Foundation.Batch
import Whirlpools.Sdk.QuoteMap

/-! # The quotes of a path alone

A part of the trade is quoted over a path pool by pool, each with what the pool before it leaves.
The quote map does so for all parts and all paths at once. A path and a percent have a cell of their
own there, so what the cell ends with is the quote of that path alone. -/

namespace Whirlpools.Sdk

open Outcome

section Params

variable {fetcher : Fetcher}

/-- The slices of the gathered addresses are the addresses of the requests. -/
theorem gathered_slices (tickArrayRequests : List TickArrayRequest)
    (addresses : List (Address × ℤ)) (places : List (ℕ × ℕ)) :
    ∃ later laterPlaces, tickArrayRequests.foldl (fun gathered request =>
        (gathered.1 ++ request.addresses,
          gathered.2 ++ [(gathered.1.length, gathered.1.length + request.addresses.length)]))
        (addresses, places) = (addresses ++ later, places ++ laterPlaces) ∧
      laterPlaces.map (slice (addresses ++ later)) =
        tickArrayRequests.map TickArrayRequest.addresses := by
  induction tickArrayRequests generalizing addresses places with
  | nil => exact ⟨[], [], by rw [List.foldl_nil, List.append_nil, List.append_nil], rfl⟩
  | cons request requests ih =>
      obtain ⟨later, laterPlaces, gathered, slices⟩ := ih (addresses ++ request.addresses)
        (places ++ [(addresses.length, addresses.length + request.addresses.length)])
      refine ⟨request.addresses ++ later,
        (addresses.length, addresses.length + request.addresses.length) :: laterPlaces, ?_, ?_⟩
      · rw [List.foldl_cons, gathered, List.append_assoc, List.append_assoc]
        rfl
      · rw [List.map_cons, List.map_cons, ← slices, ← List.append_assoc]
        refine congrArg (· :: _) ?_
        unfold slice
        rw [List.append_assoc, List.drop_left, Nat.add_sub_cancel_left, List.take_left]

/-- What is fetched together is what each request would fetch alone. -/
theorem getBatchTickArrays_eq (tickArrayRequests : List TickArrayRequest) :
    SwapUtils.getBatchTickArrays fetcher tickArrayRequests = tickArrayRequests.map fun request =>
      request.addresses.map fun address => (address, fetcher.getTickArray address) := by
  obtain ⟨addresses, places, gathered, slices⟩ := gathered_slices tickArrayRequests [] []
  simp only [List.nil_append] at gathered slices
  unfold SwapUtils.getBatchTickArrays
  dsimp only
  rw [gathered]
  have fetched (indices : ℕ × ℕ) : (slice addresses indices).zip
      (slice (addresses.map fetcher.getTickArray) indices) =
        (slice addresses indices).map fun address => (address, fetcher.getTickArray address) := by
    unfold slice
    rw [← List.map_drop, ← List.map_take, ← List.map_prod_left_eq_zip]
  calc places.map _ = places.map fun indices => (slice addresses indices).map fun address =>
          (address, fetcher.getTickArray address) := List.map_congr_left fun indices _ =>
            fetched indices
    _ = (places.map (slice addresses)).map fun addresses => addresses.map fun address =>
          (address, fetcher.getTickArray address) := (List.map_map ..).symm
    _ = _ := by rw [slices, List.map_map]; rfl

/-- The parameters of a quote built alone. -/
def buildSwapQuoteParams (fetcher : Fetcher) (quoteReq : SwapQuoteRequest) :
    Attempt (SwapQuoteParam (Address × ℤ)) :=
  swapTarget fetcher quoteReq >>= fun target =>
  .ok (swapQuoteParam quoteReq target ((tickArrayRequest quoteReq target).addresses.map
    fun address => (address, fetcher.getTickArray address)))

/-- A batch of requests is built one by one. -/
theorem batchBuildSwapQuoteParams_eq (quoteRequests : List SwapQuoteRequest) :
    batchBuildSwapQuoteParams fetcher quoteRequests =
      quoteRequests.mapM (buildSwapQuoteParams fetcher) := by
  refine Eq.trans ?_ (mapM_bind_ok quoteRequests).symm
  unfold batchBuildSwapQuoteParams
  refine congrArg _ (funext fun targets => congrArg Except.ok ?_)
  rw [getBatchTickArrays_eq, List.map_map, ← List.map_prod_left_eq_zip, List.map_map]
  rfl

end Params

section Plain

variable (lib : CommonSdk) (spl : SplToken) (fetcher : Fetcher)

/-- The quote of a hop alone. -/
def hopQuote (request : SwapQuoteRequest) : Attempt TradeHopQuoteResult :=
  buildSwapQuoteParams fetcher request >>= fun swapParam =>
  .ok (tradeHopQuote lib spl fetcher request.whirlpool swapParam)

/-- The token and the amount that the next quote is for. -/
def TradeHop.next (hop : TradeHop) (amountSpecifiedIsInput : Bool) : Address × BN :=
  if amountSpecifiedIsInput then (hop.outputMint, hop.amountOut)
  else (hop.inputMint, hop.amountIn)

/-- Quote pool by pool, up to the first failure. -/
def quotePools (amountSpecifiedIsInput : Bool) :
    Address × BN → List Address → Attempt (List TradeHop × Option (Option HopErrorCode))
  | _, [] => .ok ([], none)
  | asked, pool :: pools =>
      hopQuote lib spl fetcher ⟨pool, asked.1, asked.2, amountSpecifiedIsInput⟩ >>= fun
      | .failure error => .ok ([], some error)
      | .success hop => quotePools amountSpecifiedIsInput (hop.next amountSpecifiedIsInput) pools
          >>= fun quoted => .ok (hop :: quoted.1, quoted.2)

end Plain

/-- From the end that is specified to the other one. -/
def inOrder {α : Type} (amountSpecifiedIsInput : Bool) (items : List α) : List α :=
  if amountSpecifiedIsInput then items else items.reverse

section Rounds

variable (lib : CommonSdk) (spl : SplToken) (fetcher : Fetcher) (trade : Trade)

/-- A part of the trade and a path, and its cell of the quote map. -/
abbrev Part : Type := (ℕ+ × BN) × (Path × ℕ)

def Part.place (part : Part) : ℕ+ × ℕ := (part.1.1, part.2.2)

def parts (paths : List Path) (shares : List (ℕ+ × BN)) : List Part :=
  shares.flatMap fun share => paths.zipIdx.map (Prod.mk share)

/-- What a hop is for a part: it asks for the quote of the hop, and notes it. -/
def hopRound (hop : ℕ) :
    Batch.Round Part (Option InternalPathQuote) SwapQuoteRequest TradeHopQuoteResult Thrown where
  ask := fun part cell => hopRequest trade.tokenIn trade.tokenOut hop trade.amountSpecifiedIsInput
    part.2.1 part.1.1 part.1.2 cell
  answer := hopQuote lib spl fetcher
  note := fun _ cell result => cell.map fun quote => quote.setHop hop result

variable {lib spl fetcher trade} {hop : ℕ} {paths : List Path} {shares : List (ℕ+ × BN)}

/-- The request of a part in a batch. -/
def Part.update (hop : ℕ) (asked : (Part × SwapQuoteRequest) × ℕ) : QuoteRequest :=
  ⟨asked.2, asked.1.1.2.2, hop, asked.1.1.1.1, asked.1.2⟩

/-- The updates of a hop, as far as the parts have asked. -/
structure Gathered (hop : ℕ) (percents : List ℕ+) (updates : InternalQuoteMap × List QuoteRequest)
    (asked : (ℕ+ × ℕ → Option InternalPathQuote) × List (Part × SwapQuoteRequest)) : Prop where
  cells : updates.1.quotes = asked.1
  percents : updates.1.percents = percents
  requests : updates.2 = asked.2.zipIdx.map (Part.update hop)

/-- Opening a percent adds it and keeps the others. -/
theorem mem_openPercent {quoteMap : InternalQuoteMap} {percent other : ℕ+} :
    other ∈ (quoteMap.openPercent percent).percents ↔
      other = percent ∨ other ∈ quoteMap.percents := by
  unfold InternalQuoteMap.openPercent
  dsimp only
  split_ifs with known
  · exact ⟨Or.inr, fun either => either.elim (fun same => same ▸ known) id⟩
  · exact List.mem_orderedInsert _

/-- The paths ask for a part as they do in the round. -/
theorem gathered_share {percents : List ℕ+} {updates : InternalQuoteMap × List QuoteRequest}
    {asked asked' : (ℕ+ × ℕ → Option InternalPathQuote) × List (Part × SwapQuoteRequest)}
    (related : Gathered hop percents updates asked) (share : ℕ+ × BN)
    (gathered : (paths.zipIdx.map (Prod.mk share)).foldlM
      ((hopRound lib spl fetcher trade hop).gather Part.place) asked = .ok asked') :
    ∃ updates', paths.zipIdx.foldlM (fun (updates : InternalQuoteMap × List QuoteRequest) entry =>
        hopRequest trade.tokenIn trade.tokenOut hop trade.amountSpecifiedIsInput entry.1 share.1
          share.2 (updates.1.quotes (share.1, entry.2)) >>= fun asked =>
        .ok (updates.1.set (share.1, entry.2) asked.1,
          updates.2 ++ (asked.2.map fun request =>
            QuoteRequest.mk updates.2.length entry.2 hop share.1 request).toList)) updates =
          .ok updates' ∧ Gathered hop percents updates' asked' := by
  rw [List.foldlM_map] at gathered
  refine Batch.foldlM_follows (Gathered hop percents) ?_ related gathered
  rintro updates ⟨cells, requests⟩ entry next - ⟨sameCells, samePercents, sameRequests⟩ stepped
  obtain ⟨result, answered, same⟩ := bind_eq_ok.mp stepped
  obtain rfl := Except.ok.inj same
  dsimp only at sameCells sameRequests
  refine ⟨_, bind_eq_ok.mpr ⟨result, ?_, rfl⟩, ?_, samePercents, ?_⟩
  · rw [sameCells]
    exact answered
  · exact congrArg (fun quotes => Function.update quotes _ _) sameCells
  · have length : updates.2.length = requests.length := by
      rw [sameRequests, List.length_map, List.length_zipIdx]
    dsimp only
    rw [length, List.zipIdx_append, List.map_append, ← sameRequests, Nat.zero_add]
    refine congrArg (_ ++ ·) ?_
    cases result.2 with
    | none => rfl
    | some request => rfl

/-- The requests of a hop are those of its round, and all percents are opened. -/
theorem buildQuoteUpdateRequests_follows {quoteMap : InternalQuoteMap}
    {cells : ℕ+ × ℕ → Option InternalPathQuote} {asked : List (Part × SwapQuoteRequest)}
    (gathered : (parts paths shares).foldlM ((hopRound lib spl fetcher trade hop).gather Part.place)
      (quoteMap.quotes, []) = .ok (cells, asked)) :
    ∃ quoteMap', buildQuoteUpdateRequests trade.tokenIn trade.tokenOut hop
        trade.amountSpecifiedIsInput paths shares quoteMap =
          .ok (quoteMap', asked.zipIdx.map (Part.update hop)) ∧
      quoteMap'.quotes = cells ∧
      ∀ percent, percent ∈ quoteMap'.percents ↔
        percent ∈ shares.map Prod.fst ∨ percent ∈ quoteMap.percents := by
  have start : Gathered hop quoteMap.percents (quoteMap, []) (quoteMap.quotes, []) :=
    ⟨rfl, rfl, rfl⟩
  unfold buildQuoteUpdateRequests
  generalize ([] : List QuoteRequest) = updates at start ⊢
  generalize ([] : List (Part × SwapQuoteRequest)) = earlier at start gathered
  generalize quoteMap.quotes = before at start gathered
  induction shares generalizing quoteMap updates before earlier with
  | nil =>
      obtain ⟨rfl, rfl⟩ := Prod.mk.inj (Except.ok.inj gathered)
      refine ⟨quoteMap, congrArg (fun updates => Except.ok (quoteMap, updates)) start.requests,
        start.cells, fun percent => ?_⟩
      rw [List.map_nil, List.mem_nil_iff, false_or]
  | cons share shares ih =>
      unfold parts at gathered
      rw [List.flatMap_cons, List.foldlM_append, bind_eq_ok] at gathered
      obtain ⟨middle, first, rest⟩ := gathered
      have opened : Gathered hop (quoteMap.openPercent share.1).percents
          (quoteMap.openPercent share.1, updates) (before, earlier) :=
        ⟨start.cells, rfl, start.requests⟩
      obtain ⟨⟨quoteMap', updates'⟩, stepped, related⟩ := gathered_share opened share first
      obtain ⟨final, returned, cells, percents⟩ := ih updates' middle.2 middle.1
        ⟨related.cells, rfl, related.requests⟩ rest
      refine ⟨final, ?_, cells, fun percent => (percents percent).trans ?_⟩
      · rw [List.foldlM_cons, stepped]
        exact returned
      · rw [related.percents, mem_openPercent, List.map_cons, List.mem_cons]
        tauto

/-- The quotes of a hop are noted as in its round. -/
theorem populateQuoteMap_follows {asked : List (Part × SwapQuoteRequest)}
    {listed params : List (SwapQuoteParam (Address × ℤ))} {start : ℕ}
    (suffix : listed.drop start = params)
    (length : asked.length = params.length) (quoteMap : InternalQuoteMap) :
    let quoteMap' := populateQuoteMap lib spl fetcher ((asked.zipIdx start).map (Part.update hop))
      listed
      quoteMap
    quoteMap'.percents = quoteMap.percents ∧
      quoteMap'.quotes = ((asked.map Prod.fst).zip ((asked.zip params).map fun pair =>
        tradeHopQuote lib spl fetcher pair.1.2.whirlpool pair.2)).foldl
          ((hopRound lib spl fetcher trade hop).write Part.place) quoteMap.quotes := by
  induction asked generalizing params start quoteMap with
  | nil => exact ⟨rfl, rfl⟩
  | cons first asked ih =>
      obtain - | ⟨param, params⟩ := params
      · exact absurd length (Nat.succ_ne_zero _)
      have found : listed[start]? = some param := by
        rw [← Nat.add_zero start, ← List.getElem?_drop, suffix]
        rfl
      have later : listed.drop (start + 1) = params := by
        rw [← List.drop_drop, suffix]
        rfl
      obtain ⟨percents, quotes⟩ := ih later (Nat.succ.inj length) (quoteMap.set first.1.place
        ((quoteMap.quotes first.1.place).map fun path => path.setHop hop
          (tradeHopQuote lib spl fetcher first.2.whirlpool param)))
      unfold populateQuoteMap at percents quotes ⊢
      rw [List.zipIdx_cons, List.map_cons, List.foldl_cons]
      simp only [Part.update, found]
      exact ⟨percents, quotes⟩

/-- A hop is quoted as its round runs. -/
theorem quoteHop_follows {quoteMap : InternalQuoteMap} {cells : ℕ+ × ℕ → Option InternalPathQuote}
    (ran : (hopRound lib spl fetcher trade hop).run Part.place (parts paths shares)
      quoteMap.quotes = .ok cells) :
    ∃ quoteMap', quoteHop lib spl fetcher trade paths shares quoteMap hop = .ok quoteMap' ∧
      quoteMap'.quotes = cells ∧
      ∀ percent, percent ∈ quoteMap'.percents ↔
        percent ∈ shares.map Prod.fst ∨ percent ∈ quoteMap.percents := by
  obtain ⟨⟨before, asked⟩, gathered, rest⟩ := bind_eq_ok.mp ran
  obtain ⟨answers, answered, same⟩ := bind_eq_ok.mp rest
  obtain rfl := Except.ok.inj same
  obtain ⟨requested, built, rfl, percents⟩ := buildQuoteUpdateRequests_follows gathered
  obtain ⟨params, given, same⟩ := bind_eq_ok.mp ((mapM_bind_ok asked).symm.trans answered)
  obtain rfl := Except.ok.inj same
  have requests : (asked.zipIdx.map (Part.update hop)).map QuoteRequest.request =
      asked.map Prod.snd := by
    rw [List.map_map, ← List.zipIdx_map_fst 0 asked, List.map_map, List.zipIdx_map_fst]
    rfl
  obtain ⟨samePercents, sameQuotes⟩ := @populateQuoteMap_follows lib spl fetcher trade hop asked
    params params 0 rfl (mapM_eq_ok.mp given).length_eq requested
  refine ⟨_, ?_, sameQuotes, fun percent => ?_⟩
  · unfold quoteHop
    rw [built, ok_bind, batchBuildSwapQuoteParams_eq, requests, List.mapM_map]
    exact bind_eq_ok.mpr ⟨params, given, rfl⟩
  · rw [samePercents]
    exact percents percent

end Rounds

section Alone

variable {lib : CommonSdk} {spl : SplToken} {fetcher : Fetcher} {trade : Trade}
  {share : ℕ+ × BN} {path : Path} {pathIndex : ℕ}

/-- The hop at a position from the end that is specified. -/
def hopAt (amountSpecifiedIsInput : Bool) (length position : ℕ) : ℕ :=
  if amountSpecifiedIsInput then position else length - 1 - position

/-- The hop at a place is found from the end when the output is given. -/
theorem inOrder_getElem? {α : Type} {amountSpecifiedIsInput : Bool} {items : List α} {position : ℕ}
    (inside : position < items.length) :
    (inOrder amountSpecifiedIsInput items)[hopAt amountSpecifiedIsInput items.length position]? =
      items[position]? := by
  cases amountSpecifiedIsInput
  · change items.reverse[items.length - 1 - position]? = _
    rw [List.getElem?_reverse (by omega)]
    exact congrArg (items[·]?) (by omega)
  · rfl

/-- A hop is written at the place where it is found. -/
theorem inOrder_set {α : Type} {amountSpecifiedIsInput : Bool} {items : List α} {position : ℕ}
    (inside : position < items.length) (item : α) :
    (inOrder amountSpecifiedIsInput items).set
        (hopAt amountSpecifiedIsInput items.length position) item =
      inOrder amountSpecifiedIsInput (items.set position item) := by
  cases amountSpecifiedIsInput
  · change items.reverse.set (items.length - 1 - position) item = (items.set position item).reverse
    refine List.ext_getElem
      (by simp only [List.length_set, List.length_reverse]) fun other low _ => ?_
    simp only [List.length_set, List.length_reverse] at low
    simp only [List.getElem_set, List.getElem_reverse, List.length_set]
    exact if_congr (by omega) rfl rfl
  · rfl

theorem length_inOrder {α : Type} (amountSpecifiedIsInput : Bool) (items : List α) :
    (inOrder amountSpecifiedIsInput items).length = items.length := by
  cases amountSpecifiedIsInput
  · exact List.length_reverse
  · rfl

theorem inOrder_inOrder {α : Type} (amountSpecifiedIsInput : Bool) (items : List α) :
    inOrder amountSpecifiedIsInput (inOrder amountSpecifiedIsInput items) = items := by
  cases amountSpecifiedIsInput
  · exact List.reverse_reverse items
  · rfl

/-- The results so far, with the places of the hops that are not quoted yet. -/
def padded (length : ℕ) (results : List TradeHopQuoteResult) : List (Option TradeHopQuoteResult) :=
  results.map some ++ List.replicate (length - results.length) none

theorem padded_push {length : ℕ} {results : List TradeHopQuoteResult}
    (below : results.length < length) (result : TradeHopQuoteResult) :
    (padded length results).set results.length (some result) =
      padded length (results ++ [result]) := by
  unfold padded
  obtain ⟨missing, enough⟩ : ∃ missing, length - results.length = missing + 1 :=
    ⟨length - results.length - 1, by omega⟩
  rw [List.set_append_right _ _ (List.length_map ..).le, List.length_map, Nat.sub_self, enough,
    List.replicate_succ, List.set_cons_zero, List.map_append, List.append_assoc,
    List.length_append, List.length_singleton, Nat.sub_add_eq, enough]
  rfl

/-- The places filled hold the results, the others none. -/
theorem padded_getElem? {length : ℕ} {results : List TradeHopQuoteResult} {position : ℕ}
    (inside : position < length) : (padded length results)[position]? =
      some results[position]? := by
  unfold padded
  by_cases noted : position < results.length
  · rw [List.getElem?_append_left (by rwa [List.length_map]), List.getElem?_map,
      List.getElem?_eq_getElem noted]
    rfl
  · rw [List.getElem?_append_right (by rw [List.length_map]; omega), List.length_map,
      List.getElem?_replicate_of_lt (by omega), List.getElem?_eq_none (by omega)]

theorem length_padded {length : ℕ} {results : List TradeHopQuoteResult}
    (within : results.length ≤ length) : (padded length results).length = length := by
  rw [padded, List.length_append, List.length_map, List.length_replicate]
  omega

/-- The quote of a part with these results, from the end that is specified. -/
def partQuote (trade : Trade) (share : ℕ+ × BN) (path : Path) (results : List TradeHopQuoteResult) :
    InternalPathQuote where
  path := path
  edgesPoolAddrs := path.edges.map Edge.poolAddress
  splitPercent := share.1
  calculatedEdgeQuotes := inOrder trade.amountSpecifiedIsInput (padded path.edges.length results)

/-- What is quoted first, or after these hops. -/
def Trade.asked (trade : Trade) (share : ℕ+ × BN) (done : List TradeHop) : Address × BN :=
  match done.getLast? with
  | some hop => hop.next trade.amountSpecifiedIsInput
  | none => (if trade.amountSpecifiedIsInput then trade.tokenIn else trade.tokenOut, share.2)

/-- A hop beyond the path does nothing. -/
theorem alone_beyond {hop : ℕ} (beyond : path.edges.length ≤ hop)
    (cell : Option InternalPathQuote) :
    (hopRound lib spl fetcher trade hop).alone (share, path, pathIndex) cell = .ok cell := by
  unfold Batch.Round.alone hopRound hopRequest
  dsimp only
  rw [if_pos beyond, ok_bind]

/-- A path is started at the first position. -/
theorem startingRouteEval_iff {position : ℕ} (inside : position < path.edges.length) :
    startingRouteEval (hopAt trade.amountSpecifiedIsInput path.edges.length position)
      trade.amountSpecifiedIsInput path.edges ↔ position = 0 := by
  unfold startingRouteEval hopAt
  cases trade.amountSpecifiedIsInput
  · simp only [Bool.false_eq_true, ↓reduceIte]
    omega
  · simp only [↓reduceIte]

/-- Before the first hop the quote is that of the whole amount. -/
theorem partQuote_nil : partQuote trade share path [] = InternalPathQuote.start path share.1 := by
  have blank : inOrder trade.amountSpecifiedIsInput (padded path.edges.length []) =
      List.replicate path.edges.length none := by
    cases trade.amountSpecifiedIsInput
    · exact List.reverse_replicate
    · rfl
  unfold partQuote
  rw [blank]
  rfl

/-- The quote of the position before. -/
theorem lastHop_partQuote {results : List TradeHopQuoteResult} {position : ℕ} (later : position ≠ 0)
    (inside : position < path.edges.length) (within : results.length ≤ path.edges.length) :
    (partQuote trade share path results).lastHop
        (hopAt trade.amountSpecifiedIsInput path.edges.length position)
        trade.amountSpecifiedIsInput = some results[position - 1]? := by
  have before := @inOrder_getElem? _ trade.amountSpecifiedIsInput (padded path.edges.length results)
    (position - 1) (by rw [length_padded within]; omega)
  rw [length_padded within, padded_getElem? (by omega)] at before
  rw [← before]
  unfold InternalPathQuote.lastHop hopAt partQuote
  cases trade.amountSpecifiedIsInput
  · simp only [Bool.false_eq_true, ↓reduceIte]
    exact congrArg (_[·]?) (by omega)
  · simp only [↓reduceIte, if_neg later]

/-- What a part asks for at a position, after the hops that succeeded before. -/
theorem hopRequest_next {done : List TradeHop} {pool : Address}
    (found : (inOrder trade.amountSpecifiedIsInput
      (path.edges.map Edge.poolAddress))[done.length]? = some pool)
      {cell : Option InternalPathQuote}
    (quoted : done ≠ [] → cell = some (partQuote trade share path (done.map .success))) :
    hopRequest trade.tokenIn trade.tokenOut
        (hopAt trade.amountSpecifiedIsInput path.edges.length done.length)
        trade.amountSpecifiedIsInput path share.1 share.2 cell =
      .ok (some (partQuote trade share path (done.map .success)),
        some ⟨pool, (trade.asked share done).1, (trade.asked share done).2,
          trade.amountSpecifiedIsInput⟩) := by
  have inside : done.length < path.edges.length := by
    have low := (List.getElem?_eq_some_iff.mp found).1
    rwa [length_inOrder, List.length_map] at low
  have below : ¬ path.edges.length ≤
      hopAt trade.amountSpecifiedIsInput path.edges.length done.length := by
    unfold hopAt
    split_ifs <;> omega
  have pooled : (path.edges.map Edge.poolAddress)[hopAt trade.amountSpecifiedIsInput
      path.edges.length done.length]? = some pool := by
    rw [← found, ← @inOrder_getElem? _ trade.amountSpecifiedIsInput _ done.length
      (by rwa [length_inOrder, List.length_map]), inOrder_inOrder, length_inOrder, List.length_map]
  unfold hopRequest
  dsimp only
  rw [if_neg below, pooled]
  obtain - | ⟨first, rest⟩ := done
  · have starting := (@startingRouteEval_iff trade path 0 inside).mpr rfl
    rw [List.length_nil, if_pos starting, List.map_nil, partQuote_nil]
    simp only [okOr, ok_bind]
    exact if_pos starting
  · have started := (@startingRouteEval_iff trade path (first :: rest).length inside).not.mpr
      (Nat.succ_ne_zero _)
    obtain ⟨last, ends⟩ : ∃ last, (first :: rest).getLast? = some last :=
      ⟨_, List.getLast?_eq_some_getLast (List.cons_ne_nil first rest)⟩
    have before := @lastHop_partQuote trade share path ((first :: rest).map .success)
      (first :: rest).length (Nat.succ_ne_zero _) inside (by rw [List.length_map]; omega)
    rw [List.getElem?_map, ← List.getLast?_eq_getElem?, ends] at before
    rw [if_neg started, quoted (List.cons_ne_nil _ _)]
    simp only [okOr, ok_bind]
    rw [if_neg started, before]
    unfold Trade.asked TradeHop.next
    rw [ends]
    cases trade.amountSpecifiedIsInput
    · rfl
    · rfl

/-- The quote of a part at a position, after the hops that succeeded before. -/
theorem alone_next {done : List TradeHop} {pool : Address}
    (found : (inOrder trade.amountSpecifiedIsInput
      (path.edges.map Edge.poolAddress))[done.length]? = some pool)
      {cell : Option InternalPathQuote}
    (quoted : done ≠ [] → cell = some (partQuote trade share path (done.map .success))) :
    (hopRound lib spl fetcher trade
        (hopAt trade.amountSpecifiedIsInput path.edges.length done.length)).alone
          (share, path, pathIndex) cell =
      (hopQuote lib spl fetcher ⟨pool, (trade.asked share done).1, (trade.asked share done).2,
        trade.amountSpecifiedIsInput⟩ >>= fun result =>
      .ok (some (partQuote trade share path (done.map .success ++ [result])))) := by
  have inside : (done.map TradeHopQuoteResult.success).length < path.edges.length := by
    have low := (List.getElem?_eq_some_iff.mp found).1
    rwa [length_inOrder, List.length_map, ← List.length_map TradeHopQuoteResult.success] at low
  unfold Batch.Round.alone hopRound
  dsimp only
  rw [hopRequest_next found quoted, ok_bind]
  refine congrArg _ (funext fun result => congrArg Except.ok ?_)
  unfold partQuote InternalPathQuote.setHop
  have noted := @inOrder_set _ trade.amountSpecifiedIsInput
    (padded path.edges.length (done.map .success)) done.length
    (by rw [length_padded inside.le]; rwa [List.length_map] at inside) (some result)
  rw [length_padded inside.le] at noted
  have pushed := padded_push inside result
  rw [List.length_map] at pushed
  rw [Option.map_some, noted, pushed]

/-- Once a hop has failed, nothing else is asked. -/
theorem alone_failed {done : List TradeHop} {error : Option HopErrorCode} {position : ℕ}
    (later : done.length < position) (inside : position < path.edges.length) :
    (hopRound lib spl fetcher trade
        (hopAt trade.amountSpecifiedIsInput path.edges.length position)).alone
          (share, path, pathIndex)
            (some (partQuote trade share path (done.map .success ++ [.failure error]))) =
      .ok (some (partQuote trade share path (done.map .success ++ [.failure error]))) := by
  have below : ¬ path.edges.length ≤
      hopAt trade.amountSpecifiedIsInput path.edges.length position := by
    unfold hopAt
    split_ifs <;> omega
  have started := (@startingRouteEval_iff trade path position inside).not.mpr (by omega)
  have before := @lastHop_partQuote trade share path (done.map .success ++ [.failure error])
    position
    (by omega) inside (by rw [List.length_append, List.length_map, List.length_singleton]; omega)
  have missing : ∀ hop, (done.map TradeHopQuoteResult.success ++ [.failure error])[position - 1]? ≠
      some (.success hop) := by
    intro hop
    rw [List.getElem?_append_right (by rw [List.length_map]; omega)]
    intro same
    exact absurd (List.mem_singleton.mp (List.mem_of_getElem? same)) nofun
  unfold Batch.Round.alone hopRound hopRequest
  dsimp only
  obtain ⟨pool, pooled⟩ : ∃ pool, (path.edges.map Edge.poolAddress)[hopAt
      trade.amountSpecifiedIsInput path.edges.length position]? = some pool :=
    ⟨_, List.getElem?_eq_getElem (by rw [List.length_map]; exact Nat.lt_of_not_le below)⟩
  rw [if_neg below, if_neg started, okOr, ok_bind, pooled, okOr, ok_bind, if_neg started, before]
  split
  · next hop succeeded => exact absurd (Option.some.inj succeeded) (missing hop)
  · rfl

/-- After the hops that succeeded, the positions that are left quote the pools that are left. -/
theorem alone_rest {pools : List Address} {done : List TradeHop}
    (left : (inOrder trade.amountSpecifiedIsInput (path.edges.map Edge.poolAddress)).drop
      done.length = pools) {cell : Option InternalPathQuote}
    (quoted : pools = [] ∨ done ≠ [] →
      cell = some (partQuote trade share path (done.map .success)))
    {hops : List TradeHop} {error : Option (Option HopErrorCode)}
    (answered : quotePools lib spl fetcher trade.amountSpecifiedIsInput (trade.asked share done)
      pools = .ok (hops, error)) :
    ((List.range' done.length pools.length).map
        (hopAt trade.amountSpecifiedIsInput path.edges.length)).foldlM
          (fun cell hop => (hopRound lib spl fetcher trade hop).alone (share, path, pathIndex) cell)
          cell =
      .ok (some (partQuote trade share path
        ((done ++ hops).map .success ++ (error.map .failure).toList))) := by
  induction pools generalizing done cell hops error with
  | nil =>
      obtain ⟨rfl, rfl⟩ := Prod.mk.inj (Except.ok.inj answered)
      rw [quoted (.inl rfl), List.append_nil]
      simp only [Option.map_none, Option.toList_none, List.append_nil]
      rfl
  | cons pool pools ih =>
      have found : (inOrder trade.amountSpecifiedIsInput
          (path.edges.map Edge.poolAddress))[done.length]? = some pool := by
        rw [← Nat.add_zero done.length, ← List.getElem?_drop, left]
        rfl
      have length : done.length + (pools.length + 1) = path.edges.length := by
        have total := congrArg List.length left
        rw [List.length_drop, length_inOrder, List.length_map, List.length_cons] at total
        omega
      obtain ⟨result, given, rest⟩ := bind_eq_ok.mp answered
      rw [List.length_cons, List.range'_succ, List.map_cons, List.foldlM_cons,
        alone_next found fun present => quoted (.inr present), given, ok_bind, ok_bind]
      cases result with
      | failure code =>
          obtain ⟨rfl, rfl⟩ := Prod.mk.inj (Except.ok.inj rest)
          rw [List.append_nil]
          refine foldlM_stays fun hop member => ?_
          obtain ⟨position, inside, rfl⟩ := List.mem_map.mp member
          have bounds := List.mem_range'_1.mp inside
          exact alone_failed (by omega) (by omega)
      | success hop =>
          obtain ⟨⟨later, stopped⟩, following, same⟩ := bind_eq_ok.mp rest
          obtain ⟨rfl, rfl⟩ := Prod.mk.inj (Except.ok.inj same)
          have next : trade.asked share (done ++ [hop]) =
            hop.next trade.amountSpecifiedIsInput := by
            rw [Trade.asked, List.getLast?_concat]
          have more := @ih (done ++ [hop]) (by
              rw [List.length_append, ← List.drop_drop, left]
              rfl) (some (partQuote trade share path ((done ++ [hop]).map .success)))
            (fun _ => rfl) later stopped (by rw [next]; exact following)
          rw [List.length_append, List.append_assoc] at more
          rw [List.map_append] at more
          exact more

/-- The greatest length bounds each of them. -/
theorem le_foldl_max (lengths : List ℕ) (start : ℕ) :
    start ≤ lengths.foldl max start ∧ ∀ length ∈ lengths, length ≤ lengths.foldl max start := by
  induction lengths generalizing start with
  | nil => exact ⟨le_rfl, fun _ absent => absurd absent List.not_mem_nil⟩
  | cons first lengths ih =>
      obtain ⟨least, bounds⟩ := ih (max start first)
      refine ⟨(le_max_left _ _).trans least, ?_⟩
      rintro length (_ | ⟨_, member⟩)
      · exact (le_max_right _ _).trans least
      · exact bounds length member

/-- A path is quoted in its own order; the other hops are beyond it. -/
theorem hopOrder_split {paths : List Path} (member : path ∈ paths) (amountSpecifiedIsInput : Bool) :
    ∃ before after, hopOrder paths amountSpecifiedIsInput =
        before ++ ((List.range' 0 path.edges.length).map
          (hopAt amountSpecifiedIsInput path.edges.length) ++ after) ∧
      (∀ hop ∈ before, path.edges.length ≤ hop) ∧ ∀ hop ∈ after, path.edges.length ≤ hop := by
  obtain ⟨extra, longest⟩ := Nat.exists_eq_add_of_le ((le_foldl_max
    (paths.map fun path => path.edges.length) 0).2 _ (List.mem_map_of_mem member))
  have beyond (hop : ℕ) (late : hop ∈ List.range' path.edges.length extra) :
      path.edges.length ≤ hop := (List.mem_range'_1.mp late).1
  have every : List.range (path.edges.length + extra) =
      List.range' 0 path.edges.length ++ List.range' path.edges.length extra := by
    rw [List.range_eq_range', ← List.range'_append_1, Nat.zero_add]
  unfold hopOrder
  dsimp only
  rw [longest, every]
  cases amountSpecifiedIsInput
  · refine ⟨(List.range' path.edges.length extra).reverse, [], ?_, fun hop late =>
      beyond hop (List.mem_reverse.mp late), fun _ absent => absurd absent List.not_mem_nil⟩
    have own : (List.range' 0 path.edges.length).reverse =
        (List.range' 0 path.edges.length).map (hopAt false path.edges.length) := by
      rw [List.reverse_range', ← List.range_eq_range', Nat.zero_add]
      rfl
    rw [if_neg Bool.false_ne_true, List.reverse_append, List.append_nil, own]
  · refine ⟨[], List.range' path.edges.length extra, ?_, fun _ absent =>
      absurd absent List.not_mem_nil, beyond⟩
    rw [if_pos rfl, List.nil_append]
    exact congrArg (· ++ _) (List.map_id _).symm

theorem hopOrder_ne_nil {paths : List Path} (member : path ∈ paths) (nonempty : path.edges ≠ [])
    (amountSpecifiedIsInput : Bool) : hopOrder paths amountSpecifiedIsInput ≠ [] := by
  obtain ⟨before, after, order, -⟩ := hopOrder_split member amountSpecifiedIsInput
  have present : (List.range' 0 path.edges.length).map
      (hopAt amountSpecifiedIsInput path.edges.length) ≠ [] := fun absent => nonempty
    (List.eq_nil_of_length_eq_zero (by
      simpa only [List.length_map, List.length_range', List.length_nil] using
        congrArg List.length absent))
  rw [order]
  exact List.append_ne_nil_of_right_ne_nil _ (List.append_ne_nil_of_left_ne_nil present _)

/-- The cell of a part, over all hops. -/
theorem alone_hopOrder {paths : List Path} (member : path ∈ paths) (nonempty : path.edges ≠ [])
    {hops : List TradeHop} {error : Option (Option HopErrorCode)}
    (answered : quotePools lib spl fetcher trade.amountSpecifiedIsInput (trade.asked share [])
      (inOrder trade.amountSpecifiedIsInput (path.edges.map Edge.poolAddress)) =
        .ok (hops, error)) :
    (hopOrder paths trade.amountSpecifiedIsInput).foldlM
        (fun cell hop => (hopRound lib spl fetcher trade hop).alone (share, path, pathIndex) cell)
        none =
      .ok (some (partQuote trade share path
        (hops.map .success ++ (error.map .failure).toList))) := by
  obtain ⟨before, after, order, early, late⟩ := hopOrder_split member trade.amountSpecifiedIsInput
  have length : (inOrder trade.amountSpecifiedIsInput (path.edges.map Edge.poolAddress)).length =
      path.edges.length := (length_inOrder _ _).trans (List.length_map _)
  have pooled : inOrder trade.amountSpecifiedIsInput (path.edges.map Edge.poolAddress) ≠ [] :=
    fun absent => nonempty
      (List.eq_nil_of_length_eq_zero (length.symm.trans (congrArg List.length absent)))
  have inside := @alone_rest lib spl fetcher trade share path pathIndex
    (inOrder trade.amountSpecifiedIsInput (path.edges.map Edge.poolAddress)) [] rfl none
    (fun either => (either.elim pooled fun present => present rfl).elim) hops error answered
  rw [length] at inside
  rw [order, List.foldlM_append, foldlM_stays fun hop member => alone_beyond
    (early hop member) none, ok_bind, List.foldlM_append]
  refine bind_eq_ok.mpr ⟨_, inside, ?_⟩
  exact foldlM_stays fun hop member => alone_beyond (late hop member) _

end Alone

end Whirlpools.Sdk
