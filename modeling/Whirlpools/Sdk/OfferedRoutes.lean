import Mathlib.Data.Int.DivMod
import Whirlpools.Sdk.PathSearch
import Whirlpools.Sdk.QuoteMapAgreement
import Whirlpools.Sdk.RouteRanking
import Whirlpools.Sdk.Router

/-! # The routes that are offered

Where the cached pools are those of the graph, the router finds what the trade can do: every route
splits the whole trade over paths that share no pool, at the quotes that the paths give alone, and
no path alone does better than the first route.
-/

namespace Whirlpools.Sdk

open Outcome Choices

section Shapes

variable {lib : CommonSdk} {spl : SplToken} {fetcher : Fetcher} {trade : Trade}
  {share : ℕ+ × BN} {path : Path} {quote : QuotedPath}

/-- What the quote of a path names, and where its amounts come from. -/
structure QuoteOf (share : ℕ+ × BN) (path : Path) (quote : QuotedPath) : Prop where
  along : quote.quote.path = path
  pools : quote.quote.edgesPoolAddrs = path.edges.map fun edge => edge.poolAddress.text
  percent : quote.quote.splitPercent = share.1
  input : quote.calculatedEdgeQuotes.head?.map TradeHop.amountIn = some quote.quote.amountIn
  output : quote.calculatedEdgeQuotes.getLast?.map TradeHop.amountOut = some quote.quote.amountOut

/-- The quote of a path is one of that path and share. -/
theorem quotePath_shape (quoted : quotePath lib spl fetcher trade share path = .ok (.ok quote)) :
    QuoteOf share path quote := by
  obtain ⟨⟨hops, failed⟩, -, answered⟩ := bind_eq_ok.mp quoted
  cases failed with
  | some error => exact absurd (Except.ok.inj answered) nofun
  | none =>
      obtain ⟨first, begins, rest⟩ := bind_eq_ok.mp answered
      obtain ⟨last, ends, same⟩ := bind_eq_ok.mp rest
      obtain rfl := Except.ok.inj (Except.ok.inj same)
      refine ⟨rfl, rfl, rfl, ?_, ?_⟩
      · exact congrArg (Option.map TradeHop.amountIn) (okOr_eq_ok.mp begins)
      · exact congrArg (Option.map TradeHop.amountOut) (okOr_eq_ok.mp ends)

end Shapes

section Sorting

variable {T : Type} {compare : T → T → ℤ}

/-- Sorting by a comparison that orders the items puts them in its order. -/
theorem sortBy_ordered (preorder : ComparesPreorder compare) (items : List T) :
    (sortBy compare items).Pairwise fun a b => compare a b ≤ 0 := by
  have sorted := List.pairwise_mergeSort
    (fun a b c first second => decide_eq_true (preorder.trans a b c (of_decide_eq_true first)
      (of_decide_eq_true second)))
    (fun a b => by
      rw [Bool.or_eq_true, decide_eq_true_iff, decide_eq_true_iff]
      have turned := preorder.opposite a b
      omega) items
  exact sorted.imp fun least => of_decide_eq_true least

/-- The first of the sorted items is as good as any of them. -/
theorem head_sortBy (preorder : ComparesPreorder compare) {items : List T} {item : T}
    (member : item ∈ items) : ∃ first ∈ (sortBy compare items).head?, compare first item ≤ 0 := by
  have ordered := sortBy_ordered preorder items
  have inside := (sortBy_perm compare items).mem_iff.mpr member
  generalize sortBy compare items = sorted at ordered inside
  cases sorted with
  | nil => exact absurd inside List.not_mem_nil
  | cons first sorted =>
      refine ⟨first, rfl, ?_⟩
      rcases List.mem_cons.mp inside with rfl | later
      · have turned := preorder.opposite item item
        omega
      · exact (List.pairwise_cons.mp ordered).1 item later

/-- Quotes are compared by a total preorder. -/
theorem comparesPreorder_quotes (amountSpecifiedIsInput : Bool) :
    ComparesPreorder (quoteCompare amountSpecifiedIsInput) where
  opposite a b := by
    cases amountSpecifiedIsInput
    · exact cmp_opposite
    · exact cmp_opposite
  trans a b c first second := by
    cases amountSpecifiedIsInput
    · exact cmp_le_zero.mpr ((cmp_le_zero.mp first).trans (cmp_le_zero.mp second))
    · exact cmp_le_zero.mpr ((cmp_le_zero.mp second).trans (cmp_le_zero.mp first))

end Sorting

section Amounts

/-- The parts of an amount by percents add up to the parts of the amount, short of less than one
for each. -/
theorem totalAmount_parts {amount : PathQuote → ℤ} {total : ℤ} (positive : 0 ≤ total)
    {quotes : List PathQuote}
    (each : ∀ quote ∈ quotes, amount quote = (total * quote.splitPercent).tdiv 100) :
    100 * totalAmount amount quotes ≤ total * totalPercent quotes ∧
      total * totalPercent quotes ≤ 100 * totalAmount amount quotes + 99 * quotes.length := by
  induction quotes with
  | nil => simp only [totalAmount, totalPercent, List.length_nil, Nat.cast_zero, mul_zero, add_zero,
      le_refl, and_self]
  | cons quote quotes ih =>
      obtain ⟨below, above⟩ := ih fun other member => each other (List.mem_cons_of_mem _ member)
      have part := each quote List.mem_cons_self
      rw [Int.tdiv_eq_ediv_of_nonneg (mul_nonneg positive (Int.natCast_nonneg _))] at part
      simp only [totalAmount, totalPercent, List.length_cons, Nat.cast_add, Nat.cast_one, mul_add]
      generalize total * ((quote.splitPercent : ℕ+) : ℕ) = whole at part ⊢
      constructor <;> omega

end Amounts

section Paths

variable {fetcher : Fetcher} {pools : List PoolTokenPair}
  {intermediateTokens : Option (List Address)} {a b : Address} {path : Path}

/-- The cached accounts of the pools trade the mints that are listed. -/
def PoolsFetched (fetcher : Fetcher) (pools : List PoolTokenPair) : Prop :=
  ∀ pool ∈ pools, fetcher.Trades pool.address (fetcher.toPubKey pool.tokenMintA)
    (fetcher.toPubKey pool.tokenMintB)

/-- Where a pool joins two mints, the fetcher finds it trading them. -/
theorem trades_of_joined (fetched : PoolsFetched fetcher pools) {address : Address}
    (joined : Joined pools address a b) :
    fetcher.Trades address (fetcher.toPubKey a) (fetcher.toPubKey b) := by
  obtain ⟨pool, listed, rfl, ⟨rfl, rfl⟩ | ⟨rfl, rfl⟩⟩ := joined
  · exact fetched pool listed
  · obtain ⟨whirlpool, found, joins⟩ := fetched pool listed
    exact ⟨whirlpool, found, joins.symm⟩

/-- A path of the graph is a walk over the cached pools. -/
theorem walk_of_isShortPath (fetched : PoolsFetched fetcher pools)
    (short : IsShortPath pools intermediateTokens a b path) :
    path.edges ≠ [] ∧ Walk fetcher (fetcher.toPubKey a) (path.edges.map Edge.poolAddress)
      (fetcher.toPubKey b) := by
  obtain ⟨-, -, walk⟩ := short
  generalize same : path.edges.map Edge.poolAddress = addresses at walk
  have present (absent : path.edges = []) : addresses = [] := by
    rw [← same, absent]
    rfl
  cases walk with
  | direct joined =>
      exact ⟨fun absent => absurd (present absent) (List.cons_ne_nil _ _),
        .cons (trades_of_joined fetched joined) .nil⟩
  | through _ _ _ first second =>
      exact ⟨fun absent => absurd (present absent) (List.cons_ne_nil _ _),
        .cons (trades_of_joined fetched first) (.cons (trades_of_joined fetched second) .nil)⟩

/-- The pools of a path are listed. -/
theorem listed_of_isShortPath (short : IsShortPath pools intermediateTokens a b path) {edge : Edge}
    (member : edge ∈ path.edges) : ∃ pool ∈ pools, pool.address = edge.poolAddress := by
  obtain ⟨-, -, walk⟩ := short
  have inside := List.mem_map_of_mem member (f := Edge.poolAddress)
  generalize path.edges.map Edge.poolAddress = addresses at walk inside
  cases walk with
  | direct joined =>
      obtain ⟨pool, listed, named, -⟩ := joined
      exact ⟨pool, listed, named.trans (List.mem_singleton.mp inside).symm⟩
  | through _ _ _ first second =>
      rcases List.mem_cons.mp inside with here | inside
      · obtain ⟨pool, listed, named, -⟩ := first
        exact ⟨pool, listed, named.trans here.symm⟩
      · obtain ⟨pool, listed, named, -⟩ := second
        exact ⟨pool, listed, named.trans (List.mem_singleton.mp inside).symm⟩

/-- No address of a pool contains another one. -/
def AddressesApart (pools : List PoolTokenPair) : Prop :=
  ∀ pool ∈ pools, ∀ other ∈ pools,
    containsText other.address.text pool.address.text = true → pool.address = other.address

end Paths

/-- The amount of a percent of the trade. -/
def Trade.part (trade : Trade) (percent : ℕ+) : BN := (trade.tradeAmount * percent).tdiv 100

section Shares

variable {trade : Trade} {percentIncrement : ℕ+}

/-- The amount of a share is that part of the trade. -/
theorem share_part {share : ℕ+ × BN}
    (member : share ∈ getSplitPercentageAmts trade.tradeAmount percentIncrement) :
    share = (share.1, trade.part share.1) := by
  obtain ⟨place, -, rfl⟩ := List.mem_map.mp member
  rfl

/-- The whole trade is one of the parts, where the increment divides it. -/
theorem whole_mem (divides : (percentIncrement : ℕ) ∣ 100) :
    ((100 : ℕ+), trade.tradeAmount) ∈
      getSplitPercentageAmts trade.tradeAmount percentIncrement := by
  obtain ⟨parts, whole⟩ := divides
  have positive : 0 < parts := Nat.pos_of_ne_zero fun absent => by
    rw [absent, Nat.mul_zero] at whole
    exact absurd whole (by decide)
  have count : 100 / (percentIncrement : ℕ) = parts := by
    rw [whole, Nat.mul_div_cancel_left _ percentIncrement.pos]
  have percent : (parts - 1).succPNat * percentIncrement = 100 := by
    refine PNat.eq ?_
    rw [PNat.mul_coe, Nat.succPNat_coe, Nat.succ_eq_add_one, Nat.sub_add_cancel positive, mul_comm]
    exact whole.symm
  unfold getSplitPercentageAmts
  rw [count]
  refine List.mem_map.mpr ⟨parts - 1, List.mem_range.mpr (by omega), ?_⟩
  rw [percent]
  exact congrArg (Prod.mk _) (Int.mul_tdiv_cancel _ (by decide))

end Shares

section Held

/-- The quote map holds the best of the answers of the paths. -/
structure Holds (trade : Trade) (opts : RoutingOptions) (paths : List Path)
    (answer : ℕ+ × BN → Path → Except (Option HopErrorCode) QuotedPath) (hopQuotes : HopQuoteMap) :
    Prop where
  percents : hopQuotes.percents =
    (getSplitPercentageAmts trade.tradeAmount opts.percentIncrement).map Prod.fst
  kept : ∀ share ∈ getSplitPercentageAmts trade.tradeAmount opts.percentIncrement,
    hopQuotes.quotes share.1 = (sortBy (quoteCompare trade.amountSpecifiedIsInput)
      (paths.filterMap fun path => (answer share path).toOption)).take opts.numTopPartialQuotes

variable {lib : CommonSdk} {spl : SplToken} {fetcher : Fetcher} {trade : Trade}
  {opts : RoutingOptions} {paths : List Path}
  {answer : ℕ+ × BN → Path → Except (Option HopErrorCode) QuotedPath} {hopQuotes : HopQuoteMap}

/-- A quote of the map is the answer of a path. -/
theorem Holds.answered (holds : Holds trade opts paths answer hopQuotes) {percent : ℕ+}
    (listed : percent ∈ hopQuotes.percents) {quoted : QuotedPath}
    (member : quoted ∈ hopQuotes.quotes percent) :
    ∃ path ∈ paths, answer (percent, trade.part percent) path = .ok quoted := by
  rw [holds.percents] at listed
  obtain ⟨share, shared, rfl⟩ := List.mem_map.mp listed
  rw [holds.kept share shared] at member
  obtain ⟨path, along, found⟩ := List.mem_filterMap.mp
    ((sortBy_perm _ _).mem_iff.mp (List.mem_of_mem_take member))
  rw [share_part shared] at found
  refine ⟨path, along, ?_⟩
  cases answers : answer (share.1, trade.part share.1) path with
  | error failure => rw [answers] at found; exact absurd found nofun
  | ok quote =>
      rw [answers] at found
      exact congrArg Except.ok (Option.some.inj found)

/-- A quote of the map is for the percent it is listed under, over the pools of a path. -/
theorem Holds.quoted (holds : Holds trade opts paths answer hopQuotes)
    (answers : ∀ share, ∀ path ∈ paths, quotePath lib spl fetcher trade share path =
      .ok (answer share path)) {quote : PathQuote} {percent : ℕ+}
    (listed : percent ∈ hopQuotes.percents) (member : quote ∈ hopQuotes.quoteMap.quotes percent) :
    quote.splitPercent = percent ∧ ∃ path ∈ paths, ∃ hops,
      quote.edgesPoolAddrs = path.edges.map (fun edge => edge.poolAddress.text) ∧
      quotePath lib spl fetcher trade (percent, trade.part percent) path = .ok (.ok ⟨quote, hops⟩) ∧
      answer (percent, trade.part percent) path = .ok ⟨quote, hops⟩ := by
  obtain ⟨quoted, inside, rfl⟩ := List.mem_map.mp member
  obtain ⟨path, along, answered⟩ := holds.answered listed inside
  have plain := (answers _ path along).trans (congrArg Except.ok answered)
  have shape := quotePath_shape plain
  exact ⟨shape.percent, path, along, _, shape.pools, plain, answered⟩

/-- The quotes listed under a percent are of that percent. -/
theorem Holds.matching (holds : Holds trade opts paths answer hopQuotes)
    (answers : ∀ share, ∀ path ∈ paths, quotePath lib spl fetcher trade share path =
      .ok (answer share path)) : Matching hopQuotes.quoteMap :=
  fun _ listed _ member => (holds.quoted answers listed member).1

/-- Quotes that share a pool are recognized by its address. -/
theorem Holds.poolsApart (holds : Holds trade opts paths answer hopQuotes)
    (answers : ∀ share, ∀ path ∈ paths, quotePath lib spl fetcher trade share path =
      .ok (answer share path)) {pools : List PoolTokenPair} (apart : AddressesApart pools)
    (listed : ∀ path ∈ paths, ∀ edge ∈ path.edges, ∃ pool ∈ pools, pool.address =
      edge.poolAddress) :
    PoolsApart hopQuotes.quoteMap.allQuotes := by
  have named (quote : PathQuote) (member : quote ∈ hopQuotes.quoteMap.allQuotes) (address : String)
      (inside : address ∈ quote.edgesPoolAddrs) : ∃ pool ∈ pools, pool.address.text = address := by
    obtain ⟨percent, known, member⟩ := List.mem_flatMap.mp member
    obtain ⟨-, path, along, hops, pooled, -⟩ :=
      holds.quoted answers (List.mem_reverse.mp known) member
    rw [pooled] at inside
    obtain ⟨edge, present, rfl⟩ := List.mem_map.mp inside
    obtain ⟨pool, known, same⟩ := listed path along edge present
    exact ⟨pool, known, congrArg Address.text same⟩
  intro first one second two address inside other inside' contains
  obtain ⟨pool, known, rfl⟩ := named first one address inside
  obtain ⟨pool', known', rfl⟩ := named second two other inside'
  exact congrArg Address.text (apart pool known pool' known' contains)

/-- The best quote of the whole trade is as good as any path. -/
theorem Holds.best (holds : Holds trade opts paths answer hopQuotes)
    (divides : (opts.percentIncrement : ℕ) ∣ 100) (positive : 1 ≤ opts.numTopPartialQuotes)
    {path : Path}
    (along : path ∈ paths) {quoted : QuotedPath}
    (answered : answer (100, trade.tradeAmount) path = .ok quoted) :
    100 ∈ hopQuotes.percents ∧ ∃ first ∈ hopQuotes.quotes 100,
      quoteCompare trade.amountSpecifiedIsInput first quoted ≤ 0 := by
  have whole := @whole_mem trade opts.percentIncrement divides
  refine ⟨?_, ?_⟩
  · rw [holds.percents]
    exact List.mem_map_of_mem whole
  · have found : quoted ∈ paths.filterMap fun path =>
        (answer (100, trade.tradeAmount) path).toOption :=
      List.mem_filterMap.mpr ⟨path, along, by rw [answered]; rfl⟩
    obtain ⟨first, leads, least⟩ := head_sortBy
      (comparesPreorder_quotes trade.amountSpecifiedIsInput) found
    refine ⟨first, ?_, least⟩
    rw [holds.kept _ whole]
    refine List.mem_of_mem_head? ?_
    rw [List.head?_take, if_neg (by omega)]
    exact leads

end Held

section Sorted

variable {hopQuotes : HopQuoteMap} {amountSpecifiedIsInput : Bool} {opts : RoutingOptions}
  {sampling : Sampling}

/-- A quote of the whole trade as a route. -/
def wholeRoute (quote : PathQuote) : InternalRoute :=
  ⟨[quote], 100, quote.amountIn, quote.amountOut⟩

theorem noWorse_wholeRoute {first second : QuotedPath}
    (least : quoteCompare amountSpecifiedIsInput first second ≤ 0) :
    NoWorse amountSpecifiedIsInput (wholeRoute first.quote) (wholeRoute second.quote) := by
  cases amountSpecifiedIsInput
  · exact cmp_le_zero.mp least
  · exact cmp_le_zero.mp least

/-- A quote of the whole trade is a valid split by itself. -/
theorem wholeRoute_valid {quote : PathQuote} (whole : quote.splitPercent = 100) {maxSplits : ℕ}
    (splits : 1 ≤ maxSplits) :
    ValidSplit maxSplits (wholeRoute quote).quotes ∧ Totalled (wholeRoute quote) := by
  have percent : totalPercent [quote] = 100 := by
    rw [totalPercent, totalPercent, whole]
    rfl
  exact ⟨⟨splits, percent, List.pairwise_singleton _ _⟩, ⟨percent.symm, (add_zero _).symm,
    (add_zero _).symm⟩⟩

/-- The amounts of a quote are those of its first and its last hop. -/
def Spanned (hopQuotes : HopQuoteMap) : Prop :=
  ∀ percent ∈ hopQuotes.percents, ∀ quote ∈ hopQuotes.quotes percent,
    quote.calculatedEdgeQuotes.head?.map TradeHop.amountIn = some quote.quote.amountIn ∧
      quote.calculatedEdgeQuotes.getLast?.map TradeHop.amountOut = some quote.quote.amountOut

/-- A trade over a single pool is offered as the quote of the whole trade. -/
theorem mem_getSingleHopSplit (spanned : Spanned hopQuotes) {route : InternalRoute}
    (member : route ∈ getSingleHopSplit hopQuotes) :
    100 ∈ hopQuotes.percents ∧ ∃ quote ∈ hopQuotes.quotes 100, route = wholeRoute quote.quote := by
  unfold getSingleHopSplit at member
  split_ifs at member with listed
  · refine ⟨listed, ?_⟩
    obtain ⟨quote, inside, single⟩ := List.mem_filterMap.mp member
    refine ⟨quote, inside, ?_⟩
    obtain ⟨input, output⟩ := spanned 100 listed quote inside
    split at single
    · next oneHop only =>
        rw [only] at input output
        rw [← Option.some.inj single, wholeRoute, ← Option.some.inj input, ← Option.some.inj output]
        rfl
    · exact absurd single nofun
  · exact absurd member List.not_mem_nil

/-- The sorted routes are ways to split the trade, the best ones first, and no quote of the whole
trade is better. -/
theorem sortedRoutes_ranked (matching : Matching hopQuotes.quoteMap)
    (apart : PoolsApart hopQuotes.quoteMap.allQuotes) (spanned : Spanned hopQuotes)
    (splits : 1 ≤ opts.maxSplits) (top : 1 ≤ opts.numTopRoutes) (inside : SamplesInside sampling)
    (narrower : SamplesNarrower sampling) :
    ∃ enough, ∀ fuel ≥ enough, ∃ routes,
      sortedRoutes sampling fuel hopQuotes amountSpecifiedIsInput opts = .ok routes ∧
      routes.Pairwise (NoWorse amountSpecifiedIsInput) ∧
      (∀ route ∈ routes, ValidSplit opts.maxSplits route.quotes ∧ Totalled route ∧
        ∀ quote ∈ route.quotes, quote ∈ hopQuotes.quoteMap.allQuotes) ∧
      ∀ quote ∈ hopQuotes.quotes 100, 100 ∈ hopQuotes.percents →
        ∃ best ∈ routes.head?, NoWorse amountSpecifiedIsInput best (wholeRoute quote.quote) := by
  obtain ⟨enough, ranks⟩ := @getRankedRoutes_ranked amountSpecifiedIsInput hopQuotes.quoteMap
    opts.maxSplits opts.numTopRoutes sampling inside narrower
  have finds := generateRoutes_finds matching apart splits
  have generated (route : InternalRoute)
      (member : route ∈ generateRoutes hopQuotes.quoteMap opts.maxSplits) :
      ValidSplit opts.maxSplits route.quotes ∧ Totalled route ∧
        ∀ quote ∈ route.quotes, quote ∈ hopQuotes.quoteMap.allQuotes := by
    have quotes := finds.1.mem_iff.mp (List.mem_map_of_mem member)
    rw [extensions_nil, List.mem_filter, List.mem_sublists, decide_eq_true_iff] at quotes
    exact ⟨quotes.2, finds.2 route member, fun quote listed => quotes.1.subset listed⟩
  refine ⟨enough, fun fuel fueled => ?_⟩
  obtain ⟨ranked, returned, rank⟩ := ranks fuel fueled
  obtain ⟨others, perm, best⟩ := rank.best
  have offered {quote : QuotedPath} (listed : 100 ∈ hopQuotes.percents)
      (member : quote ∈ hopQuotes.quotes 100) :
      quote.quote.splitPercent = 100 ∧ quote.quote ∈ hopQuotes.quoteMap.allQuotes :=
    ⟨matching 100 listed _ (List.mem_map_of_mem member), List.mem_flatMap.mpr
      ⟨100, List.mem_reverse.mpr listed, List.mem_map_of_mem member⟩⟩
  refine ⟨_, bind_eq_ok.mpr ⟨ranked, returned, rfl⟩, sortBy_sorted _, fun route member => ?_,
    fun quote member listed => ?_⟩
  · rcases List.mem_append.mp ((sortBy_perm _ _).mem_iff.mp member) with early | single
    · exact generated route (perm.mem_iff.mp (List.mem_append_left _ early))
    · obtain ⟨listed, quote, present, rfl⟩ := mem_getSingleHopSplit spanned single
      obtain ⟨whole, known⟩ := offered listed present
      obtain ⟨valid, totalled⟩ := wholeRoute_valid whole splits
      exact ⟨valid, totalled, fun other only => List.mem_singleton.mp only ▸ known⟩
  · obtain ⟨whole, known⟩ := offered listed member
    obtain ⟨route, found, alone⟩ : ∃ route ∈ generateRoutes hopQuotes.quoteMap opts.maxSplits,
        route.quotes = [quote.quote] := by
      refine List.mem_map.mp (finds.1.mem_iff.mpr ?_)
      rw [extensions_nil, List.mem_filter, List.mem_sublists, decide_eq_true_iff]
      exact ⟨List.singleton_sublist.mpr known, (wholeRoute_valid whole splits).1⟩
    obtain ⟨candidate, among, least⟩ : ∃ candidate ∈ ranked,
        NoWorse amountSpecifiedIsInput candidate route := by
      rcases List.mem_append.mp (perm.mem_iff.mpr found) with early | late
      · exact ⟨route, early, (NoWorse.total route route).elim id id⟩
      · have positive : 0 < ranked.length := by
          have length := rank.length
          have nonempty := List.length_pos_of_mem found
          omega
        obtain ⟨candidate, among⟩ := List.exists_mem_of_length_pos positive
        exact ⟨candidate, among, best candidate among route late⟩
    obtain ⟨first, leads, ahead⟩ := head_sortBy
      (@comparesPreorder_routes amountSpecifiedIsInput)
      (List.mem_append_left (getSingleHopSplit hopQuotes) among)
    refine ⟨first, leads, ((compare_le_zero.mp ahead).trans least).trans ?_⟩
    have totalled := finds.2 route found
    have input := totalled.input
    have output := totalled.output
    rw [alone] at input output
    unfold NoWorse
    rw [input, output]
    cases amountSpecifiedIsInput
    · exact (add_zero _).le
    · exact (add_zero _).ge

end Sorted

/-- Options that allow a route: the parts add up to the whole trade, and something is kept. -/
structure RoutingOptions.Sensible (opts : RoutingOptions) : Prop where
  divides : (opts.percentIncrement : ℕ) ∣ 100
  routes : 1 ≤ opts.numTopRoutes
  quotes : 1 ≤ opts.numTopPartialQuotes
  splits : 1 ≤ opts.maxSplits

section Offered

variable (lib : CommonSdk) (spl : SplToken) (fetcher : Fetcher) (pools : List PoolTokenPair)
  (trade : Trade) (opts : RoutingOptions)

/-- The total on the side that the trade specifies. -/
def Trade.specified (route : InternalRoute) : ℤ :=
  if trade.amountSpecifiedIsInput then route.totalIn else route.totalOut

/-- The route splits the whole trade over paths that share no pool, at the quotes that the paths
give alone; rounding leaves less than one for each part. -/
structure Offered (route : InternalRoute) : Prop where
  split : ValidSplit opts.maxSplits route.quotes
  totalled : Totalled route
  quoted : ∀ quote ∈ route.quotes, ∃ path hops,
    IsShortPath pools none trade.tokenIn trade.tokenOut path ∧
      quotePath lib spl fetcher trade (quote.splitPercent, trade.part quote.splitPercent) path =
        .ok (.ok ⟨quote, hops⟩)
  below : trade.specified route ≤ trade.tradeAmount
  above : trade.specified route + route.quotes.length > trade.tradeAmount

/-- What the router may answer: that no path leads from one token to the other, the best routes in
order, or that the quotes have run out of tick arrays and the whole trade has none. -/
inductive Answers : Except RouteQueryError (List TradeRoute) → Prop
  | noRoute (message : String)
      (apart : ∀ path, ¬ IsShortPath pools none trade.tokenIn trade.tokenOut path) :
      Answers (.error ⟨message, .routeDoesNotExist⟩)
  | ranked (routes : List InternalRoute)
      (joined : ∃ path, IsShortPath pools none trade.tokenIn trade.tokenOut path)
      (sorted : routes.Pairwise (NoWorse trade.amountSpecifiedIsInput))
      (offered : ∀ route ∈ routes,
        Offered lib spl fetcher pools trade opts route)
      (best : ∀ path quote,
        IsShortPath pools none trade.tokenIn trade.tokenOut path →
        quotePath lib spl fetcher trade (100, trade.tradeAmount) path = .ok (.ok quote) →
        ∃ first ∈ routes.head?, NoWorse trade.amountSpecifiedIsInput first
          (wholeRoute quote.quote)) :
      Answers (.ok (convertInternalRoutesToTradeRoutes routes))
  | tooHigh (message : String)
      (exhausted : ∃ percent path,
        IsShortPath pools none trade.tokenIn trade.tokenOut path ∧
        quotePath lib spl fetcher trade (percent, trade.part percent) path =
          .ok (.error (some (.quote .tickArraySequenceInvalid))))
      (unquoted : ∀ path quote,
        IsShortPath pools none trade.tokenIn trade.tokenOut path →
        quotePath lib spl fetcher trade (100, trade.tradeAmount) path ≠ .ok (.ok quote)) :
      Answers (.error ⟨message, .tradeAmountTooHigh⟩)

end Offered

section Exact

variable {lib : CommonSdk} {spl : SplToken} {fetcher : Fetcher} {pools : List PoolTokenPair}
  {trade : Trade} {opts : RoutingOptions}
  {sampling : Sampling}

/-- The paths of a trade are the short paths between its tokens. -/
theorem mem_getPath (consistent : Consistent pools) (distinct : trade.tokenIn ≠ trade.tokenOut)
    {path : Path} : path ∈ (AdjacencyListPoolGraph.ofPools pools).getPath none
      trade.tokenIn trade.tokenOut ↔
        IsShortPath pools none trade.tokenIn trade.tokenOut path := by
  rw [getPath_eq]
  exact mem_pairPaths consistent (ofPools_adjacent consistent) distinct path

/-- A split into quotes of the map is offered. -/
theorem Holds.offered {paths : List Path}
    {answer : ℕ+ × BN → Path → Except (Option HopErrorCode) QuotedPath} {hopQuotes : HopQuoteMap}
    (holds : Holds trade opts paths answer hopQuotes)
    (answers : ∀ share, ∀ path ∈ paths, quotePath lib spl fetcher trade share path =
        .ok (answer share path) ∧
      ∀ quote, answer share path = .ok quote → (if trade.amountSpecifiedIsInput
        then quote.quote.amountIn else quote.quote.amountOut) = share.2)
    (short : ∀ path ∈ paths,
      IsShortPath pools none trade.tokenIn trade.tokenOut path)
    (positive : 0 < trade.tradeAmount) {route : InternalRoute}
    (split : ValidSplit opts.maxSplits route.quotes) (totalled : Totalled route)
    (inside : ∀ quote ∈ route.quotes, quote ∈ hopQuotes.quoteMap.allQuotes) :
    Offered lib spl fetcher pools trade opts route := by
  have quoted (quote : PathQuote) (member : quote ∈ route.quotes) :
      ∃ path ∈ paths, ∃ hops, quotePath lib spl fetcher trade
          (quote.splitPercent, trade.part quote.splitPercent) path = .ok (.ok ⟨quote, hops⟩) ∧
        (if trade.amountSpecifiedIsInput then quote.amountIn else quote.amountOut) =
          trade.part quote.splitPercent := by
    obtain ⟨percent, listed, member⟩ := List.mem_flatMap.mp (inside quote member)
    obtain ⟨rfl, path, along, hops, -, plain, answered⟩ := holds.quoted
      (fun share path along => (answers share path along).1) (List.mem_reverse.mp listed) member
    exact ⟨path, along, hops, plain, (answers _ path along).2 _ answered⟩
  have specified : trade.specified route = totalAmount
      (fun quote => if trade.amountSpecifiedIsInput then quote.amountIn else quote.amountOut)
      route.quotes := by
    unfold Trade.specified
    cases trade.amountSpecifiedIsInput
    · exact totalled.output
    · exact totalled.input
  obtain ⟨below, above⟩ := totalAmount_parts positive.le fun quote member =>
    (quoted quote member).choose_spec.2.choose_spec.2
  have nonzero : 0 < route.quotes.length := by
    refine List.length_pos_iff.mpr fun absent => ?_
    have whole := split.2.1
    rw [absent] at whole
    exact absurd whole (by decide)
  rw [split.2.1, ← specified] at below above
  push_cast at below above
  refine ⟨split, totalled, fun quote member => ?_, ?_, ?_⟩
  · obtain ⟨path, along, hops, plain, -⟩ := quoted quote member
    exact ⟨path, hops, short path along, plain⟩
  · omega
  · omega

/-- On a graph of cached pools the router answers a trade with the best routes there are. It fails
only where no path leads from one token to the other, or where no path can take the whole trade and
some quote has run out of tick arrays. -/
theorem findAllRoutes_exact (consistent : Consistent pools) (apart : AddressesApart pools)
    (fetched : PoolsFetched fetcher pools) (sensible : opts.Sensible)
    (distinct : trade.tokenIn ≠ trade.tokenOut) (positive : 0 < trade.tradeAmount)
    (inside : SamplesInside sampling) (narrower : SamplesNarrower sampling) :
    ∃ enough, ∀ fuel ≥ enough, Answers lib spl fetcher pools trade opts
      (findAllRoutes sampling fuel lib spl fetcher (.ofPools pools) trade opts) := by
  have short (path : Path) := @mem_getPath pools trade consistent distinct path
  unfold findAllRoutes
  dsimp only
  generalize (AdjacencyListPoolGraph.ofPools pools).getPath none trade.tokenIn
    trade.tokenOut = paths at short
  by_cases pathless : paths.length = 0
  · refine ⟨0, fun fuel _ => ?_⟩
    rw [if_pos pathless]
    refine .noRoute _ fun path leads => ?_
    rw [List.eq_nil_of_length_eq_zero pathless] at short
    exact absurd ((short path).mpr leads) List.not_mem_nil
  have walks (path : Path) (member : path ∈ paths) :=
    walk_of_isShortPath fetched ((short path).mp member)
  have listed (path : Path) (member : path ∈ paths) (edge : Edge) (along : edge ∈ path.edges) :=
    listed_of_isShortPath ((short path).mp member) along
  obtain ⟨answer, answers⟩ := quotePath_walks lib spl (fun path member => (walks path member).1)
    fun path member => (walks path member).2
  have plain (share : ℕ+ × BN) (path : Path) (member : path ∈ paths) :=
    (answers share path member).1
  obtain ⟨hopQuotes, errors, returned, percents, kept, -, failed⟩ :=
    getQuoteMap_alone (fun path member => (walks path member).1) plain opts
  have holds : Holds trade opts paths answer hopQuotes :=
    ⟨percents.trans (if_neg fun empty => pathless (congrArg List.length empty)), kept⟩
  have spanned : Spanned hopQuotes := fun percent known quote member => by
    obtain ⟨path, along, answered⟩ := holds.answered known member
    have shape := quotePath_shape ((plain _ path along).trans (congrArg Except.ok answered))
    exact ⟨shape.input, shape.output⟩
  obtain ⟨enough, ranks⟩ := @sortedRoutes_ranked hopQuotes trade.amountSpecifiedIsInput
    opts sampling
    (holds.matching plain) (holds.poolsApart plain apart listed) spanned sensible.splits
    sensible.routes inside narrower
  refine ⟨enough, fun fuel fueled => ?_⟩
  obtain ⟨routes, sorted, ranked, splits, best⟩ := ranks fuel fueled
  have leads (path : Path) (quote : QuotedPath)
      (along : IsShortPath pools none trade.tokenIn trade.tokenOut path)
      (quoted : quotePath lib spl fetcher trade (100, trade.tradeAmount) path = .ok (.ok quote)) :
      ∃ first ∈ routes.head?,
        NoWorse trade.amountSpecifiedIsInput first (wholeRoute quote.quote) := by
    have member := (short path).mpr along
    have answered := Except.ok.inj ((plain _ path member).symm.trans quoted)
    obtain ⟨listed, first, among, least⟩ := holds.best sensible.divides sensible.quotes
      member answered
    obtain ⟨ahead, leading, noWorse⟩ := best first among listed
    exact ⟨ahead, leading, noWorse.trans (noWorse_wholeRoute least)⟩
  rw [if_neg pathless, if_neg positive.ne', returned]
  simp only [Except.mapError, ok_bind, getBestRoutesFromQuoteMap, sorted]
  split_ifs with exhausted
  · refine .tooHigh _ ?_ fun path quote along quoted => ?_
    · obtain ⟨share, shared, path, member, missing⟩ :=
        (failed _).mp (of_decide_eq_true exhausted.2)
      rw [share_part shared] at missing
      exact ⟨share.1, path, (short path).mp member,
        (plain _ path member).trans (congrArg Except.ok missing)⟩
    · obtain ⟨first, leading, -⟩ := leads path quote along quoted
      have empty : routes = [] := List.map_eq_nil_iff.mp (List.eq_nil_of_length_eq_zero exhausted.1)
      rw [empty] at leading
      exact absurd leading (Option.not_mem_none _)
  · obtain ⟨path, member⟩ :=
      List.exists_mem_of_length_pos (Nat.pos_of_ne_zero pathless)
    refine .ranked routes ⟨path, (short path).mp member⟩ ranked (fun route member => ?_) leads
    obtain ⟨split, totalled, inside⟩ := splits route member
    exact holds.offered answers (fun path along => (short path).mp along) positive split totalled
      inside

/-- Between tokens with a pool of their own and two pools through a third one, the best route gives
at least what the quote of the whole trade over their own pool gives. -/
theorem findAllRoutes_exact_triangle : ∃ (pools : List PoolTokenPair) (trade : Trade) (fuel : ℕ)
    (best : InternalRoute) (others : List InternalRoute),
    pools.length = 3 ∧ findAllRoutes exactSampling fuel .plain .formulas triangleFetcher
        (.ofPools pools) trade RouterUtils.getDefaultRouteOptions =
          .ok (convertInternalRoutesToTradeRoutes (best :: others)) ∧
      Offered .plain .formulas triangleFetcher pools trade RouterUtils.getDefaultRouteOptions best ∧
      99769 ≤ best.totalOut := by
  let token (key : Pubkey) : Address := triangleFetcher.toBase58 key
  let own : PoolTokenPair := ⟨⟨"pool", by decide⟩, token 1, token 3⟩
  let first : PoolTokenPair := ⟨⟨"basin", by decide⟩, token 1, token 2⟩
  let second : PoolTokenPair := ⟨⟨"lagoon", by decide⟩, token 2, token 3⟩
  let trade : Trade := ⟨token 1, token 3, 100000, true⟩
  let direct : Path := ⟨token 1, token 3, [⟨own.address⟩]⟩
  have consistent : Consistent [own, first, second] :=
    ⟨by decide, by unfold PoolTokenPair.Joins; decide⟩
  have apart : AddressesApart [own, first, second] := by
    unfold AddressesApart
    decide
  have fetched : PoolsFetched triangleFetcher [own, first, second] := by
    have key (key : Pubkey) : triangleFetcher.toPubKey (token key) = key :=
      triangleFetcher.toPubKey_toBase58 key
    unfold PoolsFetched
    simp only [List.forall_mem_cons, key, own, first, second]
    exact ⟨⟨pairPool 1 3, rfl, .inl ⟨rfl, rfl⟩⟩, ⟨pairPool 1 2, rfl, .inl ⟨rfl, rfl⟩⟩,
      ⟨pairPool 2 3, rfl, .inl ⟨rfl, rfl⟩⟩,
      fun _ listed => absurd listed List.not_mem_nil⟩
  have sensible : RouterUtils.getDefaultRouteOptions.Sensible :=
    ⟨by decide, by decide, by decide, by decide⟩
  have short : IsShortPath [own, first, second] none trade.tokenIn trade.tokenOut direct :=
    ⟨rfl, rfl, .direct ⟨own, List.mem_cons_self, rfl, .inl ⟨rfl, rfl⟩⟩⟩
  have shown : yields (quotePath .plain .formulas triangleFetcher trade (100, 100000) direct)
      (fun answer => yields answer fun quoted => quoted.quote.amountOut = 99769) = true := by
    decide +kernel
  obtain ⟨_, quoted, answered⟩ := yields_iff.mp shown
  obtain ⟨whole, rfl, amount⟩ := yields_iff.mp answered
  obtain ⟨enough, answers⟩ := @findAllRoutes_exact .plain .formulas triangleFetcher
    [own, first, second] trade _ exactSampling consistent apart fetched sensible (by decide)
    (by decide) exactSampling_inside exactSampling_narrows
  have answers := answers enough le_rfl
  refine ⟨[own, first, second], trade, enough, ?_⟩
  generalize findAllRoutes exactSampling enough .plain .formulas triangleFetcher
    (.ofPools [own, first, second]) trade RouterUtils.getDefaultRouteOptions = answer at answers ⊢
  cases answers with
  | noRoute message none => exact absurd short (none direct)
  | tooHigh message exhausted unquoted => exact absurd quoted (unquoted direct _ short)
  | ranked routes joined sorted offered best =>
      obtain ⟨leader, leads, noWorse⟩ := best direct whole short quoted
      obtain ⟨others, rfl⟩ := List.head?_eq_some_iff.mp leads
      refine ⟨leader, others, rfl, rfl, offered leader List.mem_cons_self, ?_⟩
      exact (of_decide_eq_true amount).symm.le.trans noWorse

end Exact

end Whirlpools.Sdk
