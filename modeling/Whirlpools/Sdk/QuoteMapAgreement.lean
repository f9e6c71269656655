import Whirlpools.Sdk.PathQuotes
import Whirlpools.Sdk.StepAgreement
import Whirlpools.Sdk.TransferFeeAgreement
import Whirlpools.Swap.Crossings

/-! # The quote map agrees with the quotes of its paths

For every percent of the trade, the quote map keeps the best of the quotes that its paths give
alone, and reports the errors of the paths that have none. -/

namespace Whirlpools.Sdk

open Outcome

section Paths

variable (lib : CommonSdk) (spl : SplToken) (fetcher : Fetcher) (trade : Trade)

/-- What quoting its pools makes of a path. -/
def pathQuote (share : ℕ+ × BN) (path : Path)
    (quoted : List TradeHop × Option (Option HopErrorCode)) :
    Attempt (Except (Option HopErrorCode) QuotedPath) :=
  match quoted.2 with
  | some error => .ok (.error error)
  | none =>
      let hops := inOrder trade.amountSpecifiedIsInput quoted.1
      okOr hops.head? (.error "Cannot read properties of undefined") >>= fun first =>
      okOr hops.getLast? (.error "Cannot read properties of undefined") >>= fun last =>
      .ok (.ok ⟨⟨path, path.edges.map fun edge => edge.poolAddress.text, share.1, first.amountIn,
        last.amountOut⟩, hops⟩)

/-- The quote of a part of the trade over a path alone, or the error of the first pool that gives
none. -/
def quotePath (share : ℕ+ × BN) (path : Path) : Attempt (Except (Option HopErrorCode) QuotedPath) :=
  quotePools lib spl fetcher trade.amountSpecifiedIsInput (trade.asked share [])
    (inOrder trade.amountSpecifiedIsInput (path.edges.map Edge.poolAddress))
    >>= fun quoted => pathQuote trade share path quoted

end Paths

section Cells

variable {lib : CommonSdk} {spl : SplToken} {fetcher : Fetcher} {trade : Trade}
  {paths : List Path} {shares : List (ℕ+ × BN)}

/-- Hops are quoted as their rounds run. -/
theorem quoteHops_follow {order : List ℕ} {quoteMap : InternalQuoteMap}
    {cells : ℕ+ × ℕ → Option InternalPathQuote}
    (ran : order.foldlM (fun cells hop =>
      (hopRound lib spl fetcher trade hop).run Part.place (parts paths shares) cells)
        quoteMap.quotes = .ok cells) :
    ∃ quoteMap', order.foldlM (quoteHop lib spl fetcher trade paths shares) quoteMap =
        .ok quoteMap' ∧ quoteMap'.quotes = cells ∧
      ∀ percent, percent ∈ quoteMap'.percents ↔
        (order ≠ [] ∧ percent ∈ shares.map Prod.fst) ∨ percent ∈ quoteMap.percents := by
  induction order generalizing quoteMap with
  | nil => exact ⟨quoteMap, rfl, Except.ok.inj ran, fun percent =>
      ⟨Or.inr, fun either => either.resolve_left fun both => both.1 rfl⟩⟩
  | cons hop order ih =>
      rw [List.foldlM_cons, bind_eq_ok] at ran
      obtain ⟨middle, first, rest⟩ := ran
      obtain ⟨next, stepped, rfl, opened⟩ := quoteHop_follows first
      obtain ⟨final, returned, quotes, percents⟩ := ih rest
      refine ⟨final, ?_, quotes, fun percent => (percents percent).trans ?_⟩
      · rw [List.foldlM_cons, stepped, ok_bind, returned]
      · rw [opened]
        have nonempty : hop :: order ≠ [] := List.cons_ne_nil _ _
        tauto

/-- Every part has a cell of its own. -/
theorem parts_distinct (distinct : (shares.map Prod.fst).Nodup) :
    ((parts paths shares).map Part.place).Nodup := by
  unfold parts
  rw [List.map_flatMap, List.nodup_flatMap]
  constructor
  · intro share _
    rw [List.map_map]
    have indices : (paths.zipIdx.map Prod.snd).Nodup := by
      rw [List.zipIdx_map_snd]
      exact List.nodup_range'
    exact List.Nodup.of_map Prod.snd (by rw [List.map_map]; exact indices)
  · refine (List.pairwise_map.mp distinct).imp fun differ place inside inside' => ?_
    obtain ⟨part, member, rfl⟩ := List.mem_map.mp inside
    obtain ⟨other, member', same⟩ := List.mem_map.mp inside'
    obtain ⟨entry, -, rfl⟩ := List.mem_map.mp member
    obtain ⟨entry', -, rfl⟩ := List.mem_map.mp member'
    exact differ (Prod.mk.inj same).1.symm

/-- The results that the pools of a path note. -/
def results (quoted : List TradeHop × Option (Option HopErrorCode)) : List TradeHopQuoteResult :=
  quoted.1.map .success ++ (quoted.2.map .failure).toList

/-- The cells end with the quotes of the paths alone. -/
theorem quoteHops_cells (distinct : (shares.map Prod.fst).Nodup)
    (nonempty : ∀ path ∈ paths, path.edges ≠ [])
    {quoted : ℕ+ × BN → Path → List TradeHop × Option (Option HopErrorCode)}
    (answered : ∀ share ∈ shares, ∀ path ∈ paths, quotePools lib spl fetcher
      trade.amountSpecifiedIsInput (trade.asked share [])
      (inOrder trade.amountSpecifiedIsInput (path.edges.map Edge.poolAddress)) =
        .ok (quoted share path)) :
    ∃ quoteMap, (hopOrder paths trade.amountSpecifiedIsInput).foldlM
        (quoteHop lib spl fetcher trade paths shares) .empty = .ok quoteMap ∧
      (∀ percent, percent ∈ quoteMap.percents ↔
        hopOrder paths trade.amountSpecifiedIsInput ≠ [] ∧ percent ∈ shares.map Prod.fst) ∧
      ∀ share ∈ shares, ∀ entry ∈ paths.zipIdx, quoteMap.quotes (share.1, entry.2) =
        some (partQuote trade share entry.1 (results (quoted share entry.1))) := by
  obtain ⟨cells, ran, finals, -⟩ := @Batch.Round.rounds_alone Part (ℕ+ × ℕ)
    (Option InternalPathQuote) SwapQuoteRequest TradeHopQuoteResult Thrown _ ℕ
    (hopRound lib spl fetcher trade) Part.place (parts paths shares) (parts_distinct distinct)
    (hopOrder paths trade.amountSpecifiedIsInput)
    (fun part => some (partQuote trade part.1 part.2.1 (results (quoted part.1 part.2.1))))
    InternalQuoteMap.empty.quotes (by
      intro part member
      obtain ⟨share, shared, inside⟩ := List.mem_flatMap.mp member
      obtain ⟨entry, listed, rfl⟩ := List.mem_map.mp inside
      have known : entry.1 ∈ paths := List.fst_mem_of_mem_zipIdx listed
      exact alone_hopOrder known (nonempty _ known) (answered share shared _ known))
  obtain ⟨quoteMap, returned, rfl, percents⟩ := quoteHops_follow ran
  refine ⟨quoteMap, returned, fun percent => (percents percent).trans ?_, ?_⟩
  · exact or_iff_left List.not_mem_nil
  · intro share shared entry listed
    exact finals (share, entry) (List.mem_flatMap.mpr
      ⟨share, shared, List.mem_map_of_mem listed⟩)

end Cells

section Clean

variable {lib : CommonSdk} {spl : SplToken} {fetcher : Fetcher} {trade : Trade}
  {share : ℕ+ × BN} {path : Path}

/-- A quote has a hop for each pool, unless a pool has failed. -/
theorem length_quotePools {amountSpecifiedIsInput : Bool} {asked : Address × BN}
    {pools : List Address} {hops : List TradeHop} {error : Option (Option HopErrorCode)}
    (quoted : quotePools lib spl fetcher amountSpecifiedIsInput asked pools = .ok (hops, error)) :
    (error = none → hops.length = pools.length) ∧ (error ≠ none → hops.length < pools.length) := by
  induction pools generalizing asked hops error with
  | nil =>
      obtain ⟨rfl, rfl⟩ := Prod.mk.inj (Except.ok.inj quoted)
      exact ⟨fun _ => rfl, fun present => absurd rfl present⟩
  | cons pool pools ih =>
      obtain ⟨result, -, rest⟩ := bind_eq_ok.mp quoted
      cases result with
      | failure code =>
          obtain ⟨rfl, rfl⟩ := Prod.mk.inj (Except.ok.inj rest)
          exact ⟨nofun, fun _ => Nat.succ_pos _⟩
      | success hop =>
          obtain ⟨⟨later, stopped⟩, following, same⟩ := bind_eq_ok.mp rest
          obtain ⟨rfl, rfl⟩ := Prod.mk.inj (Except.ok.inj same)
          obtain ⟨whole, short⟩ := ih following
          exact ⟨fun absent => congrArg Nat.succ (whole absent),
            fun present => Nat.succ_lt_succ (short present)⟩

theorem filterMap_inOrder {α β : Type} (keep : α → Option β) (amountSpecifiedIsInput : Bool)
    (items : List α) : (inOrder amountSpecifiedIsInput items).filterMap keep =
      inOrder amountSpecifiedIsInput (items.filterMap keep) := by
  cases amountSpecifiedIsInput
  · exact List.filterMap_reverse
  · rfl

/-- Places that are not quoted yet count for nothing. -/
theorem filterMap_padded {β : Type} (keep : TradeHopQuoteResult → Option β) (length : ℕ)
    (noted : List TradeHopQuoteResult) :
    (padded length noted).filterMap (fun val => val.bind keep) = noted.filterMap keep := by
  unfold padded
  rw [List.filterMap_append, List.filterMap_map, List.filterMap_replicate_of_none rfl,
    List.append_nil]
  rfl

/-- The hops among the results of a path are those that were quoted. -/
theorem hops_results (quoted : List TradeHop × Option (Option HopErrorCode)) :
    (results quoted).filterMap TradeHopQuoteResult.hop? = quoted.1 := by
  have succeeded : (quoted.1.map TradeHopQuoteResult.success).filterMap TradeHopQuoteResult.hop? =
      quoted.1 := by
    rw [List.filterMap_map]
    exact List.filterMap_some
  unfold results
  rw [List.filterMap_append, succeeded]
  cases quoted.2 with
  | none => exact List.append_nil _
  | some error => exact List.append_nil _

/-- The errors among them are the one at which quoting stopped, if any. -/
theorem errors_results (quoted : List TradeHop × Option (Option HopErrorCode)) :
    (results quoted).filterMap TradeHopQuoteResult.error? = quoted.2.toList := by
  have absent : (quoted.1.map TradeHopQuoteResult.success).filterMap TradeHopQuoteResult.error? =
      [] := by
    rw [List.filterMap_map]
    exact List.filterMap_eq_nil_iff.mpr fun _ _ => rfl
  unfold results
  rw [List.filterMap_append, absent]
  cases quoted.2 with
  | none => rfl
  | some error => rfl

/-- Put the quote of a path with the others, or its error. -/
def noteAnswer (cleaned : List QuotedPath × List (Option HopErrorCode)) :
    Except (Option HopErrorCode) QuotedPath → List QuotedPath × List (Option HopErrorCode)
  | .ok quote => (cleaned.1 ++ [quote], cleaned.2)
  | .error error => (cleaned.1, noteError cleaned.2 error)

/-- Cleaning keeps the quote of a path alone. -/
theorem cleanQuote_alone {quoted : List TradeHop × Option (Option HopErrorCode)}
    {answer : Except (Option HopErrorCode) QuotedPath}
    (quotes : quotePools lib spl fetcher trade.amountSpecifiedIsInput (trade.asked share [])
      (inOrder trade.amountSpecifiedIsInput (path.edges.map Edge.poolAddress)) = .ok quoted)
    (answered : pathQuote trade share path quoted = .ok answer)
    (cleaned : List QuotedPath × List (Option HopErrorCode)) :
    cleanQuote share.1 cleaned (some (partQuote trade share path (results quoted))) =
      .ok (noteAnswer cleaned answer) := by
  obtain ⟨whole, short⟩ := length_quotePools quotes
  rw [length_inOrder] at whole short
  unfold cleanQuote
  rw [okOr, ok_bind]
  unfold partQuote
  dsimp only
  rw [filterMap_inOrder, filterMap_padded, hops_results, filterMap_inOrder, filterMap_padded,
    errors_results, length_inOrder]
  obtain ⟨hops, failed⟩ := quoted
  cases failed with
  | some error =>
      obtain rfl := Except.ok.inj answered
      rw [if_neg (short (Option.some_ne_none _)).ne]
      cases trade.amountSpecifiedIsInput
      · rfl
      · rfl
  | none =>
      rw [if_pos (whole rfl)]
      obtain ⟨first, begins, rest⟩ := bind_eq_ok.mp answered
      obtain ⟨last, ends, same⟩ := bind_eq_ok.mp rest
      obtain rfl := Except.ok.inj same
      rw [begins, ok_bind, ends, ok_bind, List.map_map]
      rfl

theorem mem_noteError {errors : List (Option HopErrorCode)} {error other : Option HopErrorCode} :
    other ∈ noteError errors error ↔ other ∈ errors ∨ error = other := by
  unfold noteError
  split_ifs with known
  · exact ⟨Or.inl, fun either => either.elim id fun same => same ▸ of_decide_eq_true known⟩
  · rw [List.mem_append, List.mem_singleton, eq_comm]

theorem nodup_noteError {errors : List (Option HopErrorCode)} (once : errors.Nodup)
    (error : Option HopErrorCode) : (noteError errors error).Nodup := by
  unfold noteError
  split_ifs with known
  · exact once
  · exact List.nodup_append.mpr ⟨once, List.nodup_singleton _, fun other member last single => by
      rintro rfl
      exact known (decide_eq_true (List.mem_singleton.mp single ▸ member))⟩

/-- What is kept of the answers, in their order. -/
theorem foldl_noteAnswer {answers : List (Except (Option HopErrorCode) QuotedPath)}
    (cleaned : List QuotedPath × List (Option HopErrorCode)) :
    (answers.foldl noteAnswer cleaned).1 = cleaned.1 ++ answers.filterMap Except.toOption ∧
      (cleaned.2.Nodup → (answers.foldl noteAnswer cleaned).2.Nodup) ∧
      ∀ error, error ∈ (answers.foldl noteAnswer cleaned).2 ↔
        error ∈ cleaned.2 ∨ .error error ∈ answers := by
  induction answers generalizing cleaned with
  | nil => exact ⟨(List.append_nil _).symm, id, fun error =>
      (or_iff_left List.not_mem_nil).symm⟩
  | cons answer answers ih =>
      obtain ⟨kept, once, errors⟩ := ih (noteAnswer cleaned answer)
      rw [List.foldl_cons]
      refine ⟨kept.trans ?_, fun distinct => once ?_, fun error => (errors error).trans ?_⟩
      · cases answer with
        | ok quote => exact List.append_assoc _ _ _
        | error failure => rfl
      · cases answer with
        | ok quote => exact distinct
        | error failure => exact nodup_noteError distinct failure
      · rw [List.mem_cons]
        cases answer with
        | ok quote => simp only [noteAnswer, reduceCtorEq, false_or]
        | error failure =>
            simp only [noteAnswer, mem_noteError, Except.error.injEq]
            rw [or_assoc, eq_comm]

end Clean

section Sanitize

variable {trade : Trade} {paths : List Path} {shares : List (ℕ+ × BN)}

/-- Clean the quotes of a percent. -/
def noteShare (answer : ℕ+ × BN → Path → Except (Option HopErrorCode) QuotedPath)
    (paths : List Path) (cleaned : (ℕ+ → List QuotedPath) × List (Option HopErrorCode))
    (share : ℕ+ × BN) : (ℕ+ → List QuotedPath) × List (Option HopErrorCode) :=
  let quotes := (paths.map (answer share)).foldl noteAnswer ([], cleaned.2)
  (Function.update cleaned.1 share.1 quotes.1, quotes.2)

/-- What is kept for every percent, and the errors of all. -/
theorem foldl_noteShare {answer : ℕ+ × BN → Path → Except (Option HopErrorCode) QuotedPath}
    (distinct : (shares.map Prod.fst).Nodup)
    (cleaned : (ℕ+ → List QuotedPath) × List (Option HopErrorCode)) :
    (∀ share ∈ shares, (shares.foldl (noteShare answer paths) cleaned).1 share.1 =
        paths.filterMap fun path => (answer share path).toOption) ∧
      (∀ other, other ∉ shares.map Prod.fst →
        (shares.foldl (noteShare answer paths) cleaned).1 other = cleaned.1 other) ∧
      (cleaned.2.Nodup → (shares.foldl (noteShare answer paths) cleaned).2.Nodup) ∧
      ∀ error, error ∈ (shares.foldl (noteShare answer paths) cleaned).2 ↔ error ∈ cleaned.2 ∨
        ∃ share ∈ shares, ∃ path ∈ paths, answer share path = .error error := by
  induction shares generalizing cleaned with
  | nil => exact ⟨fun _ absent => absurd absent List.not_mem_nil, fun _ _ => rfl, id, fun error =>
      (or_iff_left fun ⟨_, absent, _⟩ => List.not_mem_nil absent).symm⟩
  | cons share shares ih =>
      rw [List.map_cons, List.nodup_cons] at distinct
      obtain ⟨kept, others, once, errors⟩ := ih distinct.2 (noteShare answer paths cleaned share)
      obtain ⟨first, firstOnce, firstErrors⟩ :=
        @foldl_noteAnswer (paths.map (answer share)) ([], cleaned.2)
      have here : (noteShare answer paths cleaned share).1 share.1 =
          paths.filterMap fun path => (answer share path).toOption :=
        (Function.update_self _ _ _).trans
          (first.trans (by rw [List.nil_append, List.filterMap_map]; rfl))
      have noted (error : Option HopErrorCode) : error ∈ (noteShare answer paths cleaned share).2 ↔
          error ∈ cleaned.2 ∨ ∃ path ∈ paths, answer share path = .error error :=
        (firstErrors error).trans (or_congr_right List.mem_map)
      rw [List.foldl_cons]
      refine ⟨?_, fun other absent => ?_, fun unique => once (firstOnce unique), fun error =>
        (errors error).trans ?_⟩
      · rintro other (_ | ⟨_, member⟩)
        · exact (others _ distinct.1).trans here
        · exact kept other member
      · rw [List.map_cons, List.mem_cons, not_or] at absent
        exact (others other absent.2).trans (Function.update_of_ne absent.1 _ _)
      · rw [noted, List.exists_mem_cons_iff, or_assoc]

/-- Cleaning a quote map whose cells hold the quotes of the paths alone. -/
theorem sanitizeQuoteMap_alone {lib : CommonSdk} {spl : SplToken} {fetcher : Fetcher}
    (distinct : (shares.map Prod.fst).Nodup)
    {quoted : ℕ+ × BN → Path → List TradeHop × Option (Option HopErrorCode)}
    (quotes : ∀ share ∈ shares, ∀ path ∈ paths, quotePools lib spl fetcher
      trade.amountSpecifiedIsInput (trade.asked share [])
      (inOrder trade.amountSpecifiedIsInput (path.edges.map Edge.poolAddress)) =
        .ok (quoted share path))
    {answer : ℕ+ × BN → Path → Except (Option HopErrorCode) QuotedPath}
    (answered : ∀ share ∈ shares, ∀ path ∈ paths,
      pathQuote trade share path (quoted share path) = .ok (answer share path))
    {quoteMap : InternalQuoteMap} (percents : quoteMap.percents = shares.map Prod.fst)
    (cells : ∀ share ∈ shares, ∀ entry ∈ paths.zipIdx, quoteMap.quotes (share.1, entry.2) =
      some (partQuote trade share entry.1 (results (quoted share entry.1)))) (pruneN : ℕ) :
    ∃ hopQuotes errors,
      sanitizeQuoteMap quoteMap paths.length pruneN trade.amountSpecifiedIsInput =
        .ok (hopQuotes, errors) ∧
      hopQuotes.percents = shares.map Prod.fst ∧
      (∀ share ∈ shares, hopQuotes.quotes share.1 =
        (sortBy (quoteCompare trade.amountSpecifiedIsInput)
          (paths.filterMap fun path => (answer share path).toOption)).take pruneN) ∧
      errors.Nodup ∧ ∀ error, error ∈ errors ↔
        ∃ share ∈ shares, ∃ path ∈ paths, answer share path = .error error := by
  have places (share : ℕ+ × BN) (shared : share ∈ shares) :
      (List.range paths.length).map (fun pathIndex => quoteMap.quotes (share.1, pathIndex)) =
        paths.map fun path => some (partQuote trade share path (results (quoted share path))) := by
    calc _ = paths.zipIdx.map fun entry => quoteMap.quotes (share.1, entry.2) := by
          rw [List.range_eq_range', ← List.zipIdx_map_snd, List.map_map]
          rfl
      _ = paths.zipIdx.map fun entry =>
            some (partQuote trade share entry.1 (results (quoted share entry.1))) :=
          List.map_congr_left fun entry listed => cells share shared entry listed
      _ = _ := by
          conv_rhs => rw [← List.zipIdx_map_fst 0 paths]
          rw [List.map_map]
          rfl
  have cleans (cleaned : (ℕ+ → List QuotedPath) × List (Option HopErrorCode)) (share : ℕ+ × BN)
      (shared : share ∈ shares) :
      (((List.range paths.length).map fun pathIndex => quoteMap.quotes (share.1, pathIndex)).foldlM
        (cleanQuote share.1) ([], cleaned.2) >>= fun quotes =>
      .ok (Function.update cleaned.1 share.1 quotes.1, quotes.2)) =
        .ok (noteShare answer paths cleaned share) := by
    rw [places share shared, List.foldlM_map, foldlM_plain fun cleaned path member =>
      cleanQuote_alone (quotes share shared path member) (answered share shared path member)
        cleaned, ok_bind, noteShare, List.foldl_map]
  obtain ⟨kept, -, once, errors⟩ := @foldl_noteShare paths shares answer distinct (fun _ => [], [])
  have cleaned : quoteMap.percents.foldlM (fun (cleaned : (ℕ+ → List QuotedPath) ×
      List (Option HopErrorCode)) percent =>
      ((List.range paths.length).map fun pathIndex => quoteMap.quotes (percent, pathIndex)).foldlM
        (cleanQuote percent) ([], cleaned.2) >>= fun quotes =>
      .ok (Function.update cleaned.1 percent quotes.1, quotes.2)) (fun _ => [], []) =
        .ok (shares.foldl (noteShare answer paths) (fun _ => [], [])) := by
    rw [percents, List.foldlM_map]
    exact foldlM_plain cleans
  unfold sanitizeQuoteMap
  refine ⟨_, _, bind_eq_ok.mpr ⟨_, cleaned, rfl⟩, percents, fun share shared => ?_,
    once List.nodup_nil, fun error => (errors error).trans (or_iff_right List.not_mem_nil)⟩
  exact congrArg (fun quotes => (sortBy _ quotes).take pruneN) (kept share shared)

end Sanitize

section Walks

variable {lib : CommonSdk} {spl : SplToken} {fetcher : Fetcher} {mint next final : Pubkey}

/-- The pool trades the two tokens. -/
def Fetcher.Trades (fetcher : Fetcher) (pool : Address) (mint next : Pubkey) : Prop :=
  ∃ whirlpool, fetcher.getPool pool = some whirlpool ∧
    ((whirlpool.tokenMintA = mint ∧ whirlpool.tokenMintB = next) ∨
      (whirlpool.tokenMintA = next ∧ whirlpool.tokenMintB = mint))

/-- The pools lead from a token to another one. -/
inductive Walk (fetcher : Fetcher) : Pubkey → List Address → Pubkey → Prop
  | nil {mint : Pubkey} : Walk fetcher mint [] mint
  | cons {mint next final : Pubkey} {pool : Address} {pools : List Address}
      (trades : fetcher.Trades pool mint next) (rest : Walk fetcher next pools final) :
      Walk fetcher mint (pool :: pools) final

/-- A walk goes on with a pool that trades its last mint. -/
theorem Walk.push {pools : List Address} {pool : Address} (walk : Walk fetcher mint pools next)
    (trades : fetcher.Trades pool next final) : Walk fetcher mint (pools ++ [pool]) final := by
  induction walk with
  | nil => exact .cons trades .nil
  | cons first rest ih => exact .cons first (ih trades)

theorem Walk.reverse {pools : List Address} (walk : Walk fetcher mint pools final) :
    Walk fetcher final pools.reverse mint := by
  induction walk with
  | nil => exact .nil
  | cons trades rest ih =>
      obtain ⟨whirlpool, fetched, joins⟩ := trades
      rw [List.reverse_cons]
      exact ih.push ⟨whirlpool, fetched, joins.symm⟩

/-- The pool has the token, and the other one of its tokens is the next. -/
theorem getTokenType_other {whirlpool : Whirlpool}
    (joins : (whirlpool.tokenMintA = mint ∧ whirlpool.tokenMintB = next) ∨
      (whirlpool.tokenMintA = next ∧ whirlpool.tokenMintB = mint)) :
    (PoolUtil.getTokenType whirlpool mint = some .tokenA ∧ whirlpool.tokenMintB = next) ∨
      (PoolUtil.getTokenType whirlpool mint = some .tokenB ∧ whirlpool.tokenMintA = next) := by
  unfold PoolUtil.getTokenType
  by_cases first : whirlpool.tokenMintA = mint
  · rw [if_pos first]
    rcases joins with ⟨-, other⟩ | ⟨other, same⟩
    · exact .inl ⟨rfl, other⟩
    · exact .inl ⟨rfl, same.trans (first.symm.trans other)⟩
  · rw [if_neg first]
    rcases joins with ⟨absurdity, -⟩ | ⟨other, same⟩
    · exact absurd absurdity first
    · exact .inr ⟨if_pos same, other⟩

/-- The direction of a request on a pool that trades its token. -/
theorem swapTarget_trades {request : SwapQuoteRequest} {whirlpool : Whirlpool}
    (fetched : fetcher.getPool request.whirlpool = some whirlpool)
    (joins : (whirlpool.tokenMintA = fetcher.toPubKey request.tradeTokenMint ∧
        whirlpool.tokenMintB = next) ∨
      (whirlpool.tokenMintA = next ∧
        whirlpool.tokenMintB = fetcher.toPubKey request.tradeTokenMint)) :
    ∃ aToB, swapTarget fetcher request = .ok (whirlpool, aToB) ∧
      ((aToB = request.amountSpecifiedIsInput ∧ whirlpool.tokenMintB = next) ∨
        (aToB = !request.amountSpecifiedIsInput ∧ whirlpool.tokenMintA = next)) := by
  have target (tokenType : TokenType) (typed : PoolUtil.getTokenType whirlpool
      (fetcher.toPubKey request.tradeTokenMint) = some tokenType) :
      swapTarget fetcher request =
        .ok (whirlpool, (tokenType = .tokenA : Bool) = request.amountSpecifiedIsInput) := by
    unfold swapTarget SwapUtils.getSwapDirection
    rw [fetched, okOr, ok_bind]
    dsimp only
    rw [typed]
    refine congrArg (fun aToB => Except.ok (whirlpool, aToB)) ?_
    cases tokenType <;> cases request.amountSpecifiedIsInput <;> rfl
  rcases getTokenType_other joins with ⟨typed, other⟩ | ⟨typed, other⟩
  · refine ⟨_, target .tokenA typed, .inl ⟨?_, other⟩⟩
    cases request.amountSpecifiedIsInput <;> rfl
  · refine ⟨_, target .tokenB typed, .inr ⟨?_, other⟩⟩
    cases request.amountSpecifiedIsInput <;> rfl

/-- A pool that trades the token gives a quote or fails; a quote is for the amount asked, and leads
to the other token. -/
theorem hopQuote_trades {request : SwapQuoteRequest}
    (trades : fetcher.Trades request.whirlpool (fetcher.toPubKey request.tradeTokenMint) next) :
    ∃ result, hopQuote lib spl fetcher request = .ok result ∧ ∀ hop, result = .success hop →
      fetcher.toPubKey (hop.next request.amountSpecifiedIsInput).1 = next ∧
        (if request.amountSpecifiedIsInput then hop.amountIn else hop.amountOut) =
          request.tokenAmount := by
  obtain ⟨whirlpool, fetched, joins⟩ := trades
  obtain ⟨aToB, target, direction⟩ := swapTarget_trades fetched joins
  refine ⟨_, bind_eq_ok.mpr ⟨_, bind_eq_ok.mpr ⟨_, target, rfl⟩, rfl⟩, fun hop success => ?_⟩
  unfold tradeHopQuote at success
  split at success
  · obtain rfl := TradeHopQuoteResult.success.inj success
    unfold TradeHop.next swapQuoteParam
    dsimp only
    constructor
    · rcases direction with ⟨rfl, other⟩ | ⟨rfl, other⟩
      · cases request.amountSpecifiedIsInput <;>
          exact (fetcher.toPubKey_toBase58 _).trans other
      · cases request.amountSpecifiedIsInput <;>
          exact (fetcher.toPubKey_toBase58 _).trans other
    · cases request.amountSpecifiedIsInput <;> rfl
  · exact absurd success nofun

/-- A walk is quoted up to its end or a failure, and the first quote is for the amount asked. -/
theorem quotePools_walk {amountSpecifiedIsInput : Bool} {asked : Address × BN}
    {pools : List Address}
    (walk : Walk fetcher (fetcher.toPubKey asked.1) pools final) :
    ∃ quoted, quotePools lib spl fetcher amountSpecifiedIsInput asked pools = .ok quoted ∧
      ∀ hop ∈ quoted.1.head?,
        (if amountSpecifiedIsInput then hop.amountIn else hop.amountOut) = asked.2 := by
  generalize start : fetcher.toPubKey asked.1 = mint at walk
  induction walk generalizing asked with
  | nil => exact ⟨([], none), rfl, fun _ absent => absurd absent (Option.not_mem_none _)⟩
  | @cons mint next final pool pools trades rest ih =>
      subst start
      obtain ⟨result, given, leads⟩ := @hopQuote_trades lib spl fetcher next
        ⟨pool, asked.1, asked.2, amountSpecifiedIsInput⟩ trades
      cases result with
      | failure error =>
          refine ⟨([], some error), ?_, fun _ absent => absurd absent (Option.not_mem_none _)⟩
          rw [quotePools, given, ok_bind]
      | success hop =>
          obtain ⟨⟨later, stopped⟩, following, -⟩ := ih (leads hop rfl).1
          refine ⟨(hop :: later, stopped), ?_, fun first leading => ?_⟩
          · rw [quotePools, given, ok_bind]
            dsimp only
            rw [following, ok_bind]
          · obtain rfl := Option.some.inj leading
            exact (leads hop rfl).2

/-- A walk from one token of the trade to the other one, from the end that is specified. -/
theorem Walk.inOrder {trade : Trade} {pools : List Address}
    (walk : Walk fetcher (fetcher.toPubKey trade.tokenIn) pools (fetcher.toPubKey trade.tokenOut))
    (share : ℕ+ × BN) : ∃ final, Walk fetcher (fetcher.toPubKey (trade.asked share []).1)
      (inOrder trade.amountSpecifiedIsInput pools) final := by
  unfold Trade.asked Sdk.inOrder
  dsimp only [List.getLast?_nil]
  cases trade.amountSpecifiedIsInput
  · exact ⟨_, walk.reverse⟩
  · exact ⟨_, walk⟩

/-- A path that leads from one token of the trade to the other one is quoted, or fails at one of its
pools; a quote is for the amount of the part. -/
theorem quotePath_walk {trade : Trade} {path : Path} (nonempty : path.edges ≠ [])
    (walk : Walk fetcher (fetcher.toPubKey trade.tokenIn) (path.edges.map Edge.poolAddress)
      (fetcher.toPubKey trade.tokenOut)) (share : ℕ+ × BN) :
    ∃ answer, quotePath lib spl fetcher trade share path = .ok answer ∧
      ∀ quote, answer = .ok quote → (if trade.amountSpecifiedIsInput then quote.quote.amountIn
        else quote.quote.amountOut) = share.2 := by
  obtain ⟨final, walk⟩ := walk.inOrder share
  obtain ⟨⟨hops, failed⟩, quotes, amount⟩ := quotePools_walk walk
  obtain ⟨whole, -⟩ := length_quotePools quotes
  cases failed with
  | some error => exact ⟨.error error, bind_eq_ok.mpr ⟨_, quotes, rfl⟩, nofun⟩
  | none =>
      have occupied : inOrder trade.amountSpecifiedIsInput hops ≠ [] := by
        intro absent
        have length := whole rfl
        rw [length_inOrder, List.length_map, ← length_inOrder trade.amountSpecifiedIsInput hops,
          absent] at length
        exact nonempty (List.eq_nil_of_length_eq_zero length.symm)
      obtain ⟨first, begins⟩ : ∃ first, (inOrder trade.amountSpecifiedIsInput hops).head? =
        .some first := ⟨_, List.head?_eq_some_head occupied⟩
      obtain ⟨last, ends⟩ : ∃ last, (inOrder trade.amountSpecifiedIsInput hops).getLast? =
        .some last := ⟨_, List.getLast?_eq_some_getLast occupied⟩
      refine ⟨_, bind_eq_ok.mpr ⟨_, quotes, bind_eq_ok.mpr ⟨_, okOr_eq_ok.mpr begins,
        bind_eq_ok.mpr ⟨_, okOr_eq_ok.mpr ends, rfl⟩⟩⟩, fun quote same => ?_⟩
      obtain rfl := Except.ok.inj same
      dsimp only at amount ⊢
      unfold Sdk.inOrder at begins ends
      cases input : trade.amountSpecifiedIsInput
      · rw [input, if_neg Bool.false_ne_true, List.getLast?_reverse] at ends
        rw [input] at amount
        exact amount last ends
      · rw [input, if_pos rfl] at begins
        rw [input] at amount
        exact amount first begins

/-- The answers of all paths that lead from one token of the trade to the other one. -/
theorem quotePath_walks (lib : CommonSdk) (spl : SplToken) {trade : Trade} {paths : List Path}
    (nonempty : ∀ path ∈ paths, path.edges ≠ [])
    (walks : ∀ path ∈ paths, Walk fetcher (fetcher.toPubKey trade.tokenIn)
      (path.edges.map Edge.poolAddress) (fetcher.toPubKey trade.tokenOut)) :
    ∃ answer : ℕ+ × BN → Path → Except (Option HopErrorCode) QuotedPath,
      ∀ share, ∀ path ∈ paths, quotePath lib spl fetcher trade share path =
          .ok (answer share path) ∧
        ∀ quote, answer share path = .ok quote → (if trade.amountSpecifiedIsInput
          then quote.quote.amountIn else quote.quote.amountOut) = share.2 := by
  have each (share : ℕ+ × BN) (path : Path) : ∃ answer, path ∈ paths →
      quotePath lib spl fetcher trade share path = .ok answer ∧
        ∀ quote, answer = .ok quote → (if trade.amountSpecifiedIsInput
          then quote.quote.amountIn else quote.quote.amountOut) = share.2 := by
    by_cases member : path ∈ paths
    · obtain ⟨answer, answered⟩ := quotePath_walk (nonempty path member) (walks path member) share
      exact ⟨answer, fun _ => answered⟩
    · exact ⟨.error none, fun present => absurd present member⟩
  choose answer answers using each
  exact ⟨answer, answers⟩

end Walks

section Exact

variable {lib : CommonSdk} {spl : SplToken} {fetcher : Fetcher}

theorem getSplitPercentageAmts_ascending (inputAmount : BN) (minPercent : ℕ+) :
    ((getSplitPercentageAmts inputAmount minPercent).map Prod.fst).Pairwise (· < ·) := by
  unfold getSplitPercentageAmts
  rw [List.map_map, List.pairwise_map]
  refine List.pairwise_lt_range.imp fun less => ?_
  exact mul_lt_mul_left (Nat.succPNat_lt_succPNat.mpr less) minPercent

/-- The quote map of paths that all have an answer alone. -/
theorem getQuoteMap_alone {trade : Trade} {paths : List Path}
    (nonempty : ∀ path ∈ paths, path.edges ≠ [])
    {answer : ℕ+ × BN → Path → Except (Option HopErrorCode) QuotedPath}
    (answers : ∀ share, ∀ path ∈ paths, quotePath lib spl fetcher trade share path =
      .ok (answer share path)) (opts : RoutingOptions) :
    let shares := getSplitPercentageAmts trade.tradeAmount opts.percentIncrement
    ∃ hopQuotes errors, getQuoteMap lib spl fetcher trade paths opts = .ok (hopQuotes, errors) ∧
      hopQuotes.percents = (if paths = [] then [] else shares.map Prod.fst) ∧
      (∀ share ∈ shares, hopQuotes.quotes share.1 =
        (sortBy (quoteCompare trade.amountSpecifiedIsInput)
          (paths.filterMap fun path => (answer share path).toOption)).take
            opts.numTopPartialQuotes) ∧
      errors.Nodup ∧ ∀ error, error ∈ errors ↔
        ∃ share ∈ shares, ∃ path ∈ paths, answer share path = .error error := by
  intro shares
  have ascending := getSplitPercentageAmts_ascending trade.tradeAmount opts.percentIncrement
  have distinct : (shares.map Prod.fst).Nodup := ascending.imp ne_of_lt
  have each (share : ℕ+ × BN) (path : Path) : ∃ quoted, path ∈ paths →
      quotePools lib spl fetcher trade.amountSpecifiedIsInput (trade.asked share [])
        (inOrder trade.amountSpecifiedIsInput (path.edges.map Edge.poolAddress)) = .ok quoted ∧
      pathQuote trade share path quoted = .ok (answer share path) := by
    by_cases member : path ∈ paths
    · obtain ⟨quoted, quotes, answered⟩ := bind_eq_ok.mp (answers share path member)
      exact ⟨quoted, fun _ => ⟨quotes, answered⟩⟩
    · exact ⟨([], none), fun present => absurd present member⟩
  choose quoted alone using each
  obtain ⟨quoteMap, returned, percents, cells⟩ := quoteHops_cells distinct nonempty
    fun share _ path member => (alone share path member).1
  by_cases nothing : paths = []
  · subst nothing
    have started : (hopOrder [] trade.amountSpecifiedIsInput).foldlM
        (quoteHop lib spl fetcher trade [] shares) .empty = .ok .empty := by
      cases trade.amountSpecifiedIsInput <;> rfl
    exact ⟨_, [], bind_eq_ok.mpr ⟨_, started, rfl⟩, rfl, fun _ _ => rfl, List.nodup_nil,
      fun error => ⟨fun absent => absurd absent List.not_mem_nil,
        fun ⟨_, _, _, absent, _⟩ => absurd absent List.not_mem_nil⟩⟩
  · have known : quoteMap.percents = shares.map Prod.fst := by
      have hops : hopOrder paths trade.amountSpecifiedIsInput ≠ [] := by
        obtain ⟨path, member⟩ := List.exists_mem_of_ne_nil _ nothing
        exact hopOrder_ne_nil member (nonempty path member) _
      exact quoteMap.ascending.eq_of_mem_iff ascending fun percent =>
        (percents percent).trans (and_iff_right hops)
    obtain ⟨hopQuotes, errors, cleaned, same, kept, once, failed⟩ :=
      sanitizeQuoteMap_alone distinct (fun share _ path member => (alone share path member).1)
        (fun share _ path member => (alone share path member).2) known cells
        opts.numTopPartialQuotes
    refine ⟨hopQuotes, errors, bind_eq_ok.mpr ⟨_, returned, cleaned⟩, ?_, kept, once, failed⟩
    rw [if_neg nothing, same]

/-- The quote map of a trade over paths that lead from one token to the other one. Each part is
quoted over each path as it is alone: the map has every percent, and keeps the best quotes of those
paths that have one, in a stable order; the errors are those of the others. -/
theorem getQuoteMap_exact (trade : Trade) {paths : List Path}
    (nonempty : ∀ path ∈ paths, path.edges ≠ [])
    (walks : ∀ path ∈ paths, Walk fetcher (fetcher.toPubKey trade.tokenIn)
      (path.edges.map Edge.poolAddress) (fetcher.toPubKey trade.tokenOut)) (opts : RoutingOptions) :
    let shares := getSplitPercentageAmts trade.tradeAmount opts.percentIncrement
    ∃ (answer : ℕ+ × BN → Path → Except (Option HopErrorCode) QuotedPath) (hopQuotes : HopQuoteMap)
        (errors : List (Option HopErrorCode)),
      (∀ share, ∀ path ∈ paths, quotePath lib spl fetcher trade share path =
        .ok (answer share path)) ∧
      getQuoteMap lib spl fetcher trade paths opts = .ok (hopQuotes, errors) ∧
      hopQuotes.percents = (if paths = [] then [] else shares.map Prod.fst) ∧
      (∀ share ∈ shares, hopQuotes.quotes share.1 =
        (sortBy (quoteCompare trade.amountSpecifiedIsInput)
          (paths.filterMap fun path => (answer share path).toOption)).take
            opts.numTopPartialQuotes) ∧
      errors.Nodup ∧ ∀ error, error ∈ errors ↔
        ∃ share ∈ shares, ∃ path ∈ paths, answer share path = .error error := by
  intro shares
  obtain ⟨answer, answers⟩ := quotePath_walks lib spl nonempty walks
  obtain ⟨hopQuotes, errors, exact⟩ := getQuoteMap_alone nonempty
    (fun share path member => (answers share path member).1) opts
  exact ⟨answer, hopQuotes, errors, fun share path member => (answers share path member).1, exact⟩

/-- Keys as texts of so many letters. All tick arrays are there, with their first tick
initialized. -/
def lettersFetcher (getPool : Address → Option Whirlpool) : Fetcher where
  toBase58 key := ⟨String.ofList (List.replicate key 'a'), by
    rw [String.toList_ofList]
    exact fun dash => absurd (List.eq_of_mem_replicate dash) (by decide)⟩
  toPubKey address := address.text.length
  toPubKey_toBase58 key := by rw [String.length_ofList, List.length_replicate]
  getPool := getPool
  getTickArray place :=
    some ⟨place.2, fun offset => { Tick.default with initialized := offset = 0 }⟩

/-- A pool with fees between two tokens. -/
def pairPool (tokenMintA tokenMintB : Pubkey) : Whirlpool :=
  { poolAtTick 8 (10 ^ 9) with
    feeRate := 3000
    tokenMintA := tokenMintA
    tokenMintB := tokenMintB }

/-- Pool 4 trades tokens 1 and 3, pool 5 tokens 1 and 2, and pool 6 tokens 2 and 3. -/
def triangleFetcher : Fetcher := lettersFetcher fun address =>
  [pairPool 1 3, pairPool 1 2, pairPool 2 3][address.text.length - 4]?

/-- The fetcher finds the three pools of the triangle. -/
theorem triangleFetcher_getPool (key : Pubkey) :
    triangleFetcher.getPool (triangleFetcher.toBase58 key) =
      [pairPool 1 3, pairPool 1 2, pairPool 2 3][key - 4]? :=
  congrArg (fun letters => [pairPool 1 3, pairPool 1 2, pairPool 2 3][letters - 4]?)
    (triangleFetcher.toPubKey_toBase58 key)

/-- A trade is quoted for five percents over one pool and over two. Of the whole trade, the path
over one pool gives more. -/
theorem getQuoteMap_exact_twoPaths : ∃ (trade : Trade) (paths : List Path) (hopQuotes : HopQuoteMap)
    (errors : List (Option HopErrorCode)),
    getQuoteMap .plain .formulas triangleFetcher trade paths RouterUtils.getDefaultRouteOptions =
        .ok (hopQuotes, errors) ∧
      hopQuotes.percents = [20, 40, 60, 80, 100] ∧
      (hopQuotes.quotes 100).map (fun quoted =>
        (quoted.quote.path.edges.length, quoted.quote.amountOut)) = [(1, 99769), (2, 99538)] := by
  let token (key : Pubkey) : Address := triangleFetcher.toBase58 key
  let trade : Trade := ⟨token 1, token 3, 100000, true⟩
  let direct : Path := ⟨token 1, token 3, [⟨token 4⟩]⟩
  let through : Path := ⟨token 1, token 3, [⟨token 5⟩, ⟨token 6⟩]⟩
  have walks : ∀ path ∈ [through, direct], Walk triangleFetcher (triangleFetcher.toPubKey
      trade.tokenIn) (path.edges.map Edge.poolAddress)
      (triangleFetcher.toPubKey trade.tokenOut) := by
    have tokenIn : triangleFetcher.toPubKey trade.tokenIn = 1 := triangleFetcher.toPubKey_toBase58 1
    have tokenOut : triangleFetcher.toPubKey trade.tokenOut = 3 :=
      triangleFetcher.toPubKey_toBase58 3
    rw [tokenIn, tokenOut]
    refine List.forall_mem_cons.mpr ⟨?_, List.forall_mem_singleton.mpr ?_⟩
    · exact .cons ⟨pairPool 1 2, triangleFetcher_getPool 5, .inl ⟨rfl, rfl⟩⟩
        (.cons ⟨pairPool 2 3, triangleFetcher_getPool 6, .inl ⟨rfl, rfl⟩⟩ .nil)
    · exact .cons ⟨pairPool 1 3, triangleFetcher_getPool 4, .inl ⟨rfl, rfl⟩⟩ .nil
  have shown : yields (quotePath .plain .formulas triangleFetcher trade (100, 100000) direct)
        (fun answer => yields answer fun quoted =>
          (quoted.quote.path.edges.length, quoted.quote.amountOut) = (1, 99769)) = true ∧
      yields (quotePath .plain .formulas triangleFetcher trade (100, 100000) through)
        (fun answer => yields answer fun quoted =>
          (quoted.quote.path.edges.length, quoted.quote.amountOut) = (2, 99538)) = true := by
    decide +kernel
  obtain ⟨_, quotedDirect, answeredDirect⟩ := yields_iff.mp shown.1
  obtain ⟨best, rfl, amountDirect⟩ := yields_iff.mp answeredDirect
  obtain ⟨_, quotedThrough, answeredThrough⟩ := yields_iff.mp shown.2
  obtain ⟨second, rfl, amountThrough⟩ := yields_iff.mp answeredThrough
  obtain ⟨answer, hopQuotes, errors, answers, returned, percents, quotes, -⟩ :=
    @getQuoteMap_exact .plain .formulas triangleFetcher trade [through, direct]
      (List.forall_mem_cons.mpr ⟨List.cons_ne_nil _ _, List.forall_mem_singleton.mpr
        (List.cons_ne_nil _ _)⟩) walks RouterUtils.getDefaultRouteOptions
  refine ⟨trade, [through, direct], hopQuotes, errors, returned, percents.trans (by decide), ?_⟩
  have first := answers (100, 100000) direct (List.mem_cons_of_mem _ List.mem_cons_self)
  have next := answers (100, 100000) through List.mem_cons_self
  rw [quotedDirect, Except.ok.injEq] at first
  rw [quotedThrough, Except.ok.injEq] at next
  have alone : [through, direct].filterMap (fun path => (answer (100, 100000) path).toOption) =
      [second, best] := by
    simp only [List.filterMap_cons, List.filterMap_nil, ← first, ← next, Except.toOption]
  have direct99769 := Prod.mk.inj (of_decide_eq_true amountDirect)
  have through99538 := Prod.mk.inj (of_decide_eq_true amountThrough)
  have better : ¬ quoteCompare trade.amountSpecifiedIsInput second best ≤ 0 := by
    rw [quoteCompare, if_pos rfl, direct99769.2, through99538.2]
    decide
  have ordered : sortBy (quoteCompare trade.amountSpecifiedIsInput) [second, best] =
      [best, second] := by
    simp [sortBy, List.mergeSort, better]
  rw [show hopQuotes.quotes 100 = _ from quotes (100, 100000) (by decide), alone, ordered]
  exact congrArg₂ (fun a b => [a, b]) (Prod.ext direct99769.1 direct99769.2)
    (Prod.ext through99538.1 through99538.2)

end Exact

end Whirlpools.Sdk
