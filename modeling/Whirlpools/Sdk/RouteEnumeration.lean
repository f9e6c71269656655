import Whirlpools.Sdk.ConvertQuoteMap

/-! # The enumeration of routes

The search extends a route by quotes that come later in the order of the map: larger percents first,
then the order of the list. So it meets every selection of quotes once, and prunes only those that
no extension makes a valid split.
-/

namespace Whirlpools.Sdk

open Choices

/-- The two quotes share a pool. -/
def SharesPool (first second : PathQuote) : Prop :=
  ∃ pool ∈ first.edgesPoolAddrs, pool ∈ second.edgesPoolAddrs

def totalPercent : List PathQuote → ℕ
  | [] => 0
  | quote :: quotes => quote.splitPercent + totalPercent quotes

def totalAmount (amount : PathQuote → ℤ) : List PathQuote → ℤ
  | [] => 0
  | quote :: quotes => amount quote + totalAmount amount quotes

/-- At most so many quotes that share no pools make up the whole trade. -/
def ValidSplit (maxSplits : ℕ) (quotes : List PathQuote) : Prop :=
  quotes.length ≤ maxSplits ∧ totalPercent quotes = 100 ∧
    quotes.Pairwise fun first second => ¬ SharesPool first second

instance (first second : PathQuote) : Decidable (SharesPool first second) :=
  List.decidableBEx _ _

instance (maxSplits : ℕ) : DecidablePred (ValidSplit maxSplits) :=
  fun _ => inferInstanceAs (Decidable (_ ∧ _ ∧ _))

/-- The fields of a route are the totals of its quotes. -/
structure Totalled (route : InternalRoute) : Prop where
  percent : route.splitPercent = totalPercent route.quotes
  input : route.totalIn = totalAmount PathQuote.amountIn route.quotes
  output : route.totalOut = totalAmount PathQuote.amountOut route.quotes

/-- All quotes of the map, in the order of the search. -/
def SanitizedQuoteMap.allQuotes (percentMap : SanitizedQuoteMap) : List PathQuote :=
  percentMap.percents.reverse.flatMap percentMap.quotes

/-- Every quote is for the percent it is listed under. -/
def Matching (percentMap : SanitizedQuoteMap) : Prop :=
  ∀ percent ∈ percentMap.percents, ∀ quote ∈ percentMap.quotes percent,
    quote.splitPercent = percent

/-- No pool address contains another one. -/
def PoolsApart (quotes : List PathQuote) : Prop :=
  ∀ first ∈ quotes, ∀ second ∈ quotes, ∀ pool ∈ first.edgesPoolAddrs,
    ∀ other ∈ second.edgesPoolAddrs, containsText other pool = true → pool = other

section Totals

variable {quotes more : List PathQuote} {quote : PathQuote} {maxSplits : ℕ} {route : InternalRoute}

theorem totalPercent_append :
    totalPercent (quotes ++ more) = totalPercent quotes + totalPercent more := by
  induction quotes with
  | nil => exact (Nat.zero_add _).symm
  | cons quote quotes ih => rw [List.cons_append, totalPercent, totalPercent, ih, Nat.add_assoc]

theorem totalAmount_append (amount : PathQuote → ℤ) :
    totalAmount amount (quotes ++ more) = totalAmount amount quotes + totalAmount amount more := by
  induction quotes with
  | nil => exact (Int.zero_add _).symm
  | cons quote quotes ih => rw [List.cons_append, totalAmount, totalAmount, ih, Int.add_assoc]

theorem totalPercent_push :
    totalPercent (quotes ++ [quote]) = totalPercent quotes + quote.splitPercent :=
  totalPercent_append

theorem totalPercent_perm (same : quotes.Perm more) : totalPercent quotes = totalPercent more := by
  induction same with
  | nil => rfl
  | cons quote _ ih => rw [totalPercent, totalPercent, ih]
  | swap first second rest =>
      rw [totalPercent, totalPercent, totalPercent, totalPercent, Nat.add_left_comm]
  | trans _ _ first second => exact first.trans second

theorem SharesPool.symm {first second : PathQuote} (shares : SharesPool first second) :
    SharesPool second first := by
  obtain ⟨pool, inFirst, inSecond⟩ := shares
  exact ⟨pool, inSecond, inFirst⟩

theorem ValidSplit.perm (valid : ValidSplit maxSplits quotes) (same : quotes.Perm more) :
    ValidSplit maxSplits more :=
  ⟨same.length_eq ▸ valid.1, totalPercent_perm same ▸ valid.2.1,
    (same.pairwise_iff fun apart shares => apart shares.symm).mp valid.2.2⟩

/-- One more quote keeps the totals of a route right. -/
theorem Totalled.push (totalled : Totalled route) {newPercentTotal : ℕ}
    (percent : newPercentTotal = route.splitPercent + quote.splitPercent) :
    Totalled (route.push quote newPercentTotal) where
  percent := by
    change newPercentTotal = totalPercent (route.quotes ++ [quote])
    rw [percent, totalPercent_push, totalled.percent]
  input := by
    change route.totalIn + quote.amountIn = totalAmount _ (route.quotes ++ [quote])
    rw [totalAmount_append, totalled.input]
    exact congrArg _ (Int.add_zero _).symm
  output := by
    change route.totalOut + quote.amountOut = totalAmount _ (route.quotes ++ [quote])
    rw [totalAmount_append, totalled.output]
    exact congrArg _ (Int.add_zero _).symm

end Totals

section Pruning

variable {quotes offered : List PathQuote} {quote : PathQuote} {maxSplits : ℕ}

/-- Containment of addresses finds the shared pools. -/
theorem hasReusedPools_iff (apart : PoolsApart offered) (inside : ∀ used ∈ quotes, used ∈ offered)
    (listed : quote ∈ offered) :
    hasReusedPools quotes quote = true ↔ ∃ used ∈ quotes, SharesPool used quote := by
  unfold hasReusedPools
  rw [List.any_eq_true]
  constructor
  · rintro ⟨pool, own, found⟩
    obtain ⟨used, present, found⟩ := List.any_eq_true.mp found
    obtain ⟨other, theirs, contains⟩ := List.any_eq_true.mp found
    have same := apart quote listed used (inside used present) pool own other theirs contains
    exact ⟨used, present, other, theirs, same ▸ own⟩
  · rintro ⟨used, present, pool, theirs, own⟩
    refine ⟨pool, own, List.any_eq_true.mpr ⟨used, present, List.any_eq_true.mpr
      ⟨pool, theirs, decide_eq_true (List.infix_refl _)⟩⟩⟩

/-- No extension of a list beyond the whole trade is a valid split. -/
theorem not_valid_of_percent (beyond : 100 < totalPercent quotes) (more : List PathQuote) :
    ¬ ValidSplit maxSplits (quotes ++ more) := by
  intro valid
  have total := valid.2.1
  rw [totalPercent_append] at total
  omega

/-- Nothing completes a route in which two quotes share a pool. -/
theorem not_valid_of_shares {used : PathQuote} (present : used ∈ quotes)
    (shares : SharesPool used quote) (more : List PathQuote) :
    ¬ ValidSplit maxSplits (quotes ++ [quote] ++ more) := by
  intro valid
  have apart := (List.pairwise_append.mp (List.pairwise_append.mp valid.2.2).1).2.2
  exact apart used present quote List.mem_cons_self shares

/-- A list of less than the whole trade with no room for another quote cannot be extended. -/
theorem not_valid_of_full (below : totalPercent quotes < 100) (full : quotes.length = maxSplits)
    (more : List PathQuote) : ¬ ValidSplit maxSplits (quotes ++ more) := by
  intro valid
  have length := valid.1
  have total := valid.2.1
  cases more with
  | nil =>
      rw [List.append_nil] at total
      omega
  | cons quote more =>
      rw [List.length_append, List.length_cons] at length
      omega

/-- Nothing can be added to a whole route. -/
theorem not_valid_of_whole (whole : totalPercent quotes = 100) (quote : PathQuote)
    (more : List PathQuote) : ¬ ValidSplit maxSplits (quotes ++ quote :: more) := by
  intro valid
  have total := valid.2.1
  have positive := quote.splitPercent.pos
  rw [totalPercent_append, totalPercent] at total
  omega

end Pruning

section Search

variable {quotePercentMap : SanitizedQuoteMap} {offered : List PathQuote} {maxSplits : ℕ}
  {currentRoute : InternalRoute}

/-- The percents to go on with. -/
def nextPercents (quotePercentMap : SanitizedQuoteMap) (currentRoute : InternalRoute) : List ℕ+ :=
  quotePercentMap.percents.reverse.filter fun percent =>
    !nextPercentExceeds currentRoute.quotes percent

/-- The quotes to go on with, in the order of the search. -/
def nextQuotes (quotePercentMap : SanitizedQuoteMap) (currentRoute : InternalRoute) :
    List PathQuote :=
  (nextPercents quotePercentMap currentRoute).flatMap quotePercentMap.quotes

/-- The routes that go on with one quote. -/
def routesThrough (quotePercentMap : SanitizedQuoteMap) (maxSplits : ℕ)
    (currentRoute : InternalRoute) (percent : ℕ+) (choice : PathQuote × List PathQuote) :
    List InternalRoute :=
  let total := currentRoute.splitPercent + percent
  if total > 100 then []
  else if hasReusedPools currentRoute.quotes choice.1 then []
  else if total = 100 then [currentRoute.push choice.1 total]
  else if currentRoute.quotes.length + 1 ≠ maxSplits then
    buildRoutes (quotePercentMap.set percent choice.2) maxSplits (currentRoute.push choice.1 total)
  else []

/-- The routes are built percent by percent and quote by quote, each time from what comes later. -/
theorem buildRoutes_eq : buildRoutes quotePercentMap maxSplits currentRoute =
    (nextPercents quotePercentMap currentRoute).flatMap fun percent =>
      (choices (quotePercentMap.quotes percent)).flatMap
        (routesThrough quotePercentMap maxSplits currentRoute percent) := by
  rw [buildRoutes]
  unfold nextPercents
  induction quotePercentMap.percents.reverse with
  | nil => rfl
  | cons percent percents ih =>
      rw [List.flatMap_cons, ih]
      by_cases exceeds : nextPercentExceeds currentRoute.quotes percent = true
      · rw [if_pos (Or.inr exceeds), List.filter_cons_of_neg (by rw [exceeds]; decide)]
        rfl
      · rw [List.filter_cons_of_pos (by rw [Bool.not_eq_true _ |>.mp exceeds]; rfl),
          List.flatMap_cons]
        refine congrArg (· ++ _) ?_
        unfold routesThrough
        dsimp only
        by_cases beyond : currentRoute.splitPercent + percent > 100
        · rw [if_pos (Or.inl beyond)]
          exact (List.flatMap_eq_nil_iff.mpr fun _ _ => if_pos beyond).symm
        · rw [if_neg (not_or.mpr ⟨beyond, exceeds⟩)]
          simp only [if_neg beyond]

/-- Every offered quote is listed under its percent. -/
def Offers (offered : List PathQuote) (quotePercentMap : SanitizedQuoteMap) : Prop :=
  ∀ percent ∈ quotePercentMap.percents, ∀ quote ∈ quotePercentMap.quotes percent,
    quote ∈ offered ∧ quote.splitPercent = percent

/-- A route that is not complete yet. -/
structure Partial (offered : List PathQuote) (maxSplits : ℕ) (currentRoute : InternalRoute) :
    Prop where
  totalled : Totalled currentRoute
  room : currentRoute.quotes.length < maxSplits
  below : currentRoute.splitPercent < 100
  apart : currentRoute.quotes.Pairwise fun first second => ¬ SharesPool first second
  inside : ∀ quote ∈ currentRoute.quotes, quote ∈ offered

section Choice

variable {percent : ℕ+} {smaller : List ℕ+} {quote : PathQuote} {later : List PathQuote}

/-- After a quote the later percents are judged by it. -/
theorem nextPercentExceeds_push (total : ℕ) (other : ℕ+) :
    nextPercentExceeds (currentRoute.push quote total).quotes other =
      decide (quote.splitPercent < other) := by
  unfold nextPercentExceeds InternalRoute.push
  rw [List.getLast?_concat]

/-- A percent that may follow allows all smaller ones. -/
theorem nextPercentExceeds_mono {other : ℕ+}
    (follows : nextPercentExceeds currentRoute.quotes percent = false) (below : other ≤ percent) :
    nextPercentExceeds currentRoute.quotes other = false := by
  unfold nextPercentExceeds at follows ⊢
  cases last : currentRoute.quotes.getLast? with
  | none => rfl
  | some last' =>
      rw [last] at follows
      exact decide_eq_false fun less =>
        absurd (less.trans_le below) (of_decide_eq_false follows)

/-- After a quote the percents that remain are its own and the smaller ones. -/
theorem nextPercents_push (total : ℕ) (matching : quote.splitPercent = percent)
    (chosen : (percent, smaller) ∈ choices (nextPercents quotePercentMap currentRoute)) :
    nextPercents (quotePercentMap.set percent later) (currentRoute.push quote total) =
      percent :: smaller := by
  obtain ⟨earlier, split⟩ := mem_choices.mp chosen
  have descending : (earlier ++ percent :: smaller).Pairwise (· > ·) := by
    rw [← split]
    exact (List.pairwise_reverse.mpr quotePercentMap.ascending).filter _
  have follows : nextPercentExceeds currentRoute.quotes percent = false := by
    have member : percent ∈ nextPercents quotePercentMap currentRoute := by
      rw [split]
      exact List.mem_append_right _ List.mem_cons_self
    have kept := (List.mem_filter.mp member).2
    simpa using kept
  have refined : nextPercents (quotePercentMap.set percent later) (currentRoute.push quote total) =
      (nextPercents quotePercentMap currentRoute).filter fun other => decide (other ≤ percent) := by
    unfold nextPercents
    rw [List.filter_filter]
    refine List.filter_congr fun other _ => ?_
    rw [nextPercentExceeds_push, matching]
    by_cases below : other ≤ percent
    · rw [nextPercentExceeds_mono follows below, decide_eq_false below.not_gt, decide_eq_true below]
      rfl
    · rw [decide_eq_true (lt_of_not_ge below), decide_eq_false below]
      rfl
  obtain ⟨-, rest, across⟩ := List.pairwise_append.mp descending
  have empty : earlier.filter (fun other => decide (other ≤ percent)) = [] :=
    List.filter_eq_nil_iff.mpr fun other member below =>
      (across other member percent List.mem_cons_self).not_ge (of_decide_eq_true below)
  have every : smaller.filter (fun other => decide (other ≤ percent)) = smaller :=
    List.filter_eq_self.mpr fun other member =>
      decide_eq_true ((List.pairwise_cons.mp rest).1 other member).le
  rw [refined, split, List.filter_append, empty, List.nil_append, List.filter_cons, every]
  exact if_pos (decide_eq_true le_rfl)

/-- After a choice, the later quotes of its percent and those of smaller percents are left. -/
theorem nextQuotes_push (total : ℕ) (matching : quote.splitPercent = percent)
    (chosen : (percent, smaller) ∈ choices (nextPercents quotePercentMap currentRoute)) :
    nextQuotes (quotePercentMap.set percent later) (currentRoute.push quote total) =
      later ++ smaller.flatMap quotePercentMap.quotes := by
  obtain ⟨earlier, split⟩ := mem_choices.mp chosen
  have once : (earlier ++ percent :: smaller).Nodup := by
    rw [← split]
    exact ((List.pairwise_reverse.mpr quotePercentMap.ascending).imp ne_of_gt).filter _
  have absent : percent ∉ smaller := (List.nodup_cons.mp (List.nodup_append.mp once).2.1).1
  unfold nextQuotes
  rw [nextPercents_push total matching chosen, List.flatMap_cons]
  unfold SanitizedQuoteMap.set
  dsimp only
  rw [Function.update_self]
  refine congrArg (later ++ ·) (List.flatMap_congr fun other member => ?_)
  exact Function.update_of_ne (fun same : other = percent => absent (same ▸ member)) _ _

/-- Dropping the quotes already tried keeps what is on offer. -/
theorem Offers.set (offers : Offers offered quotePercentMap)
    (kept : ∀ other ∈ later, other ∈ quotePercentMap.quotes percent) :
    Offers offered (quotePercentMap.set percent later) := by
  intro asked listed other member
  unfold SanitizedQuoteMap.set at member
  by_cases same : asked = percent
  · subst same
    dsimp only at member
    rw [Function.update_self] at member
    exact offers asked listed other (kept other member)
  · dsimp only at member
    rw [Function.update_of_ne same] at member
    exact offers asked listed other member

/-- What a search from a route finds: its valid extensions, each once, with the right totals. -/
def Finds (maxSplits : ℕ) (taken candidates : List PathQuote) (routes : List InternalRoute) :
    Prop :=
  (routes.map InternalRoute.quotes).Perm (extensions (ValidSplit maxSplits) taken candidates) ∧
    ∀ route ∈ routes, Totalled route

/-- Nothing is found when nothing can be completed. -/
theorem finds_nothing {taken candidates : List PathQuote}
    (hopeless : ∀ more, ¬ ValidSplit maxSplits (taken ++ more)) :
    Finds maxSplits taken candidates [] := by
  refine ⟨?_, fun _ found => absurd found List.not_mem_nil⟩
  rw [extensions_hopeless hopeless]
  exact List.Perm.refl _

/-- Pruning loses nothing, and a complete route is found once. -/
theorem routesThrough_finds (apart : PoolsApart offered) (offers : Offers offered quotePercentMap)
    (partly : Partial offered maxSplits currentRoute)
    (first : (percent, smaller) ∈ choices (nextPercents quotePercentMap currentRoute))
    (second : (quote, later) ∈ choices (quotePercentMap.quotes percent))
    (recursive : let next := currentRoute.push quote (currentRoute.splitPercent + percent)
      Partial offered maxSplits next → Offers offered (quotePercentMap.set percent later) →
      Finds maxSplits next.quotes (nextQuotes (quotePercentMap.set percent later) next)
        (buildRoutes (quotePercentMap.set percent later) maxSplits next)) :
    Finds maxSplits (currentRoute.quotes ++ [quote])
      (later ++ smaller.flatMap quotePercentMap.quotes)
      (routesThrough quotePercentMap maxSplits currentRoute percent (quote, later)) := by
  obtain ⟨earlier, split⟩ := mem_choices.mp first
  obtain ⟨earlier', split'⟩ := mem_choices.mp second
  have listed : percent ∈ quotePercentMap.percents := by
    have member : percent ∈ nextPercents quotePercentMap currentRoute := by
      rw [split]
      exact List.mem_append_right _ List.mem_cons_self
    exact List.mem_reverse.mp (List.mem_filter.mp member).1
  have within (other : PathQuote) (member : other ∈ quote :: later) :
      other ∈ quotePercentMap.quotes percent := by
    rw [split']
    exact List.mem_append_right _ member
  obtain ⟨own, matching⟩ := offers percent listed quote (within quote List.mem_cons_self)
  have total : totalPercent (currentRoute.quotes ++ [quote]) =
      currentRoute.splitPercent + percent := by
    rw [totalPercent_push, partly.totalled.percent, matching]
  unfold routesThrough
  dsimp only
  by_cases beyond : currentRoute.splitPercent + percent > 100
  · rw [if_pos beyond]
    exact finds_nothing (not_valid_of_percent (by omega))
  rw [if_neg beyond]
  by_cases reused : hasReusedPools currentRoute.quotes quote = true
  · rw [if_pos reused]
    obtain ⟨used, present, shares⟩ := (hasReusedPools_iff apart partly.inside own).mp reused
    exact finds_nothing (not_valid_of_shares present shares)
  rw [if_neg reused]
  have fresh : ∀ used ∈ currentRoute.quotes, ¬ SharesPool used quote := fun used present shares =>
    reused ((hasReusedPools_iff apart partly.inside own).mpr ⟨used, present, shares⟩)
  have pairwise : (currentRoute.quotes ++ [quote]).Pairwise fun first second =>
      ¬ SharesPool first second := by
    refine List.pairwise_append.mpr ⟨partly.apart, List.pairwise_singleton _ _, ?_⟩
    intro used present other single
    exact List.mem_singleton.mp single ▸ fresh used present
  have length : (currentRoute.quotes ++ [quote]).length = currentRoute.quotes.length + 1 :=
    List.length_append
  have room := partly.room
  have totalled : Totalled (currentRoute.push quote (currentRoute.splitPercent + percent)) :=
    partly.totalled.push (congrArg _ (congrArg _ matching.symm))
  by_cases whole : currentRoute.splitPercent + percent = 100
  · rw [if_pos whole]
    have valid : ValidSplit maxSplits (currentRoute.quotes ++ [quote]) :=
      ⟨by omega, total.trans whole, pairwise⟩
    refine ⟨(extensions_complete valid (not_valid_of_whole valid.2.1)).symm, fun route found => ?_⟩
    exact List.mem_singleton.mp found ▸ totalled
  rw [if_neg whole]
  by_cases deeper : currentRoute.quotes.length + 1 ≠ maxSplits
  · rw [if_pos deeper, ← nextQuotes_push _ matching first]
    refine recursive ⟨totalled, ?_, ?_, pairwise, ?_⟩
      (offers.set fun other member => within other (List.mem_cons_of_mem _ member))
    · change (currentRoute.quotes ++ [quote]).length < maxSplits
      omega
    · change currentRoute.splitPercent + percent < 100
      omega
    · intro other member
      rcases List.mem_append.mp member with used | single
      · exact partly.inside other used
      · exact List.mem_singleton.mp single ▸ own
  · rw [if_neg deeper]
    exact finds_nothing (not_valid_of_full (by omega) (by omega))

end Choice

/-- The search meets every valid extension of the route once. -/
theorem buildRoutes_finds (apart : PoolsApart offered) {remaining : ℕ}
    (enough : 100 - currentRoute.splitPercent ≤ remaining)
    (offers : Offers offered quotePercentMap) (partly : Partial offered maxSplits currentRoute) :
    Finds maxSplits currentRoute.quotes (nextQuotes quotePercentMap currentRoute)
      (buildRoutes quotePercentMap maxSplits currentRoute) := by
  induction remaining generalizing quotePercentMap currentRoute with
  | zero =>
      have below := partly.below
      omega
  | succ remaining ih =>
      have incomplete : ¬ ValidSplit maxSplits currentRoute.quotes := by
        intro valid
        have whole := valid.2.1
        have below := partly.below
        rw [← partly.totalled.percent] at whole
        omega
      have through {percent : ℕ+} {smaller : List ℕ+} {quote : PathQuote} {later : List PathQuote}
          (first : (percent, smaller) ∈ choices (nextPercents quotePercentMap currentRoute))
          (second : (quote, later) ∈ choices (quotePercentMap.quotes percent)) :=
        routesThrough_finds apart offers partly first second fun partly offers => by
          refine ih ?_ offers partly
          have positive := percent.pos
          change 100 - (currentRoute.splitPercent + percent) ≤ remaining
          omega
      rw [buildRoutes_eq]
      constructor
      · refine List.Perm.trans ?_ (extensions_perm incomplete).symm
        unfold nextQuotes
        rw [choices_flatMap, ← flatMap_choices, List.map_flatMap, List.flatMap_assoc]
        refine List.Perm.flatMap_left _ fun key first => ?_
        rw [List.map_flatMap, List.flatMap_map]
        exact List.Perm.flatMap_left _ fun choice second => (through first second).1
      · intro route found
        obtain ⟨percent, listed, found⟩ := List.mem_flatMap.mp found
        obtain ⟨choice, second, found⟩ := List.mem_flatMap.mp found
        obtain ⟨earlier, smaller, split⟩ := List.append_of_mem listed
        exact (through (mem_choices.mpr ⟨earlier, split⟩) second).2 route found

end Search

section Generate

variable {percentMap : SanitizedQuoteMap} {maxSplits : ℕ}

theorem nextQuotes_start : nextQuotes percentMap ⟨[], 0, 0, 0⟩ = percentMap.allQuotes := by
  unfold nextQuotes nextPercents SanitizedQuoteMap.allQuotes
  exact congrArg (List.flatMap percentMap.quotes) (List.filter_eq_self.mpr fun _ _ => rfl)

/-- The search finds the valid splits of all quotes. -/
theorem generateRoutes_finds (matching : Matching percentMap)
    (apart : PoolsApart percentMap.allQuotes) (positive : 1 ≤ maxSplits) :
    Finds maxSplits [] percentMap.allQuotes (generateRoutes percentMap maxSplits) := by
  rw [← nextQuotes_start]
  refine @buildRoutes_finds percentMap percentMap.allQuotes maxSplits ⟨[], 0, 0, 0⟩ apart 100 le_rfl
    (fun percent listed quote member => ⟨?_, matching percent listed quote member⟩)
    ⟨⟨rfl, rfl, rfl⟩, positive, Nat.zero_lt_succ _, List.Pairwise.nil,
      fun _ inside => absurd inside List.not_mem_nil⟩
  exact List.mem_flatMap.mpr ⟨percent, List.mem_reverse.mpr listed, member⟩

/-- Every valid set of quotes is generated, as exactly one route. -/
theorem Finds.unique {offered : List PathQuote} {routes : List InternalRoute}
    (finds : Finds maxSplits [] offered routes) (once : offered.Nodup) {selection : List PathQuote}
    (distinct : selection.Nodup) (inside : ∀ quote ∈ selection, quote ∈ offered)
    (valid : ValidSplit maxSplits selection) :
    ∃! route, route ∈ routes ∧ route.quotes.Perm selection := by
  have listed (quotes : List PathQuote) : quotes ∈ routes.map InternalRoute.quotes ↔
      quotes.Sublist offered ∧ ValidSplit maxSplits quotes := by
    rw [finds.1.mem_iff, extensions_nil, List.mem_filter, List.mem_sublists, decide_eq_true_iff]
  have nodup : (routes.map InternalRoute.quotes).Nodup := by
    rw [finds.1.nodup_iff, extensions_nil]
    exact (List.nodup_sublists.mpr once).filter _
  obtain ⟨quotes, same, ordered⟩ := List.subperm_of_subset distinct inside
  obtain ⟨route, found, rfl⟩ :=
    List.mem_map.mp ((listed quotes).mpr ⟨ordered, valid.perm same.symm⟩)
  refine ⟨route, ⟨found, same⟩, fun other => ?_⟩
  rintro ⟨found', same'⟩
  refine List.inj_on_of_nodup_map nodup found' found ?_
  exact eq_of_perm once ((listed _).mp (List.mem_map_of_mem found')).1 ordered
    (same'.trans same.symm)

end Generate

end Whirlpools.Sdk
