import Whirlpools.Sdk.RouteEnumeration
import Whirlpools.Sdk.Sampling

/-! # The best routes

Selecting the smallest routes by the comparison and sorting them gives the best routes in order.
-/

namespace Whirlpools.Sdk

open Choices

variable {amountSpecifiedIsInput : Bool} {a b : InternalRoute}

/-- The route is at least as good: it pays out no less, or takes no more. -/
def NoWorse (amountSpecifiedIsInput : Bool) (a b : InternalRoute) : Prop :=
  if amountSpecifiedIsInput then b.totalOut ≤ a.totalOut else a.totalIn ≤ b.totalIn

/-- The best routes in order: no route left out is strictly better than one of them. -/
structure Ranked (amountSpecifiedIsInput : Bool) (topN : ℕ) (routes ranked : List InternalRoute) :
    Prop where
  length : ranked.length = min topN routes.length
  sorted : ranked.Pairwise (NoWorse amountSpecifiedIsInput)
  best : ∃ others, (ranked ++ others).Perm routes ∧
    ∀ first ∈ ranked, ∀ other ∈ others, NoWorse amountSpecifiedIsInput first other

section Compare

/-- Comparing integers gives at most zero when the first is at most the second. -/
theorem cmp_le_zero {a b : ℤ} : cmp a b ≤ 0 ↔ a ≤ b := by
  unfold cmp
  split_ifs <;> omega

/-- Comparing the other way around changes the sign. -/
theorem cmp_opposite {a b : ℤ} : 0 < cmp a b ↔ cmp b a < 0 := by
  unfold cmp
  split_ifs <;> omega

/-- The compare function ranks a route first when it is no worse. -/
theorem compare_le_zero : getRouteCompareFn amountSpecifiedIsInput a b ≤ 0 ↔
    NoWorse amountSpecifiedIsInput a b := by
  cases amountSpecifiedIsInput
  · exact cmp_le_zero
  · exact cmp_le_zero

theorem NoWorse.trans {c : InternalRoute} (first : NoWorse amountSpecifiedIsInput a b)
    (second : NoWorse amountSpecifiedIsInput b c) : NoWorse amountSpecifiedIsInput a c := by
  cases amountSpecifiedIsInput
  · exact le_trans first second
  · exact le_trans second first

theorem NoWorse.total (a b : InternalRoute) :
    NoWorse amountSpecifiedIsInput a b ∨ NoWorse amountSpecifiedIsInput b a := by
  cases amountSpecifiedIsInput
  · exact le_total _ _
  · exact le_total _ _

/-- Routes are compared by a total preorder. -/
theorem comparesPreorder_routes : ComparesPreorder (getRouteCompareFn amountSpecifiedIsInput) where
  opposite a b := by
    cases amountSpecifiedIsInput
    · exact cmp_opposite
    · exact cmp_opposite
  trans a b c first second :=
    compare_le_zero.mpr ((compare_le_zero.mp first).trans (compare_le_zero.mp second))

theorem sortBy_perm {T : Type} (compare : T → T → ℤ) (items : List T) :
    (sortBy compare items).Perm items := List.mergeSort_perm _ _

theorem sortBy_sorted (routes : List InternalRoute) :
    (sortBy (getRouteCompareFn amountSpecifiedIsInput) routes).Pairwise
      (NoWorse amountSpecifiedIsInput) := by
  have sorted := List.pairwise_mergeSort
    (fun a b c first second => decide_eq_true (comparesPreorder_routes.trans a b c
      (of_decide_eq_true first) (of_decide_eq_true second)))
    (fun a b => by
      rw [Bool.or_eq_true, decide_eq_true_iff, decide_eq_true_iff, compare_le_zero, compare_le_zero]
      exact @NoWorse.total amountSpecifiedIsInput a b) routes
  exact sorted.imp fun least => compare_le_zero.mp (of_decide_eq_true least)

end Compare

section Ranking

variable {percentMap : SanitizedQuoteMap} {maxSplits topN : ℕ} {sampling : Sampling}

/-- Sorting the smallest items, or all of them, ranks the routes. -/
theorem ranked_sortBy {routes chosen : List InternalRoute} (others : List InternalRoute)
    (length : chosen.length = min topN routes.length) (perm : (chosen ++ others).Perm routes)
    (best : ∀ first ∈ chosen, ∀ other ∈ others, NoWorse amountSpecifiedIsInput first other) :
    Ranked amountSpecifiedIsInput topN routes
      (sortBy (getRouteCompareFn amountSpecifiedIsInput) chosen) where
  length := (sortBy_perm _ chosen).length_eq.trans length
  sorted := sortBy_sorted chosen
  best := ⟨others, ((sortBy_perm _ chosen).append_right others).trans perm,
    fun first sorted => best first ((sortBy_perm _ chosen).mem_iff.mp sorted)⟩

/-- The selection returns with the best routes in front. -/
theorem getRankedRoutes_ranked (inside : SamplesInside sampling)
    (narrower : SamplesNarrower sampling) :
    ∃ enough, ∀ fuel ≥ enough, ∃ ranked,
      getRankedRoutes sampling fuel percentMap amountSpecifiedIsInput topN maxSplits = .ok ranked ∧
        Ranked amountSpecifiedIsInput topN (generateRoutes percentMap maxSplits) ranked := by
  unfold getRankedRoutes
  dsimp only
  generalize generateRoutes percentMap maxSplits = routes
  by_cases few : routes.length ≤ topN
  · refine ⟨0, fun fuel _ => ⟨_, if_pos few, ranked_sortBy [] ?_ ?_ ?_⟩⟩
    · exact (Nat.min_eq_right few).symm
    · rw [List.append_nil]
    · exact fun _ _ _ absent => absurd absent List.not_mem_nil
  obtain ⟨enough, selects⟩ := @selects_of_samples _ _ (getRouteCompareFn amountSpecifiedIsInput)
    comparesPreorder_routes sampling inside narrower routes.toArray.toVector topN
    ⟨Int.natCast_nonneg _, by exact_mod_cast lt_of_not_ge few⟩
  refine ⟨enough, fun fuel fueled => ?_⟩
  obtain ⟨result, returned, perm, split⟩ := selects fuel fueled
  have size : result.toList.length = routes.length := perm.length_eq
  have width : routes.toArray.size = routes.length := rfl
  rw [if_neg few, returned]
  refine ⟨_, rfl, ranked_sortBy (result.toList.drop topN) ?_ ?_ ?_⟩
  · rw [List.length_take, size]
  · rw [List.take_append_drop]
    exact perm
  · intro first early other late
    obtain ⟨p, below, rfl⟩ := List.mem_take_iff_getElem.mp early
    obtain ⟨q, below', rfl⟩ := List.mem_drop_iff_getElem.mp late
    have least := split ⟨p, by omega⟩ ⟨topN + q, by omega⟩
      (by dsimp only; omega) (by dsimp only; omega)
    exact compare_le_zero.mp least

end Ranking

/-- The routes generated are the ways to split the trade, each once and with the right totals, and
the ranked routes are the best of them in order, for every sample of large windows that contains the
item selected and is narrower than the window, such as the one of the formula in exact
arithmetic. -/
theorem routes_exact {percentMap : SanitizedQuoteMap} (matching : Matching percentMap)
    (apart : PoolsApart percentMap.allQuotes) {maxSplits : ℕ} (positive : 1 ≤ maxSplits) :
    let routes := generateRoutes percentMap maxSplits
    (routes.map InternalRoute.quotes).Perm
      (percentMap.allQuotes.sublists.filter fun quotes => decide (ValidSplit maxSplits quotes)) ∧
    (∀ route ∈ routes, Totalled route) ∧
    (percentMap.allQuotes.Nodup → routes.Nodup ∧ ∀ selection : List PathQuote, selection.Nodup →
      (∀ quote ∈ selection, quote ∈ percentMap.allQuotes) → ValidSplit maxSplits selection →
      ∃! route, route ∈ routes ∧ route.quotes.Perm selection) ∧
    ∀ sampling, SamplesInside sampling → SamplesNarrower sampling →
      ∀ (amountSpecifiedIsInput : Bool) (topN : ℕ), ∃ enough, ∀ fuel ≥ enough, ∃ ranked,
        getRankedRoutes sampling fuel percentMap amountSpecifiedIsInput topN maxSplits =
          .ok ranked ∧ Ranked amountSpecifiedIsInput topN routes ranked := by
  have finds := generateRoutes_finds matching apart positive
  have perm := finds.1
  rw [extensions_nil] at perm
  refine ⟨perm, finds.2, fun once => ⟨List.Nodup.of_map InternalRoute.quotes ?_, ?_⟩, ?_⟩
  · exact perm.nodup_iff.mpr ((List.nodup_sublists.mpr once).filter _)
  · intro selection distinct inside valid
    exact finds.unique once distinct inside valid
  · intro sampling inside narrower amountSpecifiedIsInput topN
    exact getRankedRoutes_ranked inside narrower

/-- A whole quote and two halves are two ways to split a trade, each found once; the halves give
more, and are ranked first. -/
theorem routes_exact_halves : ∃ (percentMap : SanitizedQuoteMap) (halves single : InternalRoute)
    (fuel : ℕ), (generateRoutes percentMap 2).Perm [single, halves] ∧
      halves.quotes.map PathQuote.amountOut = [7, 6] ∧ halves.totalOut = 13 ∧
      (∃! route, route ∈ generateRoutes percentMap 2 ∧
        route.quotes.Perm halves.quotes.reverse) ∧
      getRankedRoutes exactSampling fuel percentMap true 1 2 = .ok [halves] := by
  let sol : Address := ⟨"sol", by decide⟩
  let usdc : Address := ⟨"usdc", by decide⟩
  let first : PathQuote := ⟨⟨sol, usdc, [⟨sol⟩]⟩, ["pool"], 50, 10, 7⟩
  let second : PathQuote := ⟨⟨sol, usdc, [⟨usdc⟩]⟩, ["other"], 50, 10, 6⟩
  let whole : PathQuote := ⟨⟨sol, usdc, [⟨sol⟩]⟩, ["pool"], 100, 20, 12⟩
  let percentMap : SanitizedQuoteMap :=
    ⟨[50, 100], by decide, fun percent => if percent = 50 then [first, second] else [whole]⟩
  let totals (quotes : List PathQuote) : InternalRoute := ⟨quotes, totalPercent quotes,
    totalAmount PathQuote.amountIn quotes, totalAmount PathQuote.amountOut quotes⟩
  have matching : Matching percentMap := by
    unfold Matching
    decide
  have apart : PoolsApart percentMap.allQuotes := by
    unfold PoolsApart
    decide
  obtain ⟨splits, totalled, unique, ranks⟩ := routes_exact matching apart (show 1 ≤ 2 by decide)
  have valid : (percentMap.allQuotes.sublists.filter fun quotes => decide (ValidSplit 2 quotes)) =
      [[whole], [first, second]] := by decide
  rw [valid] at splits
  have rebuilt : ((generateRoutes percentMap 2).map InternalRoute.quotes).map totals =
      generateRoutes percentMap 2 := by
    rw [List.map_map]
    refine (List.map_congr_left fun route member => ?_).trans (List.map_id _)
    obtain ⟨percent, input, output⟩ := totalled route member
    change InternalRoute.mk route.quotes _ _ _ = route
    rw [← percent, ← input, ← output]
  have routes : (generateRoutes percentMap 2).Perm [totals [whole], totals [first, second]] :=
    rebuilt ▸ splits.map totals
  obtain ⟨fuel, answers⟩ := ranks exactSampling exactSampling_inside exactSampling_narrows true 1
  obtain ⟨ranked, returned, rank⟩ := answers fuel le_rfl
  refine ⟨percentMap, totals [first, second], totals [whole], fuel, routes, rfl, by decide,
    (unique (by decide)).2 _ (by decide) (by decide) (by decide), returned.trans ?_⟩
  obtain ⟨others, perm, best⟩ := rank.best
  obtain ⟨leader, rfl⟩ := List.length_eq_one_iff.mp (rank.length.trans (by
    rw [routes.length_eq]
    rfl))
  have inside := (perm.trans routes).mem_iff.mp List.mem_cons_self
  rcases List.mem_cons.mp inside with rfl | inside
  · have present := (perm.trans routes).mem_iff.mpr
      (List.mem_cons_of_mem _ (List.mem_singleton_self (totals [first, second])))
    have late : totals [first, second] ∈ others :=
      (List.mem_cons.mp present).resolve_left fun same =>
        absurd (congrArg InternalRoute.totalOut same) (by decide)
    exact absurd (best _ List.mem_cons_self _ late) (by unfold NoWorse; decide)
  · rw [List.mem_singleton.mp inside]

end Whirlpools.Sdk
