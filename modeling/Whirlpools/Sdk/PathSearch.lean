import Mathlib.Data.List.OffDiag
import Whirlpools.Foundation.Memo
import Whirlpools.Foundation.ShortWalk
import Whirlpools.Sdk.Adjacency

/-! # The path search is exact

A search finds every walk of one or two pools between two mints, each once. All lookups read the
walks remembered for the unordered pair, so a pair gets the same paths whatever else is searched.
-/

namespace Whirlpools.Sdk

open AdjacencyListPoolGraph

variable {a b c d : Address}

section Ids

/-- The delimiter separates the two texts. -/
theorem delimited_injective (same : a.text ++ pathIdDelimiter ++ b.text =
    c.text ++ pathIdDelimiter ++ d.text) : a = c ∧ b = d := by
  have lists := congrArg String.toList same
  have delimiter : pathIdDelimiter.toList = ['-'] := rfl
  rw [String.toList_append, String.toList_append, String.toList_append, String.toList_append,
    delimiter, List.append_assoc, List.append_assoc, List.singleton_append, List.singleton_append,
    List.append_cons_inj_of_notMem a.undelimited b.undelimited] at lists
  obtain ⟨first, -, second⟩ := lists
  cases a
  cases b
  cases c
  cases d
  simp only [Address.mk.injEq]
  exact ⟨String.toList_inj.mp first, String.toList_inj.mp second⟩

/-- The text of a route tells its two mints. -/
theorem getSearchPathId_injective :
    Function.Injective fun pair : Address × Address => getSearchPathId pair.1 pair.2 := by
  rintro ⟨a, b⟩ ⟨c, d⟩ same
  obtain ⟨rfl, rfl⟩ := delimited_injective same
  rfl

/-- Sorting either keeps a pair or turns it around. -/
theorem sortMints_cases (a b : Address) : sortMints a b = (a, b) ∨ sortMints a b = (b, a) := by
  unfold sortMints
  split_ifs
  · exact .inr rfl
  · exact .inl rfl

theorem sortMints_comm (a b : Address) : sortMints a b = sortMints b a := by
  unfold sortMints
  rcases lt_trichotomy a.text b.text with less | same | less
  · rw [if_neg less.asymm, if_pos less]
  · have equal : a = b := by
      cases a
      cases b
      exact Address.mk.injEq .. ▸ same
    rw [equal]
  · rw [if_pos less, if_neg less.asymm]

/-- Pairs that sort alike are the same up to their order. -/
theorem sortMints_same (sorted : sortMints a b = sortMints c d) :
    (a = c ∧ b = d) ∨ (a = d ∧ b = c) := by
  rcases sortMints_cases a b with first | first <;> rcases sortMints_cases c d with second | second
    <;> rw [first, second, Prod.mk.injEq] at sorted
  · exact .inl sorted
  · exact .inr sorted
  · exact .inr sorted.symm
  · exact .inl sorted.symm

/-- The id under which the walks of a pair are kept. -/
def routeId (pair : Address × Address) : String :=
  getInternalRouteId (sortMints pair.1 pair.2).1 (sortMints pair.1 pair.2).2 false

theorem routeId_same {pair other : Address × Address} (same : routeId pair = routeId other) :
    sortMints pair.1 pair.2 = sortMints other.1 other.2 :=
  Prod.ext_iff.mpr (delimited_injective same)

end Ids

section Walks

variable {pools : List PoolTokenPair} {poolGraph : AdjacencyListPoolGraph}
  {intermediateTokens : Option (List Address)}

/-- The mint is in the list of intermediate tokens, if there is one. -/
def Allowed (intermediateTokens : Option (List Address)) (mint : Address) : Prop :=
  ∀ tokens, intermediateTokens = some tokens → mint ∈ tokens

/-- The check on a middle mint admits exactly the allowed ones. -/
theorem isIntermediate_iff {mint : Address} :
    isIntermediate intermediateTokens mint = true ↔ Allowed intermediateTokens mint := by
  cases intermediateTokens with
  | none => exact ⟨fun _ _ given => absurd given.symm (Option.some_ne_none _), fun _ => rfl⟩
  | some tokens =>
      refine decide_eq_true_iff.trans
        ⟨fun listed tokens' given => ?_, fun every => every tokens rfl⟩
      exact Option.some.inj given ▸ listed

/-- Pools lead from start to end, directly or by way of an allowed third mint. -/
abbrev PoolWalk (pools : List PoolTokenPair) (intermediateTokens : Option (List Address)) :
    Address → Address → List Address → Prop :=
  ShortWalk (Joined pools) (Allowed intermediateTokens)

/-- Filtering the edges of a mint and mapping their pools injectively repeats nothing. -/
theorem nodup_map_edges (adjacent : Adjacent pools poolGraph) {β : Type} {f : PoolGraphEdge → β}
    (mint : Address) (keep : PoolGraphEdge → Bool)
    (injective : ∀ first second, f first = f second → first.address = second.address) :
    ((((poolGraph.graph mint).getD []).filter keep).map f).Nodup := by
  have once : ((poolGraph.graph mint).getD []).Pairwise fun first second =>
      first.address ≠ second.address := List.pairwise_map.mp (adjacent.once mint)
  refine List.pairwise_map.mpr ((once.filter keep).imp ?_)
  exact fun apart same => apart (injective _ _ same)

variable (consistent : Consistent pools) (adjacent : Adjacent pools poolGraph)
include consistent adjacent

/-- An edge of the first mint is an edge of the second as well if it leads there. -/
theorem isDirect_iff (distinct : a ≠ b) {edge : PoolGraphEdge}
    (listed : edge ∈ (poolGraph.graph a).getD []) :
    (((poolGraph.graph b).getD []).any fun p => p.address = edge.address) = true ↔
      edge.otherToken = b := by
  have joined := (adjacent.edges a edge).mp listed
  rw [List.any_eq_true]
  constructor
  · rintro ⟨other, listed', same⟩
    have joined' := (adjacent.edges b other).mp listed'
    rw [of_decide_eq_true same] at joined'
    rcases joined.pair consistent joined' with ⟨equal, -⟩ | ⟨-, leads⟩
    · exact absurd equal distinct
    · exact leads
  · intro leads
    refine ⟨⟨edge.address, a⟩, (adjacent.edges b _).mpr ?_, decide_eq_true rfl⟩
    exact leads ▸ joined.symm

/-- The edges of the two hops, told apart by where they lead. -/
theorem searchWalks_eq (distinct : a ≠ b) :
    searchWalks poolGraph.graph intermediateTokens a b =
      (((poolGraph.graph a).getD []).filter fun edge => edge.otherToken = b).map
          (fun edge => [edge.address]) ++
        (((poolGraph.graph a).getD []).filter fun edge => !decide (edge.otherToken = b)).flatMap
          fun first => if isIntermediate intermediateTokens first.otherToken then
            (((poolGraph.graph b).getD []).filter fun second =>
              second.otherToken = first.otherToken).map fun second =>
                [first.address, second.address]
          else [] := by
  have direct {edge : PoolGraphEdge} (listed : edge ∈ (poolGraph.graph a).getD []) :
      (((poolGraph.graph b).getD []).any fun p => p.address = edge.address) =
        decide (edge.otherToken = b) := by
    rw [Bool.eq_iff_iff, isDirect_iff consistent adjacent distinct listed, decide_eq_true_iff]
  unfold searchWalks
  dsimp only
  rw [List.filter_congr fun edge listed => direct listed,
    List.filter_congr fun edge listed => congrArg not (direct listed)]

/-- The walks that the search finds are the walks over the pools. -/
theorem mem_searchWalks (distinct : a ≠ b) (walk : List Address) :
    walk ∈ searchWalks poolGraph.graph intermediateTokens a b ↔
      PoolWalk pools intermediateTokens a b walk := by
  rw [searchWalks_eq consistent adjacent distinct, List.mem_append, List.mem_map, List.mem_flatMap]
  constructor
  · rintro (⟨edge, filtered, rfl⟩ | ⟨first, filtered, inside⟩)
    · obtain ⟨listed, leads⟩ := List.mem_filter.mp filtered
      refine .direct ?_
      exact of_decide_eq_true leads ▸ (adjacent.edges a edge).mp listed
    · obtain ⟨listed, elsewhere⟩ := List.mem_filter.mp filtered
      have joined := (adjacent.edges a first).mp listed
      split_ifs at inside with allowed
      · obtain ⟨second, chosen, rfl⟩ := List.mem_map.mp inside
        obtain ⟨listed', meets⟩ := List.mem_filter.mp chosen
        have joined' := (adjacent.edges b second).mp listed'
        rw [of_decide_eq_true meets] at joined'
        refine .through (joined.ne consistent).symm ?_ (isIntermediate_iff.mp allowed) joined
          joined'.symm
        simpa using elsewhere
      · exact absurd inside List.not_mem_nil
  · intro walk
    cases walk with
    | direct joined =>
        refine .inl ⟨⟨_, b⟩, List.mem_filter.mpr ⟨(adjacent.edges a _).mpr joined, ?_⟩, rfl⟩
        exact decide_eq_true rfl
    | @through middle first second fromStart fromFinish allowed joined joined' =>
        refine .inr ⟨⟨first, middle⟩, List.mem_filter.mpr ⟨(adjacent.edges a _).mpr joined, ?_⟩, ?_⟩
        · simpa using fromFinish
        · rw [if_pos (isIntermediate_iff.mpr allowed)]
          refine List.mem_map.mpr ⟨⟨second, middle⟩, List.mem_filter.mpr
            ⟨(adjacent.edges b _).mpr joined'.symm, decide_eq_true rfl⟩, rfl⟩

theorem nodup_searchWalks (distinct : a ≠ b) :
    (searchWalks poolGraph.graph intermediateTokens a b).Nodup := by
  rw [searchWalks_eq consistent adjacent distinct]
  refine List.Nodup.append ?_ (List.nodup_flatMap.mpr ⟨fun first _ => ?_, ?_⟩) ?_
  · exact nodup_map_edges adjacent a _ fun _ _ same => (List.cons.inj same).1
  · split_ifs
    · exact nodup_map_edges adjacent b _ fun _ _ same => (List.cons.inj (List.cons.inj same).2).1
    · exact List.nodup_nil
  · have once : ((poolGraph.graph a).getD []).Pairwise fun first second =>
        first.address ≠ second.address := List.pairwise_map.mp (adjacent.once a)
    refine (once.filter _).imp fun {first second} apart walk inFirst inSecond => ?_
    dsimp only at inFirst inSecond
    split_ifs at inFirst inSecond
    · obtain ⟨_, -, rfl⟩ := List.mem_map.mp inFirst
      obtain ⟨_, -, same⟩ := List.mem_map.mp inSecond
      exact apart (List.cons.inj same).1.symm
    all_goals exact absurd ‹_› List.not_mem_nil
  · intro walk one two
    obtain ⟨_, -, rfl⟩ := List.mem_map.mp one
    obtain ⟨_, -, inside⟩ := List.mem_flatMap.mp two
    split_ifs at inside
    · obtain ⟨_, -, same⟩ := List.mem_map.mp inside
      exact absurd (List.cons.inj same).2 (List.cons_ne_nil _ _)
    · exact absurd inside List.not_mem_nil

end Walks

section Lookup

variable {poolGraph : AdjacencyListPoolGraph} {intermediateTokens : Option (List Address)}
  {asked : List (Address × Address)}

/-- The walks between two mints, in the order of the two. -/
def sortedWalks (poolGraph : AdjacencyListPoolGraph) (intermediateTokens : Option (List Address))
    (pair : Address × Address) : List (List Address) :=
  searchWalks poolGraph.graph intermediateTokens (sortMints pair.1 pair.2).1
    (sortMints pair.1 pair.2).2

/-- The paths of a pair, whatever else is searched with it. -/
def pairPaths (poolGraph : AdjacencyListPoolGraph) (intermediateTokens : Option (List Address))
    (a b : Address) : List Path :=
  if a = b then []
  else (sortedWalks poolGraph intermediateTokens (a, b)).map fun walk =>
    ⟨a, b, getHopsFromRoute walk (decide ((sortMints a b).1 ≠ a))⟩

/-- The search of all pairs remembers, under the text of each, what sorting and searching it
gives. -/
theorem findWalks_eq : findWalks poolGraph.graph intermediateTokens asked =
    Memo.rememberAll routeId (sortedWalks poolGraph intermediateTokens) asked := rfl

/-- Pairs with one text have the same walks. -/
theorem sortedWalks_determined (first second : Address × Address)
    (same : routeId first = routeId second) :
    sortedWalks poolGraph intermediateTokens first =
      sortedWalks poolGraph intermediateTokens second := by
  unfold sortedWalks
  rw [routeId_same same]

theorem routeId_comm (a b : Address) : routeId (a, b) = routeId (b, a) := by
  unfold routeId
  rw [sortMints_comm]

/-- The walks of two mints are found under their id if the pair was searched in some direction. -/
theorem findWalks_getD (searched : (a, b) ∈ asked ∨ (b, a) ∈ asked) :
    (findWalks poolGraph.graph intermediateTokens asked (routeId (a, b))).getD [] =
      sortedWalks poolGraph intermediateTokens (a, b) := by
  rw [findWalks_eq]
  rcases searched with forward | backward
  · exact Memo.rememberAll_getD sortedWalks_determined forward
  · rw [routeId_comm, Memo.rememberAll_getD sortedWalks_determined backward]
    exact sortedWalks_determined _ _ (routeId_comm b a)

/-- No walks are kept for a mint and itself. -/
theorem findWalks_same (distinct : ∀ pair ∈ asked, pair.1 ≠ pair.2) (mint : Address) :
    findWalks poolGraph.graph intermediateTokens asked (routeId (mint, mint)) = none := by
  rw [findWalks_eq]
  refine Memo.rememberAll_other fun pair searched same => distinct pair searched ?_
  rcases sortMints_same (routeId_same same) with ⟨first, second⟩ | ⟨second, first⟩
  · exact first.symm.trans second
  · exact first.symm.trans second

/-- Each walk found becomes a path, turned around when the pair was. -/
theorem pathsFromWalks_eq (found : Option (List (List Address))) (reversed : Bool) :
    pathsFromWalks found a b reversed =
      (found.getD []).map fun walk => ⟨a, b, getHopsFromRoute walk reversed⟩ := by
  cases found <;> rfl

/-- The paths of a pair that was searched are those of the pair alone. -/
theorem pathsFromWalks_findWalks (distinct : ∀ pair ∈ asked, pair.1 ≠ pair.2)
    (searched : a ≠ b → (a, b) ∈ asked ∨ (b, a) ∈ asked) :
    pathsFromWalks (findWalks poolGraph.graph intermediateTokens asked (routeId (a, b))) a b
      (decide ((sortMints a b).1 ≠ a)) = pairPaths poolGraph intermediateTokens a b := by
  unfold pairPaths
  by_cases same : a = b
  · rw [if_pos same, ← same, findWalks_same distinct]
    rfl
  · rw [if_neg same, pathsFromWalks_eq, findWalks_getD (searched same)]

/-- The order of the two mints is kept in one direction and reversed in the other. -/
theorem reversed_comm (distinct : a ≠ b) :
    (!decide ((sortMints a b).1 ≠ a)) = decide ((sortMints b a).1 ≠ b) := by
  rw [sortMints_comm b a]
  rcases sortMints_cases a b with kept | turned
  · rw [kept, decide_eq_false (fun differs => differs rfl), decide_eq_true distinct]
    rfl
  · rw [turned, decide_eq_true (Ne.symm distinct), decide_eq_false (fun differs => differs rfl)]
    rfl

end Lookup

section Results

variable (poolGraph : AdjacencyListPoolGraph) (intermediateTokens : Option (List Address))

/-- The result of a search for one pair. -/
def pairEntry (pair : Address × Address) : String × List Path :=
  (getSearchPathId pair.1 pair.2, pairPaths poolGraph intermediateTokens pair.1 pair.2)

/-- Asking for several pairs answers each by itself. -/
theorem getPathsForPairs_eq (pairs : List (Address × Address)) :
    poolGraph.getPathsForPairs intermediateTokens pairs =
      pairs.map (pairEntry poolGraph intermediateTokens) := by
  refine List.map_congr_left fun pair searched => Prod.ext_iff.mpr ⟨rfl, ?_⟩
  refine pathsFromWalks_findWalks (fun other found => ?_) fun distinct => .inl ?_
  · exact of_decide_eq_true (List.mem_filter.mp found).2
  · exact List.mem_filter.mpr ⟨searched, decide_eq_true distinct⟩

/-- Asking for one pair answers with its paths. -/
theorem getPath_eq (a b : Address) :
    poolGraph.getPath intermediateTokens a b = pairPaths poolGraph intermediateTokens a b := by
  unfold AdjacencyListPoolGraph.getPath
  rw [getPathsForPairs_eq]
  rfl

/-- Both orders of all pairs of two items. -/
def bothOrders {α : Type} (items : List α) : List (α × α) :=
  (combinations2 items).flatMap fun pair => [pair, pair.swap]

/-- The combinations of two, both ways around, are the pairs off the diagonal. -/
theorem bothOrders_perm {α : Type} (items : List α) :
    (bothOrders items).Perm items.offDiag := by
  induction items with
  | nil => exact List.Perm.refl _
  | cons item items ih =>
      have together (rest : List α) :
          ((rest.map fun later => (item, later)).flatMap fun pair => [pair, pair.swap]).Perm
            ((rest.map fun later => (item, later)) ++ rest.map fun later => (later, item)) := by
        rw [List.flatMap_map]
        exact (List.map_append_flatMap_perm rest (fun later => (item, later))
          fun later => [(later, item)]).symm.trans (by rw [← List.map_eq_flatMap])
      unfold bothOrders
      rw [combinations2, List.flatMap_append]
      exact ((together items).append ih).trans (List.offDiag_cons_perm item items).symm

/-- A combination of two has distinct members. -/
theorem combinations2_distinct {α : Type} {items : List α} (once : items.Nodup) {pair : α × α}
    (combined : pair ∈ combinations2 items) : pair.1 ≠ pair.2 := by
  have both : pair ∈ bothOrders items :=
    List.mem_flatMap.mpr ⟨pair, combined, List.mem_cons_self⟩
  exact (once.mem_offDiag.mp ((bothOrders_perm items).mem_iff.mp both)).2.2

/-- Asking for all pairs answers each by itself. -/
theorem getAllPaths_eq (once : poolGraph.tokens.Nodup) :
    poolGraph.getAllPaths intermediateTokens =
      (bothOrders poolGraph.tokens).map (pairEntry poolGraph intermediateTokens) := by
  have distinct {pair : Address × Address} (combined : pair ∈ combinations2 poolGraph.tokens) :
      pair.1 ≠ pair.2 := combinations2_distinct once combined
  have searched : (combinations2 poolGraph.tokens).filter (fun pair => decide (pair.1 ≠ pair.2)) =
      combinations2 poolGraph.tokens :=
    List.filter_eq_self.mpr fun pair combined => decide_eq_true (distinct combined)
  unfold AdjacencyListPoolGraph.getAllPaths
  dsimp only
  rw [searched]
  have step (acc : PathSearchEntries) {pair : Address × Address}
      (combined : pair ∈ combinations2 poolGraph.tokens) :
      pushBothDirections (findWalks poolGraph.graph intermediateTokens
        (combinations2 poolGraph.tokens)) acc pair =
        acc ++ [pair, pair.swap].map (pairEntry poolGraph intermediateTokens) := by
    have forward := @pathsFromWalks_findWalks pair.1 pair.2 poolGraph intermediateTokens _
      (fun _ => distinct) fun _ => .inl combined
    have backward := @pathsFromWalks_findWalks pair.2 pair.1 poolGraph intermediateTokens _
      (fun _ => distinct) fun _ => .inr combined
    rw [← reversed_comm (distinct combined), routeId_comm] at backward
    unfold pushBothDirections
    rw [if_neg (distinct combined), List.append_assoc]
    exact congrArg (acc ++ ·) (congrArg₂ (fun first second => [(_, first), (_, second)])
      forward backward)
  have run (combined : List (Address × Address))
      (every : ∀ pair ∈ combined, pair ∈ combinations2 poolGraph.tokens) (acc : PathSearchEntries) :
      combined.foldl (pushBothDirections (findWalks poolGraph.graph intermediateTokens
        (combinations2 poolGraph.tokens))) acc = acc ++
          (combined.flatMap fun pair => [pair, pair.swap]).map
            (pairEntry poolGraph intermediateTokens) := by
    induction combined generalizing acc with
    | nil => exact (List.append_nil acc).symm
    | cons pair combined ih =>
        rw [List.foldl_cons, step acc (every pair List.mem_cons_self),
          ih fun other later => every other (List.mem_cons_of_mem _ later), List.flatMap_cons,
          List.map_append, List.append_assoc]
  exact run _ (fun _ => id) []

end Results

section Exact

variable {pools : List PoolTokenPair} {poolGraph : AdjacencyListPoolGraph}
  {intermediateTokens : Option (List Address)} (consistent : Consistent pools)
  (adjacent : Adjacent pools poolGraph)

/-- The path leads from start to end over one pool, or over two that meet at an allowed third
mint. -/
def IsShortPath (pools : List PoolTokenPair) (intermediateTokens : Option (List Address))
    (a b : Address) (path : Path) : Prop :=
  path.startTokenMint = a ∧ path.endTokenMint = b ∧
    PoolWalk pools intermediateTokens a b (path.edges.map Edge.poolAddress)

/-- The hops of a route are its pools, turned around when asked. -/
theorem map_getHopsFromRoute (walk : List Address) (reversed : Bool) :
    (getHopsFromRoute walk reversed).map Edge.poolAddress =
      if reversed then walk.reverse else walk := by
  unfold getHopsFromRoute
  rw [List.map_map]
  exact List.map_id _

theorem getHopsFromRoute_map (edges : List Edge) (reversed : Bool) :
    getHopsFromRoute (if reversed then (edges.map Edge.poolAddress).reverse
      else edges.map Edge.poolAddress) reversed = edges := by
  unfold getHopsFromRoute
  cases reversed
  · rw [if_neg Bool.false_ne_true, if_neg Bool.false_ne_true, List.map_map]
    exact List.map_id _
  · rw [if_pos rfl, if_pos rfl, List.reverse_reverse, List.map_map]
    exact List.map_id _

theorem joined_symm (address a b : Address) (joined : Joined pools address a b) :
    Joined pools address b a := joined.symm

include consistent adjacent

/-- The walks of a sorted pair are those of the pair, turned around when sorting did. -/
theorem mem_sortedWalks (distinct : a ≠ b) (walk : List Address) :
    walk ∈ sortedWalks poolGraph intermediateTokens (a, b) ↔
      PoolWalk pools intermediateTokens a b
        (if decide ((sortMints a b).1 ≠ a) then walk.reverse else walk) := by
  unfold sortedWalks
  dsimp only
  rcases sortMints_cases a b with kept | turned
  · rw [kept, decide_eq_false (fun differs => differs rfl), if_neg Bool.false_ne_true]
    exact mem_searchWalks consistent adjacent distinct walk
  · rw [turned, decide_eq_true (Ne.symm distinct), if_pos rfl]
    refine (mem_searchWalks consistent adjacent (Ne.symm distinct) walk).trans ?_
    exact (ShortWalk.reverse_iff joined_symm).symm

/-- The paths of a pair are its short paths. -/
theorem mem_pairPaths (distinct : a ≠ b) (path : Path) :
    path ∈ pairPaths poolGraph intermediateTokens a b ↔
      IsShortPath pools intermediateTokens a b path := by
  unfold pairPaths IsShortPath
  rw [if_neg distinct, List.mem_map]
  constructor
  · rintro ⟨walk, found, rfl⟩
    refine ⟨rfl, rfl, ?_⟩
    rw [map_getHopsFromRoute]
    exact (mem_sortedWalks consistent adjacent distinct walk).mp found
  · obtain ⟨start, finish, edges⟩ := path
    rintro ⟨rfl, rfl, walk⟩
    refine ⟨if decide ((sortMints start finish).1 ≠ start) then
      (edges.map Edge.poolAddress).reverse else edges.map Edge.poolAddress, ?_, ?_⟩
    · refine (mem_sortedWalks consistent adjacent distinct _).mpr ?_
      split_ifs
      · rw [List.reverse_reverse]
        exact walk
      · exact walk
    · rw [getHopsFromRoute_map]

theorem nodup_pairPaths (distinct : a ≠ b) :
    (pairPaths poolGraph intermediateTokens a b).Nodup := by
  unfold pairPaths
  rw [if_neg distinct]
  refine List.Nodup.map (fun first second same => ?_) ?_
  · have hops := congrArg (List.map Edge.poolAddress) (Path.mk.inj same).2.2
    rw [map_getHopsFromRoute, map_getHopsFromRoute] at hops
    split_ifs at hops
    · exact List.reverse_injective hops
    · exact hops
  · unfold sortedWalks
    rcases sortMints_cases a b with kept | turned
    · rw [kept]
      exact nodup_searchWalks consistent adjacent distinct
    · rw [turned]
      exact nodup_searchWalks consistent adjacent (Ne.symm distinct)

end Exact

/-- A path search finds exactly the paths of one or two pools, each once and in the direction asked
for, and gives a pair the same paths in a search for many pairs or for all of them. -/
theorem pathSearch_exact {pools : List PoolTokenPair} (consistent : Consistent pools)
    (intermediateTokens : Option (List Address)) :
    let poolGraph := AdjacencyListPoolGraph.ofPools pools
    let entry (pair : Address × Address) :=
      (getSearchPathId pair.1 pair.2, poolGraph.getPath intermediateTokens pair.1 pair.2)
    (∀ a b, a ≠ b → (poolGraph.getPath intermediateTokens a b).Nodup ∧
      ∀ path, path ∈ poolGraph.getPath intermediateTokens a b ↔
        IsShortPath pools intermediateTokens a b path) ∧
    (∀ pairs, poolGraph.getPathsForPairs intermediateTokens pairs = pairs.map entry) ∧
    ((poolGraph.getAllPaths intermediateTokens).map Prod.fst).Nodup ∧
    ∃ orderedPairs : List (Address × Address),
      poolGraph.getAllPaths intermediateTokens = orderedPairs.map entry ∧ orderedPairs.Nodup ∧
      ∀ a b, (a, b) ∈ orderedPairs ↔ a ≠ b ∧ Known pools a ∧ Known pools b := by
  have adjacent := ofPools_adjacent consistent
  intro poolGraph entry
  have entries : entry = pairEntry poolGraph intermediateTokens :=
    funext fun pair => congrArg (Prod.mk _) (getPath_eq poolGraph intermediateTokens _ _)
  have entries_eq := getAllPaths_eq poolGraph intermediateTokens adjacent.tokensOnce
  have once : (bothOrders poolGraph.tokens).Nodup :=
    (bothOrders_perm _).nodup_iff.mpr adjacent.tokensOnce.offDiag
  refine ⟨fun a b distinct => ?_, fun pairs => ?_, ?_, bothOrders poolGraph.tokens, ?_, once,
    fun a b => ?_⟩
  · rw [getPath_eq]
    exact ⟨nodup_pairPaths consistent adjacent distinct,
      mem_pairPaths consistent adjacent distinct⟩
  · rw [entries]
    exact getPathsForPairs_eq poolGraph intermediateTokens pairs
  · rw [entries_eq, List.map_map]
    exact once.map getSearchPathId_injective
  · rw [entries]
    exact entries_eq
  · rw [(bothOrders_perm _).mem_iff, adjacent.tokensOnce.mem_offDiag, adjacent.tokens,
      adjacent.tokens]
    exact ⟨fun both => ⟨both.2.2, both.1, both.2.1⟩, fun both => ⟨both.2.1, both.2.2, both.1⟩⟩

/-- The two pools of a pair that no pool trades are found. -/
theorem pathSearch_exact_two : ∃ sol usdc orca first second : Address,
    ∃ path ∈ (AdjacencyListPoolGraph.ofPools
      [⟨first, sol, usdc⟩, ⟨second, orca, usdc⟩]).getPath none sol orca,
      path.edges = [⟨first⟩, ⟨second⟩] := by
  let sol : Address := ⟨"sol", by decide⟩
  let usdc : Address := ⟨"usdc", by decide⟩
  let orca : Address := ⟨"orca", by decide⟩
  let first : Address := ⟨"first", by decide⟩
  let second : Address := ⟨"second", by decide⟩
  have consistent : Consistent [⟨first, sol, usdc⟩, ⟨second, orca, usdc⟩] :=
    ⟨by decide, by unfold PoolTokenPair.Joins; decide⟩
  refine ⟨sol, usdc, orca, first, second, ⟨sol, orca, [⟨first⟩, ⟨second⟩]⟩, ?_, rfl⟩
  refine (((pathSearch_exact consistent none).1 sol orca (by decide)).2 _).mpr ⟨rfl, rfl, ?_⟩
  exact .through (by decide) (by decide) (fun _ given => nomatch given)
    ⟨_, List.mem_cons_self, rfl, .inl ⟨rfl, rfl⟩⟩
    ⟨_, List.mem_cons_of_mem _ List.mem_cons_self, rfl, .inr ⟨rfl, rfl⟩⟩

end Whirlpools.Sdk
