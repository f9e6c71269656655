import Mathlib.Data.List.Nodup
import Whirlpools.Sdk.PoolGraph

/-! # The adjacency lists of a pool graph

Building the graph gives every mint one edge for each pool that trades it, to the other mint of
the pool, however often the pool is listed.
-/

namespace Whirlpools.Sdk

/-- The pool trades the two mints, in either order. -/
def PoolTokenPair.Joins (pool : PoolTokenPair) (a b : Address) : Prop :=
  (pool.tokenMintA = a ∧ pool.tokenMintB = b) ∨ (pool.tokenMintA = b ∧ pool.tokenMintB = a)

theorem PoolTokenPair.Joins.symm {pool : PoolTokenPair} {a b : Address} (joins : pool.Joins a b) :
    pool.Joins b a := Or.symm joins

/-- Every pool trades two distinct mints, the same two wherever its address is listed. -/
structure Consistent (pools : List PoolTokenPair) : Prop where
  distinct : ∀ pool ∈ pools, pool.tokenMintA ≠ pool.tokenMintB
  fixed : ∀ pool ∈ pools, ∀ other ∈ pools, pool.address = other.address →
    other.Joins pool.tokenMintA pool.tokenMintB

/-- A listed pool of that address trades the two mints. -/
def Joined (pools : List PoolTokenPair) (address a b : Address) : Prop :=
  ∃ pool ∈ pools, pool.address = address ∧ pool.Joins a b

/-- A listed pool trades the mint. -/
def Known (pools : List PoolTokenPair) (mint : Address) : Prop :=
  ∃ pool ∈ pools, mint = pool.tokenMintA ∨ mint = pool.tokenMintB

section Joined

variable {pools : List PoolTokenPair} {address a b c d : Address}

theorem Joined.symm (joined : Joined pools address a b) : Joined pools address b a := by
  obtain ⟨pool, listed, named, joins⟩ := joined
  exact ⟨pool, listed, named, joins.symm⟩

theorem Joined.ne (joined : Joined pools address a b) (consistent : Consistent pools) : a ≠ b := by
  obtain ⟨pool, listed, -, ⟨rfl, rfl⟩ | ⟨rfl, rfl⟩⟩ := joined
  · exact consistent.distinct pool listed
  · exact (consistent.distinct pool listed).symm

/-- The pools of one address trade one pair of mints. -/
theorem Joined.pair (joined : Joined pools address a b) (consistent : Consistent pools)
    (other : Joined pools address c d) : (a = c ∧ b = d) ∨ (a = d ∧ b = c) := by
  obtain ⟨pool, listed, named, joins⟩ := joined
  obtain ⟨pool', listed', named', joins'⟩ := other
  have fixed := consistent.fixed pool listed pool' listed' (named.trans named'.symm)
  unfold PoolTokenPair.Joins at joins joins' fixed
  grind

/-- A pool leads from a mint to one other mint. -/
theorem Joined.unique (joined : Joined pools address a b) (consistent : Consistent pools)
    (other : Joined pools address a c) : b = c := by
  rcases joined.pair consistent other with ⟨-, same⟩ | ⟨crossed, back⟩
  · exact same
  · exact back.trans crossed

end Joined

section Set

variable {items : List Address} {item other : Address}

theorem mem_addToSet : other ∈ addToSet items item ↔ other ∈ items ∨ other = item := by
  unfold addToSet
  split_ifs with present
  · refine ⟨Or.inl, ?_⟩
    rintro (listed | rfl)
    · exact listed
    · exact present
  · rw [List.mem_append, List.mem_singleton]

theorem nodup_addToSet (once : items.Nodup) : (addToSet items item).Nodup := by
  unfold addToSet
  split_ifs with present
  · exact once
  · exact List.nodup_append.mpr ⟨once, List.nodup_singleton _, fun first listed second single =>
      fun same => present (List.mem_singleton.mp single ▸ same ▸ listed)⟩

end Set

namespace PoolGraphBuild

/-- The edges of a mint so far. -/
def edgesOf (build : PoolGraphBuild) (mint : Address) : List PoolGraphEdge :=
  (build.poolGraph mint).getD []

/-- The graph under construction holds edges of the pools only, at most one of each pool for a mint,
and remembers the pools of each mint. -/
structure Sound (pools : List PoolTokenPair) (build : PoolGraphBuild) : Prop where
  joined : ∀ mint, ∀ edge ∈ build.edgesOf mint, Joined pools edge.address mint edge.otherToken
  once : ∀ mint, ((build.edgesOf mint).map PoolGraphEdge.address).Nodup
  cached : ∀ mint, (build.insertedPoolCache mint).getD [] =
    (build.edgesOf mint).map PoolGraphEdge.address

variable {pools : List PoolTokenPair} {build : PoolGraphBuild}

theorem edgesOf_openMint (mint : Address) : (build.openMint mint).edgesOf = build.edgesOf := by
  funext other
  unfold openMint edgesOf
  split_ifs with new
  · dsimp only
    by_cases same : other = mint
    · rw [same, Function.update_self, new]
      rfl
    · rw [Function.update_of_ne same]
  · rfl

theorem Sound.openMint (sound : Sound pools build) (mint : Address) :
    Sound pools (build.openMint mint) := by
  refine ⟨?_, ?_, fun other => ?_⟩
  · rw [edgesOf_openMint]
    exact sound.joined
  · rw [edgesOf_openMint]
    exact sound.once
  · rw [edgesOf_openMint, ← sound.cached other]
    unfold PoolGraphBuild.openMint
    split_ifs with new
    · dsimp only
      by_cases same : other = mint
      · have empty := sound.cached mint
        unfold edgesOf at empty
        rw [new] at empty
        rw [same, Function.update_self, empty]
        rfl
      · rw [Function.update_of_ne same]
    · rfl

section Insert

variable {mint : Address} {edge : PoolGraphEdge}

/-- A pool is inserted for a mint at most once. -/
theorem Sound.edgesOf_insertEdge (sound : Sound pools build) (other : Address) :
    (build.insertEdge mint edge).edgesOf other =
      if other = mint ∧ edge.address ∉ (build.edgesOf mint).map PoolGraphEdge.address then
        build.edgesOf mint ++ [edge]
      else build.edgesOf other := by
  unfold insertEdge
  dsimp only
  rw [sound.cached mint]
  by_cases present : edge.address ∈ (build.edgesOf mint).map PoolGraphEdge.address
  · rw [if_pos present, if_neg fun both => both.2 present]
  · rw [if_neg present]
    unfold edgesOf
    dsimp only
    by_cases same : other = mint
    · rw [if_pos ⟨same, present⟩, same, Function.update_self]
      rfl
    · rw [if_neg fun both => same both.1, Function.update_of_ne same]

/-- Inserting an edge between joined mints keeps the build sound. -/
theorem Sound.insertEdge (sound : Sound pools build)
    (joined : Joined pools edge.address mint edge.otherToken) :
    Sound pools (build.insertEdge mint edge) := by
  refine ⟨fun other => ?_, fun other => ?_, fun other => ?_⟩
  · rw [sound.edgesOf_insertEdge]
    split_ifs with added
    · intro known listed
      rcases List.mem_append.mp listed with earlier | last
      · exact added.1 ▸ sound.joined mint known earlier
      · exact added.1 ▸ List.mem_singleton.mp last ▸ joined
    · exact sound.joined other
  · rw [sound.edgesOf_insertEdge]
    split_ifs with added
    · rw [List.map_append, List.nodup_append]
      refine ⟨sound.once mint, List.nodup_singleton _, fun first listed second single same => ?_⟩
      exact added.2 (List.mem_singleton.mp single ▸ same ▸ listed)
    · exact sound.once other
  · rw [sound.edgesOf_insertEdge]
    unfold PoolGraphBuild.insertEdge addToSet
    dsimp only
    rw [sound.cached mint]
    by_cases present : edge.address ∈ (build.edgesOf mint).map PoolGraphEdge.address
    · rw [if_pos present, if_neg fun both => both.2 present]
      exact sound.cached other
    · rw [if_neg present, if_neg present]
      dsimp only
      by_cases same : other = mint
      · rw [if_pos ⟨same, present⟩, same, Function.update_self, List.map_append]
        rfl
      · rw [if_neg fun both => same both.1, Function.update_of_ne same]
        exact sound.cached other

theorem Sound.insertEdge_keeps (sound : Sound pools build) {other : Address} {kept : PoolGraphEdge}
    (listed : kept ∈ build.edgesOf other) : kept ∈ (build.insertEdge mint edge).edgesOf other := by
  rw [sound.edgesOf_insertEdge]
  split_ifs with added
  · exact List.mem_append_left _ (added.1 ▸ listed)
  · exact listed

/-- The edge is there afterwards: an edge of the same pool leads to the same mint. -/
theorem Sound.insertEdge_adds (sound : Sound pools build) (consistent : Consistent pools)
    (joined : Joined pools edge.address mint edge.otherToken) :
    edge ∈ (build.insertEdge mint edge).edgesOf mint := by
  rw [sound.edgesOf_insertEdge]
  by_cases present : edge.address ∈ (build.edgesOf mint).map PoolGraphEdge.address
  · rw [if_neg fun both => both.2 present]
    obtain ⟨earlier, listed, named⟩ := List.mem_map.mp present
    have leads := sound.joined mint earlier listed
    rw [named] at leads
    have same : earlier = edge := by
      cases earlier
      cases edge
      exact PoolGraphEdge.mk.injEq .. ▸ ⟨named, leads.unique consistent joined⟩
    exact same ▸ listed
  · rw [if_pos ⟨rfl, present⟩]
    exact List.mem_append_right _ (List.mem_singleton.mpr rfl)

end Insert

/-- Both edges of a pool are there. -/
def Holds (build : PoolGraphBuild) (pool : PoolTokenPair) : Prop :=
  ⟨pool.address, pool.tokenMintB⟩ ∈ build.edgesOf pool.tokenMintA ∧
    ⟨pool.address, pool.tokenMintA⟩ ∈ build.edgesOf pool.tokenMintB

section Pools

variable (consistent : Consistent pools)
include consistent

/-- Inserting a pool keeps the build sound, records the pool both ways and loses no edge. -/
theorem Sound.insertPool (sound : Sound pools build) {pool : PoolTokenPair}
    (listed : pool ∈ pools) :
    Sound pools (build.insertPool pool) ∧ (build.insertPool pool).Holds pool ∧
      ∀ mint, ∀ edge ∈ build.edgesOf mint, edge ∈ (build.insertPool pool).edgesOf mint := by
  have joined : Joined pools pool.address pool.tokenMintA pool.tokenMintB :=
    ⟨pool, listed, rfl, .inl ⟨rfl, rfl⟩⟩
  have named : Sound pools ((build.addToken pool.tokenMintA).addToken pool.tokenMintB) :=
    ⟨sound.joined, sound.once, sound.cached⟩
  have opened := (named.openMint pool.tokenMintA).openMint pool.tokenMintB
  have first := @Sound.insertEdge pools _ pool.tokenMintA ⟨pool.address, pool.tokenMintB⟩
    opened joined
  have added := @Sound.insertEdge_adds pools _ pool.tokenMintA ⟨pool.address, pool.tokenMintB⟩
    opened consistent joined
  refine ⟨first.insertEdge joined.symm, ⟨first.insertEdge_keeps added, ?_⟩, ?_⟩
  · exact first.insertEdge_adds consistent joined.symm
  · intro mint edge known
    refine first.insertEdge_keeps (opened.insertEdge_keeps ?_)
    rw [edgesOf_openMint, edgesOf_openMint]
    exact known

/-- Inserting a list of pools keeps the build sound, by induction on the list. -/
theorem Sound.insertPools (sound : Sound pools build) {inserted : List PoolTokenPair}
    (listed : ∀ pool ∈ inserted, pool ∈ pools) :
    Sound pools (inserted.foldl PoolGraphBuild.insertPool build) ∧
      (∀ pool ∈ inserted, (inserted.foldl PoolGraphBuild.insertPool build).Holds pool) ∧
      ∀ mint, ∀ edge ∈ build.edgesOf mint,
        edge ∈ (inserted.foldl PoolGraphBuild.insertPool build).edgesOf mint := by
  induction inserted generalizing build with
  | nil => exact ⟨sound, fun _ inside => absurd inside List.not_mem_nil, fun _ _ => id⟩
  | cons pool inserted ih =>
      obtain ⟨step, holds, keeps⟩ := sound.insertPool consistent (listed pool List.mem_cons_self)
      obtain ⟨run, every, kept⟩ := ih step fun later inside =>
        listed later (List.mem_cons_of_mem _ inside)
      refine ⟨run, fun asked inside => ?_, fun mint edge known =>
        kept mint edge (keeps mint edge known)⟩
      rcases List.mem_cons.mp inside with rfl | later
      · exact ⟨kept _ _ holds.1, kept _ _ holds.2⟩
      · exact every asked later

end Pools

section Tokens

/-- Opening a mint does not count as inserting it. -/
theorem insertedTokens_openMint (mint : Address) :
    (build.openMint mint).insertedTokens = build.insertedTokens := by
  unfold openMint
  split_ifs <;> rfl

theorem insertedTokens_insertEdge (mint : Address) (edge : PoolGraphEdge) :
    (build.insertEdge mint edge).insertedTokens = build.insertedTokens := by
  unfold insertEdge
  dsimp only
  split_ifs <;> rfl

theorem insertedTokens_insertPool (pool : PoolTokenPair) :
    (build.insertPool pool).insertedTokens =
      addToSet (addToSet build.insertedTokens pool.tokenMintA) pool.tokenMintB := by
  unfold insertPool
  dsimp only
  rw [insertedTokens_insertEdge, insertedTokens_insertEdge, insertedTokens_openMint,
    insertedTokens_openMint]
  rfl

/-- A run of insertions collects the known mints, each once. -/
theorem insertedTokens_run (once : build.insertedTokens.Nodup) (inserted : List PoolTokenPair) :
    (inserted.foldl PoolGraphBuild.insertPool build).insertedTokens.Nodup ∧
      ∀ mint, mint ∈ (inserted.foldl PoolGraphBuild.insertPool build).insertedTokens ↔
        mint ∈ build.insertedTokens ∨ Known inserted mint := by
  induction inserted generalizing build with
  | nil =>
      refine ⟨once, fun mint => ⟨Or.inl, ?_⟩⟩
      rintro (listed | ⟨pool, inside, -⟩)
      · exact listed
      · exact absurd inside List.not_mem_nil
  | cons pool inserted ih =>
      have step : (build.insertPool pool).insertedTokens.Nodup := by
        rw [insertedTokens_insertPool]
        exact nodup_addToSet (nodup_addToSet once)
      obtain ⟨run, known⟩ := ih step
      refine ⟨run, fun mint => (known mint).trans ?_⟩
      rw [insertedTokens_insertPool, mem_addToSet, mem_addToSet, or_assoc, or_assoc]
      refine or_congr Iff.rfl ?_
      unfold Known
      simp only [List.mem_cons, exists_eq_or_imp, or_assoc]

end Tokens
end PoolGraphBuild

/-- The lists of a graph are those of the pools. -/
structure Adjacent (pools : List PoolTokenPair) (poolGraph : AdjacencyListPoolGraph) : Prop where
  edges : ∀ mint edge, edge ∈ (poolGraph.graph mint).getD [] ↔
    Joined pools edge.address mint edge.otherToken
  once : ∀ mint, (((poolGraph.graph mint).getD []).map PoolGraphEdge.address).Nodup
  tokens : ∀ mint, mint ∈ poolGraph.tokens ↔ Known pools mint
  tokensOnce : poolGraph.tokens.Nodup

/-- The graph of a consistent list lists the neighbours of every mint. -/
theorem ofPools_adjacent {pools : List PoolTokenPair} (consistent : Consistent pools) :
    Adjacent pools (.ofPools pools) := by
  have start : PoolGraphBuild.Sound pools ⟨fun _ => none, fun _ => none, []⟩ :=
    ⟨fun _ _ listed => absurd listed List.not_mem_nil, fun _ => List.nodup_nil, fun _ => rfl⟩
  obtain ⟨sound, holds, -⟩ := start.insertPools consistent fun _ => id
  obtain ⟨tokensOnce, tokens⟩ := @PoolGraphBuild.insertedTokens_run
    ⟨fun _ => none, fun _ => none, []⟩
    List.nodup_nil pools
  refine ⟨fun mint edge => ⟨sound.joined mint edge, ?_⟩, sound.once, fun mint => ?_, tokensOnce⟩
  · rintro ⟨pool, listed, named, ⟨start, finish⟩ | ⟨finish, start⟩⟩
    · have edge' := (holds pool listed).1
      rw [named, start, finish] at edge'
      exact edge'
    · have edge' := (holds pool listed).2
      rw [named, start, finish] at edge'
      exact edge'
  · refine (tokens mint).trans ⟨?_, Or.inr⟩
    rintro (listed | known)
    · exact absurd listed List.not_mem_nil
    · exact known

end Whirlpools.Sdk
