import Mathlib.Data.String.Basic
import Mathlib.Logic.Function.Basic
import Mathlib.Tactic.Common

/-! # Searching the pool graph

Token mints are the vertices and pools the edges of a graph, kept as a list of edges for each mint.
Walks of at most two pools are searched once for each unordered pair of mints and reversed where
the pair was asked for in the other direction.
-/

namespace Whirlpools.Sdk

/-- The text of a public key; no text of a key contains the delimiter of the path ids. -/
structure Address where
  text : String
  undelimited : '-' ∉ text.toList
  deriving DecidableEq

structure PoolTokenPair where
  address : Address
  tokenMintA : Address
  tokenMintB : Address
  deriving DecidableEq

structure Edge where
  poolAddress : Address
  deriving DecidableEq

structure Path where
  startTokenMint : Address
  endTokenMint : Address
  edges : List Edge
  deriving DecidableEq

/-- Results of path searches, each under its path id. -/
abbrev PathSearchEntries : Type := List (String × List Path)

structure PoolGraphEdge where
  address : Address
  otherToken : Address
  deriving DecidableEq

/-- The edges of each mint that has any. -/
abbrev AdjacencyPoolGraphMap : Type := Address → Option (List PoolGraphEdge)

/-- Walks by path id; a walk lists the addresses of its pools. -/
abbrev PoolWalks : Type := String → Option (List (List Address))

def pathIdDelimiter : String := "-"

def getSearchPathId (tokenA tokenB : Address) : String :=
  tokenA.text ++ pathIdDelimiter ++ tokenB.text

/-- Two addresses in the order of their texts. -/
def sortMints (a b : Address) : Address × Address := if b.text < a.text then (b, a) else (a, b)

def getInternalRouteId (tokenA tokenB : Address) (sort : Bool) : String :=
  let sortedMints := if sort then sortMints tokenA tokenB else (tokenA, tokenB)
  sortedMints.1.text ++ pathIdDelimiter ++ sortedMints.2.text

section Build

/-- The graph under construction, with the pools already inserted for each mint. -/
structure PoolGraphBuild where
  poolGraph : AdjacencyPoolGraphMap
  insertedPoolCache : Address → Option (List Address)
  insertedTokens : List Address

/-- Add an item to a set kept in insertion order. -/
def addToSet (items : List Address) (item : Address) : List Address :=
  if item ∈ items then items else items ++ [item]

namespace PoolGraphBuild

def addToken (build : PoolGraphBuild) (mint : Address) : PoolGraphBuild :=
  { build with insertedTokens := addToSet build.insertedTokens mint }

/-- Give a new mint its empty lists. -/
def openMint (build : PoolGraphBuild) (mint : Address) : PoolGraphBuild :=
  if build.poolGraph mint = none then
    { build with
      poolGraph := Function.update build.poolGraph mint (some [])
      insertedPoolCache := Function.update build.insertedPoolCache mint (some []) }
  else build

/-- Insert an edge of a mint, unless its pool is already inserted for that mint. -/
def insertEdge (build : PoolGraphBuild) (mint : Address) (edge : PoolGraphEdge) :
    PoolGraphBuild :=
  let edges := (build.poolGraph mint).getD []
  let insertedPools := (build.insertedPoolCache mint).getD []
  if edge.address ∈ insertedPools then build
  else
    { build with
      poolGraph := Function.update build.poolGraph mint (some (edges ++ [edge]))
      insertedPoolCache := Function.update build.insertedPoolCache mint
        (some (addToSet insertedPools edge.address)) }

def insertPool (build : PoolGraphBuild) (pool : PoolTokenPair) : PoolGraphBuild :=
  let build := (build.addToken pool.tokenMintA).addToken pool.tokenMintB
  let build := (build.openMint pool.tokenMintA).openMint pool.tokenMintB
  let build := build.insertEdge pool.tokenMintA ⟨pool.address, pool.tokenMintB⟩
  build.insertEdge pool.tokenMintB ⟨pool.address, pool.tokenMintA⟩

end PoolGraphBuild

def buildPoolGraph (pools : List PoolTokenPair) : AdjacencyPoolGraphMap × List Address :=
  let build := pools.foldl PoolGraphBuild.insertPool ⟨fun _ => none, fun _ => none, []⟩
  (build.poolGraph, build.insertedTokens)

end Build

section Search

variable (poolGraph : AdjacencyPoolGraphMap) (intermediateTokens : Option (List Address))

def isIntermediate (token : Address) : Bool :=
  match intermediateTokens with
  | none => true
  | some tokens => decide (token ∈ tokens)

/-- The walks between two mints: the pools they share, then two pools that meet at a third mint. -/
def searchWalks (tokenMintFrom tokenMintTo : Address) : List (List Address) :=
  let poolsForTokenFrom := (poolGraph tokenMintFrom).getD []
  let poolsForTokenTo := (poolGraph tokenMintTo).getD []
  let isDirect (edge : PoolGraphEdge) := poolsForTokenTo.any fun p => p.address = edge.address
  let singleHop := (poolsForTokenFrom.filter isDirect).map fun op => [op.address]
  -- Pools between the two mints are no first hops.
  let firstHop := poolsForTokenFrom.filter fun edge => !isDirect edge
  singleHop ++ firstHop.flatMap fun firstPool =>
    let intermediateToken := firstPool.otherToken
    if isIntermediate intermediateTokens intermediateToken then
      (poolsForTokenTo.filter fun secondPool => secondPool.otherToken = intermediateToken).map
        fun secondPool => [firstPool.address, secondPool.address]
    else []

/-- Search the walks of one more pair, unless there are walks under its id. -/
def findWalk (walks : PoolWalks) (pair : Address × Address) : PoolWalks :=
  let sorted := sortMints pair.1 pair.2
  let internalPathId := getInternalRouteId sorted.1 sorted.2 false
  if (walks internalPathId).isSome then walks
  else
    let paths := searchWalks poolGraph intermediateTokens sorted.1 sorted.2
    if 0 < paths.length then Function.update walks internalPathId (some paths) else walks

def findWalks (tokenPairs : List (Address × Address)) : PoolWalks :=
  tokenPairs.foldl (findWalk poolGraph intermediateTokens) fun _ => none

end Search

def getHopsFromRoute (path : List Address) (reversed : Bool) : List Edge :=
  let finalRoutes := if reversed then path.reverse else path
  finalRoutes.map fun hop => ⟨hop⟩

/-- The paths from start to end, given the walks under the id of the pair. -/
def pathsFromWalks (pathsForSearchPair : Option (List (List Address)))
    (startMint endMint : Address) (reversed : Bool) : List Path :=
  match pathsForSearchPair with
  | some paths => paths.map fun path => ⟨startMint, endMint, getHopsFromRoute path reversed⟩
  | none => []

/-- All pairs of an earlier and a later item. -/
def combinations2 {α : Type} : List α → List (α × α)
  | [] => []
  | item :: array => array.map (fun later => (item, later)) ++ combinations2 array

structure AdjacencyListPoolGraph where
  graph : AdjacencyPoolGraphMap
  tokens : List Address

namespace AdjacencyListPoolGraph

def ofPools (pools : List PoolTokenPair) : AdjacencyListPoolGraph :=
  let built := buildPoolGraph pools
  ⟨built.1, built.2⟩

variable (poolGraph : AdjacencyListPoolGraph) (intermediateTokens : Option (List Address))

def getPathsForPairs (searchTokenPairs : List (Address × Address)) : PathSearchEntries :=
  let searchTokenPairsToFind := searchTokenPairs.filter fun pair => pair.1 ≠ pair.2
  let walkMap := findWalks poolGraph.graph intermediateTokens searchTokenPairsToFind
  searchTokenPairs.map fun pair =>
    let startMint := pair.1
    let endMint := pair.2
    let internal := sortMints startMint endMint
    let internalRouteId := getInternalRouteId internal.1 internal.2 false
    let reversed : Bool := internal.1 ≠ startMint
    (getSearchPathId startMint endMint,
      pathsFromWalks (walkMap internalRouteId) startMint endMint reversed)

/-- The result for the only pair of a search. -/
def getPath (startMint endMint : Address) : List Path :=
  match poolGraph.getPathsForPairs intermediateTokens [(startMint, endMint)] with
  | result :: _ => result.2
  | [] => []

/-- Both directions of one pair are looked up in one walk list. -/
def pushBothDirections (walkMap : PoolWalks) (acc : PathSearchEntries)
    (pair : Address × Address) : PathSearchEntries :=
  let startMint := pair.1
  let endMint := pair.2
  if startMint = endMint then acc ++ [(getSearchPathId startMint endMint, [])]
  else
    let internal := sortMints startMint endMint
    let internalRouteId := getInternalRouteId internal.1 internal.2 false
    let reversed : Bool := internal.1 ≠ startMint
    let pathsForSearchPair := walkMap internalRouteId
    let paths := pathsFromWalks pathsForSearchPair startMint endMint reversed
    let acc := acc ++ [(getSearchPathId startMint endMint, paths)]
    let reversedPaths := pathsFromWalks pathsForSearchPair endMint startMint (!reversed)
    acc ++ [(getSearchPathId endMint startMint, reversedPaths)]

def getAllPaths : PathSearchEntries :=
  let tokenPairCombinations := combinations2 poolGraph.tokens
  let searchTokenPairsToFind := tokenPairCombinations.filter fun pair => pair.1 ≠ pair.2
  let walkMap := findWalks poolGraph.graph intermediateTokens searchTokenPairsToFind
  tokenPairCombinations.foldl (pushBothDirections walkMap) []

end AdjacencyListPoolGraph

end Whirlpools.Sdk
