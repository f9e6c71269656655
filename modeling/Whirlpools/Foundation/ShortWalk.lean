import Mathlib.Tactic.Common

/-! # Walks of one or two edges

In a graph with several edges between two vertices, a short walk is an edge, or two edges by way of
a third vertex. Reading the edges backwards gives the short walks in the other direction.
-/

variable {V E : Type}

/-- The edges lead from start to finish, directly or by way of an allowed third vertex. -/
inductive ShortWalk (joins : E → V → V → Prop) (allowed : V → Prop) (start finish : V) :
    List E → Prop where
  | direct {edge : E} : joins edge start finish → ShortWalk joins allowed start finish [edge]
  | through {middle : V} {first second : E} : middle ≠ start → middle ≠ finish → allowed middle →
      joins first start middle → joins second middle finish →
      ShortWalk joins allowed start finish [first, second]

namespace ShortWalk

variable {joins : E → V → V → Prop} {allowed : V → Prop} {start finish : V} {edges : List E}

/-- A walk may be taken back where edges join both ways. -/
theorem reverse (symmetric : ∀ edge a b, joins edge a b → joins edge b a)
    (walk : ShortWalk joins allowed start finish edges) :
    ShortWalk joins allowed finish start edges.reverse := by
  cases walk with
  | direct joined => exact .direct (symmetric _ _ _ joined)
  | through fromStart fromFinish permitted first second =>
      exact .through fromFinish fromStart permitted (symmetric _ _ _ second) (symmetric _ _ _ first)

/-- A walk and its way back are walks together. -/
theorem reverse_iff (symmetric : ∀ edge a b, joins edge a b → joins edge b a) :
    ShortWalk joins allowed finish start edges.reverse ↔
      ShortWalk joins allowed start finish edges := by
  refine ⟨fun walk => ?_, reverse symmetric⟩
  rw [← List.reverse_reverse edges]
  exact reverse symmetric walk

end ShortWalk
