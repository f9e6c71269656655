import Whirlpools.Foundation.History

/-! # Actions that cannot be noticed

A part of a state is seen through a view. If some actions never change the view, and the others
change it in a way that only the view decides, then a run shows the same view as the run without
the unnoticed actions.
-/

namespace Unwinding

open History

variable {σ α ν : Type} {next : σ → α → σ} {view : σ → ν} {outside : α → Bool} {allowed : α → Prop}
  {holds : σ → Prop}

/-- What makes the actions of outsiders unnoticed, in states with an invariant and for allowed
actions. -/
structure Unnoticed (next : σ → α → σ) (view : σ → ν) (outside : α → Bool) (allowed : α → Prop)
    (holds : σ → Prop) : Prop where
  /-- Every allowed action keeps the invariant. -/
  preserved : ∀ state action, holds state → allowed action → holds (next state action)
  /-- An outsider's action keeps the view. -/
  respected : ∀ state action, holds state → outside action → view (next state action) = view state
  /-- Every action changes the view in the same way where the view is the same. -/
  determined : ∀ state state' action, holds state → holds state' → view state = view state' →
    view (next state action) = view (next state' action)

/-- The invariant holds after a run of allowed actions. -/
theorem Unnoticed.holds_after (unnoticed : Unnoticed next view outside allowed holds)
    {state : σ} (initially : holds state) {actions : List α}
    (permitted : ∀ action ∈ actions, allowed action) : holds (after next state actions) :=
  invariant_after_of unnoticed.preserved initially permitted

/-- A run shows the same view as the run without the actions of outsiders, also from another state
with the same view. -/
theorem Unnoticed.view_filter (unnoticed : Unnoticed next view outside allowed holds)
    {state state' : σ} (initially : holds state) (initially' : holds state')
    (same : view state = view state') {actions : List α}
    (permitted : ∀ action ∈ actions, allowed action) :
    view (after next state actions) =
      view (after next state' (actions.filter fun action => !outside action)) := by
  induction actions generalizing state state' with
  | nil => exact same
  | cons action actions ih =>
      obtain ⟨first, rest⟩ := List.forall_mem_cons.mp permitted
      have kept := unnoticed.preserved state action initially first
      cases noticed : outside action with
      | true =>
          rw [List.filter_cons_of_neg (by simp only [noticed, Bool.not_true,
            Bool.false_eq_true, not_false_eq_true])]
          have unchanged := unnoticed.respected state action initially noticed
          exact ih kept initially' (unchanged.trans same) rest
      | false =>
          rw [List.filter_cons_of_pos (by simp only [noticed, Bool.not_false])]
          have together := unnoticed.determined state state' action initially initially' same
          exact ih kept (unnoticed.preserved state' action initially' first) together rest

end Unwinding
