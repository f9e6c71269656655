import Mathlib.Data.List.Induction
import Mathlib.Tactic.Common

/-! # What happened since in a run

A run applies actions to a state one after the other. A fact that some actions establish and others
end holds after a run exactly when it was established and not ended since.
-/

namespace History

variable {σ α : Type} (next : σ → α → σ) (start : σ)

/-- The state after a list of actions. -/
def after (actions : List α) : σ := actions.foldl next start

/-- Some action established a fact, and no later action ended it. -/
def Since (establishes ends : σ → α → Prop) (actions : List α) : Prop :=
  ∃ earlier action later, actions = earlier ++ action :: later ∧
    establishes (after next start earlier) action ∧
    ∀ middle ending rest, later = middle ++ ending :: rest →
      ¬ ends (after next start (earlier ++ action :: middle)) ending

variable {next start} {establishes ends : σ → α → Prop}

/-- Later actions go on from where the earlier ones lead. -/
theorem after_append (actions later : List α) :
    after next start (actions ++ later) = after next (after next start actions) later :=
  List.foldl_append

/-- The last action of a history is taken last. -/
theorem after_append_singleton (actions : List α) (action : α) :
    after next start (actions ++ [action]) = next (after next start actions) action :=
  after_append actions [action]

/-- Nothing has been established before the first action. -/
theorem not_since_nil : ¬ Since next start establishes ends [] := by
  rintro ⟨earlier, action, later, split, -⟩
  exact absurd split.symm (List.append_ne_nil_of_right_ne_nil _ (List.cons_ne_nil _ _))

/-- One more action establishes the fact, or keeps it by not ending it. -/
theorem since_append_singleton (actions : List α) (action : α) :
    Since next start establishes ends (actions ++ [action]) ↔
      establishes (after next start actions) action ∨
        Since next start establishes ends actions ∧ ¬ ends (after next start actions) action := by
  constructor
  · rintro ⟨earlier, first, later, split, established, kept⟩
    rcases List.eq_nil_or_concat later with rfl | ⟨front, last, rfl⟩
    · obtain ⟨rfl, last⟩ := List.append_inj' split rfl
      cases last
      exact .inl established
    · rw [List.concat_eq_append, ← List.cons_append, ← List.append_assoc] at split
      obtain ⟨rfl, same⟩ := List.append_inj' split rfl
      cases same
      refine .inr ⟨⟨earlier, first, front, rfl, established, ?_⟩,
        kept front action [] List.concat_eq_append⟩
      rintro middle ending rest rfl
      exact kept middle ending (rest ++ [action]) (by rw [List.concat_eq_append, List.append_assoc,
        List.cons_append])
  · rintro (established | ⟨⟨earlier, first, later, rfl, established, kept⟩, keeps⟩)
    · refine ⟨actions, action, [], rfl, established, fun middle ending rest split => ?_⟩
      exact absurd split.symm (List.append_ne_nil_of_right_ne_nil _ (List.cons_ne_nil _ _))
    · refine ⟨earlier, first, later ++ [action], by rw [List.append_assoc, List.cons_append],
        established, fun middle ending rest split => ?_⟩
      rcases List.eq_nil_or_concat rest with rfl | ⟨front, last, rfl⟩
      · obtain ⟨rfl, last⟩ := List.append_inj' split rfl
        cases last
        exact keeps
      · rw [List.concat_eq_append, ← List.cons_append, ← List.append_assoc] at split
        obtain ⟨rfl, -⟩ := List.append_inj' split rfl
        exact kept middle ending front rfl

/-- What every allowed action keeps holds after a run of allowed actions. -/
theorem invariant_after_of {invariant : σ → Prop} {allowed : α → Prop}
    (preserved : ∀ state action, invariant state → allowed action → invariant (next state action))
    (started : invariant start) {actions : List α}
    (permitted : ∀ action ∈ actions, allowed action) : invariant (after next start actions) := by
  induction actions generalizing start with
  | nil => exact started
  | cons action actions ih =>
      obtain ⟨first, rest⟩ := List.forall_mem_cons.mp permitted
      exact ih (preserved start action started first) rest

/-- What every action keeps holds after every run. -/
theorem invariant_after {invariant : σ → Prop}
    (preserved : ∀ state action, invariant state → invariant (next state action))
    (started : invariant start) (actions : List α) : invariant (after next start actions) :=
  @invariant_after_of σ α next start invariant (fun _ => True)
    (fun state action kept _ => preserved state action kept) started actions fun _ _ => trivial

/-- A fact that starts false, and that every action changes as announced where an invariant holds,
holds after a run exactly when it was established and not ended since. -/
theorem holds_iff_since_of_invariant (invariant : σ → Prop)
    (preserved : ∀ state action, invariant state → invariant (next state action))
    (started : invariant start) (holds : σ → Prop) (initially : ¬ holds start)
    (step : ∀ state action, invariant state → (holds (next state action) ↔
      establishes state action ∨ holds state ∧ ¬ ends state action)) (actions : List α) :
    holds (after next start actions) ↔ Since next start establishes ends actions := by
  induction actions using List.reverseRecOn with
  | nil => exact iff_of_false initially not_since_nil
  | append_singleton actions action ih =>
      have kept := invariant_after preserved started actions
      rw [after_append_singleton, step _ _ kept, since_append_singleton, ih]

/-- A fact that starts false, and that every action changes as announced, holds after a run exactly
when it was established and not ended since. -/
theorem holds_iff_since (holds : σ → Prop) (initially : ¬ holds start)
    (step : ∀ state action, holds (next state action) ↔
      establishes state action ∨ holds state ∧ ¬ ends state action) (actions : List α) :
    holds (after next start actions) ↔ Since next start establishes ends actions :=
  holds_iff_since_of_invariant (fun _ => True) (fun _ _ _ => trivial) trivial holds initially
    (fun state action _ => step state action) actions

end History
