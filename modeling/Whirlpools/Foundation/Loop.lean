import Mathlib.Data.List.Forall2
import Whirlpools.Foundation.Outcome

/-! # Loops that return

A loop repeats a step until the step stops with a result. If every step from a state of the
invariant succeeds and either keeps the invariant at a smaller measure or stops with a result that
is right, the loop returns a right result.
-/

namespace Outcome

variable {ε σ β : Type}

/-- Repeat a step that goes on from a new state (left) or stops with a result (right). -/
def repeatStep (step : σ → Except ε (σ ⊕ β)) (exhausted : ε) : ℕ → σ → Except ε β
  | 0, _ => .error exhausted
  | fuel + 1, state => step state >>= fun
      | .inl next => repeatStep step exhausted fuel next
      | .inr result => .ok result

/-- The rule of total correctness for loops. -/
theorem repeatStep_returns {step : σ → Except ε (σ ⊕ β)} {exhausted : ε} (holds : σ → Prop)
    (right : β → Prop) (measure : σ → ℕ)
    (each : ∀ state, holds state →
      (∃ next, step state = .ok (.inl next) ∧ holds next ∧ measure next < measure state) ∨
        ∃ result, step state = .ok (.inr result) ∧ right result)
    {fuel : ℕ} {state : σ} (enough : measure state < fuel) (initially : holds state) :
    ∃ result, repeatStep step exhausted fuel state = .ok result ∧ right result := by
  induction fuel generalizing state with
  | zero => exact absurd enough (Nat.not_lt_zero _)
  | succ fuel ih =>
      rcases each state initially with ⟨next, stepped, kept, smaller⟩ | ⟨result, stepped, correct⟩
      · obtain ⟨result, returned, correct⟩ :=
          ih (Nat.lt_of_lt_of_le smaller (Nat.le_of_lt_succ enough)) kept
        exact ⟨result, by rw [repeatStep, stepped, ok_bind]; exact returned, correct⟩
      · exact ⟨result, by rw [repeatStep, stepped, ok_bind], correct⟩

/-- A fallible fold whose steps leave the state as it is does nothing. -/
theorem foldlM_stays {α : Type} {step : σ → α → Except ε σ} {items : List α} {state : σ}
    (each : ∀ item ∈ items, step state item = .ok state) :
    items.foldlM step state = .ok state := by
  induction items with
  | nil => rfl
  | cons item items ih =>
      rw [List.foldlM_cons, each item List.mem_cons_self, ok_bind]
      exact ih fun other member => each other (List.mem_cons_of_mem _ member)

/-- A fallible fold whose steps all succeed is a plain fold. -/
theorem foldlM_plain {α : Type} {step : σ → α → Except ε σ} {plain : σ → α → σ} {items : List α}
    (each : ∀ state, ∀ item ∈ items, step state item = .ok (plain state item)) {state : σ} :
    items.foldlM step state = .ok (items.foldl plain state) := by
  induction items generalizing state with
  | nil => rfl
  | cons item items ih =>
      rw [List.foldlM_cons, each state item List.mem_cons_self, ok_bind, List.foldl_cons]
      exact ih fun state other member => each state other (List.mem_cons_of_mem _ member)

/-- A computation on every item returns if it returns on each. -/
theorem mapM_eq_ok {α : Type} {body : α → Except ε β} {items : List α} {results : List β} :
    items.mapM body = .ok results ↔
      List.Forall₂ (fun item result => body item = .ok result) items results := by
  induction items generalizing results with
  | nil =>
      rw [List.mapM_nil, List.forall₂_nil_left_iff]
      exact ⟨fun same => (Except.ok.inj same).symm, fun same => same ▸ rfl⟩
  | cons item items ih =>
      rw [List.mapM_cons, bind_eq_ok, List.forall₂_cons_left_iff]
      constructor
      · rintro ⟨result, first, rest⟩
        obtain ⟨later, others, same⟩ := bind_eq_ok.mp rest
        exact ⟨result, later, first, ih.mp others, (Except.ok.inj same).symm⟩
      · rintro ⟨result, later, first, others, rfl⟩
        exact ⟨result, first, bind_eq_ok.mpr ⟨later, ih.mpr others, rfl⟩⟩

/-- A computation on every item, each finished by a plain step. -/
theorem mapM_bind_ok {α γ : Type} {body : α → Except ε β} {finish : α → β → γ} (items : List α) :
    items.mapM (fun item => body item >>= fun result => .ok (finish item result)) =
      (items.mapM body >>= fun results =>
        .ok ((items.zip results).map fun pair => finish pair.1 pair.2)) := by
  induction items with
  | nil => rfl
  | cons item items ih =>
      rw [List.mapM_cons, List.mapM_cons, ih]
      cases body item with
      | error failure => rfl
      | ok result =>
          rw [ok_bind, ok_bind, ok_bind]
          cases items.mapM body with
          | error failure => rfl
          | ok results => rfl

end Outcome
