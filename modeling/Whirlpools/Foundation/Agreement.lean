import Whirlpools.Foundation.Outcome

/-! # Agreement of two computations

Two programs for the same task agree when they fail together, and return together
with related results. Agreement follows the structure of the programs: it is kept by
sequencing and by branching on equivalent conditions. Where only one of them is to be
followed, the other simulates it: it returns a related result whenever that one does.
-/

namespace Outcome

variable {ε φ α α' β β' : Type}

/-- Both computations fail, or both return related results. -/
inductive Agree (relation : α → β → Prop) : Except ε α → Except φ β → Prop
  | ok {value : α} {other : β} (related : relation value other) :
      Agree relation (.ok value) (.ok other)
  | error (failure : ε) (failure' : φ) : Agree relation (.error failure) (.error failure')

namespace Agree

variable {relation : α → β → Prop} {relation' : α' → β' → Prop} {first : Except ε α}
  {second : Except φ β}

/-- Computations that agree go on in agreement. -/
theorem bind {next : α → Except ε α'} {next' : β → Except φ β'}
    (agree : Agree relation first second)
    (rest : ∀ value other, first = .ok value → relation value other →
      Agree relation' (next value) (next' other)) :
    Agree relation' (first >>= next) (second >>= next') := by
  cases agree with
  | ok related => exact rest _ _ rfl related
  | error failure failure' => exact .error failure failure'

/-- Computations that decide alike agree when their branches do. -/
theorem ite {condition condition' : Prop} [Decidable condition] [Decidable condition']
    {first' : Except ε α} {second' : Except φ β} (same : condition ↔ condition')
    (positive : condition → Agree relation first second)
    (negative : ¬ condition → Agree relation first' second') :
    Agree relation (if condition then first else first')
      (if condition' then second else second') := by
  by_cases holds : condition
  · rw [if_pos holds, if_pos (same.mp holds)]
    exact positive holds
  · rw [if_neg holds, if_neg (mt same.mpr holds)]
    exact negative holds

/-- Guards that reject alike. -/
theorem guard {condition condition' : Prop} [Decidable condition] [Decidable condition']
    {failure : ε} {failure' : φ} (same : condition ↔ condition')
    (rest : ¬ condition → Agree relation first second) :
    Agree relation (if condition then .error failure else first)
      (if condition' then .error failure' else second) :=
  ite same (fun _ => .error failure failure') rest

/-- Values that agreeing computations return are related. -/
theorem of_ok {value : α} {other : β} (agree : Agree relation first second)
    (returned : first = .ok value) (returned' : second = .ok other) : relation value other := by
  subst returned returned'
  cases agree
  assumption

/-- What the second computation returns, the first matches. -/
theorem exists_of_right {other : β} (agree : Agree relation first second)
    (returned : second = .ok other) : ∃ value, first = .ok value ∧ relation value other := by
  subst returned
  cases agree with
  | ok related => exact ⟨_, rfl, related⟩

/-- What the first computation returns, the second matches. -/
theorem exists_of_left {value : α} (agree : Agree relation first second)
    (returned : first = .ok value) : ∃ other, second = .ok other ∧ relation value other := by
  subst returned
  cases agree with
  | ok related => exact ⟨_, rfl, related⟩

/-- Computations that are the same up to what is forgotten agree up to it. -/
theorem of_map_eq {γ : Type} {forget : α → γ} {first second : Except ε α}
    (same : first.map forget = second.map forget) :
    Agree (fun value other => forget value = forget other) first second := by
  cases first with
  | error failure =>
      cases second with
      | error failure' => exact .error failure failure'
      | ok other => simp only [Except.map, reduceCtorEq] at same
  | ok value =>
      cases second with
      | error failure' => simp only [Except.map, reduceCtorEq] at same
      | ok other => exact .ok (Except.ok.inj same)

theorem refl (computed : Except ε α) : Agree Eq computed computed := by
  cases computed with
  | error failure => exact .error failure failure
  | ok value => exact .ok rfl

/-- A computation that both begin with is agreed on. -/
theorem bind_same {computed : Except ε α} {next : α → Except ε α'} {next' : α → Except ε β'}
    (rest : ∀ value, computed = .ok value → Agree relation' (next value) (next' value)) :
    Agree relation' (computed >>= next) (computed >>= next') :=
  bind (refl computed) fun value _ returned equal => equal ▸ rest value returned

/-- Loops agree whose conditions are the same and whose iterations agree. -/
theorem whileLogged {σ τ ρ ρ' : Type} {continues : σ → Bool} {continues' : τ → Bool}
    {body : σ → Except ε (σ × ρ)} {body' : τ → Except φ (τ × ρ')} (relation : σ → τ → Prop)
    (logged : ρ → ρ' → Prop) {exhausted : ε} {exhausted' : φ}
    (same : ∀ state other, relation state other → continues state = continues' other)
    (each : ∀ state other, relation state other → continues state = true →
      Agree (fun stepped stepped' => relation stepped.1 stepped'.1 ∧ logged stepped.2 stepped'.2)
        (body state) (body' other))
    (fuel : ℕ) {state : σ} {other : τ} (related : relation state other) :
    Agree (fun final final' => relation final.1 final'.1 ∧ List.Forall₂ logged final.2 final'.2)
      (Outcome.whileLogged continues body exhausted fuel state)
      (Outcome.whileLogged continues' body' exhausted' fuel other) := by
  induction fuel generalizing state other with
  | zero =>
      refine .ite (by rw [same _ _ related]) (fun _ => .error _ _) fun _ => .ok ⟨related, .nil⟩
  | succ fuel ih =>
      refine .ite (by rw [same _ _ related]) (fun runs => ?_) fun _ => .ok ⟨related, .nil⟩
      refine .bind (each _ _ related runs) fun next next' _ stepped => ?_
      exact .bind (ih stepped.1) fun final final' _ ended => .ok ⟨ended.1, .cons stepped.2 ended.2⟩

end Agree

/-- The rule of forward simulation for loops: where the relation keeps the conditions the same, and
every iteration of the first loop is matched by one of the second, the second loop returns what the
first one returns. -/
theorem whileLogged_simulates {σ τ ρ ρ' : Type} {continues : σ → Bool} {continues' : τ → Bool}
    {body : σ → Except ε (σ × ρ)} {body' : τ → Except φ (τ × ρ')}
    (relation : σ → List ρ → τ → Prop)
    (same : ∀ state entries other, relation state entries other → continues' other =
      continues state)
    (each : ∀ state entries other next entry, relation state entries other →
      continues state = true → body state = .ok (next, entry) →
      ∃ next' entry', body' other = .ok (next', entry') ∧ relation next (entries ++ [entry]) next')
    {state final : σ} {before entries : List ρ} {other : τ} {exhausted : φ} {fuel : ℕ}
    (iterations : Iterations continues body state entries final) (stops : continues final = false)
    (enough : entries.length ≤ fuel) (initially : relation state before other) :
    ∃ final' entries', whileLogged continues' body' exhausted fuel other = .ok (final', entries') ∧
      relation final (before ++ entries) final' := by
  induction iterations generalizing before other fuel with
  | done state =>
      have ended := (same state before other initially).trans stops
      refine ⟨other, [], ?_, (List.append_nil before).symm ▸ initially⟩
      cases fuel <;> simp only [whileLogged, ended, Bool.false_eq_true, ↓reduceIte]
  | @step state middle final entry entries runs stepped _ ih =>
      obtain ⟨next', entry', stepped', related⟩ := each state before other middle entry
        initially runs
        stepped
      obtain ⟨fuel, rfl⟩ := Nat.exists_eq_add_one.mpr (Nat.zero_lt_of_lt enough)
      obtain ⟨final', entries', returned, ends⟩ := ih stops (Nat.le_of_succ_le_succ enough) related
      refine ⟨final', entry' :: entries', ?_, by rwa [List.append_assoc] at ends⟩
      rw [whileLogged, if_pos ((same state before other initially).trans runs), stepped', ok_bind,
        returned, ok_bind]

/-- A loop returns where its iterations end, if they are not more than its fuel. -/
theorem whileLogged_of_iterations {σ ρ : Type} {continues : σ → Bool}
    {body : σ → Except ε (σ × ρ)} {state final : σ} {entries : List ρ} {exhausted : ε} {fuel : ℕ}
    (iterations : Iterations continues body state entries final) (stops : continues final = false)
    (enough : entries.length ≤ fuel) :
    whileLogged continues body exhausted fuel state = .ok (final, entries) := by
  induction iterations generalizing fuel with
  | done state => cases fuel <;> simp only [whileLogged, stops, Bool.false_eq_true, ↓reduceIte]
  | step runs stepped _ ih =>
      obtain ⟨fuel, rfl⟩ := Nat.exists_eq_add_one.mpr (Nat.zero_lt_of_lt enough)
      rw [whileLogged, if_pos runs, stepped, ok_bind, ih stops (Nat.le_of_succ_le_succ enough),
        ok_bind]

end Outcome
