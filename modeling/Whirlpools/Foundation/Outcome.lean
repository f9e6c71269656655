import Mathlib.Tactic.Common
import Mathlib.Order.Basic

/-! # Fallible computations and logged loops

A fallible computation is an `Except`. A while loop runs its body until the
condition fails, collecting one record for each iteration; the fuel only bounds
the number of iterations and is reported when it runs out. The run of a loop is
also the inductive relation `Iterations`, over which invariants are proved once
and for all loops.
-/

namespace Outcome

variable {ε α β σ ρ : Type}

/-- A sequenced computation succeeds exactly when both parts do. -/
theorem bind_eq_ok {first : Except ε α} {next : α → Except ε β} {result : β} :
    (first >>= next) = .ok result ↔ ∃ value, first = .ok value ∧ next value = .ok result := by
  cases first with
  | error failure => simp only [bind, Except.bind, reduceCtorEq, false_and, exists_false]
  | ok value => simp only [bind, Except.bind, Except.ok.injEq, exists_eq_left']

/-- A sequenced computation fails where its first failing part does. -/
theorem bind_eq_error {first : Except ε α} {next : α → Except ε β} {failure : ε} :
    (first >>= next) = .error failure ↔
      first = .error failure ∨ ∃ value, first = .ok value ∧ next value = .error failure := by
  cases first with
  | error failure => simp only [bind, Except.bind, Except.error.injEq, reduceCtorEq, false_and,
      exists_false, or_false]
  | ok value => simp only [bind, Except.bind, reduceCtorEq, Except.ok.injEq, exists_eq_left',
      false_or]

@[simp] theorem ok_bind (value : α) (next : α → Except ε β) :
    ((Except.ok value : Except ε α) >>= next) = next value := rfl

@[simp] theorem error_bind (failure : ε) (next : α → Except ε β) :
    ((Except.error failure : Except ε α) >>= next) = .error failure := rfl

/-- A guarded rejection succeeds exactly when the guard is false and the rest does. -/
theorem guard_eq_ok {guarded : Prop} [Decidable guarded] {failure : ε} {rest : Except ε α}
    {result : α} : (if guarded then .error failure else rest) = .ok result ↔
      ¬ guarded ∧ rest = .ok result := by
  by_cases holds : guarded
  · simp only [holds, ↓reduceIte, reduceCtorEq, not_true_eq_false, false_and]
  · simp only [holds, ↓reduceIte, not_false_eq_true, true_and]

/-- The value of an optional lookup, or a failure where it is absent. -/
def okOr (found : Option α) (failure : ε) : Except ε α :=
  match found with
  | some value => .ok value
  | none => .error failure

/-- A missing value is the only failure of a lookup. -/
theorem okOr_eq_ok {found : Option α} {failure : ε} {value : α} :
    okOr found failure = .ok value ↔ found = some value := by
  cases found with
  | none => simp only [okOr, reduceCtorEq]
  | some found => simp only [okOr, Except.ok.injEq, Option.some.injEq]

/-- Whether a computation succeeds with a value that passes a check. -/
def yields (computed : Except ε α) (check : α → Bool) : Bool :=
  match computed with
  | .ok value => check value
  | .error _ => false

/-- A computation yields a check when it returns a value that passes it. -/
theorem yields_iff {computed : Except ε α} {check : α → Bool} :
    yields computed check = true ↔ ∃ value, computed = .ok value ∧ check value = true := by
  cases computed with
  | error failure => simp only [yields, Bool.false_eq_true, reduceCtorEq, false_and, exists_false]
  | ok value => simp only [yields, Except.ok.injEq, exists_eq_left']

/-- A computation fails only in allowed ways. -/
def FailsWithin (allowed : ε → Prop) (computed : Except ε α) : Prop :=
  ∀ failure, computed = .error failure → allowed failure

namespace FailsWithin

variable {allowed allowed' : ε → Prop} {computed : Except ε α}

theorem ok (value : α) : FailsWithin allowed (.ok value : Except ε α) :=
  fun _ failed => absurd failed (by simp only [reduceCtorEq, not_false_eq_true])

theorem error {failure : ε} (permitted : allowed failure) :
    FailsWithin allowed (.error failure : Except ε α) := by
  intro other failed
  rwa [← Except.error.inj failed]

/-- A computation fails within what is allowed when both its parts do. -/
theorem bind {next : α → Except ε β} (first : FailsWithin allowed computed)
    (second : ∀ value, computed = .ok value → FailsWithin allowed (next value)) :
    FailsWithin allowed (computed >>= next) := by
  intro failure failed
  rcases bind_eq_error.mp failed with failed | ⟨value, returned, failed⟩
  · exact first failure failed
  · exact second value returned failure failed

/-- A decision fails within what is allowed when both branches do, each under its condition. -/
theorem ite {condition : Prop} [Decidable condition] {other : Except ε α}
    (first : condition → FailsWithin allowed computed)
    (second : ¬ condition → FailsWithin allowed other) :
    FailsWithin allowed (if condition then computed else other) := by
  by_cases holds : condition
  · rw [if_pos holds]
    exact first holds
  · rw [if_neg holds]
    exact second holds

/-- A lookup fails within what is allowed when its failure is. -/
theorem okOr {found : Option α} {failure : ε} (permitted : allowed failure) :
    FailsWithin allowed (Outcome.okOr found failure) := by
  cases found with
  | none => exact error permitted
  | some value => exact ok value

/-- A computation that returns does not fail. -/
theorem of_ok {value : α} (returned : computed = .ok value) : FailsWithin allowed computed :=
  returned ▸ ok value

/-- Allowing more failures allows the same computations. -/
theorem mono (within : FailsWithin allowed computed)
    (weaker : ∀ failure, allowed failure → allowed' failure) : FailsWithin allowed' computed :=
  fun failure failed => weaker failure (within failure failed)

end FailsWithin

/-- Computations that go on alike after a result are alike. -/
theorem bind_congr {computed : Except ε α} {first second : α → Except ε β}
    (alike : ∀ value, computed = .ok value → first value = second value) :
    (computed >>= first) = (computed >>= second) := by
  cases computed with
  | error failure => rfl
  | ok value => exact alike value rfl

/-- Run `body` while `continues` holds, with the records of the iterations in order. -/
def whileLogged (continues : σ → Bool) (body : σ → Except ε (σ × ρ)) (exhausted : ε) :
    ℕ → σ → Except ε (σ × List ρ)
  | 0, state => if continues state then .error exhausted else .ok (state, [])
  | fuel + 1, state =>
      if continues state then
        body state >>= fun next =>
          whileLogged continues body exhausted fuel next.1 >>= fun final =>
            .ok (final.1, next.2 :: final.2)
      else .ok (state, [])

/-- The states a loop passes through and the records it collects. -/
inductive Iterations (continues : σ → Bool) (body : σ → Except ε (σ × ρ)) :
    σ → List ρ → σ → Prop
  | done (state : σ) : Iterations continues body state [] state
  | step {state middle final : σ} {entry : ρ} {entries : List ρ}
      (runs : continues state = true) (stepped : body state = .ok (middle, entry))
      (rest : Iterations continues body middle entries final) :
      Iterations continues body state (entry :: entries) final

variable {continues : σ → Bool} {body : σ → Except ε (σ × ρ)}

/-- A loop that returns has run its iterations and its condition is false. -/
theorem whileLogged_iterations {exhausted : ε} {fuel : ℕ} {state final : σ} {entries : List ρ}
    (returned : whileLogged continues body exhausted fuel state = .ok (final, entries)) :
    Iterations continues body state entries final ∧ continues final = false := by
  induction fuel generalizing state entries with
  | zero =>
      by_cases runs : continues state
      · simp only [whileLogged, runs, ↓reduceIte, reduceCtorEq] at returned
      · simp only [whileLogged, runs, Bool.false_eq_true, ↓reduceIte, Except.ok.injEq,
          Prod.mk.injEq] at returned
        obtain ⟨rfl, rfl⟩ := returned
        exact ⟨.done state, by simpa only [Bool.not_eq_true] using runs⟩
  | succ fuel ih =>
      by_cases runs : continues state
      · simp only [whileLogged, runs, ↓reduceIte, bind_eq_ok, Except.ok.injEq,
          Prod.mk.injEq] at returned
        obtain ⟨⟨middle, entry⟩, stepped, ⟨last, rest⟩, tail, rfl, rfl⟩ := returned
        obtain ⟨iterations, stops⟩ := ih tail
        exact ⟨.step runs stepped iterations, stops⟩
      · simp only [whileLogged, runs, Bool.false_eq_true, ↓reduceIte, Except.ok.injEq,
          Prod.mk.injEq] at returned
        obtain ⟨rfl, rfl⟩ := returned
        exact ⟨.done state, by simpa only [Bool.not_eq_true] using runs⟩

/-- A failing loop either ran out of fuel or its body failed in a state it reached. -/
theorem whileLogged_error {exhausted failure : ε} {fuel : ℕ} {state : σ}
    (failed : whileLogged continues body exhausted fuel state = .error failure) :
    failure = exhausted ∨ ∃ middle entries, Iterations continues body state entries middle ∧
      continues middle = true ∧ body middle = .error failure := by
  induction fuel generalizing state with
  | zero =>
      by_cases runs : continues state
      · simp only [whileLogged, runs, ↓reduceIte, Except.error.injEq] at failed
        exact .inl failed.symm
      · simp only [whileLogged, runs, Bool.false_eq_true, ↓reduceIte, reduceCtorEq] at failed
  | succ fuel ih =>
      by_cases runs : continues state
      · simp only [whileLogged, runs, ↓reduceIte, bind_eq_error, reduceCtorEq, and_false,
          exists_false, or_false] at failed
        rcases failed with failed | ⟨⟨middle, entry⟩, stepped, failed⟩
        · exact .inr ⟨state, [], .done state, runs, failed⟩
        · rcases ih failed with spent | ⟨last, entries, iterations, more, stuck⟩
          · exact .inl spent
          · exact .inr ⟨last, entry :: entries, .step runs stepped iterations, more, stuck⟩
      · simp only [whileLogged, runs, Bool.false_eq_true, ↓reduceIte, reduceCtorEq] at failed

/-- With more fuel than iterations, neither the fuel nor the failure for spent fuel matters. -/
theorem whileLogged_enough {spent spent' : ε} {bound fuel fuel' : ℕ} {state : σ}
    (short : ∀ middle entries, Iterations continues body state entries middle →
      entries.length ≤ bound) (enough : bound < fuel) (enough' : bound < fuel') :
    whileLogged continues body spent fuel state =
      whileLogged continues body spent' fuel' state := by
  induction bound generalizing fuel fuel' state with
  | zero =>
      obtain ⟨fuel, rfl⟩ := Nat.exists_eq_add_one.mpr enough
      obtain ⟨fuel', rfl⟩ := Nat.exists_eq_add_one.mpr enough'
      unfold whileLogged
      split_ifs with runs
      · refine bind_congr fun next stepped => ?_
        have one := short next.1 [next.2] (.step runs stepped (.done _))
        rw [List.length_singleton] at one
        omega
      · rfl
  | succ bound ih =>
      obtain ⟨fuel, rfl⟩ := Nat.exists_eq_add_one.mpr (Nat.zero_lt_of_lt enough)
      obtain ⟨fuel', rfl⟩ := Nat.exists_eq_add_one.mpr (Nat.zero_lt_of_lt enough')
      unfold whileLogged
      split_ifs with runs
      · refine bind_congr fun next stepped => ?_
        rw [@ih fuel fuel' next.1 (fun middle entries iterations => Nat.le_of_succ_le_succ
          (short middle (next.2 :: entries) (.step runs stepped iterations))) (by omega) (by omega)]
      · rfl

/-- A loop fails as its body fails in the states it reaches. -/
theorem FailsWithin.whileLogged {allowed : ε → Prop} {exhausted : ε} {fuel : ℕ} {state : σ}
    (spent : allowed exhausted)
    (each : ∀ middle entries, Iterations continues body state entries middle →
      continues middle = true → FailsWithin allowed (body middle)) :
    FailsWithin allowed (whileLogged continues body exhausted fuel state) := by
  intro failure failed
  rcases whileLogged_error failed with rfl | ⟨middle, entries, iterations, runs, stuck⟩
  · exact spent
  · exact each middle entries iterations runs failure stuck

/-- Loops whose bodies agree in the states they reach are alike. -/
theorem whileLogged_congr {body' : σ → Except ε (σ × ρ)} {exhausted : ε} {fuel : ℕ} {state : σ}
    (alike : ∀ middle entries, Iterations continues body state entries middle →
      continues middle = true → body' middle = body middle) :
    whileLogged continues body' exhausted fuel state =
      whileLogged continues body exhausted fuel state := by
  induction fuel generalizing state with
  | zero => rfl
  | succ fuel ih =>
      by_cases runs : continues state
      · simp only [whileLogged, runs, ↓reduceIte]
        rw [alike state [] (.done state) runs]
        refine bind_congr fun next stepped => ?_
        rw [ih fun middle entries iterations more =>
          alike middle (next.2 :: entries) (.step runs stepped iterations) more]
      · simp only [whileLogged, runs, Bool.false_eq_true, ↓reduceIte]

namespace Iterations

/-- The invariant rule of loops: what every iteration preserves, the loop preserves. -/
theorem invariant {holds : σ → Prop}
    (preserved : ∀ state next entry, holds state → continues state = true →
      body state = .ok (next, entry) → holds next)
    {state final : σ} {entries : List ρ}
    (iterations : Iterations continues body state entries final)
    (initially : holds state) : holds final := by
  induction iterations with
  | done state => exact initially
  | step runs stepped _ ih => exact ih (preserved _ _ _ initially runs stepped)

/-- Two consecutive pieces of a loop are one piece. -/
theorem append {state middle final : σ} {first second : List ρ}
    (left : Iterations continues body state first middle)
    (right : Iterations continues body middle second final) :
    Iterations continues body state (first ++ second) final := by
  induction left with
  | done state => exact right
  | step runs stepped _ ih => exact .step runs stepped (ih right)

end Iterations
end Outcome
