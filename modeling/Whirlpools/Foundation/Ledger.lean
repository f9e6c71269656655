import Mathlib.Data.List.AList
import Mathlib.Algebra.BigOperators.Group.List.Basic
import Mathlib.Algebra.Order.BigOperators.Group.List
import Whirlpools.Foundation.Outcome

/-! # Runs of a fallible transition system, and sums over keyed records

An operation either changes the state and emits a record, or fails and leaves
the state unchanged. `Runs` is the relation of the states reached and the
records emitted by a list of operations; invariants are proved by one step.
Keyed records are association lists without repeated keys; `total` sums a
quantity over them.
-/

namespace Ledger

section Runs

variable {σ ι ρ ε : Type}

/-- Attempt an operation; a failing one leaves the state unchanged and emits nothing. -/
def attempt (execute : σ → ι → Except ε (σ × ρ)) (state : σ) (operation : ι) : σ × List ρ :=
  match execute state operation with
  | .ok (next, entry) => (next, [entry])
  | .error _ => (state, [])

/-- Attempt a list of operations in order. -/
def run (execute : σ → ι → Except ε (σ × ρ)) : σ → List ι → σ × List ρ
  | state, [] => (state, [])
  | state, operation :: operations =>
      let first := attempt execute state operation
      let rest := run execute first.1 operations
      (rest.1, first.2 ++ rest.2)

/-- The states and records of the successful operations of a run. -/
inductive Runs (execute : σ → ι → Except ε (σ × ρ)) : σ → List ρ → σ → Prop
  | refl (state : σ) : Runs execute state [] state
  | step {state middle final : σ} {entries : List ρ} {entry : ρ} (operation : ι)
      (before : Runs execute state entries middle)
      (executed : execute middle operation = .ok (final, entry)) :
      Runs execute state (entries ++ [entry]) final

variable {execute : σ → ι → Except ε (σ × ρ)}

/-- Two runs, the second from where the first one ends, are one run. -/
theorem Runs.trans {state middle final : σ} {first second : List ρ}
    (left : Runs execute state first middle) (right : Runs execute middle second final) :
    Runs execute state (first ++ second) final := by
  induction right with
  | refl => simpa only [List.append_nil] using left
  | step operation _ executed ih =>
      rw [← List.append_assoc]
      exact .step operation ih executed

/-- Every run of attempted operations is a run of its successful ones. -/
theorem runs_run (execute : σ → ι → Except ε (σ × ρ)) (state : σ) (operations : List ι) :
    Runs execute state (run execute state operations).2 (run execute state operations).1 := by
  induction operations generalizing state with
  | nil => exact .refl state
  | cons operation operations ih =>
      simp only [run, attempt]
      cases executed : execute state operation with
      | error failure => exact ih state
      | ok outcome => exact (Runs.step operation (.refl state) executed).trans (ih outcome.1)

/-- Attempting two lists in order is attempting them one after the other. -/
theorem run_append (execute : σ → ι → Except ε (σ × ρ)) (state : σ) (first second : List ι) :
    (run execute state (first ++ second)).1 =
      (run execute (run execute state first).1 second).1 := by
  induction first generalizing state with
  | nil => rfl
  | cons operation operations ih => exact ih _

/-- An operation that succeeds moves the state on. -/
theorem run_cons_of_ok {state next : σ} {operation : ι} {entry : ρ}
    (executed : execute state operation = .ok (next, entry)) (operations : List ι) :
    (run execute state (operation :: operations)).1 = (run execute next operations).1 := by
  simp only [run, attempt, executed]

/-- An operation that fails leaves the state as it was. -/
theorem run_cons_of_error {state : σ} {operation : ι} {failure : ε}
    (failed : execute state operation = .error failure) (operations : List ι) :
    (run execute state (operation :: operations)).1 = (run execute state operations).1 := by
  simp only [run, attempt, failed]

/-- The invariant rule of runs. -/
theorem Runs.invariant (holds : σ → Prop)
    (preserved : ∀ state operation next entry, holds state →
      execute state operation = .ok (next, entry) → holds next)
    {state final : σ} {entries : List ρ} (runs : Runs execute state entries final)
    (initially : holds state) : holds final := by
  induction runs with
  | refl => exact initially
  | step operation _ executed ih => exact preserved _ operation _ _ ih executed

/-- The invariant rule of runs for invariants that also read the records emitted. -/
theorem Runs.invariant_log (holds : σ → List ρ → Prop)
    (preserved : ∀ state operation next entry entries, holds state entries →
      execute state operation = .ok (next, entry) → holds next (entries ++ [entry]))
    {state final : σ} {entries : List ρ} (runs : Runs execute state entries final)
    (initially : holds state []) : holds final entries := by
  induction runs with
  | refl => exact initially
  | step operation _ executed ih => exact preserved _ operation _ _ _ ih executed

end Runs

section Totals

variable {κ α M : Type} [DecidableEq κ] [AddCommMonoid M]

/-- Keyed records without repeated keys. -/
abbrev Records (κ α : Type) := AList fun _ : κ => α

/-- The sum of a quantity over all records. -/
def total (quantity : α → M) (records : Records κ α) : M :=
  (records.entries.map fun entry => quantity entry.2).sum

/-- Some record is kept. -/
def Holds (records : Records κ α) (value : α) : Prop := ∃ key, records.lookup key = some value

omit [DecidableEq κ] in
@[simp] theorem total_empty (quantity : α → M) : total quantity (∅ : Records κ α) = 0 := rfl

/-- The entries are the values that lookups find, under their keys. -/
theorem mem_entries_iff {records : Records κ α} {key : κ} {value : α} :
    (⟨key, value⟩ : Sigma fun _ : κ => α) ∈ records.entries ↔ records.lookup key = some value :=
  (List.mem_dlookup_iff records.nodupKeys).symm

theorem Holds.of_mem {records : Records κ α} {entry : Sigma fun _ : κ => α}
    (member : entry ∈ records.entries) : Holds records entry.2 :=
  ⟨entry.1, mem_entries_iff.mp member⟩

/-- A record that is kept after an insertion is the new one, or was kept under another key. -/
theorem Holds.of_insert {records : Records κ α} {key : κ} {value other : α}
    (held : Holds (records.insert key value) other) :
    other = value ∨ ∃ otherKey, otherKey ≠ key ∧ records.lookup otherKey = some other := by
  obtain ⟨otherKey, found⟩ := held
  by_cases same : otherKey = key
  · rw [same, AList.lookup_insert] at found
    exact .inl (Option.some.inj found).symm
  · rw [AList.lookup_insert_ne same] at found
    exact .inr ⟨otherKey, same, found⟩

/-- What is held after an erasure was held before. -/
theorem Holds.of_erase {records : Records κ α} {key : κ} {other : α}
    (held : Holds (records.erase key) other) : Holds records other := by
  obtain ⟨otherKey, found⟩ := held
  by_cases same : otherKey = key
  · rw [same, AList.lookup_erase] at found
    exact absurd found (by simp only [reduceCtorEq, not_false_eq_true])
  · rw [AList.lookup_erase_ne same] at found
    exact ⟨otherKey, found⟩

/-- Removing a record takes its part out of every total. -/
theorem total_erase (quantity : α → M) {records : Records κ α} {key : κ} {value : α}
    (found : records.lookup key = some value) :
    total quantity records = quantity value + total quantity (records.erase key) := by
  obtain ⟨other, front, back, _, split, erased⟩ :=
    List.exists_of_kerase (List.mem_keys_of_mem (mem_entries_iff.mpr found))
  have same : other = value := by
    have member : (⟨key, other⟩ : Sigma fun _ : κ => α) ∈ records.entries := by
      rw [split]
      exact List.mem_append_right _ List.mem_cons_self
    exact Option.some.inj ((mem_entries_iff.mp member).symm.trans found)
  subst same
  change total quantity records = quantity other +
    ((records.entries.kerase key).map fun entry => quantity entry.2).sum
  rw [total, erased, split]
  simp only [List.map_append, List.map_cons, List.sum_append, List.sum_cons]
  exact add_left_comm _ _ _

/-- A new record adds its part to every total. -/
theorem total_insert_new (quantity : α → M) {records : Records κ α} {key : κ} (value : α)
    (fresh : records.lookup key = none) :
    total quantity (records.insert key value) = quantity value + total quantity records := by
  have absent : key ∉ records := AList.lookup_eq_none.mp fresh
  simp only [total, AList.entries_insert_of_notMem absent, List.map_cons, List.sum_cons]

/-- Totals of quantities that agree on every record agree. -/
theorem total_congr {first second : α → M} {records : Records κ α}
    (agree : ∀ value, Holds records value → first value = second value) :
    total first records = total second records := by
  unfold total
  congr 1
  exact List.map_congr_left fun entry member => agree entry.2 (.of_mem member)

/-- Replacing a record exchanges its part of a total, also when the quantity changes
without changing on the other records. -/
theorem total_insert_congr (first second : α → M) {records : Records κ α} {key : κ} {before : α}
    (after : α) (found : records.lookup key = some before)
    (agree : ∀ other value, other ≠ key → records.lookup other = some value →
      first value = second value) :
    total first (records.insert key after) + second before =
      total second records + first after := by
  have rest : total first (records.erase key) = total second (records.erase key) := by
    refine total_congr fun value held => ?_
    obtain ⟨other, present⟩ := held
    by_cases same : other = key
    · rw [same, AList.lookup_erase] at present
      exact absurd present (by simp only [reduceCtorEq, not_false_eq_true])
    · exact agree other value same (by rwa [AList.lookup_erase_ne same] at present)
  rw [total_erase second found, ← rest]
  simp only [total, AList.entries_insert, List.map_cons, List.sum_cons]
  change _ + total first (records.erase key) + _ = _ + total first (records.erase key) + _
  rw [add_comm (first after + _), ← add_assoc, add_right_comm]

/-- Replacing a record exchanges its part of every total. -/
theorem total_insert (quantity : α → M) {records : Records κ α} {key : κ} {before : α}
    (after : α) (found : records.lookup key = some before) :
    total quantity (records.insert key after) + quantity before =
      total quantity records + quantity after :=
  total_insert_congr _ _ after found fun _ _ _ _ => rfl

/-- Replacing a record by one with the same part keeps a total. -/
theorem total_insert_same [IsRightCancelAdd M] (quantity : α → M) {records : Records κ α} {key : κ}
    {before : α} (after : α) (found : records.lookup key = some before)
    (same : quantity after = quantity before) :
    total quantity (records.insert key after) = total quantity records := by
  have exchanged := total_insert quantity after found
  rw [same] at exchanged
  exact add_right_cancel exchanged

omit [DecidableEq κ] in
/-- The total of sums is the sum of the totals. -/
theorem total_add (first second : α → M) (records : Records κ α) :
    total (fun value => first value + second value) records =
      total first records + total second records := by
  unfold total
  exact List.sum_map_add

omit [DecidableEq κ] in
/-- A homomorphism of the quantity is one of the total. -/
theorem total_map_hom {N : Type} [AddCommMonoid N] (hom : M →+ N) (quantity : α → M)
    (records : Records κ α) :
    hom (total quantity records) = total (fun value => hom (quantity value)) records := by
  unfold total
  rw [map_list_sum, List.map_map]
  rfl

variable [PartialOrder M] [IsOrderedAddMonoid M]

theorem total_le_total {first second : α → M} {records : Records κ α}
    (below : ∀ value, Holds records value → first value ≤ second value) :
    total first records ≤ total second records := by
  unfold total
  exact List.sum_le_sum fun entry member => below entry.2 (.of_mem member)

/-- A total of quantities that are not negative is not negative. -/
theorem total_nonneg {quantity : α → M} {records : Records κ α}
    (nonneg : ∀ value, Holds records value → 0 ≤ quantity value) : 0 ≤ total quantity records := by
  have below : total (fun _ => (0 : M)) records ≤ total quantity records := total_le_total nonneg
  refine le_trans (le_of_eq ?_) below
  unfold total
  simp only [List.map_const', List.sum_replicate, nsmul_zero]

/-- One record's part is at most the total of a nonnegative quantity. -/
theorem le_total (quantity : α → M) {records : Records κ α}
    (nonneg : ∀ value, Holds records value → 0 ≤ quantity value) {key : κ} {value : α}
    (found : records.lookup key = some value) : quantity value ≤ total quantity records := by
  rw [total_erase quantity found]
  exact le_add_of_nonneg_right (total_nonneg fun other held => nonneg other held.of_erase)

end Totals
end Ledger
