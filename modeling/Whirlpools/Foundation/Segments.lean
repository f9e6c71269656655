import Mathlib.Data.List.Basic
import Mathlib.Tactic.Common

/-! # Consecutive segments of a list

Announced lengths cut a list into consecutive segments, each kept under its label. Cutting the
concatenation of lists by their lengths gives the lists back.
-/

namespace Segments

variable {κ α : Type}

/-- The sum of the announced lengths. -/
def total : List (κ × ℕ) → ℕ
  | [] => 0
  | (_, length) :: announced => length + total announced

/-- Cut a list into segments of the announced lengths. -/
def cut : List (κ × ℕ) → List α → List (κ × List α)
  | [], _ => []
  | (label, length) :: announced, items =>
      (label, items.take length) :: cut announced (items.drop length)

/-- The announcement of labelled lists. -/
def announce (lists : List (κ × List α)) : List (κ × ℕ) :=
  lists.map fun entry => (entry.1, entry.2.length)

theorem total_cons (label : κ) (length : ℕ) (announced : List (κ × ℕ)) :
    total ((label, length) :: announced) = length + total announced := rfl

/-- The segment under a label starts where the segments before it end. -/
theorem mem_cut {announced : List (κ × ℕ)} {items : List α} {label : κ} {segment : List α} :
    (label, segment) ∈ cut announced items ↔
      ∃ earlier length later, announced = earlier ++ (label, length) :: later ∧
        segment = (items.drop (total earlier)).take length := by
  induction announced generalizing items with
  | nil =>
      refine iff_of_false List.not_mem_nil ?_
      rintro ⟨earlier, length, later, split, -⟩
      exact List.append_ne_nil_of_right_ne_nil _ (List.cons_ne_nil _ _) split.symm
  | cons first announced ih =>
      obtain ⟨firstLabel, firstLength⟩ := first
      unfold cut
      rw [List.mem_cons, ih]
      constructor
      · rintro (same | ⟨earlier, length, later, rfl, rfl⟩)
        · obtain ⟨rfl, rfl⟩ := Prod.mk.inj same
          exact ⟨[], firstLength, announced, rfl, rfl⟩
        · refine ⟨(firstLabel, firstLength) :: earlier, length, later, rfl, ?_⟩
          rw [total_cons, List.drop_drop]
      · rintro ⟨earlier, length, later, split, rfl⟩
        cases earlier with
        | nil =>
            obtain ⟨same, rfl⟩ := List.cons.inj split
            obtain ⟨rfl, rfl⟩ := Prod.mk.inj same
            exact .inl rfl
        | cons head earlier =>
            obtain ⟨rfl, rfl⟩ := List.cons.inj split
            refine .inr ⟨earlier, length, later, rfl, ?_⟩
            rw [total_cons, List.drop_drop]

/-- Cutting a concatenation by the lengths of its parts gives the parts back. -/
theorem cut_announce (lists : List (κ × List α)) :
    cut (announce lists) (lists.flatMap Prod.snd) = lists := by
  induction lists with
  | nil => rfl
  | cons first lists ih =>
      rw [List.flatMap_cons]
      unfold announce at ih ⊢
      rw [List.map_cons]
      unfold cut
      rw [List.take_left, List.drop_left, ih]

/-- As many items are announced as there are. -/
theorem total_announce (lists : List (κ × List α)) :
    total (announce lists) = (lists.flatMap Prod.snd).length := by
  induction lists with
  | nil => rfl
  | cons first lists ih =>
      unfold announce at ih ⊢
      rw [List.map_cons, total_cons, ih, List.flatMap_cons, List.length_append]

end Segments
