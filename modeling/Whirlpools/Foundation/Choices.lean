import Mathlib.Data.List.Sublists
import Mathlib.Tactic.Common

/-! # Choosing items in order

A selection from a list is empty, or an item followed by a selection from the items after it. A
search that chooses items this way meets every selection once.
-/

namespace Choices

variable {α β : Type}

/-- Each item, with the items after it. -/
def choices : List α → List (α × List α)
  | [] => []
  | item :: later => (item, later) :: choices later

/-- A choice is an item with all that comes after it. -/
theorem mem_choices {items later : List α} {item : α} :
    (item, later) ∈ choices items ↔ ∃ earlier, items = earlier ++ item :: later := by
  induction items with
  | nil =>
      refine iff_of_false List.not_mem_nil ?_
      rintro ⟨earlier, split⟩
      exact List.append_ne_nil_of_right_ne_nil _ (List.cons_ne_nil _ _) split.symm
  | cons first items ih =>
      rw [choices, List.mem_cons, ih]
      constructor
      · rintro (same | ⟨earlier, rfl⟩)
        · obtain ⟨rfl, rfl⟩ := Prod.mk.inj same
          exact ⟨[], rfl⟩
        · exact ⟨first :: earlier, rfl⟩
      · rintro ⟨earlier, split⟩
        cases earlier with
        | nil =>
            obtain ⟨rfl, rfl⟩ := List.cons.inj split
            exact .inl rfl
        | cons _ earlier => exact .inr ⟨earlier, (List.cons.inj split).2⟩

/-- The choices of a joined list are those of the first part, with the second one left over, and
those of the second part. -/
theorem choices_append (first second : List α) :
    choices (first ++ second) =
      ((choices first).map fun choice => (choice.1, choice.2 ++ second)) ++ choices second := by
  induction first with
  | nil => rfl
  | cons item first ih =>
      rw [List.cons_append, choices, choices, ih]
      rfl

/-- The items of consecutive groups are chosen group by group. -/
theorem choices_flatMap (keys : List β) (group : β → List α) :
    choices (keys.flatMap group) = (choices keys).flatMap fun key =>
      (choices (group key.1)).map fun choice => (choice.1, choice.2 ++ key.2.flatMap group) := by
  induction keys with
  | nil => rfl
  | cons key keys ih => rw [List.flatMap_cons, choices_append, ih, choices, List.flatMap_cons]

/-- The selections of a list, by their first item. -/
theorem sublists_perm (items : List α) :
    items.sublists.Perm ([] :: (choices items).flatMap fun choice =>
      choice.2.sublists.map (choice.1 :: ·)) := by
  induction items with
  | nil => exact List.Perm.refl _
  | cons item items ih =>
      refine (List.sublists_cons_perm_append item items).trans ?_
      refine (List.perm_append_comm.trans (ih.append_left _)).trans ?_
      rw [choices, List.flatMap_cons]
      exact List.perm_middle

/-- The accepted selections, if the empty one is not accepted. -/
theorem filter_sublists_perm {accept : List α → Bool} (rejected : accept [] = false)
    (items : List α) :
    (items.sublists.filter accept).Perm ((choices items).flatMap fun choice =>
      (choice.2.sublists.filter fun selection => accept (choice.1 :: selection)).map
        (choice.1 :: ·)) := by
  refine ((sublists_perm items).filter accept).trans ?_
  rw [List.filter_cons_of_neg (ne_true_of_eq_false rejected), List.filter_flatMap]
  refine List.Perm.of_eq (congrArg (List.flatMap · _) (funext fun choice => ?_))
  rw [List.filter_map]
  rfl

theorem flatMap_choices (items : List α) (f : α → List β) :
    ((choices items).flatMap fun choice => f choice.1) = items.flatMap f := by
  induction items with
  | nil => rfl
  | cons item items ih => rw [choices, List.flatMap_cons, List.flatMap_cons, ih]

/-- Selections without repetitions are determined by their items. -/
theorem eq_of_perm {items first second : List α} (once : items.Nodup)
    (fromFirst : first.Sublist items) (fromSecond : second.Sublist items)
    (same : first.Perm second) : first = second := by
  induction items generalizing first second with
  | nil => rw [List.sublist_nil.mp fromFirst, List.sublist_nil.mp fromSecond]
  | cons item items ih =>
      obtain ⟨new, once⟩ := List.nodup_cons.mp once
      rcases List.sublist_cons_iff.mp fromFirst with skipped | ⟨rest, rfl, kept⟩ <;>
        rcases List.sublist_cons_iff.mp fromSecond with skipped' | ⟨rest', rfl, kept'⟩
      · exact ih once skipped skipped' same
      · exact absurd (skipped.subset (same.mem_iff.mpr List.mem_cons_self)) new
      · exact absurd (skipped'.subset (same.mem_iff.mp List.mem_cons_self)) new
      · rw [ih once kept kept' (List.perm_cons item |>.mp same)]

section Extensions

variable (valid : List α → Prop) [DecidablePred valid]

/-- The valid selections that begin with the items taken, all others coming from a list. -/
def extensions (taken items : List α) : List (List α) :=
  (items.sublists.filter fun selection => decide (valid (taken ++ selection))).map (taken ++ ·)

variable {valid} {taken items : List α}

/-- The extensions of nothing are the selections that are valid. -/
theorem extensions_nil : extensions valid [] items =
    items.sublists.filter fun selection => decide (valid selection) := List.map_id _

/-- If the items taken are not enough, one more is chosen. -/
theorem extensions_perm (incomplete : ¬ valid taken) :
    (extensions valid taken items).Perm ((choices items).flatMap fun choice =>
      extensions valid (taken ++ [choice.1]) choice.2) := by
  have rejected : decide (valid (taken ++ [])) = false := by
    rw [List.append_nil]
    exact decide_eq_false incomplete
  refine ((filter_sublists_perm rejected items).map (taken ++ ·)).trans ?_
  rw [List.map_flatMap]
  refine List.Perm.of_eq (congrArg (List.flatMap · _) (funext fun choice => ?_))
  unfold extensions
  rw [List.map_map]
  simp only [List.append_assoc, List.singleton_append]
  rfl

/-- Nothing is left to find if no extension is valid. -/
theorem extensions_hopeless (hopeless : ∀ selection, ¬ valid (taken ++ selection)) :
    extensions valid taken items = [] := by
  unfold extensions
  rw [List.filter_eq_nil_iff.mpr fun selection _ => by
    rw [decide_eq_true_iff]
    exact hopeless selection]
  rfl

/-- A selection that cannot be extended is found alone. -/
theorem extensions_complete (complete : valid taken)
    (final : ∀ item selection, ¬ valid (taken ++ item :: selection)) :
    (extensions valid taken items).Perm [taken] := by
  unfold extensions
  refine (((sublists_perm items).filter _).map _).trans ?_
  rw [List.filter_cons_of_pos, List.filter_eq_nil_iff.mpr]
  · rw [List.map_cons, List.append_nil]
    exact List.Perm.refl _
  · intro selection chosen
    obtain ⟨choice, -, inside⟩ := List.mem_flatMap.mp chosen
    obtain ⟨later, -, rfl⟩ := List.mem_map.mp inside
    rw [decide_eq_true_iff]
    exact final _ _
  · rw [List.append_nil]
    exact decide_eq_true complete

end Extensions

end Choices
