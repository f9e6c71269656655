import Whirlpools.Foundation.History
import Whirlpools.Sdk.PositionBundleUtil

/-! # Bundles over runs of attempts

The bitmap of a bundle records, over any run of attempts, which positions were opened and not closed
since, and the SDK reads exactly these from it.
-/

namespace Whirlpools

/-- An attempt on the position of a bundle index. -/
inductive BundleAttempt where
  | openBundledPosition (bundleIndex : ℕ)
  | closeBundledPosition (bundleIndex : ℕ)
  deriving DecidableEq

namespace BundleAttempt

def bundleIndex : BundleAttempt → ℕ
  | .openBundledPosition bundleIndex => bundleIndex
  | .closeBundledPosition bundleIndex => bundleIndex

/-- Whether the attempt asks for the position to be open. -/
def opening : BundleAttempt → Bool
  | .openBundledPosition _ => true
  | .closeBundledPosition _ => false

def run (bundle : PositionBundle) : BundleAttempt → PositionBundle × Result Unit
  | .openBundledPosition bundleIndex => bundle.openBundledPosition bundleIndex
  | .closeBundledPosition bundleIndex => bundle.closeBundledPosition bundleIndex

/-- The bundle as an attempt leaves it. -/
def leave (bundle : PositionBundle) (attempt : BundleAttempt) : PositionBundle :=
  (attempt.run bundle).1

def Succeeds (bundle : PositionBundle) (attempt : BundleAttempt) : Prop :=
  (attempt.run bundle).2 = .ok ()

def Fails (bundle : PositionBundle) (attempt : BundleAttempt) : Prop :=
  ∃ failure, (attempt.run bundle).2 = .error failure

/-- An attempt runs the program's update of the bitmap. -/
theorem run_eq (bundle : PositionBundle) (attempt : BundleAttempt) :
    attempt.run bundle = bundle.updateBitmap attempt.bundleIndex attempt.opening := by
  cases attempt with
  | openBundledPosition bundleIndex => rfl
  | closeBundledPosition bundleIndex => rfl

/-- An attempt does not both fail and succeed. -/
theorem not_succeeds_of_fails {bundle : PositionBundle} {attempt : BundleAttempt}
    (fails : attempt.Fails bundle) : ¬ attempt.Succeeds bundle := by
  obtain ⟨failure, failed⟩ := fails
  intro succeeds
  exact nomatch succeeds.symm.trans failed

/-- An attempt fails exactly on an invalid index and on one that is as requested already, and then
changes nothing. -/
theorem fails_iff (bundle : PositionBundle) (attempt : BundleAttempt) :
    (attempt.Fails bundle ↔ positionBundleSize ≤ attempt.bundleIndex ∨
      bundle.isOpen attempt.bundleIndex = attempt.opening) ∧
    (attempt.Fails bundle → leave bundle attempt = bundle) := by
  unfold Fails leave
  rw [run_eq]
  rcases bundle.updateBitmap_spec attempt.bundleIndex attempt.opening with
    ⟨small, differs, succeeds, -⟩ | ⟨refused, fails, unchanged⟩
  · have never : ¬ ∃ failure, (bundle.updateBitmap attempt.bundleIndex attempt.opening).2 =
        .error failure := by
      rintro ⟨failure, failed⟩
      exact nomatch succeeds.symm.trans failed
    refine ⟨iff_of_false never ?_, fun fails => absurd fails never⟩
    rintro (large | same)
    · exact absurd small (not_lt.mpr large)
    · exact differs same
  · exact ⟨iff_of_true fails refused, fun _ => unchanged⟩

/-- What one attempt makes of an index. -/
theorem isOpen_leave (bundle : PositionBundle) (attempt : BundleAttempt) (index : ℕ) :
    (leave bundle attempt).isOpen index = true ↔
      (attempt = .openBundledPosition index ∧ attempt.Succeeds bundle) ∨
        bundle.isOpen index = true ∧
          ¬ (attempt = .closeBundledPosition index ∧ attempt.Succeeds bundle) := by
  rcases bundle.updateBitmap_spec attempt.bundleIndex attempt.opening with
    ⟨-, -, succeeds, bits⟩ | ⟨-, fails, unchanged⟩
  · have done : attempt.Succeeds bundle :=
      (congrArg Prod.snd (run_eq bundle attempt)).trans succeeds
    have bit : (leave bundle attempt).isOpen index =
        if index = attempt.bundleIndex then attempt.opening else bundle.isOpen index := by
      unfold leave
      rw [run_eq]
      exact bits index
    rw [bit]
    cases attempt with
    | openBundledPosition requested =>
        by_cases same : index = requested
        · simp [bundleIndex, opening, same, done]
        · simp [bundleIndex, same, Ne.symm same]
    | closeBundledPosition requested =>
        by_cases same : index = requested
        · simp [bundleIndex, opening, same, done]
        · simp [bundleIndex, same, Ne.symm same]
  · have failed : attempt.Fails bundle := by
      unfold Fails
      rwa [run_eq]
    rw [(fails_iff bundle attempt).2 failed]
    simp only [not_succeeds_of_fails failed, and_false, false_or, not_false_eq_true, and_true]

end BundleAttempt

open BundleAttempt

section Attempts

variable (positionBundleMint : Pubkey) (attempts : List BundleAttempt)

/-- A new bundle after a list of attempts. -/
def bundleAfter : PositionBundle :=
  History.after leave (.initializePositionBundle positionBundleMint) attempts

/-- An index was successfully opened and not successfully closed since. -/
def OpenedSince (index : ℕ) : Prop :=
  History.Since leave (.initializePositionBundle positionBundleMint)
    (fun bundle attempt => attempt = .openBundledPosition index ∧ attempt.Succeeds bundle)
    (fun bundle attempt => attempt = .closeBundledPosition index ∧ attempt.Succeeds bundle)
    attempts

end Attempts

/-- The bit of an index is set exactly when it was opened and not closed since. -/
theorem isOpen_bundleAfter (positionBundleMint : Pubkey) (attempts : List BundleAttempt)
    (index : ℕ) : (bundleAfter positionBundleMint attempts).isOpen index = true ↔
      OpenedSince positionBundleMint attempts index := by
  refine History.holds_iff_since (fun bundle => bundle.isOpen index = true) ?_
    (fun bundle attempt => isOpen_leave bundle attempt index) attempts
  rw [Bool.not_eq_true]
  unfold PositionBundle.isOpen PackedBits.bit
  split_ifs
  · exact BitVec.getLsbD_zero
  · rfl

/-- A bitmap that records the positions opened and not closed since, in the program and as the SDK
reads it. -/
structure RecordsOpened (bundle : PositionBundle) (opened : ℕ → Prop) : Prop where
  bits : ∀ index < 256, bundle.isOpen index = true ↔ opened index
  openFails : ∀ index, Fails bundle (.openBundledPosition index) ↔ 256 ≤ index ∨ opened index
  closeFails : ∀ index, Fails bundle (.closeBundledPosition index) ↔ 256 ≤ index ∨ ¬ opened index
  unchanged : ∀ attempt, attempt.Fails bundle → leave bundle attempt = bundle
  isDeletable : bundle.isDeletable = true ↔ ∀ index, ¬ opened index
  convertBitmapToArray : ∀ index, opened index ↔
    (Sdk.PositionBundleUtil.convertBitmapToArray bundle)[index]? = some true
  arrayLength : (Sdk.PositionBundleUtil.convertBitmapToArray bundle).length = 256
  occupied : ∀ index, index ∈ Sdk.PositionBundleUtil.getOccupiedBundleIndexes bundle ↔ opened index
  unoccupied : ∀ index, index ∈ Sdk.PositionBundleUtil.getUnoccupiedBundleIndexes bundle ↔
    index < 256 ∧ ¬ opened index
  ascending : (Sdk.PositionBundleUtil.getOccupiedBundleIndexes bundle).Pairwise (· < ·) ∧
    (Sdk.PositionBundleUtil.getUnoccupiedBundleIndexes bundle).Pairwise (· < ·)

/-- After any attempts, the bitmap records the positions opened and not closed since. -/
theorem bundleAfter_records (positionBundleMint : Pubkey) (attempts : List BundleAttempt) :
    RecordsOpened (bundleAfter positionBundleMint attempts)
      (OpenedSince positionBundleMint attempts) := by
  have bits := isOpen_bundleAfter positionBundleMint attempts
  generalize bundleAfter positionBundleMint attempts = bundle at bits ⊢
  generalize OpenedSince positionBundleMint attempts = opened at bits ⊢
  have size : positionBundleSize = 256 := rfl
  have closed (index : ℕ) : bundle.isOpen index = false ↔ ¬ opened index := by
    rw [← bits, Bool.not_eq_true]
  have inside {index : ℕ} (isOpened : opened index) : index < 256 := by
    by_contra large
    have isSet := (bits index).mpr isOpened
    unfold PositionBundle.isOpen PackedBits.bit at isSet
    rw [dif_neg (by unfold positionBitmapUsize; omega)] at isSet
    exact absurd isSet (by decide)
  have array := Sdk.PositionBundleUtil.convertBitmapToArray_eq bundle
  have indexes (wanted : Bool) : Sdk.PositionBundleUtil.indexesOf
      (Sdk.PositionBundleUtil.convertBitmapToArray bundle) wanted =
      (List.range 256).filter fun index => bundle.isOpen index = wanted := by
    rw [array, Sdk.PositionBundleUtil.indexesOf_map_range, size]
  refine {
    bits := fun index _ => bits index
    openFails := fun index => ?_
    closeFails := fun index => ?_
    unchanged := fun attempt => (fails_iff bundle attempt).2
    isDeletable := ?_
    convertBitmapToArray := fun index => ?_
    arrayLength := by rw [array, List.length_map, List.length_range, size]
    occupied := fun index => ?_
    unoccupied := fun index => ?_
    ascending := ?_ }
  · rw [(fails_iff bundle _).1, ← bits]
    rfl
  · rw [(fails_iff bundle _).1, ← closed]
    rfl
  · rw [bundle.isDeletable_iff]
    refine ⟨fun clear index isOpened => ?_, fun absent index _ => (closed index).mpr (absent index)⟩
    exact (closed index).mp (clear index (inside isOpened)) isOpened
  · rw [array, List.getElem?_map, ← bits, Option.map_eq_some_iff]
    constructor
    · intro isSet
      exact ⟨index, List.getElem?_range (inside ((bits index).mp isSet)), isSet⟩
    · rintro ⟨found, atIndex, isSet⟩
      obtain ⟨inRange, rfl⟩ := List.getElem?_eq_some_iff.mp atIndex
      rwa [List.getElem_range] at isSet
  · unfold Sdk.PositionBundleUtil.getOccupiedBundleIndexes
    rw [indexes, List.mem_filter, List.mem_range, decide_eq_true_eq, bits]
    exact and_iff_right_of_imp inside
  · unfold Sdk.PositionBundleUtil.getUnoccupiedBundleIndexes
    rw [indexes, List.mem_filter, List.mem_range, decide_eq_true_eq, closed]
  · unfold Sdk.PositionBundleUtil.getOccupiedBundleIndexes
      Sdk.PositionBundleUtil.getUnoccupiedBundleIndexes
    rw [indexes, indexes]
    exact ⟨List.pairwise_lt_range.filter _, List.pairwise_lt_range.filter _⟩

end Whirlpools
