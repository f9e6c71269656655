import Mathlib.Analysis.Complex.ExponentialBounds
import Mathlib.Analysis.SpecialFunctions.Log.Basic
import Whirlpools.Sdk.Selection

/-! # The sample of a large window

With exact arithmetic in place of floating point, the bounds of the sample contain `k`, lie in the
window, and are closer to each other than those of the window.
-/

namespace Whirlpools.Sdk

/-- The spread of the sample around its expected place, to the side of the larger part. -/
noncomputable def sampleOffset (n i s : ℝ) : ℝ :=
  0.5 * Real.sqrt (Real.log n * s * (n - s) / n) * (if i - n / 2.0 < 0 then -1 else 1)

/-- The size of the sample of a window of a given size. -/
noncomputable def sampleSize (n : ℝ) : ℝ := 0.5 * Real.exp (2.0 * Real.log n / 3.0)

/-- The bounds of the sample, with exact arithmetic. -/
noncomputable def exactSampling : Sampling := fun k left right =>
  let n : ℝ := right - left + 1
  let i : ℝ := k - left + 1
  let s := sampleSize n
  let sd := sampleOffset n i s
  (max left ⌊k - i * s / n + sd⌋, min right ⌊k + (n - i) * s / n + sd⌋)

section Large

variable {n i : ℝ} (large : 602 ≤ n)
include large

theorem sampleSize_le : sampleSize n ≤ n / 2 := by
  have positive : 0 < n := by linarith
  have log : 0 ≤ Real.log n := Real.log_nonneg (by linarith)
  have grows : Real.exp (2.0 * Real.log n / 3.0) ≤ Real.exp (Real.log n) :=
    Real.exp_le_exp.mpr (by norm_num; linarith)
  rw [Real.exp_log positive] at grows
  unfold sampleSize
  linarith

/-- The sample is at least the logarithm of the window. -/
theorem log_le_sampleSize : Real.log n ≤ sampleSize n := by
  have six : (6 : ℝ) ≤ Real.log n := by
    rw [Real.le_log_iff_exp_le (by linarith)]
    have power : Real.exp 6 = Real.exp 1 ^ 6 := by
      rw [← Real.exp_nat_mul]
      norm_num
    have base : Real.exp 1 ^ 6 ≤ 2.72 ^ 6 :=
      pow_le_pow_left₀ (Real.exp_pos 1).le (by linarith [Real.exp_one_lt_d9]) 6
    rw [power]
    refine base.trans (le_trans ?_ large)
    norm_num
  have quadratic := Real.quadratic_le_exp_of_nonneg
    (by norm_num; linarith : 0 ≤ 2.0 * Real.log n / 3.0)
  unfold sampleSize
  nlinarith

/-- The spread is at most half of the sample. -/
theorem sqrt_le_sampleSize :
    Real.sqrt (Real.log n * sampleSize n * (n - sampleSize n) / n) ≤ sampleSize n := by
  have size := sampleSize_le large
  have log := log_le_sampleSize large
  have positive : 0 < sampleSize n := mul_pos (by norm_num) (Real.exp_pos _)
  have logNonneg : 0 ≤ Real.log n := Real.log_nonneg (by linarith)
  rw [Real.sqrt_le_left positive.le, div_le_iff₀ (by linarith), sq]
  have product : Real.log n * sampleSize n ≤ sampleSize n * sampleSize n :=
    mul_le_mul_of_nonneg_right log positive.le
  exact mul_le_mul product (by linarith) (by linarith) (mul_nonneg positive.le positive.le)

end Large

/-- The place of the sample reaches `k` from both sides. -/
theorem sample_reaches {n i k : ℝ} (large : 602 ≤ n) (first : 1 ≤ i) (last : i ≤ n) :
    k - i * sampleSize n / n + sampleOffset n i (sampleSize n) ≤ k ∧
      k ≤ k + (n - i) * sampleSize n / n + sampleOffset n i (sampleSize n) := by
  have spread := sqrt_le_sampleSize large
  have size : 0 < sampleSize n := mul_pos (by norm_num) (Real.exp_pos _)
  have total : i * sampleSize n / n + (n - i) * sampleSize n / n = sampleSize n := by
    field_simp
    ring
  have before : 0 ≤ i * sampleSize n / n := by positivity
  have after : 0 ≤ (n - i) * sampleSize n / n :=
    div_nonneg (mul_nonneg (by linarith) size.le) (by linarith)
  have root := Real.sqrt_nonneg (Real.log n * sampleSize n * (n - sampleSize n) / n)
  unfold sampleOffset
  split_ifs with smaller
  · have most : i * sampleSize n / n ≤ sampleSize n / 2 := by
      rw [div_le_iff₀ (by linarith)]
      nlinarith
    constructor <;> linarith
  · have most : (n - i) * sampleSize n / n ≤ sampleSize n / 2 := by
      rw [div_le_iff₀ (by linarith)]
      nlinarith
    constructor <;> linarith

section Window

variable {k left right : ℤ} (above : left ≤ k) (below : k ≤ right)
  (wide : recursionBreakpoint < right - left)
include above below wide

/-- The sample of the exact formula holds the wanted place and stays inside the window. -/
theorem exactSampling_reaches :
    (left ≤ (exactSampling k left right).1 ∧ (exactSampling k left right).1 ≤ k) ∧
      k ≤ (exactSampling k left right).2 ∧ (exactSampling k left right).2 ≤ right := by
  unfold recursionBreakpoint at wide
  have large : (602 : ℝ) ≤ (right : ℝ) - left + 1 := by
    have bound : (602 : ℤ) ≤ right - left + 1 := by omega
    exact_mod_cast bound
  have first : (1 : ℝ) ≤ (k : ℝ) - left + 1 := by
    have bound : (1 : ℤ) ≤ k - left + 1 := by omega
    exact_mod_cast bound
  have last : (k : ℝ) - left + 1 ≤ (right : ℝ) - left + 1 := by
    have bound : k - left + 1 ≤ right - left + 1 := by omega
    exact_mod_cast bound
  obtain ⟨low, high⟩ := @sample_reaches _ _ (k : ℝ) large first last
  refine ⟨⟨le_max_left _ _, max_le above ?_⟩, le_min below ?_, min_le_left _ _⟩
  · exact_mod_cast (Int.floor_le _).trans low
  · exact Int.le_floor.mpr high

omit above below in
/-- The bounds are at most one more than the size of the sample apart. -/
theorem exactSampling_narrower :
    (exactSampling k left right).2 - (exactSampling k left right).1 < right - left := by
  unfold recursionBreakpoint at wide
  have large : (602 : ℝ) ≤ (right : ℝ) - left + 1 := by
    have bound : (602 : ℤ) ≤ right - left + 1 := by omega
    exact_mod_cast bound
  have size := sampleSize_le large
  change min right ⌊_⌋ - max left ⌊_⌋ < right - left
  refine lt_of_le_of_lt (sub_le_sub (min_le_right _ _) (le_max_right _ _)) ?_
  generalize sampleOffset _ _ _ = sd
  set n : ℝ := (right : ℝ) - left + 1 with nDef
  set i : ℝ := (k : ℝ) - left + 1
  have apart : k + (n - i) * sampleSize n / n + sd - (k - i * sampleSize n / n + sd) =
      sampleSize n := by
    field_simp
    ring
  have upper := Int.floor_le ((k : ℝ) + (n - i) * sampleSize n / n + sd)
  have lower := Int.sub_one_lt_floor ((k : ℝ) - i * sampleSize n / n + sd)
  have less : ((⌊(k : ℝ) + (n - i) * sampleSize n / n + sd⌋ -
      ⌊(k : ℝ) - i * sampleSize n / n + sd⌋ : ℤ) : ℝ) < (right - left : ℤ) := by
    push_cast
    linarith
  exact_mod_cast less

end Window

theorem exactSampling_inside : SamplesInside exactSampling :=
  fun _ _ _ above below wide => exactSampling_reaches above below wide

theorem exactSampling_narrows : SamplesNarrower exactSampling :=
  fun _ _ _ _ _ wide => exactSampling_narrower wide

section Selects

variable {T : Type} {n : ℕ} {compare : T → T → ℤ}

/-- The selection on the whole array returns, whatever the fuel beyond some amount; the array is
permuted, with its smaller items before `k`. -/
def Selects (sampling : Sampling) (compare : T → T → ℤ) (array : Vector T n) (k : ℤ) : Prop :=
  ∃ enough, ∀ fuel ≥ enough, ∃ result,
    kSmallestPartition sampling compare fuel array k 0 (n - 1) = .ok result ∧
      result.toList.Perm array.toList ∧
      ∀ p q : Fin n, (p : ℤ) < k → k ≤ q → compare (result.get p) (result.get q) ≤ 0

theorem Rearranged.toList_perm {left right : ℤ} {first second : Vector T n}
    (rearranged : Rearranged left right first.get second.get) :
    second.toList.Perm first.toList := by
  obtain ⟨order, items, -⟩ := rearranged
  have listed (array : Vector T n) : array.toList = List.ofFn array.get := by
    rw [← Vector.toList_ofFn]
    congr 1
    exact (Vector.ofFn_getElem).symm
  rw [listed, listed, items]
  exact order.ofFn_comp_perm _

/-- The selection succeeds under every sampling that stays inside and narrows, given enough fuel. -/
theorem selects_of_samples (preorder : ComparesPreorder compare) {sampling : Sampling}
    (inside : SamplesInside sampling) (narrower : SamplesNarrower sampling) (array : Vector T n)
    {k : ℤ} (selected : 0 ≤ k ∧ k < n) : Selects sampling compare array k := by
  refine ⟨n, fun fuel enough => ?_⟩
  obtain ⟨result, returned, rearranged, split⟩ := @kSmallestPartition_ok T n compare 0 (n - 1)
    array preorder sampling inside narrower k fuel le_rfl (by omega) (by omega) (fun _ => by omega)
  exact ⟨result, returned, Rearranged.toList_perm rearranged, fun p q before after =>
    split p q (by omega) before after (by omega)⟩

end Selects

/-- The difference orders the integers. -/
theorem comparesPreorder_sub : ComparesPreorder (fun a b : ℤ => a - b) :=
  ⟨fun a b => by omega, fun a b c => by omega⟩

/-- Sampling that takes the window itself recurs for ever. -/
theorem kSmallestPartition_whole {T : Type} {n : ℕ} {compare : T → T → ℤ} {array : Vector T n}
    {k left right : ℤ} (large : recursionBreakpoint < right - left) (fuel : ℕ) :
    kSmallestPartition (fun _ left right => (left, right)) compare fuel array k left right =
      .error .outOfFuel := by
  have wide : right > left := by
    unfold recursionBreakpoint at large
    omega
  induction fuel with
  | zero => exact if_pos wide
  | succ fuel ih =>
      rw [kSmallestPartition, if_pos wide, if_pos large, ih]
      rfl

/-- The selection is correct for every sample of large windows that contains `k` and is narrower
than the window, such as the one of the formula in exact arithmetic. -/
theorem kSmallestPartition_selects {T : Type} {n : ℕ} {compare : T → T → ℤ}
    (preorder : ComparesPreorder compare) (array : Vector T n) (k : ℤ)
    (selected : 0 ≤ k ∧ k < n) :
    (∀ sampling, SamplesInside sampling → SamplesNarrower sampling →
      Selects sampling compare array k) ∧ Selects exactSampling compare array k :=
  ⟨fun _ inside narrower => selects_of_samples preorder inside narrower array selected,
    selects_of_samples preorder exactSampling_inside exactSampling_narrows array selected⟩

/-- The two smallest of five items are selected. -/
theorem kSmallestPartition_selects_five :
    Selects (fun k _ _ => (k, k)) (fun a b : ℤ => a - b) #v[5, 3, 9, 1, 4] 2 :=
  (kSmallestPartition_selects comparesPreorder_sub #v[5, 3, 9, 1, 4] 2 (by decide)).1 _
    (fun k left right above below _ => ⟨⟨above, le_rfl⟩, le_rfl, below⟩)
    (fun k left right _ _ wide => by unfold recursionBreakpoint at wide; dsimp only; omega)

/-- With the window itself as the sample, the selection among 602 items does not return. -/
theorem not_selects_whole :
    ¬ ∀ sampling, SamplesInside sampling →
      Selects sampling (fun a b : ℤ => a - b) (Vector.replicate 602 (0 : ℤ)) 0 := by
  intro every
  obtain ⟨enough, returns⟩ := every (fun _ left right => (left, right))
    (fun k left right above below _ => ⟨⟨le_rfl, above⟩, below, le_rfl⟩)
  obtain ⟨result, returned, -⟩ := returns enough le_rfl
  rw [kSmallestPartition_whole (by decide)] at returned
  exact nomatch returned

end Whirlpools.Sdk
