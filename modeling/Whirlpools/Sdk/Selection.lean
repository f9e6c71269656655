import Whirlpools.Foundation.Rearrangement
import Whirlpools.Sdk.KSmallestPartition

/-! # The selection is correct

The two pointers stop at items placed by earlier exchanges, so they stay in the window. A partition
rearranges the window around an item at its place, and the windows that follow leave the items
outside of them alone.
-/

namespace Whirlpools.Sdk

open Outcome

variable {T : Type} {n : ℕ} {compare : T → T → ℤ} {left right : ℤ}
  {array start : Vector T n} {t : T}

section Access

variable (lower : 0 ≤ left) (upper : right < n)
include lower upper

/-- An index in the window is a place of the array. -/
theorem placeInWindow_ok {index : ℤ} (above : left ≤ index) (below : index ≤ right) :
    ∃ place : Fin n, (place : ℤ) = index ∧ placeInWindow n left right index = .ok place := by
  have inside : left ≤ index ∧ index ≤ right ∧ 0 ≤ index ∧ index.toNat < n := by omega
  refine ⟨⟨index.toNat, inside.2.2.2⟩, ?_, dif_pos inside⟩
  exact Int.toNat_of_nonneg inside.2.2.1

theorem itemAt_ok {index : ℤ} (above : left ≤ index) (below : index ≤ right) :
    ∃ place : Fin n, (place : ℤ) = index ∧ itemAt left right array index =
      .ok (array.get place) := by
  obtain ⟨place, located, found⟩ := placeInWindow_ok lower upper above below
  exact ⟨place, located, by rw [itemAt, found, ok_bind]⟩

/-- Items at two such indexes can be swapped, which rearranges the window alone. -/
theorem swapAt_ok {i j : ℤ} (first : left ≤ i ∧ i ≤ right) (second : left ≤ j ∧ j ≤ right) :
    ∃ (p q : Fin n) (swapped : Vector T n), (p : ℤ) = i ∧ (q : ℤ) = j ∧
      swapAt left right array i j = .ok swapped ∧ swapped.get = array.get ∘ Equiv.swap p q ∧
      Rearranged left right array.get swapped.get := by
  obtain ⟨p, located, found⟩ := placeInWindow_ok lower upper first.1 first.2
  obtain ⟨q, located', found'⟩ := placeInWindow_ok lower upper second.1 second.2
  refine ⟨p, q, swap array p q, located, located', ?_, get_swap array p q, ?_⟩
  · rw [swapAt, found, ok_bind, found', ok_bind]
  · rw [get_swap]
    exact Rearranged.swap _ (by omega) (by omega)

/-- Moving up stops at the first item that is not smaller, at the latest at a sentinel. -/
theorem scanUp_ok {i sentinel : ℤ} (above : left ≤ i) (before : i ≤ sentinel)
    (below : sentinel ≤ right)
    (stops : ∀ p : Fin n, (p : ℤ) = sentinel → 0 ≤ compare (array.get p) t) :
    ∃ i', scanUp compare left right array t i = .ok i' ∧ (i ≤ i' ∧ i' ≤ sentinel) ∧
      (∀ p : Fin n, i ≤ p → (p : ℤ) < i' → compare (array.get p) t < 0) ∧
      ∀ p : Fin n, (p : ℤ) = i' → 0 ≤ compare (array.get p) t := by
  refine repeatStep_returns (fun x => (i ≤ x ∧ x ≤ sentinel) ∧
      ∀ p : Fin n, i ≤ p → (p : ℤ) < x → compare (array.get p) t < 0) _
    (fun x => (sentinel - x).toNat) ?_ ?_ ⟨⟨le_rfl, before⟩, ?_⟩
  · rintro x ⟨⟨fromStart, toSentinel⟩, smaller⟩
    obtain ⟨place, located, read⟩ :=
      @itemAt_ok T n left right array lower upper x (by omega) (by omega)
    rw [read, ok_bind]
    by_cases less : compare (array.get place) t < 0
    · have short : x ≠ sentinel := by
        intro reached
        exact absurd less (not_lt.mpr (stops place (located.trans reached)))
      refine .inl ⟨x + 1, by rw [if_pos less], ⟨⟨by omega, by omega⟩, fun p first second => ?_⟩,
        by omega⟩
      by_cases last : (p : ℤ) = x
      · have same : p = place := Fin.ext (by omega)
        rwa [same]
      · exact smaller p first (by omega)
    · refine .inr ⟨x, by rw [if_neg less], ⟨fromStart, toSentinel⟩, smaller, fun p here => ?_⟩
      have same : p = place := Fin.ext (by omega)
      rw [same]
      exact not_lt.mp less
  · unfold windowSteps
    omega
  · intro p first second
    omega

/-- Moving down stops at the first item that is not larger, at the latest at a sentinel. -/
theorem scanDown_ok {j sentinel : ℤ} (above : left ≤ sentinel) (after : sentinel ≤ j)
    (below : j ≤ right)
    (stops : ∀ p : Fin n, (p : ℤ) = sentinel → compare (array.get p) t ≤ 0) :
    ∃ j', scanDown compare left right array t j = .ok j' ∧ (sentinel ≤ j' ∧ j' ≤ j) ∧
      (∀ p : Fin n, j' < p → (p : ℤ) ≤ j → 0 < compare (array.get p) t) ∧
      ∀ p : Fin n, (p : ℤ) = j' → compare (array.get p) t ≤ 0 := by
  refine repeatStep_returns (fun x => (sentinel ≤ x ∧ x ≤ j) ∧
      ∀ p : Fin n, x < p → (p : ℤ) ≤ j → 0 < compare (array.get p) t) _
    (fun x => (x - sentinel).toNat) ?_ ?_ ⟨⟨after, le_rfl⟩, ?_⟩
  · rintro x ⟨⟨toSentinel, fromStart⟩, larger⟩
    obtain ⟨place, located, read⟩ :=
      @itemAt_ok T n left right array lower upper x (by omega) (by omega)
    rw [read, ok_bind]
    by_cases more : compare (array.get place) t > 0
    · have short : x ≠ sentinel := by
        intro reached
        exact absurd more (not_lt.mpr (stops place (located.trans reached)))
      refine .inl ⟨x - 1, by rw [if_pos more], ⟨⟨by omega, by omega⟩, fun p first second => ?_⟩,
        by omega⟩
      by_cases last : (p : ℤ) = x
      · have same : p = place := Fin.ext (by omega)
        rwa [same]
      · exact larger p (by omega) second
    · refine .inr ⟨x, by rw [if_neg more], ⟨toSentinel, fromStart⟩, larger, fun p here => ?_⟩
      have same : p = place := Fin.ext (by omega)
      rw [same]
      exact not_lt.mp more
  · unfold windowSteps
    omega
  · intro p first second
    omega

end Access

/-- What holds at the head of the two-pointer loop: the items passed by the pointers are on their
sides, the items under the pointers are not, and an end of the window holds an item like `t`. -/
structure Partitioning (compare : T → T → ℤ) (left right : ℤ) (t : T) (start array : Vector T n)
    (i j : ℤ) : Prop where
  rearranged : Rearranged left right start.get array.get
  moved : (i = left ∧ j = right) ∨ (left < i ∧ j < right)
  inside : i ≤ right ∧ left ≤ j
  smaller : ∀ p : Fin n, left ≤ p → (p : ℤ) < i → compare (array.get p) t ≤ 0
  larger : ∀ p : Fin n, j < p → (p : ℤ) ≤ right → 0 ≤ compare (array.get p) t
  atFirst : ∀ p : Fin n, (p : ℤ) = i → 0 ≤ compare (array.get p) t
  atSecond : ∀ p : Fin n, (p : ℤ) = j → compare (array.get p) t ≤ 0
  ends : ∀ p q : Fin n, (p : ℤ) = left → (q : ℤ) = right →
    compare (array.get p) t = 0 ∨ compare (array.get q) t = 0

/-- The window is divided at `j`, with an item like `t` at an end of it. -/
structure Divided (compare : T → T → ℤ) (left right : ℤ) (t : T) (start array : Vector T n)
    (j : ℤ) : Prop where
  rearranged : Rearranged left right start.get array.get
  inside : left ≤ j ∧ j < right
  smaller : ∀ p : Fin n, left ≤ p → (p : ℤ) ≤ j → compare (array.get p) t ≤ 0
  larger : ∀ p : Fin n, j < p → (p : ℤ) ≤ right → 0 ≤ compare (array.get p) t
  ends : ∀ p q : Fin n, (p : ℤ) = left → (q : ℤ) = right →
    compare (array.get p) t = 0 ∨ compare (array.get q) t = 0

/-- The invariant before the loop, with an item like `t` at an end of the window. -/
theorem partitioning_start {p q : Fin n} (wide : left < right) (atLeft : (p : ℤ) = left)
    (atRight : (q : ℤ) = right) (rearranged : Rearranged left right start.get array.get)
    (first : 0 ≤ compare (array.get p) t) (last : compare (array.get q) t ≤ 0)
    (like : compare (array.get p) t = 0 ∨ compare (array.get q) t = 0) :
    Partitioning compare left right t start array left right := by
  refine ⟨rearranged, .inl ⟨rfl, rfl⟩, ⟨wide.le, wide.le⟩, fun r above below => by omega,
    fun r above below => by omega, fun r here => ?_, fun r here => ?_, fun r s here there => ?_⟩
  · rwa [Fin.ext (by omega : r.val = p.val)]
  · rwa [Fin.ext (by omega : r.val = q.val)]
  · rwa [Fin.ext (by omega : r.val = p.val), Fin.ext (by omega : s.val = q.val)]

/-- When the pointers meet, the window is divided. -/
theorem Partitioning.divided {i j : ℤ} (wide : left < right)
    (partitioning : Partitioning compare left right t start array i j) (met : ¬ i < j) :
    Divided compare left right t start array j := by
  have moved := partitioning.moved
  have inside := partitioning.inside
  refine ⟨partitioning.rearranged, by omega, fun p above below => ?_, partitioning.larger,
    partitioning.ends⟩
  by_cases here : (p : ℤ) = j
  · exact partitioning.atSecond p here
  · exact partitioning.smaller p above (by omega)

section Partition

variable (lower : 0 ≤ left) (upper : right < n)
include lower upper

/-- A round of the loop keeps the items on their sides and brings the pointers closer. -/
theorem partitionRound_ok {i j : ℤ}
    (partitioning : Partitioning compare left right t start array i j) (apart : i < j) :
    ∃ array' i' j', partitionRound compare left right t (array, i, j) =
        .ok (.inl (array', i', j')) ∧
      Partitioning compare left right t start array' i' j' ∧ (j' - i').toNat < (j - i).toNat := by
  obtain ⟨fromLeft, toRight⟩ : left ≤ i ∧ j ≤ right := by have := partitioning.moved; omega
  obtain ⟨p, q, swapped, atP, atQ, swaps, items, exchange⟩ :=
    @swapAt_ok T n left right array lower upper i j (by omega) (by omega)
  have itemP : swapped.get p = array.get q := by
    rw [items, Function.comp_apply, Equiv.swap_apply_left]
  have itemQ : swapped.get q = array.get p := by
    rw [items, Function.comp_apply, Equiv.swap_apply_right]
  have itemOther {r : Fin n} (notP : (r : ℤ) ≠ i) (notQ : (r : ℤ) ≠ j) :
      swapped.get r = array.get r := by
    rw [items, Function.comp_apply, Equiv.swap_apply_of_ne_of_ne]
    · rintro rfl
      exact notP atP
    · rintro rfl
      exact notQ atQ
  have leftOfP : compare (swapped.get p) t ≤ 0 := itemP ▸ partitioning.atSecond q atQ
  have rightOfQ : 0 ≤ compare (swapped.get q) t := itemQ ▸ partitioning.atFirst p atP
  obtain ⟨i', up, ⟨iAbove, iBelow⟩, below, atI⟩ :=
    @scanUp_ok T n compare left right swapped t lower upper (i + 1) j (by omega) (by omega) toRight
      (fun r here => by rwa [Fin.ext (by omega : r.val = q.val)])
  obtain ⟨j', down, ⟨jAbove, jBelow⟩, above, atJ⟩ :=
    @scanDown_ok T n compare left right swapped t lower upper (j - 1) i fromLeft (by omega)
      (by omega) (fun r here => by rwa [Fin.ext (by omega : r.val = p.val)])
  refine ⟨swapped, i', j', ?_, ⟨partitioning.rearranged.trans exchange, .inr ⟨by omega, by omega⟩,
    ⟨by omega, by omega⟩, fun r first second => ?_, fun r first second => ?_, atI, atJ,
    fun r s atLeft atRight => ?_⟩, by omega⟩
  · unfold partitionRound
    dsimp only
    rw [if_pos apart, swaps, ok_bind, up, ok_bind, down, ok_bind]
  · rcases lt_trichotomy (r : ℤ) i with before | here | after
    · rw [itemOther (by omega) (by omega)]
      exact partitioning.smaller r first before
    · rwa [Fin.ext (by omega : r.val = p.val)]
    · exact (below r (by omega) second).le
  · rcases lt_trichotomy (r : ℤ) j with before | here | after
    · exact (above r first (by omega)).le
    · rwa [Fin.ext (by omega : r.val = q.val)]
    · rw [itemOther (by omega) (by omega)]
      exact partitioning.larger r after second
  · have ends := partitioning.ends r s atLeft atRight
    rcases partitioning.moved with ⟨iLeft, jRight⟩ | ⟨iMoved, jMoved⟩
    · rw [Fin.ext (by omega : r.val = p.val), Fin.ext (by omega : s.val = q.val)] at ends ⊢
      rw [itemP, itemQ]
      exact ends.symm
    · rwa [itemOther (by omega) (by omega), itemOther (by omega) (by omega)]

/-- The item like `t` is placed where the window is divided. -/
theorem placePivot_ok {j : ℤ} (divided : Divided compare left right t start array j) :
    ∃ array' j', placePivot compare left right t array j = .ok (array', j') ∧
      Rearranged left right start.get array'.get ∧ (left ≤ j' ∧ j' ≤ right) ∧
      (∀ p : Fin n, left ≤ p → (p : ℤ) ≤ j' → compare (array'.get p) t ≤ 0) ∧
      ∀ p : Fin n, j' ≤ p → (p : ℤ) ≤ right → 0 ≤ compare (array'.get p) t := by
  obtain ⟨fromLeft, toRight⟩ := divided.inside
  obtain ⟨first, atFirst, read⟩ :=
    @itemAt_ok T n left right array lower upper left le_rfl (by omega)
  unfold placePivot
  rw [read, ok_bind]
  split_ifs with like
  · obtain ⟨p, q, swapped, atP, atQ, swaps, items, exchange⟩ :=
      @swapAt_ok T n left right array lower upper left j (by omega) (by omega)
    have itemQ : swapped.get q = array.get first := by
      rw [items, Function.comp_apply, Equiv.swap_apply_right,
        Fin.ext (by omega : p.val = first.val)]
    have front : Rearranged left j array.get swapped.get := by
      rw [items]
      exact Rearranged.swap _ (by omega) (by omega)
    refine ⟨swapped, j, by rw [swaps, ok_bind], divided.rearranged.trans exchange,
      ⟨fromLeft, toRight.le⟩, fun r above below =>
      front.forall_inside (compare · t ≤ 0) divided.smaller above below,
      fun r above below => ?_⟩
    by_cases here : (r : ℤ) = j
    · rw [Fin.ext (by omega : r.val = q.val), itemQ, like]
    · rw [front.outside (by omega)]
      exact divided.larger r (by omega) below
  · obtain ⟨p, q, swapped, atP, atQ, swaps, items, exchange⟩ :=
      @swapAt_ok T n left right array lower upper (j + 1) right (by omega) (by omega)
    have likeLast : compare (array.get q) t = 0 :=
      (divided.ends first q atFirst atQ).resolve_left like
    have itemP : swapped.get p = array.get q := by
      rw [items, Function.comp_apply, Equiv.swap_apply_left]
    have back : Rearranged (j + 1) right array.get swapped.get := by
      rw [items]
      exact Rearranged.swap _ (by omega) (by omega)
    refine ⟨swapped, j + 1, by rw [swaps, ok_bind], divided.rearranged.trans exchange,
      ⟨by omega, by omega⟩, fun r above below => ?_, fun r above below =>
      back.forall_inside (0 ≤ compare · t) (fun r above => divided.larger r (by omega)) above below⟩
    by_cases here : (r : ℤ) = j + 1
    · rw [Fin.ext (by omega : r.val = p.val), itemP, likeLast]
    · rw [back.outside (by omega)]
      exact divided.smaller r above (by omega)

/-- The two pointers meet, with the window divided. -/
theorem partitionLoop_ok (wide : left < right)
    (partitioning : Partitioning compare left right t start array left right) :
    ∃ parts, repeatStep (partitionRound compare left right t) .outOfFuel (windowSteps left right)
        (array, left, right) = .ok parts ∧
      Divided compare left right t start parts.1 parts.2 := by
  refine repeatStep_returns
    (fun state : Vector T n × ℤ × ℤ =>
      Partitioning compare left right t start state.1 state.2.1 state.2.2)
    (fun parts : Vector T n × ℤ => Divided compare left right t start parts.1 parts.2)
    (fun state => (state.2.2 - state.2.1).toNat) ?_ ?_ partitioning
  · rintro ⟨current, i, j⟩ holds
    by_cases apart : i < j
    · obtain ⟨next, i', j', round, kept, closer⟩ := partitionRound_ok lower upper holds apart
      exact .inl ⟨(next, i', j'), round, kept, closer⟩
    · exact .inr ⟨(current, j), if_neg apart, holds.divided wide apart⟩
  · change (right - left).toNat < (right - left).toNat + 2
    omega

/-- The window is partitioned around its item at `k`. -/
theorem partitionAround_ok (preorder : ComparesPreorder compare) {k : ℤ} (wide : left < right)
    (inside : left ≤ k ∧ k ≤ right) :
    ∃ array' j, partitionAround compare left right array k = .ok (array', j) ∧
      Rearranged left right array.get array'.get ∧ (left ≤ j ∧ j ≤ right) ∧
      ∀ p q : Fin n, left ≤ p → (p : ℤ) ≤ j → j ≤ q → (q : ℤ) ≤ right →
        compare (array'.get p) (array'.get q) ≤ 0 := by
  obtain ⟨at_k, atK, readK⟩ := @itemAt_ok T n left right array lower upper k inside.1 inside.2
  obtain ⟨p, p', first, atP, atP', swaps, items, exchange⟩ :=
    @swapAt_ok T n left right array lower upper left k (by omega) inside
  have pivot : compare (first.get p) (array.get at_k) = 0 := by
    rw [items, Function.comp_apply, Equiv.swap_apply_left, Fin.ext (by omega : p'.val = at_k.val)]
    exact preorder.self _
  obtain ⟨q, atQ, readLast⟩ :=
    @itemAt_ok T n left right first lower upper right (by omega) le_rfl
  generalize array.get at_k = t at readK pivot
  have prepared : ∃ second, (if compare (first.get q) t > 0 then swapAt left right first left right
      else .ok first) = .ok second ∧
      Partitioning compare left right t array second left right := by
    split_ifs with more
    · obtain ⟨r, s, second, atR, atS, swaps', items', exchange'⟩ :=
        @swapAt_ok T n left right first lower upper left right (by omega) (by omega)
      have itemP : second.get p = first.get q := by
        rw [items', Fin.ext (by omega : p.val = r.val), Fin.ext (by omega : q.val = s.val),
          Function.comp_apply, Equiv.swap_apply_left]
      have itemQ : second.get q = first.get p := by
        rw [items', Fin.ext (by omega : p.val = r.val), Fin.ext (by omega : q.val = s.val),
          Function.comp_apply, Equiv.swap_apply_right]
      refine ⟨second, swaps', partitioning_start wide atP atQ (exchange.trans exchange') ?_ ?_ ?_⟩
      · rw [itemP]
        exact more.le
      · rw [itemQ, pivot]
      · rw [itemQ]
        exact .inr pivot
    · exact ⟨first, rfl, partitioning_start wide atP atQ exchange pivot.ge (not_lt.mp more)
        (.inl pivot)⟩
  obtain ⟨second, prepares, partitioning⟩ := prepared
  obtain ⟨parts, looped, divided⟩ := partitionLoop_ok lower upper wide partitioning
  obtain ⟨array', j, placed, rearranged, bounds, smaller, larger⟩ :=
    placePivot_ok lower upper divided
  refine ⟨array', j, ?_, rearranged, bounds, fun p q pAbove pBelow qAbove qBelow => ?_⟩
  · unfold partitionAround
    rw [readK, ok_bind, swaps, ok_bind, readLast, ok_bind, prepares, ok_bind, looped, ok_bind,
      placed]
  · exact preorder.trans _ _ _ (smaller p pAbove pBelow)
      (preorder.nonneg_iff.mp (larger q qAbove qBelow))

end Partition

/-- The sample of a large window contains `k` and lies in the window. -/
def SamplesInside (sampling : Sampling) : Prop :=
  ∀ k left right, left ≤ k → k ≤ right → recursionBreakpoint < right - left →
    (left ≤ (sampling k left right).1 ∧ (sampling k left right).1 ≤ k) ∧
      k ≤ (sampling k left right).2 ∧ (sampling k left right).2 ≤ right

/-- The sample of a large window is narrower than the window. -/
def SamplesNarrower (sampling : Sampling) : Prop :=
  ∀ k left right, left ≤ k → k ≤ right → recursionBreakpoint < right - left →
    (sampling k left right).2 - (sampling k left right).1 < right - left

/-- The window holds its smaller items before `k`. -/
def SplitAt (compare : T → T → ℤ) (k left right : ℤ) (array : Vector T n) : Prop :=
  ∀ p q : Fin n, left ≤ p → (p : ℤ) < k → k ≤ q → (q : ℤ) ≤ right →
    compare (array.get p) (array.get q) ≤ 0

/-- Splitting the window on the side of `k` splits the window. -/
theorem SplitAt.of_partition {k j : ℤ} {result : Vector T n}
    (divides : ∀ p q : Fin n, left ≤ p → (p : ℤ) ≤ j → j ≤ q → (q : ℤ) ≤ right →
      compare (array.get p) (array.get q) ≤ 0)
    (rearranged : Rearranged (if j ≤ k then j + 1 else left) (if k ≤ j then j - 1 else right)
      array.get result.get)
    (split : SplitAt compare k (if j ≤ k then j + 1 else left) (if k ≤ j then j - 1 else right)
      result) : SplitAt compare k left right result := by
  intro p q pAbove pBelow qAbove qBelow
  rcases lt_trichotomy j k with before | rfl | after
  · rw [if_pos before.le, if_neg (not_le.mpr before)] at rearranged split
    by_cases passed : (p : ℤ) ≤ j
    · rw [rearranged.outside (by omega : ¬ (j + 1 ≤ (p : ℤ) ∧ (p : ℤ) ≤ right))]
      exact rearranged.forall_inside (compare (array.get p) · ≤ 0)
        (fun r above below => divides p r pAbove passed (by omega) below) (by omega) qBelow
    · exact split p q (by omega) pBelow qAbove qBelow
  · rw [if_pos le_rfl, if_pos le_rfl] at rearranged
    rw [rearranged.outside (by omega), rearranged.outside (by omega)]
    exact divides p q pAbove pBelow.le qAbove qBelow
  · rw [if_neg (not_le.mpr after), if_pos after.le] at rearranged split
    by_cases passed : j ≤ (q : ℤ)
    · rw [rearranged.outside (by omega : ¬ (left ≤ (q : ℤ) ∧ (q : ℤ) ≤ j - 1))]
      exact rearranged.forall_inside (compare · (array.get q) ≤ 0)
        (fun r above below => divides r q above (by omega) passed qBelow) pAbove (by omega)
    · exact split p q pAbove pBelow qAbove (by omega)

/-- The loop on a window returns, with the window rearranged and split at `k`. -/
theorem kSmallestPartition_ok (preorder : ComparesPreorder compare) {sampling : Sampling}
    (inside : SamplesInside sampling) (narrower : SamplesNarrower sampling) {k : ℤ} {fuel : ℕ}
    (lower : 0 ≤ left) (upper : right < n) (enough : right - left ≤ fuel)
    (selected : right > left → left ≤ k ∧ k ≤ right) :
    ∃ result, kSmallestPartition sampling compare fuel array k left right = .ok result ∧
      Rearranged left right array.get result.get ∧ SplitAt compare k left right result := by
  induction fuel generalizing array left right with
  | zero =>
      refine ⟨array, if_neg (by omega), Rearranged.refl _, ?_⟩
      intro p q pAbove pBelow qAbove qBelow
      omega
  | succ fuel ih =>
      by_cases wide : right > left
      · obtain ⟨fromLeft, toRight⟩ := selected wide
        have sampled : ∃ sample, (if right - left > recursionBreakpoint then
              kSmallestPartition sampling compare fuel array k (sampling k left right).1
                (sampling k left right).2
            else .ok array) = .ok sample ∧ Rearranged left right array.get sample.get := by
          split_ifs with large
          · obtain ⟨first, second⟩ := inside k left right fromLeft toRight large
            have less := narrower k left right fromLeft toRight large
            obtain ⟨sample, returned, rearranged, -⟩ := @ih (sampling k left right).1
              (sampling k left right).2 array (by omega) (by omega) (by omega)
              (fun _ => ⟨first.2, second.1⟩)
            exact ⟨sample, returned, rearranged.mono first.1 second.2⟩
          · exact ⟨array, rfl, Rearranged.refl _⟩
        obtain ⟨sample, samples, rearranged⟩ := sampled
        obtain ⟨parts, j, partitions, again, bounds, divides⟩ :=
          @partitionAround_ok T n compare left right sample lower upper preorder k wide
            ⟨fromLeft, toRight⟩
        obtain ⟨result, returned, rest, split⟩ := @ih (if j ≤ k then j + 1 else left)
          (if k ≤ j then j - 1 else right) parts (by split_ifs <;> omega)
          (by split_ifs <;> omega) (by split_ifs <;> omega) (by split_ifs <;> omega)
        refine ⟨result, ?_, (rearranged.trans again).trans (rest.mono ?_ ?_),
          SplitAt.of_partition divides rest split⟩
        · rw [kSmallestPartition, if_pos wide, samples, ok_bind, partitions, ok_bind]
          exact returned
        · split_ifs <;> omega
        · split_ifs <;> omega
      · refine ⟨array, if_neg wide, Rearranged.refl _, ?_⟩
        intro p q pAbove pBelow qAbove qBelow
        omega

end Whirlpools.Sdk
