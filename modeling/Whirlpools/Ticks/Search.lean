import Whirlpools.Ticks.Table

/-! # What the search for the next tick finds

Over arrays that carry a table, the search returns a tick with no initialized tick
before it in the direction of the search, and the index of an array holding it,
whatever arrays are supplied: an array searched out of turn refuses the search.
-/

namespace Whirlpools

open Outcome

/-- No initialized tick of the table lies after the first bound, up to the second. -/
def TickTable.Clear (table : TickTable) (lower upper : ℤ) : Prop :=
  ∀ tick, lower < tick → tick ≤ upper → (table tick).initialized = false

section Scan

variable {table : TickTable} {tickSpacing : ℕ} {array : TickArray}

/-- What a walk to the left over the offsets of an array finds. -/
private theorem scanOffsets_left {fuel : ℕ} {currOffset : ℤ} (inside : currOffset < 88)
    (enough : currOffset < fuel) :
    match array.scanOffsets tickSpacing true fuel currOffset with
    | some found => ∃ offset, 0 ≤ offset ∧ offset ≤ currOffset ∧
        found = offset * tickSpacing + array.startTickIndex ∧
        (array.tick offset).initialized = true ∧
        ∀ other, offset < other → other ≤ currOffset → (array.tick other).initialized = false
    | none => ∀ other, 0 ≤ other → other ≤ currOffset → (array.tick other).initialized = false := by
  induction fuel generalizing currOffset with
  | zero =>
      simp only [TickArray.scanOffsets]
      intro other nonneg below
      simp only [Nat.cast_zero] at enough
      omega
  | succ fuel ih =>
      unfold TickArray.scanOffsets
      by_cases nonneg : currOffset ≥ 0
      · rw [if_pos ⟨nonneg, inside⟩]
        cases here : (array.tick currOffset).initialized with
        | true =>
            simp only [↓reduceIte]
            exact ⟨currOffset, nonneg, le_rfl, rfl, here, fun other above below => by omega⟩
        | false =>
            simp only [Bool.false_eq_true, ↓reduceIte]
            have rest := @ih (currOffset - 1) (by omega) (by push_cast at enough; omega)
            split at rest
            · obtain ⟨offset, lower, upper, same, init, gap⟩ := rest
              refine ⟨offset, lower, by omega, same, init, fun other above below => ?_⟩
              rcases below.eq_or_lt with last | before
              · rw [last, here]
              · exact gap other above (by omega)
            · intro other lower below
              rcases below.eq_or_lt with last | before
              · rw [last, here]
              · exact rest other lower (by omega)
      · rw [if_neg (fun both => nonneg both.1)]
        intro other lower below
        omega

/-- What a walk to the right over the offsets of an array finds. -/
private theorem scanOffsets_right {fuel : ℕ} {currOffset : ℤ} (nonneg : 0 ≤ currOffset)
    (enough : 88 ≤ currOffset + fuel) :
    match array.scanOffsets tickSpacing false fuel currOffset with
    | some found => ∃ offset, currOffset ≤ offset ∧ offset < 88 ∧
        found = offset * tickSpacing + array.startTickIndex ∧
        (array.tick offset).initialized = true ∧
        ∀ other, currOffset ≤ other → other < offset → (array.tick other).initialized = false
    | none => ∀ other, currOffset ≤ other → other < 88 →
        (array.tick other).initialized = false := by
  induction fuel generalizing currOffset with
  | zero =>
      simp only [TickArray.scanOffsets]
      intro other above below
      simp only [Nat.cast_zero] at enough
      omega
  | succ fuel ih =>
      unfold TickArray.scanOffsets
      by_cases inside : currOffset < tickArraySize
      · rw [if_pos ⟨nonneg, inside⟩]
        unfold tickArraySize at inside
        cases here : (array.tick currOffset).initialized with
        | true =>
            simp only [↓reduceIte]
            exact ⟨currOffset, le_rfl, inside, rfl, here, fun other above below => by omega⟩
        | false =>
            simp only [Bool.false_eq_true, ↓reduceIte]
            have rest := @ih (currOffset + 1) (by omega) (by push_cast at enough; omega)
            split at rest
            · obtain ⟨offset, lower, upper, same, init, gap⟩ := rest
              refine ⟨offset, by omega, upper, same, init, fun other above below => ?_⟩
              rcases above.eq_or_lt with first | after
              · rw [← first, here]
              · exact gap other (by omega) below
            · intro other above below
              rcases above.eq_or_lt with first | after
              · rw [← first, here]
              · exact rest other (by omega) below
      · rw [if_neg (fun both => inside both.2)]
        intro other above below
        unfold tickArraySize at inside
        omega

/-- Initialized ticks of the table inside an array are initialized slots of it. -/
private theorem Carries.initialized_offset (carried : Carries table tickSpacing array)
    (usable : table.UsableOnly tickSpacing) (positive : 0 < tickSpacing) {tick : ℤ}
    (above : array.startTickIndex ≤ tick)
    (below : tick < array.startTickIndex + arrayWidth tickSpacing)
    (init : (table tick).initialized = true) :
    ∃ offset : ℤ, 0 ≤ offset ∧ offset < 88 ∧
      tick = array.startTickIndex + offset * tickSpacing ∧
      (array.tick offset).initialized = true := by
  obtain ⟨offset, nonneg, small, same⟩ := carried.exists_offset positive
    (checkIsUsableTick_iff.mp (usable tick init)).2 above below
  exact ⟨offset, nonneg, small, same, by rw [carried.tick_eq nonneg small, ← same, init]⟩

/-- The answers of one array to a search to the left, its start included. -/
def AnswersLeft (table : TickTable) (array : TickArray) (tick : ℤ) : Option ℤ → Prop
  | some next => array.startTickIndex ≤ next ∧ next ≤ tick ∧ (table next).initialized = true ∧
      table.Clear next tick
  | none => table.Clear (array.startTickIndex - 1) tick

/-- The answers of one array to a search to the right, its start excluded. -/
def AnswersRight (table : TickTable) (tickSpacing : ℕ) (array : TickArray) (tick : ℤ) :
    Option ℤ → Prop
  | some next => array.startTickIndex ≤ next ∧
      next < array.startTickIndex + arrayWidth tickSpacing ∧ tick < next ∧
      (table next).initialized = true ∧ table.Clear tick (next - 1)
  | none => table.Clear tick (array.startTickIndex + arrayWidth tickSpacing - 1)

/-- What one array answers to a search to the left. -/
theorem Carries.getNextInitTickIndex_left (carried : Carries table tickSpacing array)
    (usable : table.UsableOnly tickSpacing) (positive : 0 < tickSpacing) {tick : ℤ}
    {found : Option ℤ}
    (returned : array.getNextInitTickIndex tick tickSpacing true = .ok found) :
    (array.startTickIndex ≤ tick ∧ tick < array.startTickIndex + arrayWidth tickSpacing) ∧
      AnswersLeft table array tick found := by
  simp only [TickArray.getNextInitTickIndex, guard_eq_ok, not_not, bind_eq_ok, Except.ok.injEq,
    TickArray.inSearchRange, TickArray.tickOffset, Bool.not_true, Bool.false_eq_true, ↓reduceIte,
    decide_eq_true_eq] at returned
  obtain ⟨⟨above, below⟩, -, ⟨-, rfl⟩, rfl⟩ := returned
  have spacing : (0 : ℤ) < tickSpacing := by exact_mod_cast positive
  rw [getOffset_eq positive]
  have last : (tick - array.startTickIndex) / (tickSpacing : ℤ) < 88 :=
    Int.ediv_lt_of_lt_mul spacing (by
      unfold tickArraySize at below
      omega)
  have scanned := @scanOffsets_left tickSpacing array 89 _ last
    (by push_cast; omega)
  have offsets {offset : ℤ} : offset ≤ (tick - array.startTickIndex) / (tickSpacing : ℤ) ↔
      array.startTickIndex + offset * tickSpacing ≤ tick := by
    rw [Int.le_ediv_iff_mul_le spacing]
    constructor <;> intro bound <;> linarith
  refine ⟨⟨above, below⟩, ?_⟩
  split at scanned
  · rename_i next scan
    rw [scan]
    obtain ⟨offset, nonneg, before, same, init, gap⟩ := scanned
    have place : next = array.startTickIndex + offset * tickSpacing := by rw [same, add_comm]
    refine ⟨?_, ?_, ?_, ?_⟩
    · rw [place]
      exact Int.le_add_of_nonneg_right (mul_nonneg nonneg spacing.le)
    · rw [place]
      exact offsets.mp before
    · rw [place, ← carried.tick_eq nonneg (lt_of_le_of_lt before last), init]
    · intro other after upto
      by_contra initialized
      rw [Bool.not_eq_false] at initialized
      obtain ⟨slot, slotNonneg, -, slot_eq, slotInit⟩ := carried.initialized_offset usable positive
        (by nlinarith) (lt_of_le_of_lt upto below) initialized
      rw [gap slot (by rw [place, slot_eq] at after; nlinarith)
        (offsets.mpr (slot_eq ▸ upto))] at slotInit
      exact Bool.false_ne_true slotInit
  · rename_i scan
    rw [scan]
    intro other after upto
    by_contra initialized
    rw [Bool.not_eq_false] at initialized
    obtain ⟨slot, slotNonneg, -, slot_eq, slotInit⟩ := carried.initialized_offset usable positive
      (by omega) (lt_of_le_of_lt upto below) initialized
    rw [scanned slot slotNonneg (offsets.mpr (slot_eq ▸ upto))] at slotInit
    exact Bool.false_ne_true slotInit

/-- What one array answers to a search to the right. -/
theorem Carries.getNextInitTickIndex_right (carried : Carries table tickSpacing array)
    (usable : table.UsableOnly tickSpacing) (positive : 0 < tickSpacing) {tick : ℤ}
    {found : Option ℤ}
    (returned : array.getNextInitTickIndex tick tickSpacing false = .ok found) :
    (array.startTickIndex - tickSpacing ≤ tick ∧
      tick < array.startTickIndex + arrayWidth tickSpacing - tickSpacing) ∧
      AnswersRight table tickSpacing array tick found := by
  simp only [TickArray.getNextInitTickIndex, guard_eq_ok, not_not, bind_eq_ok, Except.ok.injEq,
    TickArray.inSearchRange, TickArray.tickOffset, Bool.not_false, Bool.false_eq_true, ↓reduceIte,
    decide_eq_true_eq] at returned
  obtain ⟨⟨above, below⟩, -, ⟨-, rfl⟩, rfl⟩ := returned
  have spacing : (0 : ℤ) < tickSpacing := by exact_mod_cast positive
  rw [getOffset_eq positive]
  have first : 0 ≤ (tick - array.startTickIndex) / (tickSpacing : ℤ) + 1 := by
    have floor := (Int.le_ediv_iff_mul_le (a := -1) (b := tick - array.startTickIndex) spacing).mpr
      (by linarith)
    omega
  have scanned := @scanOffsets_right tickSpacing array 89 _ first
    (by push_cast; omega)
  have offsets {offset : ℤ} : (tick - array.startTickIndex) / (tickSpacing : ℤ) + 1 ≤ offset ↔
      tick < array.startTickIndex + offset * tickSpacing := by
    rw [Int.add_one_le_iff, Int.ediv_lt_iff_lt_mul spacing]
    constructor <;> intro bound <;> linarith
  refine ⟨⟨above, below⟩, ?_⟩
  split at scanned
  · rename_i next scan
    rw [scan]
    obtain ⟨offset, after, small, same, init, gap⟩ := scanned
    have nonneg : 0 ≤ offset := le_trans first after
    have place : next = array.startTickIndex + offset * tickSpacing := by rw [same, add_comm]
    refine ⟨?_, ?_, ?_, ?_, ?_⟩
    · rw [place]
      exact Int.le_add_of_nonneg_right (mul_nonneg nonneg spacing.le)
    · rw [place]
      exact (Int.add_lt_add_iff_left _).mpr (mul_lt_mul_of_pos_right small spacing)
    · rw [place]
      exact offsets.mp after
    · rw [place, ← carried.tick_eq nonneg small, init]
    · intro other beyond upto
      by_contra initialized
      rw [Bool.not_eq_false] at initialized
      have before : other < array.startTickIndex + offset * tickSpacing := by omega
      by_cases early : other < array.startTickIndex
      · have divides := Int.dvd_sub (checkIsUsableTick_iff.mp (usable other initialized)).2
          carried.spacing_dvd
        have distance := Int.le_of_dvd (a := tickSpacing) (b := array.startTickIndex - other)
          (by omega) (by rw [← Int.dvd_neg, neg_sub]; exact divides)
        omega
      · obtain ⟨slot, -, -, slot_eq, slotInit⟩ := carried.initialized_offset usable positive
          (not_lt.mp early) (lt_trans before ((Int.add_lt_add_iff_left _).mpr
            (mul_lt_mul_of_pos_right small spacing))) initialized
        rw [gap slot (offsets.mpr (slot_eq ▸ beyond)) (by
          rw [slot_eq] at before
          nlinarith)] at slotInit
        exact Bool.false_ne_true slotInit
  · rename_i scan
    rw [scan]
    intro other beyond upto
    by_contra initialized
    rw [Bool.not_eq_false] at initialized
    by_cases early : other < array.startTickIndex
    · have divides := Int.dvd_sub (checkIsUsableTick_iff.mp (usable other initialized)).2
        carried.spacing_dvd
      have distance := Int.le_of_dvd (a := tickSpacing) (b := array.startTickIndex - other)
        (by omega) (by rw [← Int.dvd_neg, neg_sub]; exact divides)
      omega
    · obtain ⟨slot, -, small, slot_eq, slotInit⟩ := carried.initialized_offset usable positive
        (not_lt.mp early) (by omega) initialized
      rw [scanned slot (offsets.mpr (slot_eq ▸ beyond)) small] at slotInit
      exact Bool.false_ne_true slotInit

end Scan

theorem TickTable.Clear.trans {table : TickTable} {lower middle upper : ℤ}
    (first : table.Clear lower middle) (second : table.Clear middle upper) :
    table.Clear lower upper := by
  intro tick above below
  by_cases early : tick ≤ middle
  · exact first tick above early
  · exact second tick (not_le.mp early) below

theorem TickTable.Clear.mono {table : TickTable} {lower lower' upper upper' : ℤ}
    (clear : table.Clear lower upper) (above : lower ≤ lower') (below : upper' ≤ upper) :
    table.Clear lower' upper' :=
  fun tick after before => clear tick (lt_of_le_of_lt above after) (le_trans before below)

/-- Where a search in a list of arrays ends: at a tick in range, inside one of them. -/
structure SearchResult (tickSpacing : ℕ) (arrays : List TickArray) (position : ℕ) (next : ℤ) :
    Prop where
  range : minTickIndex ≤ next ∧ next ≤ maxTickIndex
  inside : ∃ array, arrays[position]? = some array ∧ array.startTickIndex ≤ next ∧
    next < array.startTickIndex + arrayWidth tickSpacing

section Sequences

variable {table : TickTable} {tickSpacing : ℕ}

/-- To the left, the search over arrays that carry the table returns a tick with nothing initialized
between it and the start, by induction on the arrays. -/
private theorem searchArrays_left {arrays : List TickArray} {index arrayIndex : ℕ}
    {tick next : ℤ} (carried : ∀ array ∈ arrays, Carries table tickSpacing array)
    (usable : table.UsableOnly tickSpacing) (positive : 0 < tickSpacing)
    (above : minTickIndex ≤ tick) (below : tick ≤ maxTickIndex)
    (returned : SwapTickSequence.searchArrays tickSpacing true arrays index tick =
      .ok (arrayIndex, next)) :
    ∃ position, arrayIndex = index + position ∧
      SearchResult tickSpacing arrays position next ∧
      next ≤ tick ∧ table.Clear next tick := by
  induction arrays generalizing index tick with
  | nil => simp only [SwapTickSequence.searchArrays, reduceCtorEq] at returned
  | cons array rest ih =>
      simp only [SwapTickSequence.searchArrays, bind_eq_ok] at returned
      obtain ⟨found, answered, returned⟩ := returned
      have here := carried array List.mem_cons_self
      obtain ⟨inside, answer⟩ := here.getNextInitTickIndex_left usable positive answered
      have first : (array :: rest)[0]? = some array := rfl
      cases found with
      | some found =>
          simp only [Except.ok.injEq, Prod.mk.injEq] at returned
          obtain ⟨rfl, rfl⟩ := returned
          obtain ⟨after, before, init, clear⟩ := answer
          have range := (checkIsUsableTick_iff.mp (usable found init)).1
          exact ⟨0, rfl, ⟨range, array, first, after, lt_of_le_of_lt before inside.2⟩,
            before, clear⟩
      | none =>
          simp only [AnswersLeft] at answer
          simp only [true_and, not_true_eq_false, false_and, ↓reduceIte, TickArray.isMinTickArray,
            decide_eq_true_eq] at returned
          split_ifs at returned with extreme last
          · simp only [Except.ok.injEq, Prod.mk.injEq] at returned
            obtain ⟨rfl, rfl⟩ := returned
            exact ⟨0, rfl, ⟨⟨le_rfl, by unfold minTickIndex maxTickIndex; omega⟩, array, first,
              extreme, lt_of_le_of_lt above inside.2⟩, above,
              answer.mono (by omega) le_rfl⟩
          · simp only [Except.ok.injEq, Prod.mk.injEq] at returned
            obtain ⟨rfl, rfl⟩ := returned
            exact ⟨0, rfl, ⟨⟨(not_le.mp extreme).le, le_trans inside.1 below⟩, array, first, le_rfl,
              lt_of_le_of_lt inside.1 inside.2⟩, inside.1, answer.mono (by omega) le_rfl⟩
          · obtain ⟨position, index_eq, result, before, clear⟩ := ih
              (fun other member => carried other (List.mem_cons_of_mem _ member))
              (by omega) (by omega) returned
            refine ⟨position + 1, by omega, ⟨result.range, ?_⟩, by omega, clear.trans answer⟩
            exact result.inside

/-- The same to the right, where the tick that the search starts from is not itself a candidate. -/
private theorem searchArrays_right {arrays : List TickArray} {index arrayIndex : ℕ}
    {tick next : ℤ} (carried : ∀ array ∈ arrays, Carries table tickSpacing array)
    (usable : table.UsableOnly tickSpacing) (positive : 0 < tickSpacing)
    (above : minTickIndex - 1 ≤ tick) (below : tick < maxTickIndex)
    (returned : SwapTickSequence.searchArrays tickSpacing false arrays index tick =
      .ok (arrayIndex, next)) :
    ∃ position, arrayIndex = index + position ∧
      SearchResult tickSpacing arrays position next ∧
      tick < next ∧ table.Clear tick (next - 1) := by
  induction arrays generalizing index tick with
  | nil => simp only [SwapTickSequence.searchArrays, reduceCtorEq] at returned
  | cons array rest ih =>
      simp only [SwapTickSequence.searchArrays, bind_eq_ok] at returned
      obtain ⟨found, answered, returned⟩ := returned
      have here := carried array List.mem_cons_self
      obtain ⟨inside, answer⟩ := here.getNextInitTickIndex_right usable positive answered
      have first : (array :: rest)[0]? = some array := rfl
      have spacing : (0 : ℤ) < tickSpacing := by exact_mod_cast positive
      have width := arrayWidth_pos positive
      cases found with
      | some found =>
          simp only [Except.ok.injEq, Prod.mk.injEq] at returned
          obtain ⟨rfl, rfl⟩ := returned
          obtain ⟨after, before, beyond, init, clear⟩ := answer
          have range := (checkIsUsableTick_iff.mp (usable found init)).1
          exact ⟨0, rfl, ⟨range, array, first, after, before⟩, beyond, clear⟩
      | none =>
          simp only [AnswersRight] at answer
          simp only [Bool.false_eq_true, false_and, not_false_eq_true, true_and, ↓reduceIte,
            TickArray.isMaxTickArray, decide_eq_true_eq] at returned
          change (if array.startTickIndex + arrayWidth tickSpacing > maxTickIndex then _ else
            if rest = [] then Except.ok (index, array.startTickIndex + arrayWidth tickSpacing - 1)
            else SwapTickSequence.searchArrays tickSpacing false rest (index + 1)
              (array.startTickIndex + arrayWidth tickSpacing - 1)) = _ at returned
          split_ifs at returned with extreme last
          · simp only [Except.ok.injEq, Prod.mk.injEq] at returned
            obtain ⟨rfl, rfl⟩ := returned
            exact ⟨0, rfl, ⟨⟨by unfold minTickIndex maxTickIndex; omega, le_rfl⟩, array, first,
              (checkIsValidStartTick_dvd here.valid).2, extreme⟩, below,
              answer.mono le_rfl (by omega)⟩
          · simp only [Except.ok.injEq, Prod.mk.injEq] at returned
            obtain ⟨rfl, rfl⟩ := returned
            exact ⟨0, rfl, ⟨⟨by omega, by omega⟩, array, first, by omega, by omega⟩, by omega,
              answer.mono le_rfl (by omega)⟩
          · obtain ⟨position, index_eq, result, beyond, clear⟩ := ih
              (fun other member => carried other (List.mem_cons_of_mem _ member))
              (by omega) (by omega) returned
            refine ⟨position + 1, by omega, ⟨result.range, ?_⟩, by omega, answer.trans clear⟩
            exact result.inside

/-- The next tick found by a search in a sequence of arrays: no initialized tick is
passed over, and the returned array holds the tick. -/
theorem getNextInitializedTickIndex_left {sequence : SwapTickSequence}
    {arrayIndex startArrayIndex : ℕ}
    {tick next : ℤ} (carried : sequence.Carries table tickSpacing)
    (usable : table.UsableOnly tickSpacing) (positive : 0 < tickSpacing)
    (above : minTickIndex ≤ tick) (below : tick ≤ maxTickIndex)
    (returned : sequence.getNextInitializedTickIndex tick tickSpacing true startArrayIndex =
      .ok (arrayIndex, next)) :
    SearchResult tickSpacing sequence.arrays arrayIndex next ∧
      next ≤ tick ∧ table.Clear next tick := by
  obtain ⟨position, rfl, result, found⟩ := searchArrays_left
    (fun array member => carried.arrays array (List.mem_of_mem_drop member)) usable positive above
    below returned
  refine ⟨⟨result.range, ?_⟩, found⟩
  simpa only [List.getElem?_drop] using result.inside

/-- So to the right the program's search clears the ticks up to the one it returns. -/
theorem getNextInitializedTickIndex_right {sequence : SwapTickSequence}
    {arrayIndex startArrayIndex : ℕ}
    {tick next : ℤ} (carried : sequence.Carries table tickSpacing)
    (usable : table.UsableOnly tickSpacing) (positive : 0 < tickSpacing)
    (above : minTickIndex - 1 ≤ tick) (below : tick < maxTickIndex)
    (returned : sequence.getNextInitializedTickIndex tick tickSpacing false startArrayIndex =
      .ok (arrayIndex, next)) :
    SearchResult tickSpacing sequence.arrays arrayIndex next ∧
      tick < next ∧ table.Clear tick (next - 1) := by
  obtain ⟨position, rfl, result, found⟩ := searchArrays_right
    (fun array member => carried.arrays array (List.mem_of_mem_drop member)) usable positive above
    below returned
  refine ⟨⟨result.range, ?_⟩, found⟩
  simpa only [List.getElem?_drop] using result.inside

end Sequences
end Whirlpools
