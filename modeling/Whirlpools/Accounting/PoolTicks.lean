import Whirlpools.Instructions
import Whirlpools.Swap.Crossings

/-! # The table of ticks of a pool

The tick arrays of a pool are windows on one table of ticks: the tick of an index
is read from the array it belongs to, and is the zeroed tick where there is none.
-/

namespace Whirlpools

open Outcome

/-- The start of the array an index belongs to. -/
def arrayStart (tick : ℤ) (tickSpacing : ℕ) : ℤ :=
  tick / arrayWidth tickSpacing * arrayWidth tickSpacing

/-- A tick lies in the array that starts at its array start. -/
theorem arrayStart_le (tick : ℤ) {tickSpacing : ℕ} (positive : 0 < tickSpacing) :
    arrayStart tick tickSpacing ≤ tick ∧
      tick < arrayStart tick tickSpacing + arrayWidth tickSpacing := by
  have width := arrayWidth_pos positive
  have split := Int.mul_ediv_add_emod tick (arrayWidth tickSpacing)
  have nonneg := Int.emod_nonneg tick width.ne'
  have small := Int.emod_lt_of_pos tick width
  unfold arrayStart
  rw [mul_comm]
  omega

/-- The only array start whose window holds an index. -/
theorem eq_arrayStart (tick : ℤ) {start : ℤ} {tickSpacing : ℕ} (positive : 0 < tickSpacing)
    (multiple : arrayWidth tickSpacing ∣ start)
    (inside : start ≤ tick ∧ tick < start + arrayWidth tickSpacing) :
    start = arrayStart tick tickSpacing := by
  have width := arrayWidth_pos positive
  obtain ⟨quotient, rfl⟩ := multiple
  have here := arrayStart_le tick positive
  unfold arrayStart at here ⊢
  have one : quotient < tick / arrayWidth tickSpacing + 1 := by nlinarith
  have other : tick / arrayWidth tickSpacing < quotient + 1 := by nlinarith
  rw [show tick / arrayWidth tickSpacing = quotient by omega, mul_comm]

namespace Pool

/-- The tick of an index. -/
def tickAt (pool : Pool) : TickTable := fun tick =>
  match pool.tickArrays (arrayStart tick pool.whirlpool.tickSpacing) with
  | some array =>
      if (pool.whirlpool.tickSpacing : ℤ) ∣ tick then
        array.tick ((tick - array.startTickIndex) / pool.whirlpool.tickSpacing)
      else Tick.default
  | none => Tick.default

/-- The table depends on the arrays and their spacing. -/
theorem tickAt_congr {pool pool' : Pool} (arrays : pool'.tickArrays = pool.tickArrays)
    (spacing : pool'.whirlpool.tickSpacing = pool.whirlpool.tickSpacing) :
    pool'.tickAt = pool.tickAt := by
  unfold tickAt
  rw [arrays, spacing]

/-- Every stored array starts where it is filed, at a valid start. -/
structure ArraysFiled (pool : Pool) : Prop where
  start : ∀ {start array}, pool.tickArrays start = some array → array.startTickIndex = start
  valid : ∀ {start array}, pool.tickArrays start = some array →
    Tick.checkIsValidStartTick start pool.whirlpool.tickSpacing = true
  spacing : ∀ {start array}, pool.tickArrays start = some array → 0 < pool.whirlpool.tickSpacing

/-- Other data does not matter to the filing of the arrays. -/
theorem ArraysFiled.congr {pool pool' : Pool} (filed : pool.ArraysFiled)
    (arrays : pool'.tickArrays = pool.tickArrays)
    (spacing : pool'.whirlpool.tickSpacing = pool.whirlpool.tickSpacing) : pool'.ArraysFiled := by
  constructor <;> intro start array stored <;> rw [arrays] at stored
  · exact filed.start stored
  · rw [spacing]
    exact filed.valid stored
  · rw [spacing]
    exact filed.spacing stored

/-- An index for which no tick is stored. -/
def Unstored (pool : Pool) (tick : ℤ) : Prop :=
  pool.tickArrays (arrayStart tick pool.whirlpool.tickSpacing) = none ∨
    ¬ (pool.whirlpool.tickSpacing : ℤ) ∣ tick

/-- Where no array is stored the pool reads a tick that is not initialized. -/
theorem tickAt_of_unstored {pool : Pool} {tick : ℤ} (unstored : pool.Unstored tick) :
    pool.tickAt tick = Tick.default := by
  unfold tickAt
  rcases unstored with missing | skipped
  · rw [missing]
  · split
    · rw [if_neg skipped]
    · rfl

/-- The arrays of a pool carry its table. -/
theorem ArraysFiled.carries {pool : Pool} (filed : pool.ArraysFiled) {start : ℤ}
    {array : TickArray} (stored : pool.tickArrays start = some array) :
    Carries pool.tickAt pool.whirlpool.tickSpacing array := by
  have start_eq := filed.start stored
  have valid := filed.valid stored
  have positive := filed.spacing stored
  have spacing : (0 : ℤ) < pool.whirlpool.tickSpacing := by exact_mod_cast positive
  refine ⟨start_eq ▸ valid, fun position => ?_⟩
  have small : (position.val : ℤ) < tickArraySize := by
    unfold tickArraySize
    exact_mod_cast position.isLt
  have multiple := (checkIsValidStartTick_dvd valid).1
  have spacingDvd : (pool.whirlpool.tickSpacing : ℤ) ∣
      array.startTickIndex + (position.val : ℤ) * pool.whirlpool.tickSpacing := by
    rw [start_eq]
    exact dvd_add (dvd_trans (Dvd.intro_left _ rfl) multiple) (Dvd.intro_left _ rfl)
  have place := eq_arrayStart
    (array.startTickIndex + (position.val : ℤ) * pool.whirlpool.tickSpacing)
    positive (start_eq ▸ multiple)
    ⟨Int.le_add_of_nonneg_right (mul_nonneg (by positivity) spacing.le),
      (Int.add_lt_add_iff_left _).mpr (mul_lt_mul_of_pos_right small spacing)⟩
  unfold tickAt
  rw [← place, start_eq, stored]
  dsimp only
  rw [← start_eq, if_pos spacingDvd, add_sub_cancel_left, Int.mul_ediv_cancel _ spacing.ne']
  unfold TickArray.tick
  rw [dif_pos ⟨by positivity, by exact_mod_cast position.isLt⟩]
  congr 1

/-- The table of a pool is the one its arrays carry, zeroed where nothing is stored. -/
theorem ArraysFiled.tickAt_eq {pool : Pool} (filed : pool.ArraysFiled) {table : TickTable}
    (carried : ∀ start array, pool.tickArrays start = some array →
      Carries table pool.whirlpool.tickSpacing array)
    (rest : ∀ tick, pool.Unstored tick → table tick = Tick.default) : pool.tickAt = table := by
  funext tick
  by_cases unstored : pool.Unstored tick
  · rw [tickAt_of_unstored unstored, rest tick unstored]
  · simp only [Unstored, not_or, not_not] at unstored
    obtain ⟨present, usable⟩ := unstored
    obtain ⟨array, stored⟩ := Option.ne_none_iff_exists'.mp present
    have positive := filed.spacing stored
    have start_eq := filed.start stored
    have inside := arrayStart_le tick positive
    rw [← start_eq] at inside
    obtain ⟨offset, nonneg, small, place⟩ := (carried _ _ stored).exists_offset positive usable
      inside.1 inside.2
    have one := (filed.carries stored).tick_eq nonneg small
    have other := (carried _ _ stored).tick_eq nonneg small
    rw [← place] at one other
    rw [← one, ← other]

/-- Initialized ticks are stored. -/
theorem not_unstored {pool : Pool} {tick : ℤ}
    (full : (pool.tickAt tick).initialized = true) : ¬ pool.Unstored tick := by
  intro unstored
  rw [tickAt_of_unstored unstored] at full
  exact absurd full (by decide)

/-- Arrays that keep their starts stay filed. -/
theorem ArraysFiled.of_starts {pool pool' : Pool} (filed : pool.ArraysFiled)
    (spacing : pool'.whirlpool.tickSpacing = pool.whirlpool.tickSpacing)
    (starts : ∀ start array, pool'.tickArrays start = some array →
      array.startTickIndex = start ∧ pool.tickArrays start ≠ none) : pool'.ArraysFiled := by
  have before {start : ℤ} {array : TickArray} (stored : pool'.tickArrays start = some array) :=
    Option.ne_none_iff_exists'.mp (starts start array stored).2
  constructor
  · exact fun stored => (starts _ _ stored).1
  · intro start array stored
    obtain ⟨old, found⟩ := before stored
    rw [spacing]
    exact filed.valid found
  · intro start array stored
    obtain ⟨old, found⟩ := before stored
    rw [spacing]
    exact filed.spacing found

/-- What updating one tick of a pool does. -/
theorem updateTick_eq_ok {pool pool' : Pool} (filed : pool.ArraysFiled) {start tick : ℤ}
    {update : TickUpdate} (returned : pool.updateTick start tick update = .ok pool') :
    pool'.tickAt = Function.update pool.tickAt tick update ∧ pool'.ArraysFiled ∧
      pool' = { pool with tickArrays := pool'.tickArrays } := by
  simp only [updateTick, tickArray, bind_eq_ok, okOr_eq_ok, Except.ok.injEq] at returned
  obtain ⟨array, stored, updated, written, rfl⟩ := returned
  have positive := filed.spacing stored
  obtain ⟨start_eq, carries⟩ := (filed.carries stored).updateTick positive written
  have place : array.startTickIndex ≤ tick ∧
      tick < array.startTickIndex + arrayWidth pool.whirlpool.tickSpacing ∧
      Tick.checkIsUsableTick tick pool.whirlpool.tickSpacing = true := by
    simp only [TickArray.updateTick, bind_eq_ok] at written
    obtain ⟨offset, place, -⟩ := written
    exact findTick_inside place
  have filed' : ({ pool with
      tickArrays := Function.update pool.tickArrays start (some updated) } : Pool).ArraysFiled := by
    refine filed.of_starts rfl fun other kept stored' => ?_
    by_cases same : other = start
    · subst same
      simp only [Function.update_self, Option.some.injEq] at stored'
      subst stored'
      exact ⟨start_eq.trans (filed.start stored), by rw [stored]; exact Option.some_ne_none _⟩
    · simp only [Function.update_of_ne same] at stored'
      exact ⟨filed.start stored', by rw [stored']; exact Option.some_ne_none _⟩
  refine ⟨filed'.tickAt_eq ?_ ?_, filed', rfl⟩
  · intro other kept stored'
    by_cases same : other = start
    · subst same
      simp only [Function.update_self, Option.some.injEq] at stored'
      exact stored' ▸ carries
    · simp only [Function.update_of_ne same] at stored'
      apply (filed.carries stored').update_outside positive
      intro shared
      apply same
      rw [← filed.start stored', ← filed.start stored]
      exact (filed.carries stored').start_unique (filed.carries stored) positive shared
        ⟨place.1, place.2.1⟩
  · intro other unstored
    have distinct : other ≠ tick := by
      rintro rfl
      have window := eq_arrayStart _ positive
        (checkIsValidStartTick_dvd (filed.carries stored).valid).1 ⟨place.1, place.2.1⟩
      rw [filed.start stored] at window
      rcases unstored with missing | skipped
      · simp only [← window, Function.update_self, reduceCtorEq] at missing
      · exact skipped (checkIsUsableTick_iff.mp place.2.2).2
    rw [Function.update_of_ne distinct, tickAt_of_unstored]
    rcases unstored with missing | skipped
    · refine .inl ?_
      dsimp only at missing
      by_cases same : arrayStart other pool.whirlpool.tickSpacing = start
      · rw [same, Function.update_self] at missing
        exact absurd missing (Option.some_ne_none _)
      · rwa [Function.update_of_ne same] at missing
    · exact .inr skipped

/-- Setting up a new tick array leaves the table as it is. -/
theorem initializeTickArray_eq_ok {pool : Pool} (filed : pool.ArraysFiled) {start : ℤ}
    {array : TickArray} (missing : pool.tickArrays start = none)
    (returned : TickArray.initializeTickArray start pool.whirlpool.tickSpacing = .ok array) :
    let pool' := { pool with tickArrays := Function.update pool.tickArrays start (some array) }
    pool'.tickAt = pool.tickAt ∧ pool'.ArraysFiled := by
  intro pool'
  simp only [TickArray.initializeTickArray, guard_eq_ok, not_not, Except.ok.injEq] at returned
  obtain ⟨nonzero, valid, rfl⟩ := returned
  have positive := Nat.pos_of_ne_zero nonzero
  have stored_iff {other : ℤ} {kept : TickArray} :
      pool'.tickArrays other = some kept →
        (other = start ∧ kept = ⟨start, fun _ => Tick.default⟩) ∨
          pool.tickArrays other = some kept := by
    intro stored
    by_cases same : other = start
    · subst same
      simp only [pool', Function.update_self, Option.some.injEq] at stored
      exact .inl ⟨rfl, stored.symm⟩
    · simp only [pool', Function.update_of_ne same] at stored
      exact .inr stored
  have filed' : pool'.ArraysFiled := by
    constructor
    · intro other kept stored
      rcases stored_iff stored with ⟨rfl, rfl⟩ | old
      · rfl
      · exact filed.start old
    · intro other kept stored
      rcases stored_iff stored with ⟨rfl, rfl⟩ | old
      · exact valid
      · exact filed.valid old
    · exact fun _ => positive
  refine ⟨filed'.tickAt_eq ?_ ?_, filed'⟩
  · intro other kept stored
    rcases stored_iff stored with ⟨rfl, rfl⟩ | old
    · refine ⟨valid, fun position => ?_⟩
      have spacing : (0 : ℤ) < pool.whirlpool.tickSpacing := by exact_mod_cast positive
      have small : (position.val : ℤ) < tickArraySize := by
        unfold tickArraySize
        exact_mod_cast position.isLt
      have place := eq_arrayStart
        (other + (position.val : ℤ) * pool.whirlpool.tickSpacing)
        positive (checkIsValidStartTick_dvd valid).1
        ⟨Int.le_add_of_nonneg_right (mul_nonneg (by positivity) spacing.le),
          (Int.add_lt_add_iff_left _).mpr (mul_lt_mul_of_pos_right small spacing)⟩
      exact (tickAt_of_unstored (.inl (place ▸ missing))).symm
    · exact filed.carries old
  · intro tick unstored
    apply tickAt_of_unstored
    rcases unstored with absent | skipped
    · by_cases same : arrayStart tick pool.whirlpool.tickSpacing = start
      · exact .inl (same ▸ missing)
      · simp only [pool', Function.update_of_ne same] at absent
        exact .inl absent
    · exact .inr skipped

/-- The arrays supplied to a swap are stored arrays of the pool, all different. -/
theorem swapTickSequence_eq_ok {pool : Pool} (filed : pool.ArraysFiled)
    {tickArray0 tickArray1 tickArray2 : ℤ} {sequence : SwapTickSequence}
    (returned : pool.swapTickSequence tickArray0 tickArray1 tickArray2 = .ok sequence) :
    sequence.Carries pool.tickAt pool.whirlpool.tickSpacing ∧
      0 < pool.whirlpool.tickSpacing ∧
      ∀ array ∈ sequence.arrays, pool.tickArrays array.startTickIndex = some array := by
  simp only [swapTickSequence, tickArray, bind_eq_ok, okOr_eq_ok, Except.ok.injEq] at returned
  obtain ⟨ta0, stored0, ta1, stored1, ta2, stored2, rfl⟩ := returned
  have start0 := filed.start stored0
  have start1 := filed.start stored1
  have start2 := filed.start stored2
  have filedAll : ∀ array ∈ (SwapTickSequence.new ta0
      (if tickArray1 = tickArray0 then none else some ta1)
      (if tickArray2 = tickArray0 ∨ tickArray2 = tickArray1 then none else some ta2)).arrays,
      pool.tickArrays array.startTickIndex = some array := by
    intro array member
    simp only [SwapTickSequence.new, List.mem_append, List.mem_singleton, Option.mem_toList,
      Option.ite_none_left_eq_some, Option.some.injEq] at member
    rcases member with (rfl | ⟨-, rfl⟩) | ⟨-, rfl⟩
    · rw [start0, stored0]
    · rw [start1, stored1]
    · rw [start2, stored2]
  refine ⟨⟨fun array member => filed.carries (filedAll array member), ?_⟩, filed.spacing stored0,
    filedAll⟩
  unfold SwapTickSequence.new
  by_cases one : tickArray1 = tickArray0
  · by_cases two : tickArray2 = tickArray0 ∨ tickArray2 = tickArray1
    · simp only [if_pos one, if_pos two, Option.toList_none, List.append_nil, List.map_cons,
        List.map_nil, List.nodup_singleton]
    · simp only [if_pos one, if_neg two, Option.toList_none, Option.toList_some, List.append_nil,
        List.map_cons, List.map_nil, List.singleton_append, start0, start2,
        List.nodup_cons, List.mem_singleton, List.not_mem_nil, not_false_eq_true, List.nodup_nil,
        and_self, and_true]
      exact fun same => two (.inl same.symm)
  · by_cases two : tickArray2 = tickArray0 ∨ tickArray2 = tickArray1
    · simp only [if_neg one, if_pos two, Option.toList_none, Option.toList_some, List.append_nil,
        List.map_cons, List.map_nil, List.singleton_append, start0, start1,
        List.nodup_cons, List.mem_singleton, List.not_mem_nil, not_false_eq_true, List.nodup_nil,
        and_self, and_true]
      exact fun same => one same.symm
    · simp only [if_neg one, if_neg two, Option.toList_some, List.map_cons, List.map_nil,
        List.cons_append, List.nil_append, start0, start1, start2, List.nodup_cons, List.mem_cons,
        List.not_mem_nil, or_false, not_or, not_false_eq_true, List.nodup_nil, and_true]
      exact ⟨⟨fun same => one same.symm, fun same => two (.inl same.symm)⟩,
        fun same => two (.inr same.symm)⟩

/-- Writing arrays back files each under its start. -/
private theorem foldl_filed (stored : ℤ → Option TickArray) {arrays : List TickArray}
    (distinct : (arrays.map TickArray.startTickIndex).Nodup) :
    let written : ℤ → Option TickArray := arrays.foldl (fun arrays array =>
      Function.update arrays array.startTickIndex (some array)) stored
    (∀ array ∈ arrays, written array.startTickIndex = some array) ∧
      ∀ start, start ∉ arrays.map TickArray.startTickIndex → written start = stored start := by
  induction arrays generalizing stored with
  | nil => exact ⟨fun array member => absurd member List.not_mem_nil, fun _ _ => rfl⟩
  | cons first rest ih =>
      rw [List.map_cons, List.nodup_cons] at distinct
      obtain ⟨written, kept⟩ := ih (Function.update stored first.startTickIndex
        (some first)) distinct.2
      refine ⟨fun array member => ?_, fun start outside => ?_⟩
      · rcases List.mem_cons.mp member with rfl | later
        · rw [List.foldl_cons, kept _ distinct.1, Function.update_self]
        · exact written array later
      · rw [List.map_cons, List.mem_cons, not_or] at outside
        rw [List.foldl_cons, kept _ outside.2, Function.update_of_ne outside.1]

/-- Writing the arrays of a swap back gives the pool the table they carry, when it
differs from the old one only in initialized ticks inside these arrays. -/
theorem setTickArrays_tickAt {pool : Pool} (filed : pool.ArraysFiled)
    {sequence updated : SwapTickSequence} {table : TickTable}
    (supplied : ∀ array ∈ sequence.arrays, pool.tickArrays array.startTickIndex = some array)
    (positive : 0 < pool.whirlpool.tickSpacing)
    (carried : updated.Carries table pool.whirlpool.tickSpacing)
    (starts : updated.arrays.map TickArray.startTickIndex =
      sequence.arrays.map TickArray.startTickIndex)
    (changed : ∀ tick, table tick ≠ pool.tickAt tick → (pool.tickAt tick).initialized = true ∧
      ∃ array ∈ sequence.arrays, array.startTickIndex ≤ tick ∧
        tick < array.startTickIndex + arrayWidth pool.whirlpool.tickSpacing) :
    (pool.setTickArrays updated).tickAt = table ∧ (pool.setTickArrays updated).ArraysFiled := by
  obtain ⟨written, kept⟩ := foldl_filed pool.tickArrays carried.distinct
  have filed' : (pool.setTickArrays updated).ArraysFiled := by
    refine filed.of_starts rfl fun start array stored => ?_
    by_cases supplied' : start ∈ updated.arrays.map TickArray.startTickIndex
    · obtain ⟨other, member, rfl⟩ := List.mem_map.mp supplied'
      obtain rfl := Option.some.inj ((written other member).symm.trans stored)
      refine ⟨rfl, ?_⟩
      rw [starts] at supplied'
      obtain ⟨old, present, same⟩ := List.mem_map.mp supplied'
      rw [← same, supplied old present]
      exact Option.some_ne_none _
    · have stored' := (kept start supplied').symm.trans stored
      exact ⟨filed.start stored', by rw [stored']; exact Option.some_ne_none _⟩
  refine ⟨filed'.tickAt_eq ?_ ?_, filed'⟩
  · intro start array stored
    by_cases supplied' : start ∈ updated.arrays.map TickArray.startTickIndex
    · obtain ⟨other, member, rfl⟩ := List.mem_map.mp supplied'
      obtain rfl := Option.some.inj ((written other member).symm.trans stored)
      exact carried.arrays other member
    · have stored' := (kept start supplied').symm.trans stored
      have old := filed.carries stored'
      refine ⟨old.valid, fun position => ?_⟩
      rw [old.ticks position]
      by_contra differs
      obtain ⟨-, other, member, window⟩ := changed _ (fun same => differs same.symm)
      have spacing : (0 : ℤ) < pool.whirlpool.tickSpacing := by exact_mod_cast positive
      have small : (position.val : ℤ) < tickArraySize := by
        unfold tickArraySize
        exact_mod_cast position.isLt
      have collision := old.start_unique (filed.carries (supplied other member)) positive
        ⟨Int.le_add_of_nonneg_right (mul_nonneg (by positivity) spacing.le),
          (Int.add_lt_add_iff_left _).mpr (mul_lt_mul_of_pos_right small spacing)⟩ window
      apply supplied'
      rw [starts, ← filed.start stored', collision]
      exact List.mem_map_of_mem member
  · intro tick unstored
    by_contra differs
    have empty : pool.Unstored tick := by
      rcases unstored with missing | skipped
      · refine .inl ?_
        change (pool.setTickArrays updated).tickArrays (arrayStart tick
          pool.whirlpool.tickSpacing) = none at missing
        by_cases supplied' : arrayStart tick pool.whirlpool.tickSpacing ∈
            updated.arrays.map TickArray.startTickIndex
        · obtain ⟨other, member, same⟩ := List.mem_map.mp supplied'
          rw [← same] at missing
          exact absurd ((written other member).symm.trans missing) (Option.some_ne_none _)
        · exact (kept _ supplied').symm.trans missing
      · exact .inr skipped
    have default := tickAt_of_unstored empty
    obtain ⟨full, -⟩ := changed tick (fun same => differs (same.trans default))
    rw [default] at full
    exact absurd full (by decide)

end Pool
end Whirlpools
