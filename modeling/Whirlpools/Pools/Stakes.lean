import Whirlpools.Instructions.Writes

/-! # Who changes a position

Only an instruction that the holder of a position signs changes its liquidity, and none changes its
range. Updating its fees and rewards, which anyone may do, leaves both.
-/

namespace Whirlpools

open Outcome

/-- The position whose holder signs an instruction. -/
def Instruction.heldPosition : Instruction → Option Pubkey
  | .closePosition positionMint => some positionMint
  | .increaseLiquidity args _ _ => some args.positionMint
  | .decreaseLiquidity args _ _ => some args.positionMint
  | .collectFees positionMint => some positionMint
  | .collectReward positionMint _ _ => some positionMint
  | _ => none

/-- The same range and the same liquidity. -/
structure Position.SameStake (position position' : Position) : Prop where
  tickLowerIndex : position'.tickLowerIndex = position.tickLowerIndex
  tickUpperIndex : position'.tickUpperIndex = position.tickUpperIndex
  liquidity : position'.liquidity = position.liquidity

theorem Position.SameStake.refl (position : Position) : position.SameStake position :=
  ⟨rfl, rfl, rfl⟩

theorem Position.SameStake.trans {position position' position'' : Position}
    (first : position.SameStake position') (second : position'.SameStake position'') :
    position.SameStake position'' :=
  ⟨second.tickLowerIndex.trans first.tickLowerIndex,
    second.tickUpperIndex.trans first.tickUpperIndex, second.liquidity.trans first.liquidity⟩

namespace Pool

/-- A position that is there stays there, with its range and its liquidity. -/
def KeepsStake (positionMint : Pubkey) (pool pool' : Pool) : Prop :=
  ∀ position, pool.positions.lookup positionMint = some position →
    ∃ position', pool'.positions.lookup positionMint = some position' ∧
      position.SameStake position'

variable {m : Machine} {pool pool' : Pool} {receipt : Receipt} {positionMint written : Pubkey}

/-- Unchanged positions keep their stakes. -/
theorem keepsStake_of_positions (same : pool'.positions = pool.positions) :
    KeepsStake positionMint pool pool' := by
  intro position held
  rw [← same] at held
  exact ⟨position, held, .refl position⟩

/-- Writing another position keeps the stake. -/
theorem keepsStake_of_insert {updated : Position}
    (positions : pool'.positions = pool.positions.insert written updated)
    (apart : written ≠ positionMint) : KeepsStake positionMint pool pool' := by
  intro position held
  rw [← AList.lookup_insert_ne apart.symm, ← positions] at held
  exact ⟨position, held, .refl position⟩

/-- Crediting a position changes neither its range nor its liquidity. -/
theorem sameStake_of_credit {whirlpool : Whirlpool} {position : Position}
    {tickArrayLower tickArrayUpper : TickArray} {timestamp : ℕ} {update : ModifyLiquidityUpdate}
    (computed : Whirlpools.calculateModifyLiquidity m whirlpool position tickArrayLower
      tickArrayUpper 0 timestamp = .ok update) :
    position.SameStake (position.update update.positionUpdate) := by
  simp only [Whirlpools.calculateModifyLiquidity, calculateModifyLiquidityOfTicks,
    nextPositionModifyLiquidityUpdate, bind_eq_ok, guard_eq_ok, Except.ok.injEq] at computed
  obtain ⟨_, -, _, -, -, _, -, _, -, _, -, _, -, _, ⟨liquidity, changed, rfl⟩, rfl⟩ := computed
  have kept := (addLiquidityDelta_eq_ok changed).1
  refine ⟨rfl, rfl, ?_⟩
  change liquidity = position.liquidity
  omega

/-- An instruction that the holder of a position does not sign keeps its stake. -/
theorem execute_keepsStake {instruction : Instruction}
    (returned : pool.execute m instruction = .ok (pool', receipt))
    (foreign : instruction.heldPosition ≠ some positionMint) :
    KeepsStake positionMint pool pool' := by
  cases execute_eq_ok.mp returned with
  | @openPosition opened _ _ _ fresh =>
      intro position held
      have apart : opened ≠ positionMint := by
        rintro rfl
        exact absurd (fresh.symm.trans held) (Option.some_ne_none _).symm
      exact keepsStake_of_insert rfl apart position held
  | @closePosition closed =>
      intro position held
      have apart : positionMint ≠ closed := fun same => foreign (congrArg some same.symm)
      exact ⟨position, (AList.lookup_erase_ne apart).trans held, .refl position⟩
  | increaseLiquidity modified _ _ deposited =>
      obtain ⟨_, _, _, -, synced_eq⟩ := modifyLiquidity_writes modified
      have kept := congrArg Pool.positions (deposit_eq_ok deposited).1
      exact keepsStake_of_insert (kept.trans (congrArg Pool.positions synced_eq))
        fun same => foreign (congrArg some same)
  | decreaseLiquidity modified _ _ withdrawn =>
      obtain ⟨_, _, _, -, synced_eq⟩ := modifyLiquidity_writes modified
      have kept := congrArg Pool.positions (withdraw_eq_ok withdrawn).1
      exact keepsStake_of_insert (kept.trans (congrArg Pool.positions synced_eq))
        fun same => foreign (congrArg some same)
  | swap _ _ written moved =>
      refine keepsStake_of_positions ?_
      rw [(performSwap_eq_ok moved).1, (updateAfterSwap_eq_ok written).1]
      rfl
  | @updateFeesAndRewards updated _ _ _ _ _ _ _ _ _ found _ _ computed =>
      by_cases same : updated = positionMint
      · subst same
        intro position held
        obtain rfl := Option.some.inj (found.symm.trans held)
        exact ⟨_, AList.lookup_insert _, sameStake_of_credit computed⟩
      · exact keepsStake_of_insert rfl same
  | collectFees _ withdrawn =>
      exact keepsStake_of_insert (congrArg Pool.positions (withdraw_eq_ok withdrawn).1)
        fun same => foreign (congrArg some same)
  | collectProtocolFees withdrawn =>
      refine keepsStake_of_positions ?_
      rw [(withdraw_eq_ok withdrawn).1]
  | collectReward => exact keepsStake_of_insert rfl fun same => foreign (congrArg some same)
  | _ => exact keepsStake_of_positions rfl

end Pool
end Whirlpools
