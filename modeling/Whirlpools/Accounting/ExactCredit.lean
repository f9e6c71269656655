import Whirlpools.Accounting.Invariant

/-! # What a position is owed exactly

The program gives up a credit whose product overflows, and wraps the amounts owed. Its amount is the
exact one where that fits, and the exact fees always fit: the vaults bound them.
-/

namespace Whirlpools

open Outcome Ledger

/-- What a position is credited: nothing where the product overflows. -/
theorem amountOwedDelta_eq (liquidity growth : ℕ) : amountOwedDelta liquidity growth =
    if liquidity * growth < 2 ^ 128 then liquidity * growth / 2 ^ 64 else 0 := by
  unfold amountOwedDelta checkedMulShiftRight checkedMulShiftRightRoundUpIf
  by_cases zero : liquidity = 0 ∨ growth = 0
  · rw [if_pos zero, Nat.mul_eq_zero.mpr zero]
    rfl
  · rw [if_neg zero]
    by_cases fits : liquidity * growth < 2 ^ 128
    · rw [if_neg (not_le.mpr fits), if_pos fits]
      simp only [Bool.false_eq_true, false_and, ↓reduceIte]
      rfl
    · rw [if_pos (not_lt.mp fits), if_neg fits]
      rfl

/-- The program's amount is the exact one where that fits. -/
theorem credited_eq_iff (owed liquidity growth : ℕ) :
    wrappingAdd 64 owed (amountOwedDelta liquidity growth) = owed + liquidity * growth / 2 ^ 64 ↔
      owed + liquidity * growth / 2 ^ 64 < 2 ^ 64 := by
  have small : wrappingAdd 64 owed (amountOwedDelta liquidity growth) < 2 ^ 64 :=
    Nat.mod_lt _ (Nat.two_pow_pos 64)
  refine ⟨fun same => same ▸ small, fun fits => ?_⟩
  have product : liquidity * growth < 2 ^ 128 := by
    have quotient : liquidity * growth / 2 ^ 64 < 2 ^ 64 := by omega
    have bound := (Nat.div_lt_iff_lt_mul (Nat.two_pow_pos 64)).mp quotient
    rwa [← pow_add] at bound
  rw [amountOwedDelta_eq, if_pos product]
  exact Nat.mod_eq_of_lt fits

/-- The exact amount owed to a position once the growth of a market is credited, rounded down. -/
def exactOwed (market : Market) (channel : Channel) (position : Position) : ℕ :=
  position.owed channel + position.liquidity * market.growthSince channel position / 2 ^ 64

/-- Accruing rewards changes no fees. -/
theorem exactOwed_accrue (market : Market) (infos : Fin numRewards → WhirlpoolRewardInfo)
    (isTokenA : Bool) (position : Position) :
    exactOwed (market.accrue infos) (.fee isTokenA) position =
      exactOwed market (.fee isTokenA) position := by
  cases isTokenA <;> rfl

/-- A position without liquidity is owed what it was credited before. -/
theorem exactOwed_of_empty (market : Market) (channel : Channel) {position : Position}
    (empty : position.liquidity = 0) : exactOwed market channel position =
      position.owed channel := by
  rw [exactOwed, empty, Nat.zero_mul, Nat.zero_div, Nat.add_zero]

/-- What a position is owed once it is up to date is the exact amount where that fits. -/
theorem Modifies.owed_eq_exactOwed_iff {m : Machine} {market : Market} {position : Position}
    {liquidityDelta : ℤ} {update : ModifyLiquidityUpdate}
    (modifies : Modifies m market position liquidityDelta update) (channel : Channel) :
    (position.update update.positionUpdate).owed channel = exactOwed market channel position ↔
      exactOwed market channel position < 2 ^ 64 := by
  rw [modifies.owed]
  exact credited_eq_iff _ _ _

namespace Pool

variable {m : Machine} {pool : Pool} {positionMint : Pubkey} {position : Position}

/-- The fees of a position are in the vault, which bounds them. -/
theorem Consistent.exactOwed_lt (consistent : pool.Consistent)
    (found : pool.positions.lookup positionMint = some position) (isTokenA : Bool) :
    exactOwed pool.market (.fee isTokenA) position < 2 ^ 64 := by
  have solvent := consistent.solvent isTokenA
  have fits : (pool.vault isTokenA : ℚ) < 2 ^ 64 := by exact_mod_cast consistent.fits isTokenA
  have owed := le_total (fun position : Position => position.owed (.fee isTokenA))
    (fun _ _ => Nat.zero_le _) found
  have pending := le_total (pool.market.pending (.fee isTokenA))
    (fun position _ => pool.market.pending_nonneg _ position) found
  have tokens := holdings_nonneg consistent.booked.ranges isTokenA pool.market.sqrtPrice
  have protocol : (0 : ℚ) ≤ pool.protocolFeeOwed isTokenA := Nat.cast_nonneg _
  have owedCast : (position.owed (.fee isTokenA) : ℚ) ≤ pool.feesOwed isTokenA := by
    exact_mod_cast owed
  have down : ((position.liquidity * pool.market.growthSince (.fee isTokenA) position /
      2 ^ 64 : ℕ) : ℚ) ≤ pool.market.pending (.fee isTokenA) position := by
    unfold Market.pending
    exact_mod_cast Nat.cast_div_le (α := ℚ)
  unfold obligations Market.claims Market.totalPending at solvent
  have small : (exactOwed pool.market (.fee isTokenA) position : ℚ) < 2 ^ 64 := by
    unfold exactOwed
    rw [Nat.cast_add]
    linarith
  exact_mod_cast small

/-- A position that is brought up to date is owed its exact fees. -/
theorem Consistent.owed_fee_eq (consistent : pool.Consistent)
    (found : pool.positions.lookup positionMint = some position)
    {infos : Fin numRewards → WhirlpoolRewardInfo} {liquidityDelta : ℤ}
    {update : ModifyLiquidityUpdate}
    (modifies : Modifies m (pool.market.accrue infos) position liquidityDelta update)
    (isTokenA : Bool) : (position.update update.positionUpdate).owed (.fee isTokenA) =
      exactOwed pool.market (.fee isTokenA) position := by
  rw [← exactOwed_accrue pool.market infos]
  refine (modifies.owed_eq_exactOwed_iff _).mpr ?_
  rw [exactOwed_accrue]
  exact consistent.exactOwed_lt found isTokenA

end Pool
end Whirlpools
