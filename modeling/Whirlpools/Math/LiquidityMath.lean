import Whirlpools.Machine

/-! # Signed changes of liquidity -/

namespace Whirlpools

open Outcome

/-- Add a signed delta to a `u128` liquidity, refusing overflow and underflow. -/
def addLiquidityDelta (m : Machine) (liquidity : ℕ) (delta : ℤ) : Result ℕ :=
  if delta = 0 then .ok liquidity
  else if delta > 0 then
    if liquidity + delta.toNat < 2 ^ 128 then .ok (liquidity + delta.toNat)
    else err .liquidityOverflow
  else
    m.plainAbs delta >>= fun magnitude =>
      if magnitude ≤ liquidity then .ok (liquidity - magnitude)
      else err .liquidityUnderflow

/-- An unsigned liquidity amount as an `i128` delta. -/
def convertToLiquidityDelta (liquidityAmount : ℕ) (positive : Bool) : Result ℤ :=
  if liquidityAmount > 2 ^ 127 - 1 then err .liquidityTooHigh
  else .ok (if positive then (liquidityAmount : ℤ) else -(liquidityAmount : ℤ))

/-- What is returned is the exact sum, within `u128` when the liquidity was. -/
theorem addLiquidityDelta_eq_ok {m : Machine} {liquidity next : ℕ} {delta : ℤ}
    (returned : addLiquidityDelta m liquidity delta = .ok next) :
    (next : ℤ) = liquidity + delta ∧ (liquidity < 2 ^ 128 → next < 2 ^ 128) := by
  unfold addLiquidityDelta at returned
  split_ifs at returned with zero positive fits
  · have := Except.ok.inj returned
    omega
  · have := Except.ok.inj returned
    omega
  · obtain ⟨magnitude, absolute, returned⟩ := bind_eq_ok.mp returned
    have exact := m.plainAbs_eq absolute
    split_ifs at returned with enough
    have := Except.ok.inj returned
    omega

/-- A sum that fits is returned, unless the delta is the least `i128`. -/
theorem addLiquidityDelta_of_fits (m : Machine) {liquidity : ℕ} {delta : ℤ}
    (nonnegative : 0 ≤ (liquidity : ℤ) + delta) (small : (liquidity : ℤ) + delta < 2 ^ 128)
    (bounded : delta ≠ -2 ^ 127) :
    addLiquidityDelta m liquidity delta = .ok ((liquidity : ℤ) + delta).toNat := by
  unfold addLiquidityDelta
  split_ifs with zero positive fits
  · subst zero
    congr 1
  · congr 1
    omega
  · omega
  · rw [m.plainAbs_of_ne bounded, ok_bind, if_pos (by omega)]
    congr 1
    omega

/-- A liquidity amount converts when it fits in the positive half of its type, and then keeps its
value with the sign asked for. -/
theorem convertToLiquidityDelta_eq_ok {liquidityAmount : ℕ} {positive : Bool} {delta : ℤ}
    (returned : convertToLiquidityDelta liquidityAmount positive = .ok delta) :
    liquidityAmount < 2 ^ 127 ∧
      delta = if positive then (liquidityAmount : ℤ) else -(liquidityAmount : ℤ) := by
  rw [convertToLiquidityDelta, guard_eq_ok] at returned
  exact ⟨by omega, (Except.ok.inj returned.2).symm⟩

end Whirlpools
