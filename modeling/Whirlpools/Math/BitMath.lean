import Whirlpools.Machine

/-! # Checked multiplication and division -/

namespace Whirlpools

open Outcome

/-- The largest `u64`. -/
def u64Max : ℕ := 2 ^ 64 - 1

/-- `n0 * n1 / d` in `u128`, rounded as asked. -/
def checkedMulDivRoundUpIf (n0 n1 d : ℕ) (roundUp : Bool) : Result ℕ :=
  if d = 0 then err .divideByZero
  else if n0 * n1 ≥ 2 ^ 128 then err .mulDivOverflow
  else
    let p := n0 * n1
    let n := p / d
    .ok (if roundUp ∧ p % d > 0 then n + 1 else n)

def checkedMulDiv (n0 n1 d : ℕ) : Result ℕ := checkedMulDivRoundUpIf n0 n1 d false

def checkedMulDivRoundUp (n0 n1 d : ℕ) : Result ℕ := checkedMulDivRoundUpIf n0 n1 d true

/-- An integer `u128` times a Q64.64 number, as a `u64`, rounded as asked. -/
def checkedMulShiftRightRoundUpIf (n0 n1 : ℕ) (roundUp : Bool) : Result ℕ :=
  if n0 = 0 ∨ n1 = 0 then .ok 0
  else if n0 * n1 ≥ 2 ^ 128 then err .multiplicationShiftRightOverflow
  else
    let p := n0 * n1
    let result := p / 2 ^ 64
    let shouldRound := roundUp ∧ p % 2 ^ 64 > 0
    if shouldRound ∧ result = u64Max then err .multiplicationOverflow
    else .ok (if shouldRound then result + 1 else result)

def checkedMulShiftRight (n0 n1 : ℕ) : Result ℕ := checkedMulShiftRightRoundUpIf n0 n1 false

def divRoundUpIf (n d : ℕ) (roundUp : Bool) : Result ℕ :=
  if d = 0 then err .divideByZero
  else
    let q := n / d
    .ok (if roundUp ∧ n % d > 0 then q + 1 else q)

/-- A quotient of two four-word integers as a `u128`, rounded as asked. -/
def divRoundUpIfU256 (m : Machine) (n d : U256Muldiv) (roundUp : Bool) : Result ℕ :=
  m.div n d roundUp >>= fun (quotient, remainder) =>
    let result := if roundUp ∧ ¬ remainder.isZero then quotient.add (.new 0 1) else quotient
    result.tryIntoU128

end Whirlpools
