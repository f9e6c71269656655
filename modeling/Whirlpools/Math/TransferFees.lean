import Mathlib.Tactic.Linarith
import Mathlib.Tactic.NormNum.Basic
import Whirlpools.Foundation.Adjoint
import Whirlpools.Util.Token

/-! # Adding and removing transfer fees

Removing the fee from an amount is a monotone map that grows by at most one at each amount.
Its adjoint adds the fee: it yields the least amount that leaves a given one after the fee.
The program computes both, and its verification of the fee never fails.
-/

namespace Whirlpools

open Outcome

theorem maxFeeBasisPoints_pos : 0 < maxFeeBasisPoints := by decide

namespace TransferFee

variable (fee : TransferFee)

/-- The fee of an amount: its rate rounded up, up to the maximum fee. -/
def feeOf (amount : ℕ) : ℕ :=
  min ((amount * fee.transferFeeBasisPoints) ⌈/⌉ maxFeeBasisPoints) fee.maximumFee

/-- What is left of an amount after its fee. -/
def net (amount : ℕ) : ℕ := amount - fee.feeOf amount

/-- The least amount that leaves a given one after its fee. -/
def gross (amount : ℕ) : ℕ :=
  if fee.transferFeeBasisPoints = maxFeeBasisPoints then
    if amount = 0 then 0 else amount + fee.maximumFee
  else
    min ((amount * maxFeeBasisPoints) ⌈/⌉ (maxFeeBasisPoints - fee.transferFeeBasisPoints))
      (amount + fee.maximumFee)

theorem feeOf_le (amount : ℕ) : fee.feeOf amount ≤ amount := by
  refine (min_le_left _ _).trans ?_
  rw [ceilDiv_le_iff_le_mul maxFeeBasisPoints_pos, Nat.mul_comm]
  exact Nat.mul_le_mul_right _ fee.rate

theorem feeOf_mono : Monotone fee.feeOf := by
  intro lower upper ordered
  refine min_le_min ?_ le_rfl
  rw [Nat.ceilDiv_eq_add_pred_div, Nat.ceilDiv_eq_add_pred_div]
  exact Nat.div_le_div_right (Nat.sub_le_sub_right
    (Nat.add_le_add_right (Nat.mul_le_mul_right _ ordered) _) _)

/-- The rate leaves an amount of what includes it. -/
private theorem rate_leaves_iff (amount rest : ℕ) :
    ((amount + rest) * fee.transferFeeBasisPoints) ⌈/⌉ maxFeeBasisPoints ≤ rest ↔
      amount * maxFeeBasisPoints ≤
        (amount + rest) * (maxFeeBasisPoints - fee.transferFeeBasisPoints) := by
  obtain ⟨kept, split⟩ := Nat.exists_eq_add_of_le fee.rate
  rw [ceilDiv_le_iff_le_mul maxFeeBasisPoints_pos, split, Nat.add_sub_cancel_left]
  constructor <;> intro bound <;> nlinarith

/-- An amount is left after the fee when it is left after the rate, or after the maximum fee. -/
theorem le_net_iff (amount included : ℕ) :
    amount ≤ fee.net included ↔
      amount * maxFeeBasisPoints ≤ included * (maxFeeBasisPoints - fee.transferFeeBasisPoints) ∨
        amount + fee.maximumFee ≤ included ∨ amount = 0 := by
  have withheld := fee.feeOf_le included
  unfold net
  by_cases inside : amount ≤ included
  · obtain ⟨rest, rfl⟩ := Nat.exists_eq_add_of_le inside
    have split : fee.feeOf (amount + rest) ≤ rest ↔ _ ≤ rest ∨ fee.maximumFee ≤ rest := min_le_iff
    rw [rate_leaves_iff] at split
    rw [← or_assoc, Nat.add_le_add_iff_left, ← split]
    omega
  · have rated : ¬ amount * maxFeeBasisPoints ≤
        included * (maxFeeBasisPoints - fee.transferFeeBasisPoints) := by
      intro bound
      have less : included * (maxFeeBasisPoints - fee.transferFeeBasisPoints) ≤
          included * maxFeeBasisPoints := Nat.mul_le_mul_left _ (Nat.sub_le _ _)
      exact inside (Nat.le_of_mul_le_mul_right (bound.trans less) maxFeeBasisPoints_pos)
    omega

/-- Adding the fee is adjoint to removing it. -/
theorem gross_adjoint : GaloisConnection fee.gross fee.net := by
  intro amount included
  rw [le_net_iff]
  unfold gross
  by_cases whole : fee.transferFeeBasisPoints = maxFeeBasisPoints
  · rw [if_pos whole, whole, Nat.sub_self, Nat.mul_zero, Nat.le_zero, Nat.mul_eq_zero,
      or_iff_left maxFeeBasisPoints_pos.ne']
    split_ifs <;> omega
  · have kept : 0 < maxFeeBasisPoints - fee.transferFeeBasisPoints :=
      Nat.sub_pos_of_lt (lt_of_le_of_ne fee.rate whole)
    rw [if_neg whole, min_le_iff, ceilDiv_le_iff_le_mul kept, Nat.mul_comm _ included, ← or_assoc]
    refine (or_iff_left_of_imp ?_).symm
    rintro rfl
    left
    rw [Nat.zero_mul]
    exact Nat.zero_le _

theorem net_zero : fee.net 0 = 0 := Nat.zero_sub _

/-- What is left grows by at most one with each unit. -/
theorem net_succ_le (amount : ℕ) : fee.net (amount + 1) ≤ fee.net amount + 1 := by
  have more : fee.feeOf amount ≤ fee.feeOf (amount + 1) := fee.feeOf_mono (Nat.le_succ amount)
  have withheld := fee.feeOf_le amount
  unfold net
  omega

/-- What is sent to deliver an amount delivers it. -/
theorem net_gross (amount : ℕ) : fee.net (fee.gross amount) = amount :=
  fee.gross_adjoint.upper_lower_eq fee.net_zero fee.net_succ_le amount

/-- The amount to send is the least that delivers what was asked for. -/
theorem gross_isLeast (amount : ℕ) :
    IsLeast {included | fee.net included = amount} (fee.gross amount) :=
  fee.gross_adjoint.isLeast_lower fee.net_zero fee.net_succ_le amount

/-- What is sent is at least what arrives. -/
theorem le_gross (amount : ℕ) : amount ≤ fee.gross amount := by
  have left := fee.net_gross amount
  unfold net at left
  omega

/-- The fee within the least including amount is what was added. -/
theorem feeOf_gross (amount : ℕ) : fee.feeOf (fee.gross amount) = fee.gross amount - amount := by
  have left := fee.net_gross amount
  have withheld := fee.feeOf_le (fee.gross amount)
  unfold net at left
  omega

theorem gross_zero : fee.gross 0 = 0 :=
  Nat.le_zero.mp ((fee.gross_adjoint 0 0).mpr (Nat.zero_le _))

/-- Without a rate nothing is withheld. -/
theorem gross_of_rate_zero (zero : fee.transferFeeBasisPoints = 0) (amount : ℕ) :
    fee.gross amount = amount := by
  have free : fee.feeOf (fee.gross amount) = 0 := by
    rw [feeOf, zero, Nat.mul_zero, zero_ceilDiv, Nat.zero_min]
  have least := fee.le_gross amount
  rw [feeOf_gross] at free
  omega

/-- At the full rate the maximum fee is withheld. -/
theorem gross_of_rate_full (full : fee.transferFeeBasisPoints = maxFeeBasisPoints) {amount : ℕ}
    (nonzero : amount ≠ 0) : fee.gross amount = amount + fee.maximumFee := by
  rw [gross, if_pos full, if_neg nonzero]

/-- The rate alone withholds from no less than the amount. -/
theorem le_rated (rate : fee.transferFeeBasisPoints < maxFeeBasisPoints) (amount : ℕ) :
    amount ≤ (amount * maxFeeBasisPoints) ⌈/⌉
      (maxFeeBasisPoints - fee.transferFeeBasisPoints) := by
  have least := fee.le_gross amount
  rw [gross, if_neg rate.ne] at least
  exact least.trans (min_le_left _ _)

/-- Below the full rate the maximum fee is withheld when the rate would withhold as much. -/
theorem gross_of_rate (rate : fee.transferFeeBasisPoints < maxFeeBasisPoints) (amount : ℕ) :
    fee.gross amount =
      if (amount * maxFeeBasisPoints) ⌈/⌉ (maxFeeBasisPoints - fee.transferFeeBasisPoints) -
          amount ≥ fee.maximumFee then amount + fee.maximumFee
      else (amount * maxFeeBasisPoints) ⌈/⌉ (maxFeeBasisPoints - fee.transferFeeBasisPoints) := by
  have capped := fee.le_rated rate amount
  rw [gross, if_neg rate.ne]
  split_ifs with cap
  · exact min_eq_right (by omega)
  · exact min_eq_left (by omega)

/-- No fee, as for a mint without the extension. -/
def none : TransferFee := ⟨0, 0, by decide, by decide⟩

/-- The transfer fee of a mint. -/
def ofMint (tokenMint : Option TransferFee) : TransferFee := tokenMint.getD TransferFee.none

theorem net_none (amount : ℕ) : TransferFee.none.net amount = amount := by
  rw [net, feeOf, TransferFee.none, Nat.min_zero, Nat.sub_zero]

theorem gross_none (amount : ℕ) : TransferFee.none.gross amount = amount :=
  TransferFee.none.gross_of_rate_zero rfl amount

end TransferFee

/-- The functions of the token library, as their formulas. -/
def TokenLibrary.formulas : TokenLibrary where
  calculateFee := fun fee amount => some (fee.feeOf amount)
  calculateFee_eq := fun _ _ _ => rfl
  calculateInverseFee := fun fee amount =>
    let raw := (amount * maxFeeBasisPoints) ⌈/⌉ (maxFeeBasisPoints - fee.transferFeeBasisPoints)
    let preFeeAmount := if raw - amount ≥ fee.maximumFee then amount + fee.maximumFee else raw
    if preFeeAmount < 2 ^ 64 then some (fee.feeOf preFeeAmount) else none
  calculateInverseFee_eq := fun _ _ _ _ => rfl

section Program

variable {lib : TokenLibrary} {tokenMint : Option TransferFee} {fee : TransferFee} {amount : ℕ}

/-- The program removes the fee without failing. -/
theorem calculateTransferFeeExcludedAmount_eq (fits : amount < 2 ^ 64) :
    calculateTransferFeeExcludedAmount lib tokenMint amount =
      .ok ⟨(TransferFee.ofMint tokenMint).net amount,
        (TransferFee.ofMint tokenMint).feeOf amount⟩ := by
  cases tokenMint with
  | none =>
      change Except.ok _ = Except.ok (⟨TransferFee.none.net amount, _⟩ : TransferFeeExcludedAmount)
      rw [TransferFee.net_none, TransferFee.ofMint, Option.getD_none, TransferFee.feeOf,
        TransferFee.none, Nat.min_zero]
  | some fee =>
      have computed : lib.calculateFee fee amount = some (fee.feeOf amount) :=
        lib.calculateFee_eq fee amount fits
      unfold calculateTransferFeeExcludedAmount
      dsimp only
      rw [computed, okOr, ok_bind, if_neg (not_lt.mpr (fee.feeOf_le amount))]
      rfl

/-- The inverse fee of the library is the fee added by the least including amount. -/
theorem calculateInverseFee_gross (fits : amount < 2 ^ 64)
    (rate : fee.transferFeeBasisPoints < maxFeeBasisPoints) :
    lib.calculateInverseFee fee amount =
      if fee.gross amount < 2 ^ 64 then some (fee.gross amount - amount) else none := by
  rw [lib.calculateInverseFee_eq fee amount fits rate]
  dsimp only
  rw [← fee.gross_of_rate rate]
  split_ifs with small
  · rw [lib.calculateFee_eq fee _ small]
    exact congrArg some (fee.feeOf_gross amount)
  · rfl

/-- The fee to add is what the least including amount adds, unless that amount exceeds `u64`. -/
theorem inverseTransferFee_eq (fits : amount < 2 ^ 64) (positive : 0 < amount) :
    inverseTransferFee lib fee amount = .ok (fee.gross amount - amount) ∨
      (2 ^ 64 ≤ fee.gross amount ∧
        inverseTransferFee lib fee amount = err .transferFeeCalculationError) := by
  unfold inverseTransferFee
  by_cases whole : fee.transferFeeBasisPoints = maxFeeBasisPoints
  · left
    rw [if_pos whole, fee.gross_of_rate_full whole positive.ne', Nat.add_sub_cancel_left]
  · rw [if_neg whole, calculateInverseFee_gross fits (lt_of_le_of_ne fee.rate whole)]
    split_ifs with small
    · exact .inl rfl
    · exact .inr ⟨not_lt.mp small, rfl⟩

/-- The verification of the fee agrees whenever it is reached. -/
theorem inverseTransferFee_verified {transferFee : ℕ} (fits : amount < 2 ^ 64)
    (positive : 0 < amount) (returned : inverseTransferFee lib fee amount = .ok transferFee)
    (small : amount + transferFee < 2 ^ 64) :
    lib.calculateFee fee (amount + transferFee) = some transferFee := by
  have least := fee.le_gross amount
  rcases @inverseTransferFee_eq lib fee _ fits positive with computed | ⟨-, failed⟩
  · obtain rfl := Except.ok.inj (computed.symm.trans returned)
    rw [Nat.add_sub_cancel' least] at small ⊢
    rw [lib.calculateFee_eq fee _ small]
    exact congrArg some (fee.feeOf_gross amount)
  · exact absurd (failed.symm.trans returned) (by simp only [reduceCtorEq, not_false_eq_true])

/-- The program adds the fee of the least including amount, and fails when it exceeds `u64`. -/
theorem calculateTransferFeeIncludedAmount_eq (fits : amount < 2 ^ 64) :
    calculateTransferFeeIncludedAmount lib tokenMint amount =
      if (TransferFee.ofMint tokenMint).gross amount < 2 ^ 64 then
        .ok ⟨(TransferFee.ofMint tokenMint).gross amount,
          (TransferFee.ofMint tokenMint).gross amount - amount⟩
      else err .transferFeeCalculationError := by
  unfold calculateTransferFeeIncludedAmount
  by_cases zero : amount = 0
  · subst zero
    rw [if_pos rfl, TransferFee.gross_zero, if_pos (by norm_num)]
  · rw [if_neg zero]
    cases tokenMint with
    | none =>
        dsimp only
        rw [TransferFee.ofMint, Option.getD_none, TransferFee.gross_none, if_pos fits, Nat.sub_self]
    | some fee =>
        have mint_eq : TransferFee.ofMint (some fee) = fee := rfl
        dsimp only
        rw [mint_eq]
        have least := fee.le_gross amount
        rcases @inverseTransferFee_eq lib fee _ fits (Nat.pos_of_ne_zero zero) with
          computed | ⟨large, failed⟩
        · have verified := inverseTransferFee_verified fits (Nat.pos_of_ne_zero zero) computed
          rw [Nat.add_sub_cancel' least] at verified
          rw [computed, ok_bind, Nat.add_sub_cancel' least]
          by_cases small : fee.gross amount < 2 ^ 64
          · rw [if_neg (not_le.mpr small), if_pos small, verified small, okOr, ok_bind,
              if_neg (not_not.mpr rfl)]
          · rw [if_pos (not_lt.mp small), if_neg small]
        · rw [failed, if_neg (not_lt.mpr large)]
          rfl

end Program
end Whirlpools
