import Whirlpools.Math.TransferFees
import Whirlpools.Sdk.TokenExtensionUtil

/-! # Transfer fees on the chain and in the SDK

The SDK adds and removes transfer fees as the program does: both yield the least amount
that leaves a given one after its fee, and both fail where that amount exceeds `u64`.
-/

namespace Whirlpools.Sdk

open Outcome

/-- The rounded-up quotient of natural numbers. -/
theorem ceilDivBN_eq {num denom : ℕ} (positive : 0 < denom) :
    ceilDivBN num denom = .ok ((num ⌈/⌉ denom : ℕ) : ℤ) := by
  have numerator : (num : ℤ) + ((denom : ℤ) - 1) = ((num + denom - 1 : ℕ) : ℤ) := by omega
  unfold ceilDivBN BN.div
  rw [if_neg (by exact_mod_cast positive.ne'), Nat.ceilDiv_eq_add_pred_div, Int.ofNat_tdiv]
  exact congrArg (fun n : ℤ => Except.ok (n.tdiv denom)) numerator

section Agreement

variable {fee : TransferFee} {amount : ℕ}

/-- The final check of the SDK is on the including amount. -/
private theorem checked_eq {included : ℕ} (least : amount ≤ included)
    (result : TransferFeeIncludedAmount)
    (result_eq : result = ⟨(included : ℕ), (included : ℤ) - (amount : ℤ)⟩) :
    (if result.amount > u64Max then Except.error totalOverflow else .ok result :
      Attempt TransferFeeIncludedAmount) =
      if included < 2 ^ 64 then .ok ⟨(included : ℕ), (included - amount : ℕ)⟩
      else .error totalOverflow := by
  subst result_eq
  have limit : (included : ℤ) > u64Max ↔ ¬ included < 2 ^ 64 := by
    change (included : ℤ) > 2 ^ 64 - 1 ↔ _
    omega
  dsimp only
  rw [Nat.cast_sub least]
  by_cases small : included < 2 ^ 64
  · rw [if_pos small, if_neg (fun beyond => limit.mp beyond small)]
  · rw [if_neg small, if_pos (limit.mpr small)]

/-- The amount the SDK computes is the least one that includes the given amount. Without a rate it
is not checked to be a `u64`. -/
theorem sdkIncluded_unbounded (fee : TransferFee) (amount : ℕ) :
    calculateTransferFeeIncludedAmount fee amount =
      if fee.gross amount < 2 ^ 64 ∨ fee.transferFeeBasisPoints = 0 then
        .ok ⟨(fee.gross amount : ℕ), (fee.gross amount - amount : ℕ)⟩
      else .error totalOverflow := by
  have least := fee.le_gross amount
  unfold calculateTransferFeeIncludedAmount
  dsimp only
  by_cases free : fee.transferFeeBasisPoints = 0
  · rw [if_pos free, if_pos (.inr free), fee.gross_of_rate_zero free, Nat.sub_self]
    rfl
  simp only [free, or_false, if_false]
  by_cases zero : amount = 0
  · subst zero
    rw [if_pos Nat.cast_zero, fee.gross_zero, if_pos (by norm_num)]
    rfl
  rw [if_neg (by exact_mod_cast zero)]
  by_cases full : fee.transferFeeBasisPoints = maxFeeBasisPoints
  · rw [if_pos (by rw [full]; rfl)]
    refine checked_eq least ⟨(amount : ℤ) + fee.maximumFee, fee.maximumFee⟩ ?_
    rw [fee.gross_of_rate_full full zero, Nat.cast_add, add_sub_cancel_left]
  · have rate := lt_of_le_of_ne fee.rate full
    have num : (amount : ℤ) * 10000 = (amount * maxFeeBasisPoints : ℕ) := by
      rw [Nat.cast_mul]
      rfl
    have denom : (10000 : ℤ) - fee.transferFeeBasisPoints =
        (maxFeeBasisPoints - fee.transferFeeBasisPoints : ℕ) := by
      rw [Nat.cast_sub fee.rate]
      rfl
    rw [if_neg (by exact_mod_cast full), num, denom, ceilDivBN_eq (Nat.sub_pos_of_lt rate), ok_bind]
    refine checked_eq least _ ?_
    have whole := fee.le_rated rate amount
    rw [fee.gross_of_rate rate]
    generalize (amount * maxFeeBasisPoints) ⌈/⌉
      (maxFeeBasisPoints - fee.transferFeeBasisPoints) = raw at whole ⊢
    have capped : (raw : ℤ) - (amount : ℤ) ≥ fee.maximumFee ↔ raw - amount ≥ fee.maximumFee := by
      omega
    by_cases above : raw - amount ≥ fee.maximumFee
    · rw [if_pos above, Nat.cast_add, add_sub_cancel_left]
      exact if_pos (capped.mpr above)
    · rw [if_neg above]
      exact if_neg (mt capped.mp above)

/-- The SDK's amount with the fee is the one to send, unless it is too large. -/
theorem sdkIncluded_eq (fits : amount < 2 ^ 64) :
    calculateTransferFeeIncludedAmount fee amount =
      if fee.gross amount < 2 ^ 64 then
        .ok ⟨(fee.gross amount : ℕ), (fee.gross amount - amount : ℕ)⟩
      else .error totalOverflow := by
  rw [sdkIncluded_unbounded]
  by_cases free : fee.transferFeeBasisPoints = 0
  · rw [if_pos (.inr free), if_pos ((fee.gross_of_rate_zero free amount).trans_lt fits)]
  · simp only [free, or_false]

/-- The SDK's amount without the fee is what arrives. -/
theorem sdkExcluded_eq (spl : SplToken) (fee : TransferFee) (amount : ℕ) :
    calculateTransferFeeExcludedAmount spl fee amount =
      ⟨(fee.net amount : ℕ), (fee.feeOf amount : ℕ)⟩ := by
  have computed : spl.calculateFee fee amount = (fee.feeOf amount : ℕ) := by
    rw [spl.calculateFee_eq fee amount (Int.natCast_nonneg amount), Int.toNat_natCast]
    unfold TransferFee.feeOf
    push_cast
    rfl
  unfold calculateTransferFeeExcludedAmount
  rw [computed, TransferFee.net, Nat.cast_sub (fee.feeOf_le amount)]

/-- What the SDK leaves of an amount, for a mint with or without a fee. -/
theorem sdkExcludedOfMint_eq (spl : SplToken) (tokenMint : Option TransferFee) (amount : ℕ) :
    TokenExtensionUtil.calculateTransferFeeExcludedAmount spl amount tokenMint =
      ⟨((TransferFee.ofMint tokenMint).net amount : ℕ),
        ((TransferFee.ofMint tokenMint).feeOf amount : ℕ)⟩ := by
  cases tokenMint with
  | none =>
      have free : (TransferFee.ofMint none).net amount = amount := TransferFee.net_none _
      have without : (TransferFee.ofMint none).feeOf amount = 0 := Nat.min_zero _
      rw [free, without]
      rfl
  | some fee => exact sdkExcluded_eq spl fee amount

end Agreement

/-- The same amounts with the fee included. -/
def SameIncluded (chain : Whirlpools.TransferFeeIncludedAmount) (sdk : TransferFeeIncludedAmount) :
    Prop := sdk = ⟨chain.amount, chain.transferFee⟩

/-- The same amounts with the fee excluded. -/
def SameExcluded (chain : Whirlpools.TransferFeeExcludedAmount) (sdk : TransferFeeExcludedAmount) :
    Prop := sdk = ⟨chain.amount, chain.transferFee⟩

/-- What adding and removing the transfer fee of a mint promise, on the chain and in the SDK. -/
structure FeesInverse (lib : TokenLibrary) (spl : SplToken) (tokenMint : Option TransferFee) :
    Prop where
  /-- Removing the fee never fails. -/
  excluded : ∀ included : UInt64,
    Whirlpools.calculateTransferFeeExcludedAmount lib tokenMint included.toNat =
      .ok ⟨(TransferFee.ofMint tokenMint).net included.toNat,
        (TransferFee.ofMint tokenMint).feeOf included.toNat⟩
  /-- Adding it yields the least amount that leaves the given one, and fails beyond `u64`. -/
  included : ∀ amount : UInt64, ∃ least,
    IsLeast {included | (TransferFee.ofMint tokenMint).net included = amount.toNat} least ∧
    (least < 2 ^ 64 →
      Whirlpools.calculateTransferFeeIncludedAmount lib tokenMint amount.toNat =
        .ok ⟨least, least - amount.toNat⟩ ∧
      Whirlpools.calculateTransferFeeExcludedAmount lib tokenMint least =
        .ok ⟨amount.toNat, least - amount.toNat⟩) ∧
    (2 ^ 64 ≤ least →
      Whirlpools.calculateTransferFeeIncludedAmount lib tokenMint amount.toNat =
        err .transferFeeCalculationError)
  /-- The verification of the fee never finds another one. -/
  verified : ∀ fee, tokenMint = some fee → ∀ amount : UInt64, amount ≠ 0 → ∀ transferFee,
    inverseTransferFee lib fee amount.toNat = .ok transferFee →
    amount.toNat + transferFee < 2 ^ 64 →
      lib.calculateFee fee (amount.toNat + transferFee) = some transferFee
  sdkIncluded : ∀ amount : UInt64, Agree SameIncluded
    (Whirlpools.calculateTransferFeeIncludedAmount lib tokenMint amount.toNat)
    (TokenExtensionUtil.calculateTransferFeeIncludedAmount (amount.toNat : ℤ) tokenMint)
  sdkExcluded : ∀ included : UInt64, ∃ chain,
    Whirlpools.calculateTransferFeeExcludedAmount lib tokenMint included.toNat = .ok chain ∧
    SameExcluded chain (TokenExtensionUtil.calculateTransferFeeExcludedAmount spl
      (included.toNat : ℤ) tokenMint)

/-- The least including amount, on the chain and in the SDK. -/
theorem feesInverse (lib : TokenLibrary) (spl : SplToken) (tokenMint : Option TransferFee) :
    FeesInverse lib spl tokenMint where
  excluded := fun included => calculateTransferFeeExcludedAmount_eq included.toNat_lt
  included := by
    intro amount
    refine ⟨_, (TransferFee.ofMint tokenMint).gross_isLeast amount.toNat, fun small => ⟨?_, ?_⟩,
      fun large => ?_⟩
    · rw [calculateTransferFeeIncludedAmount_eq amount.toNat_lt, if_pos small]
    · rw [calculateTransferFeeExcludedAmount_eq small, TransferFee.net_gross,
        TransferFee.feeOf_gross]
    · rw [calculateTransferFeeIncludedAmount_eq amount.toNat_lt, if_neg (not_lt.mpr large)]
  verified := by
    rintro fee - amount nonzero transferFee returned small
    refine inverseTransferFee_verified amount.toNat_lt (Nat.pos_of_ne_zero fun zero => ?_) returned
      small
    exact nonzero (UInt64.toNat_inj.mp zero)
  sdkIncluded := by
    intro amount
    have fits := amount.toNat_lt
    rw [calculateTransferFeeIncludedAmount_eq fits]
    unfold TokenExtensionUtil.calculateTransferFeeIncludedAmount
    cases tokenMint with
    | none =>
        have free : (TransferFee.ofMint none).gross amount.toNat = amount.toNat :=
          TransferFee.gross_none _
        rw [free, if_pos fits, Nat.sub_self]
        exact .ok rfl
    | some fee =>
        have mint_eq : TransferFee.ofMint (some fee) = fee := rfl
        dsimp only
        rw [mint_eq, sdkIncluded_eq fits]
        exact .ite Iff.rfl (fun _ => .ok rfl) fun _ => .error _ _
  sdkExcluded := by
    intro included
    refine ⟨_, calculateTransferFeeExcludedAmount_eq included.toNat_lt, ?_⟩
    exact sdkExcludedOfMint_eq spl tokenMint included.toNat

/-- At 10% an amount of 9 is left of 10 and of 11; the least of them is taken. -/
example : calculateTransferFeeIncludedAmount ⟨1000, 10 ^ 9, by decide, by decide⟩ 9 =
    .ok ⟨10, 1⟩ := by
  decide +kernel

/-- The function of the token library, as its formula. -/
def SplToken.formulas : SplToken where
  calculateFee := fun fee amount => (fee.feeOf amount.toNat : ℕ)
  calculateFee_eq := fun _ _ _ => by
    unfold TransferFee.feeOf
    push_cast
    rfl

end Whirlpools.Sdk
