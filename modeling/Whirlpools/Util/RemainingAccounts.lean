import Whirlpools.Errors

/-! # Remaining accounts

Accounts beyond the fixed ones of an instruction come as one list; the slices of the instruction
data say how many of them, in order, belong to each accounts type.
-/

namespace Whirlpools

open Outcome

inductive AccountsType where
  | transferHookA
  | transferHookB
  | transferHookReward
  | transferHookInput
  | transferHookIntermediate
  | transferHookOutput
  deriving DecidableEq, Repr

structure RemainingAccountsSlice where
  accountsType : AccountsType
  length : BitVec 8
  deriving DecidableEq

structure RemainingAccountsInfo where
  slices : List RemainingAccountsSlice

variable {α : Type}

/-- The accounts found for each accounts type. -/
structure ParsedRemainingAccounts (α : Type) where
  transferHookA : Option (List α) := none
  transferHookB : Option (List α) := none
  transferHookReward : Option (List α) := none
  transferHookInput : Option (List α) := none
  transferHookIntermediate : Option (List α) := none
  transferHookOutput : Option (List α) := none

namespace ParsedRemainingAccounts

/-- The field of an accounts type. -/
def field (parsed : ParsedRemainingAccounts α) : AccountsType → Option (List α)
  | .transferHookA => parsed.transferHookA
  | .transferHookB => parsed.transferHookB
  | .transferHookReward => parsed.transferHookReward
  | .transferHookInput => parsed.transferHookInput
  | .transferHookIntermediate => parsed.transferHookIntermediate
  | .transferHookOutput => parsed.transferHookOutput

/-- Write the field of an accounts type. -/
def setField (parsed : ParsedRemainingAccounts α) (accounts : List α) :
    AccountsType → ParsedRemainingAccounts α
  | .transferHookA => { parsed with transferHookA := some accounts }
  | .transferHookB => { parsed with transferHookB := some accounts }
  | .transferHookReward => { parsed with transferHookReward := some accounts }
  | .transferHookInput => { parsed with transferHookInput := some accounts }
  | .transferHookIntermediate => { parsed with transferHookIntermediate := some accounts }
  | .transferHookOutput => { parsed with transferHookOutput := some accounts }

/-- Store the accounts of a slice in a field that holds none yet. -/
def store (parsed : ParsedRemainingAccounts α) (accountsType : AccountsType) (accounts : List α) :
    Result (ParsedRemainingAccounts α) :=
  if (parsed.field accountsType).isSome then err .remainingAccountsDuplicatedAccountsType
  else .ok (parsed.setField accounts accountsType)

end ParsedRemainingAccounts

/-- Take the next accounts off the list, one by one. -/
def nextAccounts : ℕ → List α → Result (List α × List α)
  | 0, remaining => .ok ([], remaining)
  | _ + 1, [] => err .remainingAccountsInsufficient
  | length + 1, account :: remaining =>
      nextAccounts length remaining >>= fun taken => .ok (account :: taken.1, taken.2)

/-- One slice: its type is checked first, an empty slice is skipped, and the accounts are taken
before the field is looked at. The state is the rest of the accounts and the fields so far. -/
def parseSlice (validAccountsTypeList : List AccountsType)
    (state : List α × ParsedRemainingAccounts α) (slice : RemainingAccountsSlice) :
    Result (List α × ParsedRemainingAccounts α) :=
  if slice.accountsType ∉ validAccountsTypeList then err .remainingAccountsInvalidSlice
  else if slice.length = 0 then .ok state
  else
    nextAccounts slice.length.toNat state.1 >>= fun taken =>
    state.2.store slice.accountsType taken.1 >>= fun parsed =>
    .ok (taken.2, parsed)

def parseRemainingAccounts (remainingAccounts : List α)
    (remainingAccountsInfo : Option RemainingAccountsInfo)
    (validAccountsTypeList : List AccountsType) : Result (ParsedRemainingAccounts α) :=
  match remainingAccountsInfo with
  | none => .ok {}
  | some info =>
      info.slices.foldlM (parseSlice validAccountsTypeList) (remainingAccounts, {}) >>= fun state =>
      .ok state.2

namespace ParsedRemainingAccounts

@[simp] theorem field_empty (accountsType : AccountsType) :
    ({} : ParsedRemainingAccounts α).field accountsType = none := by
  cases accountsType <;> rfl

/-- Setting the accounts of one type leaves those of the others. -/
theorem field_setField (parsed : ParsedRemainingAccounts α) (accounts : List α)
    (accountsType other : AccountsType) : (parsed.setField accounts accountsType).field other =
      if other = accountsType then some accounts else parsed.field other := by
  cases accountsType <;> cases other <;> rfl

end ParsedRemainingAccounts

/-- The next accounts are a prefix of the list, if it is long enough. -/
theorem nextAccounts_eq (length : ℕ) (remaining : List α) :
    nextAccounts length remaining =
      if length ≤ remaining.length then .ok (remaining.take length, remaining.drop length)
      else err .remainingAccountsInsufficient := by
  induction length generalizing remaining with
  | zero => rw [if_pos (Nat.zero_le _), List.take_zero, List.drop_zero, nextAccounts]
  | succ length ih =>
      cases remaining with
      | nil => rw [nextAccounts, List.length_nil, if_neg (Nat.not_succ_le_zero length)]
      | cons account remaining =>
          rw [nextAccounts, ih, List.length_cons]
          by_cases enough : length ≤ remaining.length
          · rw [if_pos enough, if_pos (Nat.succ_le_succ enough), ok_bind, List.take_succ_cons,
              List.drop_succ_cons]
          · rw [if_neg enough, if_neg (fun more => enough (Nat.le_of_succ_le_succ more))]
            rfl

/-- What a slice does when it is accepted, an empty one included. -/
theorem parseSlice_eq_ok {valid : List AccountsType} {remaining : List α}
    {parsed : ParsedRemainingAccounts α} {slice : RemainingAccountsSlice}
    {next : List α × ParsedRemainingAccounts α} :
    parseSlice valid (remaining, parsed) slice = .ok next ↔
      slice.accountsType ∈ valid ∧ slice.length.toNat ≤ remaining.length ∧
        (slice.length ≠ 0 → parsed.field slice.accountsType = none) ∧
        next = (remaining.drop slice.length.toNat,
          if slice.length = 0 then parsed
          else parsed.setField (remaining.take slice.length.toNat) slice.accountsType) := by
  unfold parseSlice
  rw [guard_eq_ok, not_not]
  refine and_congr_right fun _ => ?_
  by_cases empty : slice.length = 0
  · rw [if_pos empty, if_pos empty, empty, Except.ok.injEq]
    simp only [BitVec.ofNat_eq_ofNat, BitVec.toNat_ofNat, Nat.zero_mod, Nat.zero_le, ne_eq,
      not_true_eq_false, false_implies, List.drop_zero, true_and]
    exact eq_comm
  · rw [if_neg empty, if_neg empty, nextAccounts_eq]
    by_cases enough : slice.length.toNat ≤ remaining.length
    · rw [if_pos enough, ok_bind]
      unfold ParsedRemainingAccounts.store
      cases held : parsed.field slice.accountsType with
      | none =>
          simp only [Option.isSome_none, Bool.false_eq_true, ↓reduceIte, ok_bind, Except.ok.injEq,
            enough, implies_true, true_and]
          exact eq_comm
      | some accounts =>
          have filled : slice.length ≠ 0#8 := empty
          simp [filled]
    · rw [if_neg enough, error_bind]
      simp [enough]

end Whirlpools
