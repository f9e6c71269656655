import Whirlpools.Util.RemainingAccounts

/-! # Remaining accounts built by the SDK

The lengths of the SDK are plain numbers; they are written into the instruction as single bytes.
-/

namespace Whirlpools.Sdk

structure RemainingAccountsSliceData where
  accountsType : AccountsType
  length : ℕ

structure RemainingAccountsInfoData where
  slices : List RemainingAccountsSliceData

variable {α : Type}

structure RemainingAccountsBuilder (α : Type) where
  remainingAccounts : List α := []
  slices : List RemainingAccountsSliceData := []

namespace RemainingAccountsBuilder

/-- Add a slice; nothing is added for absent or empty accounts. -/
def addSlice (builder : RemainingAccountsBuilder α) (accountsType : AccountsType)
    (accounts : Option (List α)) : RemainingAccountsBuilder α :=
  match accounts with
  | none => builder
  | some accounts =>
      if accounts.length = 0 then builder
      else {
        slices := builder.slices ++ [⟨accountsType, accounts.length⟩]
        remainingAccounts := builder.remainingAccounts ++ accounts }

def build (builder : RemainingAccountsBuilder α) :
    Option RemainingAccountsInfoData × Option (List α) :=
  if builder.slices.length = 0 then (none, none)
  else (some ⟨builder.slices⟩, some builder.remainingAccounts)

end RemainingAccountsBuilder

/-- Write a slice into the instruction; a length beyond one byte is refused. -/
def RemainingAccountsSliceData.encode (slice : RemainingAccountsSliceData) :
    Option RemainingAccountsSlice :=
  if slice.length ≤ 255 then some ⟨slice.accountsType, BitVec.ofNat 8 slice.length⟩ else none

def RemainingAccountsInfoData.encode (info : RemainingAccountsInfoData) :
    Option RemainingAccountsInfo :=
  (info.slices.mapM RemainingAccountsSliceData.encode).map RemainingAccountsInfo.mk

/-- The optional data of an instruction. -/
def encodeInfo : Option RemainingAccountsInfoData → Option (Option RemainingAccountsInfo)
  | none => some none
  | some info => info.encode.map some

end Whirlpools.Sdk
