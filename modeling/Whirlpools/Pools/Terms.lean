import Whirlpools.Instructions.Writes

/-! # The terms of a pool

A pool is created with its tick spacing, its two tokens in order, and its rates. Only the setters
change its rates, and within their bounds. So the two mints of a reachable pool are different.
-/

namespace Whirlpools

open Outcome Ledger

/-- What a pool is created with, and its rates. -/
structure Terms where
  tickSpacing : ℕ
  feeRate : ℕ
  protocolFeeRate : ℕ
  tokenMintA : Pubkey
  tokenVaultA : Pubkey
  tokenMintB : Pubkey
  tokenVaultB : Pubkey

def Whirlpool.terms (whirlpool : Whirlpool) : Terms where
  tickSpacing := whirlpool.tickSpacing
  feeRate := whirlpool.feeRate
  protocolFeeRate := whirlpool.protocolFeeRate
  tokenMintA := whirlpool.tokenMintA
  tokenVaultA := whirlpool.tokenVaultA
  tokenMintB := whirlpool.tokenMintB
  tokenVaultB := whirlpool.tokenVaultB

/-- The mint of token A comes before the mint of token B. -/
def Whirlpool.MintsOrdered (whirlpool : Whirlpool) : Prop :=
  whirlpool.tokenMintA < whirlpool.tokenMintB

/-- The terms after a successful instruction. -/
def Instruction.newTerms (terms : Terms) : Instruction → Terms
  | .setFeeRate feeRate => { terms with feeRate := feeRate }
  | .setProtocolFeeRate protocolFeeRate => { terms with protocolFeeRate := protocolFeeRate }
  | _ => terms

namespace Pool

variable {m : Machine} {pool pool' : Pool} {receipt : Receipt}

/-- Only the two setters change the terms of a pool. -/
theorem execute_terms {instruction : Instruction}
    (returned : pool.execute m instruction = .ok (pool', receipt)) :
    pool'.whirlpool.terms = instruction.newTerms pool.whirlpool.terms := by
  cases execute_eq_ok.mp returned with
  | increaseLiquidity modified _ _ deposited =>
      obtain ⟨_, _, _, -, synced_eq⟩ := modifyLiquidity_writes modified
      rw [(deposit_eq_ok deposited).1, synced_eq]
      rfl
  | decreaseLiquidity modified _ _ withdrawn =>
      obtain ⟨_, _, _, -, synced_eq⟩ := modifyLiquidity_writes modified
      rw [(withdraw_eq_ok withdrawn).1, synced_eq]
      rfl
  | swap _ _ written moved =>
      obtain ⟨-, whirlpool_eq, -⟩ := updateAfterSwap_eq_ok written
      rw [(performSwap_eq_ok moved).1, whirlpool_eq]
      rfl
  | collectFees _ withdrawn =>
      rw [(withdraw_eq_ok withdrawn).1]
      rfl
  | collectProtocolFees withdrawn =>
      rw [(withdraw_eq_ok withdrawn).1]
      rfl
  | _ => rfl


/-- The rates are within their bounds. -/
structure Capped (pool : Pool) : Prop where
  feeRate : pool.whirlpool.feeRate ≤ maxFeeRate
  protocolFeeRate : pool.whirlpool.protocolFeeRate ≤ maxProtocolFeeRate

/-- A new pool has its rates within their caps. -/
theorem create_capped {config : WhirlpoolsConfig} {tickSpacing defaultFeeRate sqrtPrice : ℕ}
    {tokenMintA tokenVaultA tokenMintB tokenVaultB : Pubkey}
    (returned : create config tickSpacing defaultFeeRate sqrtPrice tokenMintA tokenVaultA tokenMintB
      tokenVaultB = .ok pool) : pool.Capped := by
  simp only [create, Whirlpool.initializeWhirlpool, Whirlpool.updateFeeRate,
    Whirlpool.updateProtocolFeeRate, bind_eq_ok, guard_eq_ok, Except.ok.injEq, not_lt, gt_iff_lt]
    at returned
  obtain ⟨_, ⟨-, -, _, ⟨fee, rfl⟩, _, ⟨protocolFee, rfl⟩, rfl⟩, rfl⟩ := returned
  exact ⟨fee, protocolFee⟩

/-- Every instruction keeps the rates within their caps. -/
theorem Capped.execute {instruction : Instruction} (capped : pool.Capped)
    (returned : pool.execute m instruction = .ok (pool', receipt)) : pool'.Capped := by
  have terms := execute_terms returned
  have feeRate := congrArg Terms.feeRate terms
  have protocolFeeRate := congrArg Terms.protocolFeeRate terms
  unfold Whirlpool.terms at feeRate protocolFeeRate
  cases execute_eq_ok.mp returned with
  | setFeeRate bounded => exact ⟨bounded, capped.protocolFeeRate⟩
  | setProtocolFeeRate bounded => exact ⟨capped.feeRate, bounded⟩
  | _ => exact ⟨feeRate.trans_le capped.feeRate, protocolFeeRate.trans_le capped.protocolFeeRate⟩

theorem create_mintsOrdered {config : WhirlpoolsConfig} {tickSpacing defaultFeeRate sqrtPrice : ℕ}
    {tokenMintA tokenVaultA tokenMintB tokenVaultB : Pubkey}
    (returned : create config tickSpacing defaultFeeRate sqrtPrice tokenMintA tokenVaultA tokenMintB
      tokenVaultB = .ok pool) : pool.whirlpool.MintsOrdered := by
  simp only [create, Whirlpool.initializeWhirlpool, bind_eq_ok, guard_eq_ok, Except.ok.injEq]
    at returned
  obtain ⟨whirlpool, ⟨order, -, _, -, _, -, rfl⟩, rfl⟩ := returned
  exact not_le.mp order

/-- No instruction changes the order of the mints. -/
theorem execute_mintsOrdered {instruction : Instruction} (ordered : pool.whirlpool.MintsOrdered)
    (returned : pool.execute m instruction = .ok (pool', receipt)) :
    pool'.whirlpool.MintsOrdered := by
  have terms := execute_terms returned
  have tokenMintA := congrArg Terms.tokenMintA terms
  have tokenMintB := congrArg Terms.tokenMintB terms
  unfold Whirlpool.MintsOrdered at ordered ⊢
  cases instruction <;> exact (tokenMintA.trans_lt ordered).trans_eq tokenMintB.symm

end Pool

namespace Reachable

variable {m : Machine} {pool : Pool} (reachable : Reachable m pool)

include reachable

/-- The rates of every reachable pool are within their bounds. -/
theorem capped : pool.Capped :=
  reachable.invariant Pool.create_capped fun _ capped executed => capped.execute executed

/-- The mints of every reachable pool are in order. -/
theorem mintsOrdered : pool.whirlpool.MintsOrdered :=
  @Reachable.invariant m pool (fun pool => pool.whirlpool.MintsOrdered) reachable
    Pool.create_mintsOrdered fun _ ordered executed => Pool.execute_mintsOrdered ordered executed

end Reachable
end Whirlpools
