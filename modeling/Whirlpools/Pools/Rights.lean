import Whirlpools.Pools.Terms

/-! # The rights over a pool

Besides the setters of the rates, only setting up a reward and handing it over change what a pool
keeps of rates and of rewards.
-/

namespace Whirlpools

open Outcome Ledger

/-- What a reward is paid in, from where, and who decides over it. -/
structure RewardRights where
  mint : Pubkey
  vault : Pubkey
  authority : Pubkey

def Whirlpool.rewardRights (whirlpool : Whirlpool) : Fin numRewards → RewardRights := fun index =>
  ⟨(whirlpool.rewardInfos index).mint, (whirlpool.rewardInfos index).vault,
    (whirlpool.rewardInfos index).authority⟩

/-- The rights after a successful instruction. -/
def Instruction.newRewardRights (rights : Fin numRewards → RewardRights) :
    Instruction → Fin numRewards → RewardRights
  | .initializeReward rewardIndex mint vault => fun index =>
      if index.val = rewardIndex then { rights index with mint := mint, vault := vault }
      else rights index
  | _ => rights

/-- Accruing the rewards keeps their mints, vaults and authorities. -/
theorem nextWhirlpoolRewardInfos_rights {whirlpool : Whirlpool} {timestamp : ℕ}
    {rewardInfos : Fin numRewards → WhirlpoolRewardInfo}
    (accrued : nextWhirlpoolRewardInfos whirlpool timestamp = .ok rewardInfos)
    (index : Fin numRewards) :
    (rewardInfos index).mint = (whirlpool.rewardInfos index).mint ∧
      (rewardInfos index).vault = (whirlpool.rewardInfos index).vault ∧
      (rewardInfos index).authority = (whirlpool.rewardInfos index).authority := by
  simp only [nextWhirlpoolRewardInfos, guard_eq_ok] at accrued
  obtain ⟨-, accrued⟩ := accrued
  split_ifs at accrued
  · obtain rfl := Except.ok.inj accrued
    exact ⟨rfl, rfl, rfl⟩
  · obtain rfl := Except.ok.inj accrued
    dsimp only
    split_ifs <;> exact ⟨rfl, rfl, rfl⟩

/-- Accounts with the same rewards up to what they have accrued give the same rights. -/
theorem rewardRights_eq {whirlpool whirlpool' : Whirlpool} {timestamp : ℕ}
    (accrued : nextWhirlpoolRewardInfos whirlpool timestamp = .ok whirlpool'.rewardInfos) :
    whirlpool'.rewardRights = whirlpool.rewardRights := by
  funext index
  obtain ⟨mint, vault, authority⟩ := nextWhirlpoolRewardInfos_rights accrued index
  simp only [Whirlpool.rewardRights, mint, vault, authority]

namespace Pool

variable {m : Machine} {pool pool' : Pool} {receipt : Receipt}

/-- Only setting up a reward changes the rights over the rewards. -/
theorem execute_rewardRights {instruction : Instruction}
    (returned : pool.execute m instruction = .ok (pool', receipt)) :
    pool'.whirlpool.rewardRights = instruction.newRewardRights pool.whirlpool.rewardRights := by
  cases execute_eq_ok.mp returned with
  | increaseLiquidity modified _ _ deposited =>
      obtain ⟨_, _, _, accrued, synced_eq⟩ := modifyLiquidity_writes modified
      rw [(deposit_eq_ok deposited).1, synced_eq]
      exact rewardRights_eq accrued
  | decreaseLiquidity modified _ _ withdrawn =>
      obtain ⟨_, _, _, accrued, synced_eq⟩ := modifyLiquidity_writes modified
      rw [(withdraw_eq_ok withdrawn).1, synced_eq]
      exact rewardRights_eq accrued
  | swap computed _ written moved =>
      obtain ⟨-, whirlpool_eq, -⟩ := updateAfterSwap_eq_ok written
      rw [(performSwap_eq_ok moved).1, whirlpool_eq]
      exact rewardRights_eq (computeSwap_rewardInfos computed)
  | updateFeesAndRewards _ _ _ _ computed =>
      exact rewardRights_eq (calculateModifyLiquidity_rewardInfos computed)
  | collectFees _ withdrawn =>
      rw [(withdraw_eq_ok withdrawn).1]
      rfl
  | collectProtocolFees withdrawn =>
      rw [(withdraw_eq_ok withdrawn).1]
      rfl
  | initializeReward =>
      funext position
      simp only [Whirlpool.rewardRights, Instruction.newRewardRights, Fin.val_inj]
      split_ifs <;> rfl
  | setRewardEmissions _ _ _ _ accrued =>
      funext position
      obtain ⟨mint, vault, authority⟩ := nextWhirlpoolRewardInfos_rights accrued position
      simp only [Whirlpool.rewardRights, Whirlpool.updateRewards, Instruction.newRewardRights]
      split_ifs <;> simp only [mint, vault, authority]
  | _ => rfl

end Pool

end Whirlpools
