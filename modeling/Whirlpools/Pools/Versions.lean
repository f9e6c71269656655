import Whirlpools.Instructions.V2.Execute
import Whirlpools.Pools.Stakes
import Whirlpools.Swap.TwoHop

/-! # Second versions are first versions with net amounts

The vaults of a pool never see a transfer fee. So the second version of an instruction does to the
pool what the first one does with the amounts net of fees, and what runs of the first versions keep,
runs of both keep. In both versions a trade through two pools is a swap of each.
-/

namespace Whirlpools

open Outcome

/-- The first version of an instruction, with any amounts of tokens and bounds on them. -/
inductive InstructionV2.Nets : InstructionV2 → Instruction → Prop
  | increaseLiquidity {args : ModifyLiquidityArgs} {maxA maxB netA netB : ℕ} :
      Nets (.increaseLiquidity args maxA maxB) (.increaseLiquidity args netA netB)
  | decreaseLiquidity {args : ModifyLiquidityArgs} {minA minB netA netB : ℕ} :
      Nets (.decreaseLiquidity args minA minB) (.decreaseLiquidity args netA netB)
  | swap {args : SwapArgs} {amount : UInt64} {threshold : ℕ} :
      Nets (.swap args) (.swap { args with amount := amount, otherAmountThreshold := threshold })
  | collectFees {positionMint : Pubkey} :
      Nets (.collectFees positionMint) (.collectFees positionMint)
  | collectProtocolFees : Nets .collectProtocolFees .collectProtocolFees
  | setRewardEmissions {rewardIndex emissionsPerSecondX64 rewardVaultAmount : ℕ}
      {unixTimestamp : ℤ} :
      Nets (.setRewardEmissions rewardIndex emissionsPerSecondX64 rewardVaultAmount unixTimestamp)
        (.setRewardEmissions rewardIndex emissionsPerSecondX64 rewardVaultAmount unixTimestamp)
  | collectReward {positionMint : Pubkey} {rewardIndex rewardVaultAmount : ℕ} :
      Nets (.collectReward positionMint rewardIndex rewardVaultAmount)
        (.collectReward positionMint rewardIndex rewardVaultAmount)

/-- The position whose holder signs an instruction. -/
def InstructionV2.heldPosition : InstructionV2 → Option Pubkey
  | .increaseLiquidity args _ _ => some args.positionMint
  | .decreaseLiquidity args _ _ => some args.positionMint
  | .collectFees positionMint => some positionMint
  | .collectReward positionMint _ _ => some positionMint
  | _ => none

/-- Both versions act on the same position. -/
theorem InstructionV2.Nets.heldPosition {instruction : InstructionV2} {net : Instruction}
    (nets : instruction.Nets net) : net.heldPosition = instruction.heldPosition := by
  cases nets <;> rfl

/-- What is sent with its fee included delivers the amount it was calculated for. -/
theorem transferDelivers_included {lib : TokenLibrary} {tokenMint : Option TransferFee}
    {amount : ℕ} {included : TransferFeeIncludedAmount}
    (returned : calculateTransferFeeIncludedAmount lib tokenMint amount = .ok included) :
    transferDelivers lib tokenMint included.amount = .ok amount := by
  unfold calculateTransferFeeIncludedAmount at returned
  split_ifs at returned with zero
  · obtain rfl := Except.ok.inj returned
    rw [transferDelivers_eq tokenMint (by norm_num), TransferFee.net_zero, zero]
  · cases tokenMint with
    | none =>
        obtain rfl := Except.ok.inj returned
        rfl
    | some fee =>
        simp only [bind_eq_ok, guard_eq_ok, okOr_eq_ok, not_not, Except.ok.injEq] at returned
        obtain ⟨added, -, -, verified, computed, rfl, rfl⟩ := returned
        simp only [transferDelivers, calculateTransferFeeExcludedAmount, computed, okOr, ok_bind,
          not_lt.mpr (Nat.le_add_left _ _), if_false, Nat.add_sub_cancel]

namespace Pool

variable {m : Machine} {lib : TokenLibrary} {pool pool' updated : Pool}
  {tokenMintA tokenMintB : Option TransferFee} {aToB : Bool} {timestamp : ℕ}

/-- A deposit that delivers two amounts is the deposit of these amounts. -/
theorem depositV2_delivers {sentA sentB deltaA deltaB : ℕ}
    (deliversA : transferDelivers lib tokenMintA sentA = .ok deltaA)
    (deliversB : transferDelivers lib tokenMintB sentB = .ok deltaB)
    (returned : pool.depositV2 lib tokenMintA tokenMintB sentA sentB = .ok pool') :
    pool.deposit deltaA deltaB = .ok pool' := by
  simp only [depositV2, deliversA, deliversB, ok_bind, bind_eq_ok, Except.ok.injEq] at returned
  obtain ⟨vaultA, movedA, vaultB, movedB, rfl⟩ := returned
  simp only [deposit, movedA, movedB, ok_bind]

/-- The computation of a swap, written to its pool with its tokens moved, is a swap instruction: its
threshold can be one that it meets. -/
theorem execute_swap_of_raw {amount limit : ℕ} {isInput : Bool}
    {array0 array1 array2 unixTimestamp : ℤ} {sequence : SwapTickSequence} {raw : SwapOutcome}
    (clock : toTimestampU64 unixTimestamp = .ok timestamp)
    (sequenced : pool.swapTickSequence array0 array1 array2 = .ok sequence)
    (swapped : Whirlpools.swap m pool.whirlpool sequence amount limit isInput aToB timestamp =
      .ok raw) (fits : amount < 2 ^ 64)
    (written : pool.updateAfterSwap m raw aToB timestamp = .ok updated)
    (moved : updated.performSwap raw.update.amountA raw.update.amountB aToB = .ok pool') :
    ∃ (netAmount : UInt64) (threshold : ℕ) (receipt : Receipt),
      pool.execute m (.swap ⟨netAmount, threshold, limit, isInput, aToB, array0, array1, array2,
        unixTimestamp⟩) = .ok (pool', receipt) := by
  let args : SwapArgs := ⟨.ofNat amount, if isInput then 0 else
    raw.update.amountA + raw.update.amountB, limit, isInput, aToB, array0, array1, array2,
    unixTimestamp⟩
  have asked : args.amount.toNat = amount := UInt64.toNat_ofNat_of_lt' fits
  have computed : pool.computeSwap m args = .ok (timestamp, raw) := by
    rw [← asked] at swapped
    simp only [computeSwap, bind_eq_ok, Except.ok.injEq]
    exact ⟨timestamp, clock, sequence, sequenced, raw, swapped, rfl⟩
  have met : checkThreshold raw.update args = .ok () := by
    unfold checkThreshold
    cases isInput <;> simp [args]
  exact ⟨_, _, _, execute_eq_ok.mpr (.swap computed met written moved)⟩

/-- The vaults of a swap with transfer fees move by its raw amounts. -/
theorem performSwap_of_vaults {raw : SwapOutcome} {input output : ℕ}
    (received : transferFromOwnerToVault (pool.inputVault aToB) (raw.update.inputAndOutput aToB).1 =
      .ok input)
    (sent : transferFromVaultToOwner (pool.outputVault aToB) (raw.update.inputAndOutput aToB).2 =
      .ok output) :
    pool.performSwap raw.update.amountA raw.update.amountB aToB =
      .ok (pool.withVaults aToB input output) := by
  cases aToB <;>
    simp only [inputVault, outputVault, PostSwapUpdate.inputAndOutput, Bool.false_eq_true,
      ↓reduceIte] at received sent <;>
    simp only [performSwap, Bool.false_eq_true, ↓reduceIte, received, sent, ok_bind, withVaults]

/-- A swap with transfer fees runs a raw swap, and its reported input delivers the raw one. -/
theorem swapWithTransferFeeExtension_raw {whirlpool : Whirlpool} {sequence : SwapTickSequence}
    {amount limit : ℕ} {isInput : Bool} {outcome : SwapOutcome} (fits : amount < 2 ^ 64)
    (returned : swapWithTransferFeeExtension m lib whirlpool tokenMintA tokenMintB sequence amount
      limit isInput aToB timestamp = .ok outcome) :
    ∃ (rawAmount input : ℕ) (raw : SwapOutcome), rawAmount < 2 ^ 64 ∧
      Whirlpools.swap m whirlpool sequence rawAmount limit isInput aToB timestamp = .ok raw ∧
      outcome = { raw with
        update := raw.update.withAmounts aToB input (raw.update.inputAndOutput aToB).2 } ∧
      transferDelivers lib (if aToB then tokenMintA else tokenMintB) input =
        .ok (raw.update.inputAndOutput aToB).1 := by
  cases isInput with
  | true =>
      obtain ⟨raw, input, swapped, rfl, within, left⟩ :=
        swapWithTransferFeeExtension_exactIn fits returned
      exact ⟨_, input, raw, lt_of_le_of_lt (Nat.sub_le _ _) fits, swapped, rfl,
        (transferDelivers_eq _ (lt_of_le_of_lt within fits)).trans (congrArg _ left)⟩
  | false =>
      obtain ⟨raw, asked, swapped, rfl, -, -, payingFits⟩ :=
        swapWithTransferFeeExtension_exactOut fits returned
      exact ⟨_, _, raw, (includedAmount_eq fits asked).2, swapped, rfl,
        (transferDelivers_eq _ payingFits).trans (congrArg _ (TransferFee.net_gross _ _))⟩

/-- A swap with transfer fees does to the pool what the swap of a net amount does. -/
theorem swapV2_nets {args : SwapArgs} {paid received : ℕ}
    (returned : pool.swapV2 m lib tokenMintA tokenMintB args = .ok (pool', paid, received)) :
    ∃ net receipt, (InstructionV2.swap args).Nets net ∧
      pool.execute m net = .ok (pool', receipt) := by
  simp only [swapV2, computeSwapV2, bind_eq_ok, Except.ok.injEq] at returned
  obtain ⟨⟨_, _⟩, ⟨timestamp, clock, sequence, sequenced, outcome, swapped, _, -, same⟩, updated,
    written, moved⟩ := returned
  obtain ⟨rfl, rfl⟩ := Prod.mk.inj same
  obtain ⟨rawAmount, input, raw, rawFits, rawSwapped, rfl, delivers⟩ :=
    swapWithTransferFeeExtension_raw args.amount.toNat_lt swapped
  simp only [performSwapV2, bind_eq_ok, Except.ok.injEq, Prod.mk.injEq] at moved
  obtain ⟨delivered, arrived, inputVault, deposited, outputVault, withdrawn, _, -, rfl, -, -⟩ :=
    moved
  have paid_eq (output : ℕ) : (if args.aToB then (raw.update.withAmounts args.aToB input
      output).amountA else (raw.update.withAmounts args.aToB input output).amountB) = input := by
    cases args.aToB <;> rfl
  have sent_eq (output : ℕ) : (if args.aToB then (raw.update.withAmounts args.aToB input
      output).amountB else (raw.update.withAmounts args.aToB input output).amountA) = output := by
    cases args.aToB <;> rfl
  rw [paid_eq, delivers, Except.ok.injEq] at arrived
  rw [sent_eq] at withdrawn
  obtain rfl := arrived
  obtain ⟨netAmount, threshold, receipt, executed⟩ := execute_swap_of_raw clock sequenced rawSwapped
    rawFits written (performSwap_of_vaults deposited withdrawn)
  exact ⟨_, receipt, .swap, executed⟩

/-- The second version of an instruction does to the pool what the first one does with the amounts
net of transfer fees. -/
theorem executeV2_nets {instruction : InstructionV2}
    (returned : pool.executeV2 m lib tokenMintA tokenMintB instruction = .ok pool') :
    ∃ net receipt, instruction.Nets net ∧ pool.execute m net = .ok (pool', receipt) := by
  cases instruction with
  | increaseLiquidity args tokenMaxA tokenMaxB =>
      simp only [executeV2, increaseLiquidityV2, bind_eq_ok, guard_eq_ok] at returned
      obtain ⟨⟨synced, deltaA, deltaB, receipt⟩, modified, includedA, computedA, includedB,
        computedB, -, -, deposited⟩ := returned
      exact ⟨_, receipt, .increaseLiquidity, execute_eq_ok.mpr (.increaseLiquidity modified le_rfl
        le_rfl (depositV2_delivers (transferDelivers_included computedA)
          (transferDelivers_included computedB) deposited))⟩
  | decreaseLiquidity args tokenMinA tokenMinB =>
      simp only [executeV2, decreaseLiquidityV2, bind_eq_ok, guard_eq_ok] at returned
      obtain ⟨⟨synced, deltaA, deltaB, receipt⟩, modified, _, -, _, -, -, -, withdrawn⟩ := returned
      exact ⟨_, receipt, .decreaseLiquidity, execute_eq_ok.mpr (.decreaseLiquidity modified
        le_rfl le_rfl withdrawn)⟩
  | swap args =>
      simp only [executeV2, bind_eq_ok, Except.ok.injEq] at returned
      obtain ⟨⟨_, paid, received⟩, traded, rfl⟩ := returned
      exact swapV2_nets traded
  | collectFees positionMint =>
      simp only [executeV2, bind_eq_ok, Except.ok.injEq] at returned
      obtain ⟨⟨_, receipt⟩, collected, rfl⟩ := returned
      exact ⟨_, receipt, .collectFees, collected⟩
  | collectProtocolFees =>
      simp only [executeV2, bind_eq_ok, Except.ok.injEq] at returned
      obtain ⟨⟨_, receipt⟩, collected, rfl⟩ := returned
      exact ⟨_, receipt, .collectProtocolFees, collected⟩
  | setRewardEmissions rewardIndex emissions vaultAmount unixTimestamp =>
      simp only [executeV2, bind_eq_ok, Except.ok.injEq] at returned
      obtain ⟨⟨_, receipt⟩, updated, rfl⟩ := returned
      exact ⟨_, receipt, .setRewardEmissions, updated⟩
  | collectReward positionMint rewardIndex vaultAmount =>
      simp only [executeV2, bind_eq_ok, Except.ok.injEq] at returned
      obtain ⟨⟨_, receipt⟩, collected, rfl⟩ := returned
      exact ⟨_, receipt, .collectReward, collected⟩

/-- Without minima, the second version withdraws liquidity wherever the first one does. -/
theorem executeV2_decreaseLiquidity {args : ModifyLiquidityArgs} {receipt : Receipt}
    (tokenMintA tokenMintB : Option TransferFee) (fits : ∀ isTokenA, pool.vault isTokenA < 2 ^ 64)
    (executed : pool.execute m (.decreaseLiquidity args 0 0) = .ok (pool', receipt)) :
    pool.executeV2 m lib tokenMintA tokenMintB (.decreaseLiquidity args 0 0) = .ok pool' := by
  cases execute_eq_ok.mp executed with
  | @decreaseLiquidity _ _ _ deltaA deltaB synced _ _ modified _ _ withdrawn =>
      -- what is paid comes from the vaults, so the transfer fees on it can be calculated
      have covered (isTokenA : Bool) : (if isTokenA then deltaA else deltaB) < 2 ^ 64 := by
        have paid := (withdraw_eq_ok withdrawn).2 isTokenA
        obtain ⟨_, _, _, -, synced_eq⟩ := modifyLiquidity_writes modified
        have same : synced.vault isTokenA = pool.vault isTokenA := by rw [synced_eq, vault, vault]
        have bounded := fits isTokenA
        omega
      have fitsA : deltaA < 2 ^ 64 := covered true
      have fitsB : deltaB < 2 ^ 64 := covered false
      simp only [executeV2, decreaseLiquidityV2, modified, ok_bind,
        calculateTransferFeeExcludedAmount_eq fitsA, calculateTransferFeeExcludedAmount_eq fitsB,
        Nat.not_lt_zero, if_false, withdrawn]

end Pool

/-- A pool on which the second version of an instruction succeeds stays one that some run of first
versions leads to: what holds of every reachable pool holds after it. -/
theorem Reachable.executesV2 {m : Machine} {lib : TokenLibrary} {pool pool' : Pool}
    {tokenMintA tokenMintB : Option TransferFee} {instruction : InstructionV2}
    (reachable : Reachable m pool)
    (returned : pool.executeV2 m lib tokenMintA tokenMintB instruction = .ok pool') :
    Reachable m pool' := by
  obtain ⟨net, receipt, -, executed⟩ := Pool.executeV2_nets returned
  exact reachable.executes executed

/-- Two pools that a trade leads through, each of which it swaps on. -/
def TwoHopOutcome.SwapsBoth (m : Machine) (pools : TwoHopPools) (result : TwoHopOutcome) : Prop :=
  pools.whirlpoolOne ≠ pools.whirlpoolTwo ∧
    (∃ args receipt, pools.one.execute m (.swap args) = .ok (result.pools.one, receipt)) ∧
    ∃ args receipt, pools.two.execute m (.swap args) = .ok (result.pools.two, receipt)

/-- What a wallet receives is an amount of `u64`. -/
theorem Wallet.deposit_fits {wallet wallet' : Wallet} {account : Pubkey} {amount : ℕ}
    (received : wallet.deposit account amount = .ok wallet') : amount < 2 ^ 64 := by
  unfold Wallet.deposit at received
  split_ifs at received with fits
  exact lt_of_le_of_lt (Nat.le_add_left _ _) fits

/-- A swap of a trade without transfer fees moves amounts of `u64`, and is one of its pool alone. -/
theorem updateAndSwapWhirlpool_swap {m : Machine} {pool final : Pool} {wallet wallet' : Wallet}
    {accountA accountB : Pubkey} {outcome : SwapOutcome} {aToB : Bool} {timestamp : ℕ}
    (written : updateAndSwapWhirlpool m pool wallet accountA accountB outcome aToB timestamp =
      .ok (final, wallet')) :
    ((outcome.update.inputAndOutput aToB).1 < 2 ^ 64 ∧
      (outcome.update.inputAndOutput aToB).2 < 2 ^ 64) ∧
    ∃ updated, pool.updateAfterSwap m outcome aToB timestamp = .ok updated ∧
      updated.performSwap outcome.update.amountA outcome.update.amountB aToB = .ok final := by
  simp only [updateAndSwapWhirlpool, bind_eq_ok, Except.ok.injEq, Prod.mk.injEq] at written
  obtain ⟨updated, kept, _, -, moved, performed, _, received, rfl, -⟩ := written
  refine ⟨⟨?_, Wallet.deposit_fits received⟩, updated, kept, performed⟩
  cases aToB <;>
    simp only [Pool.performSwap, Bool.false_eq_true, ↓reduceIte, bind_eq_ok,
      transferFromOwnerToVault] at performed
  all_goals
    obtain ⟨_, deposited, -⟩ := performed
    split_ifs at deposited with fits
    exact lt_of_le_of_lt (Nat.le_add_left _ _) fits

/-- Each swap of a trade through two pools is computed for the amount of the trade or for an amount
of the other swap. -/
theorem twoHopUpdates_swaps {swapOne swapTwo : ℕ → Result SwapOutcome} {args : TwoHopSwapArgs}
    {updates : TwoHopUpdates} (returned : twoHopUpdates swapOne swapTwo .ok args = .ok updates) :
    (swapOne args.amount.toNat = .ok updates.one ∧
        swapTwo (updates.one.update.inputAndOutput args.aToBOne).2 = .ok updates.two) ∨
      (swapTwo args.amount.toNat = .ok updates.two ∧
        swapOne (updates.two.update.inputAndOutput args.aToBTwo).1 = .ok updates.one) := by
  unfold twoHopUpdates at returned
  split_ifs at returned
  · simp only [bind_eq_ok, Except.ok.injEq] at returned
    obtain ⟨one, first, two, second, rfl⟩ := returned
    exact .inl ⟨first, second⟩
  · simp only [bind_eq_ok, ok_bind, Except.ok.injEq] at returned
    obtain ⟨two, first, one, second, rfl⟩ := returned
    exact .inr ⟨first, second⟩

/-- A trade through two pools is a swap of each. -/
theorem twoHopSwap_swaps {m : Machine} {pools : TwoHopPools} {wallet : Wallet}
    {accounts : TwoHopOwnerAccounts} {args : TwoHopSwapArgs} {result : TwoHopOutcome}
    (returned : twoHopSwap m pools wallet accounts args = .ok result) :
    result.SwapsBoth m pools := by
  simp only [twoHopSwap, guard_eq_ok, bind_eq_ok, checkTwoHopPools, Except.ok.injEq] at returned
  obtain ⟨-, timestamp, clock, _, ⟨distinct, -, -⟩, sequenceOne, sequencedOne, sequenceTwo,
    sequencedTwo, updates, computed, _, -, ⟨poolOne, wallet'⟩, first, ⟨poolTwo, wallet''⟩, second,
    rfl⟩ := returned
  obtain ⟨⟨-, outputFits⟩, updatedOne, writtenOne, movedOne⟩ := updateAndSwapWhirlpool_swap first
  obtain ⟨⟨inputFits, -⟩, updatedTwo, writtenTwo, movedTwo⟩ := updateAndSwapWhirlpool_swap second
  have whole := args.amount.toNat_lt
  -- the amount of each swap is that of the trade or one that the other swap moves
  obtain ⟨amountOne, fitsOne, swappedOne, amountTwo, fitsTwo, swappedTwo⟩ :
      ∃ amountOne, amountOne < 2 ^ 64 ∧ swap m pools.one.whirlpool sequenceOne amountOne
          args.sqrtPriceLimitOne args.amountSpecifiedIsInput args.aToBOne timestamp =
            .ok updates.one ∧
        ∃ amountTwo, amountTwo < 2 ^ 64 ∧ swap m pools.two.whirlpool sequenceTwo amountTwo
          args.sqrtPriceLimitTwo args.amountSpecifiedIsInput args.aToBTwo timestamp =
            .ok updates.two := by
    rcases twoHopUpdates_swaps computed with ⟨swappedOne, swappedTwo⟩ | ⟨swappedTwo, swappedOne⟩
    · exact ⟨_, whole, swappedOne, _, outputFits, swappedTwo⟩
    · exact ⟨_, inputFits, swappedOne, _, whole, swappedTwo⟩
  obtain ⟨_, _, receiptOne, executedOne⟩ :=
    Pool.execute_swap_of_raw clock sequencedOne swappedOne fitsOne writtenOne movedOne
  obtain ⟨_, _, receiptTwo, executedTwo⟩ :=
    Pool.execute_swap_of_raw clock sequencedTwo swappedTwo fitsTwo writtenTwo movedTwo
  exact ⟨distinct, ⟨_, receiptOne, executedOne⟩, _, receiptTwo, executedTwo⟩

/-- A trade through two pools with transfer fees is a swap of a net amount on each of them. -/
theorem twoHopSwapV2_swaps {m : Machine} {lib : TokenLibrary}
    {mintFees : Pubkey → Option TransferFee} {pools : TwoHopPools} {wallet : Wallet}
    {tokenOwnerAccountInput tokenOwnerAccountOutput : Pubkey} {args : TwoHopSwapArgs}
    {result : TwoHopOutcome}
    (returned : twoHopSwapV2 m lib mintFees pools wallet tokenOwnerAccountInput
      tokenOwnerAccountOutput args = .ok result) : result.SwapsBoth m pools := by
  simp only [twoHopSwapV2, guard_eq_ok, bind_eq_ok, checkTwoHopPools] at returned
  obtain ⟨-, timestamp, clock, _, ⟨distinct, -, -⟩, sequenceOne, sequencedOne, sequenceTwo,
    sequencedTwo, updates, computed, _, matched, _, -, moved⟩ := returned
  unfold checkIntermediateAmount at matched
  split_ifs at matched with same
  rw [not_not] at same
  obtain ⟨rawOne, rawTwo, raw⟩ := rawSwaps_of_updates computed same
  obtain ⟨inputOne, one_eq⟩ := raw.one
  obtain ⟨inputTwo, two_eq⟩ := raw.two
  obtain ⟨amountOne, fitsOne, swappedOne⟩ := raw.swappedOne
  obtain ⟨amountTwo, fitsTwo, swappedTwo⟩ := raw.swappedTwo
  have paid := raw.paid
  have outputOne : (updates.one.update.inputAndOutput args.aToBOne).2 =
      (rawOne.update.inputAndOutput args.aToBOne).2 := by
    rw [one_eq, inputAndOutput_withAmounts]
  have outputTwo : (updates.two.update.inputAndOutput args.aToBTwo).2 =
      (rawTwo.update.inputAndOutput args.aToBTwo).2 := by
    rw [two_eq, inputAndOutput_withAmounts]
  simp only [updateAndTwoHopSwapWhirlpoolV2, bind_eq_ok, Except.ok.injEq, outputOne, outputTwo,
    transferDelivers_eq _ raw.fits, raw.delivered, paid] at moved
  obtain ⟨poolOne, writtenOne, poolTwo, writtenTwo, -, -, input, rfl, vaultOneInput, receivedOne,
    vaultOneIntermediate, sentOne, intermediate, rfl, vaultTwoIntermediate, receivedTwo,
    vaultTwoOutput, sentTwo, -, -, -, -, rfl⟩ := moved
  rw [one_eq] at writtenOne
  rw [two_eq] at writtenTwo
  obtain ⟨_, _, receiptOne, executedOne⟩ := Pool.execute_swap_of_raw clock sequencedOne swappedOne
    fitsOne writtenOne (Pool.performSwap_of_vaults receivedOne sentOne)
  obtain ⟨_, _, receiptTwo, executedTwo⟩ := Pool.execute_swap_of_raw clock sequencedTwo swappedTwo
    fitsTwo writtenTwo (Pool.performSwap_of_vaults receivedTwo sentTwo)
  exact ⟨distinct, ⟨_, receiptOne, executedOne⟩, _, receiptTwo, executedTwo⟩

end Whirlpools
