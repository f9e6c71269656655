import Whirlpools.Accounting.Effects
import Whirlpools.Instructions.V2.TwoHopSwap
import Whirlpools.Pools.Terms
import Whirlpools.Pools.Solvency
import Whirlpools.Swap.TransferFees

/-! # The intermediate token of a trade through two pools

With transfer fees the second swap takes exactly what the first one delivers. Without them nothing
compares the two amounts: the second swap to be computed may stop at its price limit, and then the
trader keeps or adds the difference.
-/

namespace Whirlpools

open Outcome

/-- A trader with enough of every token, in an account named by its mint. -/
def sampleWallet : Wallet := fun account => ⟨account, 10 ^ 9⟩

/-- A trade through two pools in the state of the sample run: of token A for token B on the first
pool, and back on the second one. -/
def sampleTwoHop (amount : UInt64) (otherAmountThreshold : ℕ) (amountSpecifiedIsInput : Bool)
    (sqrtPriceLimitTwo : ℕ) : TwoHopSwapArgs where
  amount := amount
  otherAmountThreshold := otherAmountThreshold
  amountSpecifiedIsInput := amountSpecifiedIsInput
  aToBOne := true
  aToBTwo := false
  sqrtPriceLimitOne := minSqrtPriceX64
  sqrtPriceLimitTwo := sqrtPriceLimitTwo
  tickArrayOne0 := -5632
  tickArrayOne1 := -5632
  tickArrayOne2 := -5632
  tickArrayTwo0 := -5632
  tickArrayTwo1 := 0
  tickArrayTwo2 := 0
  unixTimestamp := 50

section Fees

variable {m : Machine} {lib : TokenLibrary} {mints : TwoHopMints} {pools : TwoHopPools}
  {args : TwoHopSwapArgs} {updates : TwoHopUpdates} {timestamp : ℕ}
  {sequenceOne sequenceTwo : SwapTickSequence}

/-- A transfer delivers the amount less the fee of its mint. -/
theorem transferDelivers_eq (tokenMint : Option TransferFee) {amount : ℕ}
    (fits : amount < 2 ^ 64) :
    transferDelivers lib tokenMint amount = .ok ((TransferFee.ofMint tokenMint).net amount) := by
  rw [transferDelivers, calculateTransferFeeExcludedAmount_eq fits, ok_bind]

/-- The output mint of the first pool, and the input mint of the second one. -/
theorem swapOneMints_output (mints : TwoHopMints) (aToBOne : Bool) :
    (if aToBOne then (swapOneMints mints aToBOne).2 else (swapOneMints mints aToBOne).1) =
      mints.intermediate := by
  cases aToBOne <;> rfl

/-- The first swap takes in the input mint. -/
theorem swapOneMints_input (mints : TwoHopMints) (aToBOne : Bool) :
    (if aToBOne then (swapOneMints mints aToBOne).1 else (swapOneMints mints aToBOne).2) =
      mints.input := by
  cases aToBOne <;> rfl

/-- The second swap takes in the intermediate mint. -/
theorem swapTwoMints_input (mints : TwoHopMints) (aToBTwo : Bool) :
    (if aToBTwo then (swapTwoMints mints aToBTwo).1 else (swapTwoMints mints aToBTwo).2) =
      mints.intermediate := by
  cases aToBTwo <;> rfl

/-- The raw swaps behind the two swaps of a trade: the first delivers what the second takes. -/
structure RawSwaps (m : Machine) (lib : TokenLibrary) (mints : TwoHopMints) (pools : TwoHopPools)
    (args : TwoHopSwapArgs) (updates : TwoHopUpdates) (sequenceOne sequenceTwo : SwapTickSequence)
    (timestamp : ℕ)
    (rawOne rawTwo : SwapOutcome) : Prop where
  swappedOne : ∃ amount, amount < 2 ^ 64 ∧ swap m pools.one.whirlpool sequenceOne amount
    args.sqrtPriceLimitOne args.amountSpecifiedIsInput args.aToBOne timestamp = .ok rawOne
  swappedTwo : ∃ amount, amount < 2 ^ 64 ∧ swap m pools.two.whirlpool sequenceTwo amount
    args.sqrtPriceLimitTwo args.amountSpecifiedIsInput args.aToBTwo timestamp = .ok rawTwo
  /-- The swaps written to the pools are the raw ones, but for the reported inputs. -/
  one : ∃ input, updates.one = { rawOne with
    update := rawOne.update.withAmounts args.aToBOne input
      (rawOne.update.inputAndOutput args.aToBOne).2 }
  two : ∃ input, updates.two = { rawTwo with
    update := rawTwo.update.withAmounts args.aToBTwo input
      (rawTwo.update.inputAndOutput args.aToBTwo).2 }
  /-- What is left of the reported input of the first swap is its raw input. -/
  paid : transferDelivers lib mints.input (updates.one.update.inputAndOutput args.aToBOne).1 =
    .ok (rawOne.update.inputAndOutput args.aToBOne).1
  fits : (rawOne.update.inputAndOutput args.aToBOne).2 < 2 ^ 64
  delivered : (TransferFee.ofMint mints.intermediate).net
      (rawOne.update.inputAndOutput args.aToBOne).2 =
    (rawTwo.update.inputAndOutput args.aToBTwo).1

/-- The two computed swaps match once their intermediate amounts do. -/
theorem rawSwaps_of_updates
    (computed : twoHopUpdates
      (fun amount => swapWithTransferFeeExtension m lib pools.one.whirlpool
        (swapOneMints mints args.aToBOne).1 (swapOneMints mints args.aToBOne).2 sequenceOne amount
        args.sqrtPriceLimitOne args.amountSpecifiedIsInput args.aToBOne timestamp)
      (fun amount => swapWithTransferFeeExtension m lib pools.two.whirlpool
        (swapTwoMints mints args.aToBTwo).1 (swapTwoMints mints args.aToBTwo).2 sequenceTwo amount
        args.sqrtPriceLimitTwo args.amountSpecifiedIsInput args.aToBTwo timestamp)
      (fun amount => calculateTransferFeeExcludedAmount lib mints.intermediate amount
        >>= fun excluded => .ok excluded.amount) args = .ok updates)
    (matched : (updates.one.update.inputAndOutput args.aToBOne).2 =
      (updates.two.update.inputAndOutput args.aToBTwo).1) :
    ∃ rawOne rawTwo, RawSwaps m lib mints pools args updates sequenceOne sequenceTwo timestamp
      rawOne rawTwo := by
  have fits := args.amount.toNat_lt
  have firstMint := swapOneMints_input mints args.aToBOne
  have outputMint := swapOneMints_output mints args.aToBOne
  have inputMint := swapTwoMints_input mints args.aToBTwo
  unfold twoHopUpdates at computed
  cases isIn : args.amountSpecifiedIsInput with
  | true =>
      rw [isIn, if_pos rfl] at computed
      obtain ⟨one, first, computed⟩ := bind_eq_ok.mp computed
      obtain ⟨two, second, computed⟩ := bind_eq_ok.mp computed
      obtain rfl := Except.ok.inj computed
      obtain ⟨rawOne, inputOne, swappedOne, rfl, within, paid⟩ :=
        swapWithTransferFeeExtension_exactIn fits first
      have outputFits := (swap_amounts (lt_of_le_of_lt (Nat.sub_le _ _) fits) swappedOne).2.2
      rw [inputAndOutput_withAmounts] at second matched
      obtain ⟨rawTwo, inputTwo, swappedTwo, rfl, -, left⟩ :=
        swapWithTransferFeeExtension_exactIn outputFits second
      rw [inputAndOutput_withAmounts] at matched
      refine ⟨rawOne, rawTwo, ⟨_, lt_of_le_of_lt (Nat.sub_le _ _) fits, isIn ▸ swappedOne⟩,
        ⟨_, lt_of_le_of_lt (Nat.sub_le _ _) outputFits, isIn ▸ swappedTwo⟩, ⟨_, rfl⟩, ⟨_, rfl⟩, ?_,
        outputFits, ?_⟩
      · rw [inputAndOutput_withAmounts, transferDelivers_eq _ (lt_of_le_of_lt within fits),
          ← firstMint, paid]
      rw [inputMint] at left
      rw [← left]
      exact congrArg _ matched
  | false =>
      rw [isIn, if_neg Bool.false_ne_true] at computed
      obtain ⟨two, second, computed⟩ := bind_eq_ok.mp computed
      obtain ⟨requested, requesting, computed⟩ := bind_eq_ok.mp computed
      obtain ⟨one, first, computed⟩ := bind_eq_ok.mp computed
      obtain rfl := Except.ok.inj computed
      obtain ⟨rawTwo, asked, swappedTwo, rfl, -, -, inputFits⟩ :=
        swapWithTransferFeeExtension_exactOut fits second
      rw [inputAndOutput_withAmounts, inputMint] at requesting
      rw [inputMint] at inputFits
      dsimp only at requesting
      rw [calculateTransferFeeExcludedAmount_eq inputFits, ok_bind, TransferFee.net_gross]
        at requesting
      obtain rfl := Except.ok.inj requesting
      have requestFits := lt_of_le_of_lt (TransferFee.le_gross _ _) inputFits
      obtain ⟨rawOne, askedOne, swappedOne, rfl, -, outputFits, payingFits⟩ :=
        swapWithTransferFeeExtension_exactOut requestFits first
      rw [inputAndOutput_withAmounts, inputAndOutput_withAmounts] at matched
      refine ⟨rawOne, rawTwo, ⟨_, (includedAmount_eq requestFits askedOne).2, isIn ▸ swappedOne⟩,
        ⟨_, (includedAmount_eq fits asked).2, isIn ▸ swappedTwo⟩, ⟨_, rfl⟩, ⟨_, rfl⟩, ?_,
        outputFits, ?_⟩
      · rw [inputAndOutput_withAmounts, transferDelivers_eq _ payingFits, firstMint,
          TransferFee.net_gross]
      dsimp only at matched
      rw [matched, inputMint, TransferFee.net_gross]

end Fees

theorem updateAfterSwap_vaults {m : Machine} {pool updated : Pool} {outcome : SwapOutcome}
    {aToB : Bool} {timestamp : ℕ}
    (returned : pool.updateAfterSwap m outcome aToB timestamp = .ok updated) :
    updated.vaultA = pool.vaultA ∧ updated.vaultB = pool.vaultB := by
  obtain ⟨whirlpool, -, returned⟩ := bind_eq_ok.mp returned
  obtain rfl := Except.ok.inj returned
  exact ⟨rfl, rfl⟩

/-- What a trade through two pools that returns has done with the intermediate token. -/
structure IntermediateConserved (m : Machine) (lib : TokenLibrary)
    (intermediate : Option TransferFee) (pools : TwoHopPools) (args : TwoHopSwapArgs)
    (result : TwoHopOutcome) (rawOne rawTwo : SwapOutcome) : Prop where
  /-- The two raw swaps are computed on the pools. -/
  swappedOne : ∃ sequence amount timestamp, swap m pools.one.whirlpool sequence amount
    args.sqrtPriceLimitOne args.amountSpecifiedIsInput args.aToBOne timestamp = .ok rawOne
  swappedTwo : ∃ sequence amount timestamp, swap m pools.two.whirlpool sequence amount
    args.sqrtPriceLimitTwo args.amountSpecifiedIsInput args.aToBTwo timestamp = .ok rawTwo
  /-- They are written to the pools, but for the reported inputs. -/
  one : ∃ input, result.updates.one = { rawOne with
    update := rawOne.update.withAmounts args.aToBOne input
      (rawOne.update.inputAndOutput args.aToBOne).2 }
  two : ∃ input, result.updates.two = { rawTwo with
    update := rawTwo.update.withAmounts args.aToBTwo input
      (rawTwo.update.inputAndOutput args.aToBTwo).2 }
  /-- The vault of the first pool sends the output of its swap. -/
  sent : result.pools.one.outputVault args.aToBOne + (rawOne.update.inputAndOutput args.aToBOne).2 =
    pools.one.outputVault args.aToBOne
  /-- What is left of it after the transfer fee is the input of the second swap. -/
  delivered : ∃ fee, calculateTransferFeeExcludedAmount lib intermediate
    (rawOne.update.inputAndOutput args.aToBOne).2 =
      .ok ⟨(rawTwo.update.inputAndOutput args.aToBTwo).1, fee⟩
  /-- The vault of the second pool receives this input. -/
  received : result.pools.two.inputVault args.aToBTwo =
    pools.two.inputVault args.aToBTwo + (rawTwo.update.inputAndOutput args.aToBTwo).1

/-- A trade through two pools with transfer fees conserves the intermediate token: what the first
vault sends is the output of the first swap, and what is left of it is the input of the second. -/
theorem twoHopSwapV2_conserves {m : Machine} {lib : TokenLibrary}
    {mintFees : Pubkey → Option TransferFee} {pools : TwoHopPools} {wallet : Wallet}
    {tokenOwnerAccountInput tokenOwnerAccountOutput : Pubkey} {args : TwoHopSwapArgs}
    {result : TwoHopOutcome}
    (returned : twoHopSwapV2 m lib mintFees pools wallet tokenOwnerAccountInput
      tokenOwnerAccountOutput args = .ok result) :
    ∃ rawOne rawTwo, IntermediateConserved m lib
      (mintFees (pools.one.whirlpool.outputTokenMint args.aToBOne)) pools args result rawOne
      rawTwo := by
  simp only [twoHopSwapV2, guard_eq_ok, bind_eq_ok] at returned
  obtain ⟨-, timestamp, -, -, -, sequenceOne, -, sequenceTwo, -, updates, computed,
    done, matched, -, -, moved⟩ := returned
  unfold checkIntermediateAmount at matched
  split_ifs at matched with same
  rw [not_not] at same
  obtain ⟨rawOne, rawTwo, raw⟩ := rawSwaps_of_updates computed same
  have one_eq : (updates.one.update.inputAndOutput args.aToBOne).2 =
      (rawOne.update.inputAndOutput args.aToBOne).2 := by
    obtain ⟨input, one_eq⟩ := raw.one
    rw [one_eq, inputAndOutput_withAmounts]
  simp only [updateAndTwoHopSwapWhirlpoolV2, bind_eq_ok, Except.ok.injEq, one_eq] at moved
  obtain ⟨poolOne, updatedOne, poolTwo, updatedTwo, -, -, input, -, vaultOneInput, -,
    vaultOneIntermediate, sent, intermediate, arrives, vaultTwoIntermediate, received,
    vaultTwoOutput, -, -, -, -, -, rfl⟩ := moved
  rw [transferDelivers_eq _ raw.fits, raw.delivered] at arrives
  obtain rfl := Except.ok.inj arrives
  have sentOne := Pool.transferFromVaultToOwner_eq_ok sent
  obtain ⟨receivedTwo, -⟩ := Pool.transferFromOwnerToVault_eq_ok received
  refine ⟨rawOne, rawTwo, ?_, ?_, raw.one, raw.two, ?_, ?_, ?_⟩
  · obtain ⟨amount, -, swapped⟩ := raw.swappedOne
    exact ⟨_, _, _, swapped⟩
  · obtain ⟨amount, -, swapped⟩ := raw.swappedTwo
    exact ⟨_, _, _, swapped⟩
  · obtain ⟨vaultA, vaultB⟩ := updateAfterSwap_vaults updatedOne
    have kept : poolOne.outputVault args.aToBOne = pools.one.outputVault args.aToBOne := by
      unfold Pool.outputVault
      rw [vaultA, vaultB]
    have now : (poolOne.withVaults args.aToBOne vaultOneInput vaultOneIntermediate).outputVault
        args.aToBOne = vaultOneIntermediate := by
      cases args.aToBOne <;> rfl
    rw [← kept, sentOne]
    exact congrArg (· + _) now
  · have left := raw.delivered
    dsimp only at left
    rw [calculateTransferFeeExcludedAmount_eq raw.fits, left]
    exact ⟨_, rfl⟩
  · obtain ⟨vaultA, vaultB⟩ := updateAfterSwap_vaults updatedTwo
    have kept : poolTwo.inputVault args.aToBTwo = pools.two.inputVault args.aToBTwo := by
      unfold Pool.inputVault
      rw [vaultA, vaultB]
    have now : (poolTwo.withVaults args.aToBTwo vaultTwoIntermediate vaultTwoOutput).inputVault
        args.aToBTwo = vaultTwoIntermediate := by
      cases args.aToBTwo <;> rfl
    rw [← kept, ← receivedTwo]
    exact now

/-- Asked for an exact output, both pools swap in full, and a tenth of what the first one sends is
withheld. -/
theorem twoHopSwapV2_conserves_exactOut : ∃ pool result, Reachable (.exact false) pool ∧
    twoHopSwapV2 (.exact false) .formulas (fun mint => if mint = 2 then some tenPercent else none)
      ⟨100, pool, 101, pool⟩ sampleWallet 1 1 (sampleTwoHop 100000 (10 ^ 9) false maxSqrtPriceX64) =
        .ok result ∧
    ∃ rawOne rawTwo, IntermediateConserved (.exact false) .formulas
      (if pool.whirlpool.outputTokenMint true = 2 then some tenPercent else none)
      ⟨100, pool, 101, pool⟩ (sampleTwoHop 100000 (10 ^ 9) false maxSqrtPriceX64) result rawOne
      rawTwo := by
  have ran : (Ledger.run (execute (.exact false)) none sampleRun).1.any (fun pool =>
      yields (twoHopSwapV2 (.exact false) .formulas
        (fun mint => if mint = 2 then some tenPercent else none) ⟨100, pool, 101, pool⟩ sampleWallet
        1 1 (sampleTwoHop 100000 (10 ^ 9) false maxSqrtPriceX64)) fun _ => true) = true := by
    decide +kernel
  obtain ⟨pool, reached, traded⟩ := (Option.any_eq_true _ _).mp ran
  obtain ⟨result, returned, -⟩ := yields_iff.mp traded
  exact ⟨pool, result, ⟨sampleRun, reached⟩, returned, twoHopSwapV2_conserves returned⟩

namespace Wallet

variable {wallet wallet' : Wallet} {account : Pubkey} {amount : ℕ}

/-- What a set of accounts holds of a mint. -/
def balance (wallet : Wallet) (accounts : Finset Pubkey) (mint : Pubkey) : ℕ :=
  ∑ account ∈ accounts, if (wallet account).mint = mint then (wallet account).amount else 0

/-- Changing one account changes the balance of its mint only. -/
theorem balance_update (wallet : Wallet) {accounts : Finset Pubkey} (member : account ∈ accounts)
    (mint : Pubkey) (amount : ℕ) :
    balance (Function.update wallet account ⟨(wallet account).mint, amount⟩) accounts mint +
        (if (wallet account).mint = mint then (wallet account).amount else 0) =
      wallet.balance accounts mint + if (wallet account).mint = mint then amount else 0 := by
  unfold balance
  rw [← Finset.add_sum_erase _ _ member, ← Finset.add_sum_erase accounts _ member,
    Function.update_self]
  have others : ∀ other ∈ accounts.erase account,
      (if (Function.update wallet account ⟨(wallet account).mint, amount⟩ other).mint = mint then
        (Function.update wallet account ⟨(wallet account).mint, amount⟩ other).amount else 0) =
      if (wallet other).mint = mint then (wallet other).amount else 0 := by
    intro other inside
    rw [Function.update_of_ne (Finset.ne_of_mem_erase inside)]
  rw [Finset.sum_congr rfl others]
  dsimp only
  omega

/-- Taking tokens from an account lowers the balance of its mint over any accounts that include it,
and of no other mint. -/
theorem withdraw_balance (returned : wallet.withdraw account amount = .ok wallet')
    {accounts : Finset Pubkey} (member : account ∈ accounts) (mint : Pubkey) :
    wallet'.balance accounts mint + (if (wallet account).mint = mint then amount else 0) =
      wallet.balance accounts mint := by
  unfold withdraw at returned
  split_ifs at returned with enough
  obtain rfl := Except.ok.inj returned
  have changed := balance_update wallet member mint ((wallet account).amount - amount)
  split_ifs at changed ⊢ <;> omega

/-- Adding tokens to an account raises the balance of its mint over any accounts that include it,
and of no other mint. -/
theorem deposit_balance (returned : wallet.deposit account amount = .ok wallet')
    {accounts : Finset Pubkey} (member : account ∈ accounts) (mint : Pubkey) :
    wallet'.balance accounts mint =
      wallet.balance accounts mint + if (wallet account).mint = mint then amount else 0 := by
  unfold deposit at returned
  split_ifs at returned
  obtain rfl := Except.ok.inj returned
  have changed := balance_update wallet member mint ((wallet account).amount + amount)
  split_ifs at changed ⊢ <;> omega

/-- No transfer changes the mint of an account. -/
theorem withdraw_mint (returned : wallet.withdraw account amount = .ok wallet') (other : Pubkey) :
    (wallet' other).mint = (wallet other).mint := by
  unfold withdraw at returned
  split_ifs at returned
  obtain rfl := Except.ok.inj returned
  by_cases same : other = account
  · rw [same, Function.update_self]
  · rw [Function.update_of_ne same]

theorem deposit_mint (returned : wallet.deposit account amount = .ok wallet') (other : Pubkey) :
    (wallet' other).mint = (wallet other).mint := by
  unfold deposit at returned
  split_ifs at returned
  obtain rfl := Except.ok.inj returned
  by_cases same : other = account
  · rw [same, Function.update_self]
  · rw [Function.update_of_ne same]

end Wallet

theorem Whirlpool.inputTokenMint_ne {whirlpool : Whirlpool}
    (order : whirlpool.MintsOrdered) (aToB : Bool) :
    whirlpool.inputTokenMint aToB ≠ whirlpool.outputTokenMint aToB := by
  cases aToB with
  | true => exact ne_of_lt order
  | false => exact (ne_of_lt order).symm

/-- A swap of the trader takes its input and gives its output. -/
theorem updateAndSwapWhirlpool_balance {m : Machine} {pool pool' : Pool} {wallet wallet' : Wallet}
    {accountA accountB : Pubkey} {outcome : SwapOutcome} {aToB : Bool} {timestamp : ℕ}
    (returned : updateAndSwapWhirlpool m pool wallet accountA accountB outcome aToB timestamp =
      .ok (pool', wallet'))
    (mintA : (wallet accountA).mint = pool.whirlpool.tokenMintA)
    (mintB : (wallet accountB).mint = pool.whirlpool.tokenMintB)
    {accounts : Finset Pubkey} (memberA : accountA ∈ accounts) (memberB : accountB ∈ accounts)
    (mint : Pubkey) :
    wallet'.balance accounts mint + (if pool.whirlpool.inputTokenMint aToB = mint then
        (outcome.update.inputAndOutput aToB).1 else 0) =
      wallet.balance accounts mint + (if pool.whirlpool.outputTokenMint aToB = mint then
        (outcome.update.inputAndOutput aToB).2 else 0) ∧
    ∀ account, (wallet' account).mint = (wallet account).mint := by
  simp only [updateAndSwapWhirlpool, bind_eq_ok, Except.ok.injEq, Prod.mk.injEq] at returned
  obtain ⟨updated, -, withdrawn, paid, final, -, deposited, given, -, rfl⟩ := returned
  have mints (account : Pubkey) : (deposited account).mint = (wallet account).mint :=
    (Wallet.deposit_mint given account).trans (Wallet.withdraw_mint paid account)
  refine ⟨?_, mints⟩
  unfold Whirlpool.inputTokenMint Whirlpool.outputTokenMint
  cases aToB with
  | true =>
      have left := Wallet.withdraw_balance paid memberA mint
      have right := Wallet.deposit_balance given memberB mint
      rw [Wallet.withdraw_mint paid] at right
      simp only [↓reduceIte, mintA, mintB] at left right ⊢
      omega
  | false =>
      have left := Wallet.withdraw_balance paid memberB mint
      have right := Wallet.deposit_balance given memberA mint
      rw [Wallet.withdraw_mint paid] at right
      simp only [Bool.false_eq_true, ↓reduceIte, mintA, mintB] at left right ⊢
      omega

/-- The two computed swaps of a trade without transfer fees: the one computed second takes at most
what the other one leaves to it, and all of it unless it stops at its price limit. -/
theorem twoHopUpdates_within {m : Machine} {pools : TwoHopPools} {args : TwoHopSwapArgs}
    {updates : TwoHopUpdates} {sequenceOne sequenceTwo : SwapTickSequence} {timestamp : ℕ}
    (computed : twoHopUpdates
      (fun amount => swap m pools.one.whirlpool sequenceOne amount args.sqrtPriceLimitOne
        args.amountSpecifiedIsInput args.aToBOne timestamp)
      (fun amount => swap m pools.two.whirlpool sequenceTwo amount args.sqrtPriceLimitTwo
        args.amountSpecifiedIsInput args.aToBTwo timestamp) .ok args = .ok updates) :
    (if args.amountSpecifiedIsInput then
        (updates.two.update.inputAndOutput args.aToBTwo).1 ≤
          (updates.one.update.inputAndOutput args.aToBOne).2
      else (updates.one.update.inputAndOutput args.aToBOne).2 ≤
        (updates.two.update.inputAndOutput args.aToBTwo).1) ∧
    ((if args.amountSpecifiedIsInput then
        updates.two.update.nextSqrtPrice ≠ args.sqrtPriceLimitTwo
      else updates.one.update.nextSqrtPrice ≠ args.sqrtPriceLimitOne) →
      (updates.one.update.inputAndOutput args.aToBOne).2 =
        (updates.two.update.inputAndOutput args.aToBTwo).1) := by
  have fits := args.amount.toNat_lt
  unfold twoHopUpdates at computed
  cases isIn : args.amountSpecifiedIsInput with
  | true =>
      rw [isIn, if_pos rfl] at computed
      obtain ⟨one, first, computed⟩ := bind_eq_ok.mp computed
      obtain ⟨two, second, computed⟩ := bind_eq_ok.mp computed
      obtain rfl := Except.ok.inj computed
      have between := (swap_amounts fits first).2.2
      exact ⟨(swap_amounts between second).1, fun short => (swap_fills second short).symm⟩
  | false =>
      rw [isIn, if_neg Bool.false_ne_true] at computed
      obtain ⟨two, second, computed⟩ := bind_eq_ok.mp computed
      obtain ⟨asked, same, computed⟩ := bind_eq_ok.mp computed
      obtain ⟨one, first, computed⟩ := bind_eq_ok.mp computed
      obtain rfl := Except.ok.inj computed
      obtain rfl := Except.ok.inj same
      have between := (swap_amounts fits second).2.1
      exact ⟨(swap_amounts between first).1, fun short => swap_fills first short⟩

/-- What a trade through two pools that returns does to the intermediate token of the trader. -/
structure IntermediateSettled (pools : TwoHopPools) (wallet : Wallet)
    (accounts : TwoHopOwnerAccounts) (args : TwoHopSwapArgs) (result : TwoHopOutcome)
    (output input : ℕ) : Prop where
  /-- The trader's balance changes by the output of the first swap less the input of the second. -/
  balance : ∀ owned : Finset Pubkey,
    {accounts.oneA, accounts.oneB, accounts.twoA, accounts.twoB} ⊆ owned →
    result.wallet.balance owned (pools.one.whirlpool.outputTokenMint args.aToBOne) + input =
      wallet.balance owned (pools.one.whirlpool.outputTokenMint args.aToBOne) + output
  /-- With an exact input nothing is drawn from the trader, with an exact output nothing is left. -/
  oneSided : if args.amountSpecifiedIsInput then input ≤ output else output ≤ input
  /-- The amounts differ only where the swap that is computed second stopped at its limit. -/
  matched : (if args.amountSpecifiedIsInput then
      result.updates.two.update.nextSqrtPrice ≠ args.sqrtPriceLimitTwo
    else result.updates.one.update.nextSqrtPrice ≠ args.sqrtPriceLimitOne) → output = input

/-- A trade through two pools leaves the trader's balance of the intermediate token as it was,
unless the swap that is computed second stops at its price limit; then the part not filled is left
to the trader, or drawn from the trader. -/
theorem twoHopSwap_settled {m : Machine} {pools : TwoHopPools} {wallet : Wallet}
    {accounts : TwoHopOwnerAccounts} {args : TwoHopSwapArgs} {result : TwoHopOutcome}
    (orderOne : pools.one.whirlpool.MintsOrdered) (orderTwo : pools.two.whirlpool.MintsOrdered)
    (returned : twoHopSwap m pools wallet accounts args = .ok result) :
    IntermediateSettled pools wallet accounts args result
      (result.updates.one.update.inputAndOutput args.aToBOne).2
      (result.updates.two.update.inputAndOutput args.aToBTwo).1 := by
  simp only [twoHopSwap, guard_eq_ok, bind_eq_ok, Except.ok.injEq, not_not] at returned
  obtain ⟨constraints, timestamp, _, done, checked, sequenceOne, _, sequenceTwo, _, updates,
    computed, _, _, ⟨one, walletOne⟩, first, ⟨two, walletTwo⟩, second, rfl⟩ := returned
  obtain ⟨oneA, oneB, twoA, twoB⟩ := of_decide_eq_true constraints
  have intermediate : pools.one.whirlpool.outputTokenMint args.aToBOne =
      pools.two.whirlpool.inputTokenMint args.aToBTwo := by
    unfold checkTwoHopPools at checked
    split_ifs at checked with _ same
    exact not_not.mp same
  obtain ⟨oneSided, matched⟩ := twoHopUpdates_within computed
  refine ⟨fun owned subset => ?_, oneSided, matched⟩
  simp only [Finset.insert_subset_iff, Finset.singleton_subset_iff] at subset
  obtain ⟨memberOneA, memberOneB, memberTwoA, memberTwoB⟩ := subset
  obtain ⟨balanceOne, mints⟩ :=
    updateAndSwapWhirlpool_balance first oneA oneB memberOneA memberOneB
      (pools.one.whirlpool.outputTokenMint args.aToBOne)
  obtain ⟨balanceTwo, -⟩ :=
    updateAndSwapWhirlpool_balance second ((mints _).trans twoA) ((mints _).trans twoB) memberTwoA
      memberTwoB (pools.one.whirlpool.outputTokenMint args.aToBOne)
  rw [if_neg (Whirlpool.inputTokenMint_ne orderOne _), if_pos rfl] at balanceOne
  rw [intermediate, if_pos rfl, if_neg (Whirlpool.inputTokenMint_ne orderTwo _).symm,
    ← intermediate] at balanceTwo
  dsimp only at balanceTwo ⊢
  omega

/-- With no limit in the way the second swap takes all of the first one's output, and the trader's
balance of the intermediate token is as it was. -/
theorem twoHopSwap_settled_filled : ∃ pool result, Reachable (.exact false) pool ∧
    twoHopSwap (.exact false) ⟨100, pool, 101, pool⟩ sampleWallet ⟨1, 2, 1, 2⟩
      (sampleTwoHop 100000 0 true maxSqrtPriceX64) = .ok result ∧
    IntermediateSettled ⟨100, pool, 101, pool⟩ sampleWallet ⟨1, 2, 1, 2⟩
      (sampleTwoHop 100000 0 true maxSqrtPriceX64) result 98963 98963 := by
  have ran : (Ledger.run (execute (.exact false)) none sampleRun).1.any (fun pool =>
      yields (twoHopSwap (.exact false) ⟨100, pool, 101, pool⟩ sampleWallet ⟨1, 2, 1, 2⟩
        (sampleTwoHop 100000 0 true maxSqrtPriceX64)) fun result =>
          decide ((result.updates.one.update.inputAndOutput true).2 = 98963 ∧
            (result.updates.two.update.inputAndOutput false).1 = 98963)) = true := by
    decide +kernel
  obtain ⟨pool, reached, traded⟩ := (Option.any_eq_true _ _).mp ran
  obtain ⟨result, returned, amounts⟩ := yields_iff.mp traded
  obtain ⟨output, input⟩ := of_decide_eq_true amounts
  have reachable : Reachable (.exact false) pool := ⟨sampleRun, reached⟩
  have settled : IntermediateSettled _ _ _ _ _ (result.updates.one.update.inputAndOutput true).2
      (result.updates.two.update.inputAndOutput false).1 :=
    twoHopSwap_settled reachable.mintsOrdered reachable.mintsOrdered returned
  rw [output, input] at settled
  exact ⟨pool, result, reachable, returned, settled⟩

/-- The second swap stops at a price limit close by: of the output of the first one it takes 61, and
the rest is left in the trader's account. -/
theorem twoHopSwap_leaves : ∃ pool result, Reachable (.exact false) pool ∧
    twoHopSwap (.exact false) ⟨100, pool, 101, pool⟩ sampleWallet ⟨1, 2, 1, 2⟩
      (sampleTwoHop 100000 0 true (pool.whirlpool.sqrtPrice + 2 ^ 40)) = .ok result ∧
    (result.updates.one.update.inputAndOutput true).2 = 98963 ∧
    (result.updates.two.update.inputAndOutput false).1 = 61 ∧
    (sampleWallet 2).amount = 10 ^ 9 ∧ (result.wallet 2).amount = 10 ^ 9 + 98902 := by
  have ran : (Ledger.run (execute (.exact false)) none sampleRun).1.any (fun pool =>
      yields (twoHopSwap (.exact false) ⟨100, pool, 101, pool⟩ sampleWallet ⟨1, 2, 1, 2⟩
        (sampleTwoHop 100000 0 true (pool.whirlpool.sqrtPrice + 2 ^ 40))) fun result =>
          decide ((result.updates.one.update.inputAndOutput true).2 = 98963 ∧
            (result.updates.two.update.inputAndOutput false).1 = 61 ∧
            (result.wallet 2).amount = 10 ^ 9 + 98902)) = true := by decide +kernel
  obtain ⟨pool, reached, traded⟩ := (Option.any_eq_true _ _).mp ran
  obtain ⟨result, returned, amounts⟩ := yields_iff.mp traded
  obtain ⟨output, input, left⟩ := of_decide_eq_true amounts
  exact ⟨pool, result, ⟨sampleRun, reached⟩, returned, output, input, rfl, left⟩

end Whirlpools
