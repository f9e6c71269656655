import Whirlpools.Instructions

/-! # Two swaps in one instruction

The output of a swap on one pool is swapped on another pool. With an exact input the swaps are
computed in the order of the trade, with an exact output in the opposite order. The tokens move
through the accounts of the trader, the intermediate token as well.
-/

namespace Whirlpools

open Outcome

/-- A token account of the trader. -/
structure TokenAccount where
  mint : Pubkey
  amount : ℕ
  deriving DecidableEq

/-- The token accounts of the trader, by their keys. -/
abbrev Wallet := Pubkey → TokenAccount

namespace Wallet

/-- Move tokens out of an account. -/
def withdraw (wallet : Wallet) (account : Pubkey) (amount : ℕ) : Result Wallet :=
  if amount ≤ (wallet account).amount then
    .ok (Function.update wallet account ⟨(wallet account).mint, (wallet account).amount - amount⟩)
  else .error .insufficientFunds

/-- Move tokens into an account. -/
def deposit (wallet : Wallet) (account : Pubkey) (amount : ℕ) : Result Wallet :=
  if (wallet account).amount + amount < 2 ^ 64 then
    .ok (Function.update wallet account ⟨(wallet account).mint, (wallet account).amount + amount⟩)
  else .error .tokenOverflow

end Wallet

/-- The two pools of a trade, with the keys of their accounts. -/
structure TwoHopPools where
  whirlpoolOne : Pubkey
  one : Pool
  whirlpoolTwo : Pubkey
  two : Pool

/-- The arguments of `two_hop_swap`, with the tick arrays it names. -/
structure TwoHopSwapArgs where
  amount : UInt64
  otherAmountThreshold : ℕ
  amountSpecifiedIsInput : Bool
  aToBOne : Bool
  aToBTwo : Bool
  sqrtPriceLimitOne : ℕ
  sqrtPriceLimitTwo : ℕ
  tickArrayOne0 : ℤ
  tickArrayOne1 : ℤ
  tickArrayOne2 : ℤ
  tickArrayTwo0 : ℤ
  tickArrayTwo1 : ℤ
  tickArrayTwo2 : ℤ
  unixTimestamp : ℤ

/-- The trader's accounts for the tokens of both pools. -/
structure TwoHopOwnerAccounts where
  oneA : Pubkey
  oneB : Pubkey
  twoA : Pubkey
  twoB : Pubkey

/-- The swaps computed for a trade through two pools. -/
structure TwoHopUpdates where
  one : SwapOutcome
  two : SwapOutcome

/-- The two pools are different, and the output of the first one is the input of the second. -/
def checkTwoHopPools (pools : TwoHopPools) (aToBOne aToBTwo : Bool) : Result Unit :=
  if pools.whirlpoolOne = pools.whirlpoolTwo then err .duplicateTwoHopPool
  else if pools.one.whirlpool.outputTokenMint aToBOne ≠
    pools.two.whirlpool.inputTokenMint aToBTwo then
    err .invalidIntermediaryMint
  else .ok ()

/-- Compute the two swaps. `swapOneOutputAmount` is the output to be asked of the first swap for
the input of the second. -/
def twoHopUpdates (swapOne swapTwo : ℕ → Result SwapOutcome)
    (swapOneOutputAmount : ℕ → Result ℕ) (args : TwoHopSwapArgs) : Result TwoHopUpdates :=
  if args.amountSpecifiedIsInput then
    swapOne args.amount.toNat >>= fun swapCalcOne =>
    swapTwo (swapCalcOne.update.inputAndOutput args.aToBOne).2 >>= fun swapCalcTwo =>
    .ok ⟨swapCalcOne, swapCalcTwo⟩
  else
    swapTwo args.amount.toNat >>= fun swapCalcTwo =>
    swapOneOutputAmount (swapCalcTwo.update.inputAndOutput args.aToBTwo).1
      >>= fun swapOneOutputAmount =>
    swapOne swapOneOutputAmount >>= fun swapCalcOne =>
    .ok ⟨swapCalcOne, swapCalcTwo⟩

/-- Whether the other amount of the trade misses the trader's threshold. -/
def checkTwoHopThreshold (args : TwoHopSwapArgs) (updates : TwoHopUpdates) : Result Unit :=
  if args.amountSpecifiedIsInput then
    if args.otherAmountThreshold > (updates.two.update.inputAndOutput args.aToBTwo).2 then
      err .amountOutBelowMinimum
    else .ok ()
  else
    if args.otherAmountThreshold < (updates.one.update.inputAndOutput args.aToBOne).1 then
      err .amountInAboveMaximum
    else .ok ()

/-- Write a swap to its pool, and move its tokens between the trader and the vaults. -/
def updateAndSwapWhirlpool (m : Machine) (pool : Pool) (wallet : Wallet)
    (tokenOwnerAccountA tokenOwnerAccountB : Pubkey) (outcome : SwapOutcome) (aToB : Bool)
    (timestamp : ℕ) : Result (Pool × Wallet) :=
  let depositAccount := if aToB then tokenOwnerAccountA else tokenOwnerAccountB
  let withdrawalAccount := if aToB then tokenOwnerAccountB else tokenOwnerAccountA
  let amounts := outcome.update.inputAndOutput aToB
  pool.updateAfterSwap m outcome aToB timestamp >>= fun updated =>
  wallet.withdraw depositAccount amounts.1 >>= fun withdrawn =>
  updated.performSwap outcome.update.amountA outcome.update.amountB aToB >>= fun final =>
  withdrawn.deposit withdrawalAccount amounts.2 >>= fun deposited => .ok (final, deposited)

/-- The token accounts have the mints of their pools. -/
def TwoHopOwnerAccounts.constraints (accounts : TwoHopOwnerAccounts) (wallet : Wallet)
    (pools : TwoHopPools) : Bool :=
  (wallet accounts.oneA).mint = pools.one.whirlpool.tokenMintA ∧
    (wallet accounts.oneB).mint = pools.one.whirlpool.tokenMintB ∧
    (wallet accounts.twoA).mint = pools.two.whirlpool.tokenMintA ∧
    (wallet accounts.twoB).mint = pools.two.whirlpool.tokenMintB

/-- The pools and the trader's accounts after a trade, and the swaps computed. -/
structure TwoHopOutcome where
  pools : TwoHopPools
  wallet : Wallet
  updates : TwoHopUpdates

def twoHopSwap (m : Machine) (pools : TwoHopPools) (wallet : Wallet)
    (accounts : TwoHopOwnerAccounts) (args : TwoHopSwapArgs) : Result TwoHopOutcome :=
  if ¬ accounts.constraints wallet pools then .error .account
  else
    toTimestampU64 args.unixTimestamp >>= fun timestamp =>
    checkTwoHopPools pools args.aToBOne args.aToBTwo >>= fun _ =>
    pools.one.swapTickSequence args.tickArrayOne0 args.tickArrayOne1 args.tickArrayOne2
      >>= fun sequenceOne =>
    pools.two.swapTickSequence args.tickArrayTwo0 args.tickArrayTwo1 args.tickArrayTwo2
      >>= fun sequenceTwo =>
    twoHopUpdates
      (fun amount => swap m pools.one.whirlpool sequenceOne amount args.sqrtPriceLimitOne
        args.amountSpecifiedIsInput args.aToBOne timestamp)
      (fun amount => swap m pools.two.whirlpool sequenceTwo amount args.sqrtPriceLimitTwo
        args.amountSpecifiedIsInput args.aToBTwo timestamp) .ok args >>= fun updates =>
    checkTwoHopThreshold args updates >>= fun _ =>
    updateAndSwapWhirlpool m pools.one wallet accounts.oneA accounts.oneB updates.one args.aToBOne
      timestamp >>= fun first =>
    updateAndSwapWhirlpool m pools.two first.2 accounts.twoA accounts.twoB updates.two args.aToBTwo
      timestamp >>= fun second =>
    .ok ⟨{ pools with one := first.1, two := second.1 }, second.2, updates⟩

end Whirlpools
