import Whirlpools.Accounting.Execution

/-! # Coverage of the obligations

The vaults cover the protocol fees, the fees owed to positions, what positions have
earned since, and the tokens in the liquidity of all positions. A swap takes at
least what it adds to these obligations of its input token, and gives at most what
it takes out of those of its output token; both hold for every iteration.
-/

namespace Whirlpools

open Outcome Ledger Rounding Book

section Bound

/-- Between two neighbouring usable prices a unit of liquidity holds some of one token. -/
theorem unit_tokens_bound {lower place upper : ℕ} (least : 2 ^ 32 ≤ lower)
    (greatest : upper ≤ 2 ^ 97)
    (above : lower ≤ place) (below : place ≤ upper)
    (apart : lower * (2 ^ 15 + 1) ≤ upper * 2 ^ 15) :
    (1 : ℚ) ≤ 2 ^ 50 * ((coordA upper - coordA place) + (coordB place - coordB lower)) := by
  have lowerLarge : (2 ^ 32 : ℚ) ≤ lower := by exact_mod_cast least
  have upperSmall : (upper : ℚ) ≤ 2 ^ 97 := by exact_mod_cast greatest
  have above' : (lower : ℚ) ≤ place := Nat.cast_le.mpr above
  have below' : (place : ℚ) ≤ upper := Nat.cast_le.mpr below
  have apart' : (lower : ℚ) * (2 ^ 15 + 1) ≤ upper * 2 ^ 15 := by exact_mod_cast apart
  have placePos : (0 : ℚ) < place := by linarith
  have upperPos : (0 : ℚ) < upper := by linarith
  have partA : coordA upper - coordA place = 2 ^ 64 * (upper - place) / (place * upper) := by
    unfold coordA
    field_simp
    ring
  have partB : coordB place - coordB lower = (place - lower) / 2 ^ 64 := by
    unfold coordB
    ring
  have nonnegA : 0 ≤ coordA upper - coordA place := by
    rw [partA]
    exact div_nonneg (mul_nonneg (by norm_num) (by linarith)) (by positivity)
  have nonnegB : 0 ≤ coordB place - coordB lower := by
    rw [partB]
    exact div_nonneg (by linarith) (by norm_num)
  rcases le_total ((lower : ℚ) + upper) (2 * place) with high | low
  · have enough : (1 : ℚ) ≤ 2 ^ 50 * (coordB place - coordB lower) := by
      rw [partB, ← mul_div_assoc, le_div_iff₀ (by norm_num)]
      linarith
    linarith
  · have enough : (1 : ℚ) ≤ 2 ^ 50 * (coordA upper - coordA place) := by
      have gap : (upper : ℚ) ≤ 2 ^ 17 * (upper - place) := by linarith
      rw [partA, ← mul_div_assoc, le_div_iff₀ (mul_pos placePos upperPos), one_mul]
      calc (place : ℚ) * upper ≤ 2 ^ 97 * (2 ^ 17 * (upper - place)) :=
            mul_le_mul (below'.trans upperSmall) gap upperPos.le (by norm_num)
        _ = 2 ^ 50 * (2 ^ 64 * (upper - place)) := by ring
    linarith

/-- The liquidity of a position is bounded by the tokens in it. -/
theorem Position.liquidity_le_tokens {position : Position} {tickSpacing : ℕ}
    (wellFormed : position.WellFormed tickSpacing) (sqrtPrice : ℕ) :
    (position.liquidity : ℚ) ≤
      2 ^ 50 * (position.tokens true sqrtPrice + position.tokens false sqrtPrice) := by
  obtain ⟨lower, ordered, upper⟩ := wellFormed.range
  have prices := tickPrice_mono wellFormed.ordered.le
  have step := sqrtPriceFromTickIndex_spacing position.tickLowerIndex
    (by unfold minTickIndex at lower; omega) (by unfold maxTickIndex at upper; omega)
  rw [← tickPrice_of_range lower (by omega), ← tickPrice_of_range (by omega) (by omega)] at step
  have next := tickPrice_mono (Int.add_one_le_iff.mpr ordered)
  have unit := unit_tokens_bound
    ((show 2 ^ 32 ≤ minSqrtPriceX64 by unfold minSqrtPriceX64; norm_num).trans
      (minSqrtPrice_le_tickPrice position.tickLowerIndex))
    ((tickPrice_le_maxSqrtPrice position.tickUpperIndex).trans maxSqrtPrice_lt.le) le_clamp
    (@clamp_le _ _ _ _ sqrtPrice prices) (step.trans (Nat.mul_le_mul_right _ next))
  have scaled := mul_le_mul_of_nonneg_left unit (Nat.cast_nonneg (α := ℚ) position.liquidity)
  unfold Position.tokens Position.tokensOf
  simp only [Bool.false_eq_true, ↓reduceIte]
  rw [wellFormed.prices.1, wellFormed.prices.2, amountA_of_le (clamp_le prices),
    amountB_of_le le_clamp]
  linarith

/-- The liquidity of all positions is bounded by their holdings. -/
theorem totalLiquidity_le_holdings {positions : Records Pubkey Position} {tickSpacing : ℕ}
    (ranges : ∀ position, Holds positions position → position.WellFormed tickSpacing)
    (sqrtPrice : ℕ) : (totalLiquidity positions : ℚ) ≤
      2 ^ 50 * (holdings positions true sqrtPrice + holdings positions false sqrtPrice) := by
  have cast := total_map_hom (Nat.castAddMonoidHom ℚ) Position.liquidity positions
  have scaled := total_map_hom (AddMonoidHom.mulLeft (2 ^ 50 : ℚ))
    (fun position : Position => position.tokens true sqrtPrice + position.tokens false sqrtPrice)
    positions
  rw [total_add] at scaled
  change (totalLiquidity positions : ℚ) = _ at cast
  change 2 ^ 50 * (holdings positions true sqrtPrice + holdings positions false sqrtPrice) = _
    at scaled
  rw [cast, scaled]
  exact total_le_total fun position held => Position.liquidity_le_tokens (ranges position held) _

end Bound

/-- What a running swap has taken of its input token. -/
def SwapState.taken (state : SwapState) (amountSpecifiedIsInput : Bool) : ℚ :=
  if amountSpecifiedIsInput then -state.amountRemaining else state.amountCalculated

/-- What a running swap has given of its output token. -/
def SwapState.given (state : SwapState) (amountSpecifiedIsInput : Bool) : ℚ :=
  if amountSpecifiedIsInput then state.amountCalculated else -state.amountRemaining

/-- The amounts of an iteration are those of its step. -/
theorem accountAmounts_taken {isIn : Bool} {computation : SwapStepComputation}
    {state state' : SwapState}
    (returned : accountAmounts isIn state.amountRemaining state.amountCalculated computation =
      .ok (state'.amountRemaining, state'.amountCalculated)) :
    state'.taken isIn = state.taken isIn + computation.amountIn + computation.feeAmount ∧
      state'.given isIn = state.given isIn + computation.amountOut := by
  have spec := accountAmounts_eq_ok returned
  unfold SwapState.taken SwapState.given
  cases isIn <;> simp only [Bool.false_eq_true, ↓reduceIte] at spec ⊢
  · obtain ⟨remaining, calculated, -⟩ := spec
    rw [calculated, ← remaining]
    push_cast
    constructor <;> ring
  · obtain ⟨remaining, calculated, -⟩ := spec
    rw [calculated, ← remaining]
    push_cast
    constructor <;> ring

section Run

variable {m : Machine} {context : SwapContext} {table last : TickTable}
  {state final : SwapState} {entries : List SwapIteration} {tickSpacing : ℕ}
  {positions : Records Pubkey Position}

/-- What the liquidity of all positions and their pending fees amount to, for one token. -/
def Market.claims (market : Market) (isTokenA : Bool) (positions : Records Pubkey Position) : ℚ :=
  holdings positions isTokenA market.sqrtPrice + market.totalPending (.fee isTokenA) positions

/-- An iteration takes what it adds to the claims on its input token. -/
theorem Traverses.input_covered {table' : TickTable} {state' : SwapState} {entry : SwapIteration}
    (step : Traverses m context table state entry table' state')
    (holds : LoopInvariant context table state) (holds' : LoopInvariant context table' state')
    (rate : context.whirlpool.protocolFeeRate ≤ maxProtocolFeeRate)
    (booked : Booked tickSpacing (state.market context table) positions) :
    (state'.market context table').claims context.aToB positions + state'.currProtocolFee +
        state.taken context.amountSpecifiedIsInput ≤
      (state.market context table).claims context.aToB positions + state.currProtocolFee +
        state'.taken context.amountSpecifiedIsInput := by
  have fees := step.charged rate
  have tokens := step.holdings_eq holds holds' booked context.aToB
  rw [if_pos rfl] at tokens
  have amounts := (step.amounts_bound holds holds').1
  have taken := (accountAmounts_taken step.amounts).1
  have pending := (step.grows booked.idle (.fee context.aToB)).totalPending_le booked
  change _ ≤ _ + (state.currLiquidity * entry.growth context.aToB (.fee context.aToB) : ℚ) / 2 ^ 64
    at pending
  rw [SwapIteration.growth, if_pos rfl, fees.delta_eq] at pending
  have earned : (state.currLiquidity * feeGrowthDelta (entry.computation.feeAmount -
      entry.protocolFee) state.currLiquidity : ℚ) / 2 ^ 64 ≤
        entry.computation.feeAmount - entry.protocolFee := by
    rw [div_le_iff₀ (by norm_num), ← Nat.cast_sub fees.share_le]
    exact_mod_cast feeGrowthDelta_mul_le _ _
  have protocol : (state'.currProtocolFee : ℚ) ≤ state.currProtocolFee + entry.protocolFee := by
    rw [fees.protocolFee_eq]
    exact_mod_cast wrappingAdd_le _ _ _
  unfold Market.claims
  change holdings positions context.aToB state'.currSqrtPrice + _ + _ + _ ≤
    holdings positions context.aToB state.currSqrtPrice + _ + _ + _
  linarith

/-- An iteration gives what it takes out of the claims on its output token. -/
theorem Traverses.output_covered {table' : TickTable} {state' : SwapState} {entry : SwapIteration}
    (step : Traverses m context table state entry table' state')
    (holds : LoopInvariant context table state) (holds' : LoopInvariant context table' state')
    (booked : Booked tickSpacing (state.market context table) positions) :
    (state'.market context table').claims (!context.aToB) positions +
        state'.given context.amountSpecifiedIsInput ≤
      (state.market context table).claims (!context.aToB) positions +
        state.given context.amountSpecifiedIsInput := by
  have tokens := step.holdings_eq holds holds' booked (!context.aToB)
  rw [if_neg (Bool.not_ne_self _)] at tokens
  have amounts := (step.amounts_bound holds holds').2
  have given := (accountAmounts_taken step.amounts).2
  have pending := (step.grows booked.idle (.fee !context.aToB)).totalPending_le booked
  have zero : entry.growth context.aToB (.fee !context.aToB) = 0 := by
    unfold SwapIteration.growth
    rw [if_neg (by simp only [Channel.fee.injEq, Bool.not_eq_self, not_false_eq_true])]
  rw [zero, Nat.cast_zero, mul_zero, zero_div, add_zero] at pending
  unfold Market.claims
  change holdings positions (!context.aToB) state'.currSqrtPrice + _ + _ ≤
    holdings positions (!context.aToB) state.currSqrtPrice + _ + _
  linarith

/-- A whole swap keeps the books and covers the claims on both tokens. -/
theorem Traversal.covered (traversal : Traversal m context table state entries last final)
    (rate : context.whirlpool.protocolFeeRate ≤ maxProtocolFeeRate)
    (bounded : totalLiquidity positions < 2 ^ 127)
    (booked : Booked tickSpacing (state.market context table) positions) :
    Booked tickSpacing (final.market context last) positions ∧
      (final.market context last).claims context.aToB positions + final.currProtocolFee +
          state.taken context.amountSpecifiedIsInput ≤
        (state.market context table).claims context.aToB positions + state.currProtocolFee +
          final.taken context.amountSpecifiedIsInput ∧
      (final.market context last).claims (!context.aToB) positions +
          final.given context.amountSpecifiedIsInput ≤
        (state.market context table).claims (!context.aToB) positions +
          state.given context.amountSpecifiedIsInput := by
  induction traversal with
  | done => exact ⟨booked, le_rfl, le_rfl⟩
  | step holds traverses holds' _ ih =>
      obtain ⟨booked', input, output⟩ := ih (traverses.booked booked bounded)
      have first := traverses.input_covered holds holds' rate booked
      have second := traverses.output_covered holds holds' booked
      exact ⟨booked', by linarith, by linarith⟩

end Run

/-- The amounts a finished swap reports are those taken and given by its loop. -/
theorem postSwapUpdate_amounts {m : Machine} {context : SwapContext} (sequence : SwapTickSequence)
    (amount : ℕ) {final : SwapState} {update : PostSwapUpdate}
    (shrunk : final.amountRemaining ≤ amount)
    (returned : context.postSwapUpdate m amount final = .ok update) :
    let initial := context.initialState sequence amount
    (update.amount context.aToB : ℚ) = final.taken context.amountSpecifiedIsInput -
        initial.taken context.amountSpecifiedIsInput ∧
      (update.amount (!context.aToB) : ℚ) = final.given context.amountSpecifiedIsInput -
        initial.given context.amountSpecifiedIsInput := by
  intro initial
  simp only [SwapContext.postSwapUpdate, bind_eq_ok, Except.ok.injEq] at returned
  obtain ⟨used, subtracted, _, _, rfl⟩ := returned
  rw [m.plainSub_of_le shrunk] at subtracted
  obtain rfl := Except.ok.inj subtracted
  have remaining : initial.amountRemaining = amount := rfl
  have calculated : initial.amountCalculated = 0 := rfl
  unfold PostSwapUpdate.amount SwapState.taken SwapState.given
  rw [remaining, calculated]
  cases context.aToB <;> cases context.amountSpecifiedIsInput <;>
    simp only [Bool.false_eq_true, Bool.true_eq_false, Bool.not_true, Bool.not_false, ↓reduceIte,
      Nat.cast_sub shrunk, Nat.cast_zero, sub_zero, true_and, and_true] <;> ring

end Whirlpools
