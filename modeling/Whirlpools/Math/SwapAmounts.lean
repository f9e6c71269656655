import Whirlpools.Math.SwapMath
import Whirlpools.Math.TokenAmounts

/-! # What one swap step guarantees

The price reached for an amount is the farthest price that the amount pays for,
or the nearest price that yields it. A step of a swap moves the price towards its
target, takes the exact input rounded up and gives at most the exact output
rounded down; it stops short of the target only when the amount is used up.
-/

namespace Whirlpools

open Outcome Rounding

/-- A price lies at or beyond another in the direction of a trade. -/
def Onward (aToB : Bool) (price beyond : ℕ) : Prop :=
  if aToB then beyond ≤ price else price ≤ beyond

/-- The exact amount of one of the tokens between two prices. -/
def amountOf (isTokenA : Bool) (liquidity price0 price1 : ℕ) : ℚ :=
  if isTokenA then amountA liquidity price0 price1 else amountB liquidity price0 price1

section Onward

variable {aToB : Bool} {p q r : ℕ}

@[simp] theorem onward_true : Onward true p q ↔ q ≤ p := Iff.rfl

@[simp] theorem onward_false : Onward false p q ↔ p ≤ q := Iff.rfl

theorem Onward.refl (aToB : Bool) (p : ℕ) : Onward aToB p p := by cases aToB <;> simp

theorem Onward.trans (first : Onward aToB p q) (second : Onward aToB q r) : Onward aToB p r := by
  cases aToB
  · exact le_trans (onward_false.mp first) second
  · exact le_trans (onward_true.mp second) first

/-- Prices that lie onward of each other are the same. -/
theorem Onward.antisymm (first : Onward aToB p q) (second : Onward aToB q p) : p = q := by
  cases aToB
  · exact le_antisymm (onward_false.mp first) second
  · exact le_antisymm (onward_true.mp second) first

/-- Of two prices one lies onward of the other. -/
theorem onward_total (aToB : Bool) (p q : ℕ) : Onward aToB p q ∨ Onward aToB q p := by
  cases aToB
  · exact le_total p q
  · exact le_total q p

/-- A price between two positive prices is positive. -/
theorem Onward.pos (onward : Onward aToB p q) (within : Onward aToB q r) (first : 0 < p)
    (last : 0 < r) : 0 < q := by
  cases aToB
  · exact lt_of_lt_of_le first (onward_false.mp onward)
  · exact lt_of_lt_of_le last (onward_true.mp within)

/-- A price between two prices is below any common bound. -/
theorem Onward.lt (onward : Onward aToB p q) (within : Onward aToB q r) {bound : ℕ}
    (first : p < bound) (last : r < bound) : q < bound := by
  cases aToB
  · exact lt_of_le_of_lt (onward_false.mp within) last
  · exact lt_of_le_of_lt (onward_true.mp onward) first

end Onward

section Amounts

variable {isTokenA : Bool} {liquidity p q r : ℕ}

/-- The amount between two prices is not negative. -/
theorem amountOf_nonneg (isTokenA : Bool) (liquidity : ℕ) (first : 0 < p) (second : 0 < q) :
    0 ≤ amountOf isTokenA liquidity p q := by
  cases isTokenA
  · exact amountB_nonneg liquidity p q
  · exact amountA_nonneg first second

/-- Nothing lies between a price and itself. -/
@[simp] theorem amountOf_self : amountOf isTokenA liquidity p p = 0 := by
  cases isTokenA <;> simp [amountOf, amountA, amountB]

@[simp] theorem amountOf_zero : amountOf isTokenA 0 p q = 0 := by
  cases isTokenA <;> simp [amountOf, amountA, amountB]

/-- Amounts along a trade add up. -/
theorem amountOf_add {aToB : Bool} (first : Onward aToB p q) (second : Onward aToB q r) :
    amountOf isTokenA liquidity p r =
      amountOf isTokenA liquidity p q + amountOf isTokenA liquidity q r := by
  have whole := first.trans second
  cases aToB
  · simp only [onward_false] at first second whole
    cases isTokenA
    · change amountB _ _ _ = amountB _ _ _ + amountB _ _ _
      rw [amountB_of_le first, amountB_of_le second, amountB_of_le whole]
      ring
    · change amountA _ _ _ = amountA _ _ _ + amountA _ _ _
      rw [amountA_of_le first, amountA_of_le second, amountA_of_le whole]
      ring
  · simp only [onward_true] at first second whole
    cases isTokenA
    · change amountB _ _ _ = amountB _ _ _ + amountB _ _ _
      rw [amountB_comm _ p r, amountB_comm _ p q, amountB_comm _ q r, amountB_of_le first,
        amountB_of_le second, amountB_of_le whole]
      ring
    · change amountA _ _ _ = amountA _ _ _ + amountA _ _ _
      rw [amountA_comm _ p r, amountA_comm _ p q, amountA_comm _ q r, amountA_of_le first,
        amountA_of_le second, amountA_of_le whole]
      ring

end Amounts

section NextPrice

variable {m : Machine} {price liquidity amount next : ℕ}

/-- A rounded-up quotient is at most a price exactly when the multiplied bound holds. -/
private theorem roundedQuotient_le_iff {numerator denominator : U256Muldiv} {n d : ℕ}
    (numerator_eq : numerator.toNat = n) (denominator_eq : denominator.toNat = d)
    (returned : roundedQuotient m numerator denominator true = .ok next) (x : ℕ) :
    next ≤ x ↔ n ≤ x * d := by
  obtain ⟨positive, -, rfl⟩ := roundedQuotient_eq_ok returned
  rw [numerator_eq, denominator_eq] at *
  rw [roundTo_true, Nat.ceil_le, div_le_iff₀ (Nat.cast_pos.mpr positive)]
  exact_mod_cast Iff.rfl

/-- What is left of an amount of token A that fits the price. -/
private theorem amountA_le_iff {x : ℕ} (first : 0 < price) (second : 0 < x) (below : x ≤ price) :
    amountA liquidity price x ≤ amount ↔
      liquidity * price * 2 ^ 64 ≤ x * (liquidity * 2 ^ 64 + price * amount) := by
  have p : (0 : ℚ) < price := Nat.cast_pos.mpr first
  have q : (0 : ℚ) < x := Nat.cast_pos.mpr second
  rw [amountA_comm, amountA_of_le below]
  unfold coordA
  have scaled : (liquidity : ℚ) * (-(2 ^ 64 / (price : ℚ)) - -(2 ^ 64 / (x : ℚ))) =
      (liquidity * price * 2 ^ 64 - liquidity * x * 2 ^ 64) / (price * x) := by
    field_simp
    ring
  rw [scaled, div_le_iff₀ (mul_pos p q), ← Nat.cast_le (α := ℚ)]
  push_cast
  constructor <;> intro bound <;> linarith

/-- The range up to a price holds an amount of token A exactly from the price on at which the range
holds just that amount. -/
private theorem le_amountA_iff {x : ℕ} (first : 0 < price) (second : 0 < x) (above : price ≤ x)
    (enough : price * amount ≤ liquidity * 2 ^ 64) :
    (amount : ℚ) ≤ amountA liquidity price x ↔
      liquidity * price * 2 ^ 64 ≤ x * (liquidity * 2 ^ 64 - price * amount) := by
  have p : (0 : ℚ) < price := Nat.cast_pos.mpr first
  have q : (0 : ℚ) < x := Nat.cast_pos.mpr second
  rw [amountA_of_le above]
  unfold coordA
  have scaled : (liquidity : ℚ) * (-(2 ^ 64 / (x : ℚ)) - -(2 ^ 64 / (price : ℚ))) =
      (liquidity * x * 2 ^ 64 - liquidity * price * 2 ^ 64) / (price * x) := by
    field_simp
    ring
  rw [scaled, le_div_iff₀ (mul_pos p q), ← Nat.cast_le (α := ℚ), Nat.cast_mul x,
    Nat.cast_sub enough]
  push_cast
  constructor <;> intro bound <;> linarith

/-- The price reached by trading an amount of token A. -/
theorem getNextSqrtPriceFromARoundUp_eq_ok {amountSpecifiedIsInput : Bool}
    (positive : 0 < price) (priceBound : price < 2 ^ 128) (liquid : 0 < liquidity)
    (liquidityBound : liquidity < 2 ^ 128) (amountBound : amount < 2 ^ 64)
    (returned : getNextSqrtPriceFromARoundUp m price liquidity amount amountSpecifiedIsInput =
      .ok next) :
    if amountSpecifiedIsInput then
      next ≤ price ∧ ∀ x, 0 < x → x ≤ price → (next ≤ x ↔ amountA liquidity price x ≤ amount)
    else
      price ≤ next ∧ ∀ x, price ≤ x → (next ≤ x ↔ (amount : ℚ) ≤ amountA liquidity price x) := by
  unfold getNextSqrtPriceFromARoundUp at returned
  by_cases nothing : amount = 0
  · rw [if_pos nothing] at returned
    obtain rfl := Except.ok.inj returned
    have tokens : (0 : ℚ) < liquidity := Nat.cast_pos.mpr liquid
    subst nothing
    cases amountSpecifiedIsInput
    · simp only [Bool.false_eq_true, ↓reduceIte, le_refl, true_and]
      intro x above
      simp only [above, true_iff, Nat.cast_zero]
      exact amountA_nonneg positive (lt_of_lt_of_le positive above)
    · simp only [↓reduceIte, le_refl, true_and]
      intro x xPositive below
      rw [Nat.cast_zero]
      constructor
      · intro above
        obtain rfl := le_antisymm above below
        simp [amountA]
      · intro noAmount
        by_contra less
        have moved := coordA_lt xPositive (not_le.mp less)
        rw [amountA_comm, amountA_of_le below] at noAmount
        exact absurd noAmount (not_le.mpr (mul_pos tokens (sub_pos.mpr moved)))
  · rw [if_neg nothing] at returned
    obtain ⟨numerator, shifted, returned⟩ := bind_eq_ok.mp returned
    obtain ⟨unbounded, returned⟩ := guard_eq_ok.mp returned
    obtain ⟨result, quotient, returned⟩ := bind_eq_ok.mp returned
    obtain ⟨-, returned⟩ := guard_eq_ok.mp returned
    obtain ⟨-, returned⟩ := guard_eq_ok.mp returned
    obtain rfl := Except.ok.inj returned
    rw [divRoundUpIfU256_eq] at quotient
    obtain ⟨-, numerator_eq⟩ := U256Muldiv.checkedShiftWordLeft_eq_some (okOr_eq_ok.mp shifted)
    rw [toNat_mulU256 liquidityBound priceBound] at numerator_eq
    have product_eq := toNat_mulU256 priceBound (lt_trans amountBound (by norm_num))
    have shiftLeft_eq : (U256Muldiv.new 0 liquidity).shiftWordLeft.toNat = liquidity * 2 ^ 64 := by
      rw [U256Muldiv.toNat_shiftWordLeft, U256Muldiv.toNat_new (by norm_num) liquidityBound]
      omega
    have productBound : price * amount < 2 ^ 192 :=
      lt_of_lt_of_le (Nat.mul_lt_mul'' priceBound amountBound) (by norm_num)
    have regroup : liquidity * price * 2 ^ 64 = price * (liquidity * 2 ^ 64) := by ring
    cases amountSpecifiedIsInput
    · simp only [Bool.false_eq_true, not_false_eq_true, true_and, U256Muldiv.lte_iff, product_eq,
        shiftLeft_eq, not_le, ↓reduceIte] at unbounded quotient ⊢
      have reaches := roundedQuotient_le_iff numerator_eq
        (d := liquidity * 2 ^ 64 - price * amount)
        (by rw [U256Muldiv.toNat_sub, product_eq, shiftLeft_eq]; omega) quotient
      constructor
      · by_contra less
        have fits := (reaches (price - 1)).mp (by omega)
        have strict : (price - 1) * (liquidity * 2 ^ 64 - price * amount) <
            price * (liquidity * 2 ^ 64) :=
          Nat.mul_lt_mul_of_lt_of_le (by omega) (Nat.sub_le _ _)
            (Nat.mul_pos liquid (by norm_num))
        exact absurd (regroup ▸ fits) (not_le.mpr strict)
      · intro x above
        rw [reaches x, le_amountA_iff positive (lt_of_lt_of_le positive above) above unbounded.le]
    · simp only [↓reduceIte] at quotient ⊢
      have reaches := roundedQuotient_le_iff numerator_eq
        (d := liquidity * 2 ^ 64 + price * amount)
        (by rw [U256Muldiv.toNat_add, product_eq, shiftLeft_eq]; omega) quotient
      constructor
      · rw [reaches, Nat.mul_add, regroup]
        exact Nat.le_add_right _ _
      · intro x xPositive below
        rw [reaches x, amountA_le_iff positive xPositive below]

/-- The price reached by trading an amount of token B. -/
theorem getNextSqrtPriceFromBRoundDown_eq_ok {amountSpecifiedIsInput : Bool}
    (returned : getNextSqrtPriceFromBRoundDown price liquidity amount amountSpecifiedIsInput =
      .ok next) :
    if amountSpecifiedIsInput then
      price ≤ next ∧ ∀ x, price ≤ x → (x ≤ next ↔ amountB liquidity price x ≤ amount)
    else
      next ≤ price ∧ ∀ x, x ≤ price → (x ≤ next ↔ (amount : ℚ) ≤ amountB liquidity price x) := by
  unfold getNextSqrtPriceFromBRoundDown at returned
  obtain ⟨delta, divided, returned⟩ := bind_eq_ok.mp returned
  rw [divRoundUpIf, guard_eq_ok] at divided
  obtain ⟨nonzero, divided⟩ := divided
  have tokens : (0 : ℚ) < liquidity := Nat.cast_pos.mpr (Nat.pos_of_ne_zero nonzero)
  have delta_eq := Except.ok.inj divided
  rw [div_round_eq (K := ℚ) _ (Nat.pos_of_ne_zero nonzero)] at delta_eq
  rw [Nat.cast_mul, Nat.cast_pow, Nat.cast_ofNat] at delta_eq
  cases amountSpecifiedIsInput
  · simp only [Bool.not_false, roundTo_true, Bool.false_eq_true, ↓reduceIte] at delta_eq returned ⊢
    split_ifs at returned with enough
    obtain rfl := Except.ok.inj returned
    refine ⟨Nat.sub_le _ _, ?_⟩
    intro x below
    rw [amountB_comm, amountB_of_le below]
    unfold coordB
    have moved : x ≤ price - delta ↔ delta ≤ price - x := by omega
    rw [moved, ← delta_eq, Nat.ceil_le, div_le_iff₀ tokens, Nat.cast_sub below, ← sub_div,
      ← mul_div_assoc, le_div_iff₀ (by norm_num), mul_comm ((price : ℚ) - x)]
  · simp only [Bool.not_true, roundTo_false, ↓reduceIte] at delta_eq returned ⊢
    split_ifs at returned with fits
    obtain rfl := Except.ok.inj returned
    refine ⟨Nat.le_add_right _ _, ?_⟩
    intro x above
    rw [amountB_of_le above]
    unfold coordB
    have moved : x ≤ price + delta ↔ x - price ≤ delta := by omega
    rw [moved, ← delta_eq, Nat.le_floor_iff (by positivity), le_div_iff₀ tokens,
      Nat.cast_sub above, ← sub_div, ← mul_div_assoc, div_le_iff₀ (by norm_num),
      mul_comm ((x : ℚ) - price)]

/-- The price reached is the farthest one paid for, or the nearest one that yields the amount. -/
theorem getNextSqrtPrice_eq_ok {isIn aToB : Bool} (positive : 0 < price)
    (priceBound : price < 2 ^ 128) (liquid : 0 < liquidity) (liquidityBound : liquidity < 2 ^ 128)
    (amountBound : amount < 2 ^ 64)
    (returned : getNextSqrtPrice m price liquidity amount isIn aToB = .ok next) :
    Onward aToB price next ∧ ∀ x, 0 < x → Onward aToB price x →
      if isIn then Onward aToB x next ↔ amountOf aToB liquidity price x ≤ amount
      else Onward aToB next x ↔ (amount : ℚ) ≤ amountOf (!aToB) liquidity price x := by
  unfold getNextSqrtPrice at returned
  cases isIn <;> cases aToB <;>
    simp only [Bool.false_eq_true, Bool.true_eq_false, ↓reduceIte, onward_true, onward_false,
      amountOf, Bool.not_true, Bool.not_false] at returned ⊢
  · have reached := getNextSqrtPriceFromARoundUp_eq_ok positive priceBound liquid liquidityBound
      amountBound returned
    exact ⟨reached.1, fun x _ above => reached.2 x above⟩
  · have reached := getNextSqrtPriceFromBRoundDown_eq_ok returned
    exact ⟨reached.1, fun x _ below => reached.2 x below⟩
  · have reached := getNextSqrtPriceFromBRoundDown_eq_ok returned
    exact ⟨reached.1, fun x _ above => reached.2 x above⟩
  · have reached := getNextSqrtPriceFromARoundUp_eq_ok positive priceBound liquid liquidityBound
      amountBound returned
    exact ⟨reached.1, fun x xPositive below => reached.2 x xPositive below⟩

end NextPrice

section Step

variable {m : Machine} {rem feeRate liquidity current target : ℕ} {isIn aToB : Bool}

/-- The amount of a token, rounded, as either of the two functions returns it. -/
private theorem getAmountDelta_eq_ok {isTokenA : Bool} {p q value : ℕ} {roundUp : Bool}
    (first : 0 < p) (second : 0 < q) (bound0 : p < 2 ^ 128) (bound1 : q < 2 ^ 128)
    (boundL : liquidity < 2 ^ 128)
    (returned : (if isTokenA then getAmountDeltaA m p q liquidity roundUp
      else getAmountDeltaB p q liquidity roundUp) = .ok value) :
    value = roundTo roundUp (amountOf isTokenA liquidity p q) ∧ value < 2 ^ 64 := by
  cases isTokenA
  · exact getAmountDeltaB_eq_ok returned
  · exact getAmountDeltaA_eq_ok first second bound0 bound1 boundL returned

/-- The token specified by the amount: the input of exact-in swaps, the output otherwise. -/
def specifiedIsA (isIn aToB : Bool) : Bool := aToB = isIn

/-- The fixed side of a step is the exact amount, rounded up for an input and down for an output. -/
theorem getAmountFixedDelta_eq_ok {value : ℕ} (first : 0 < current) (second : 0 < target)
    (bound0 : current < 2 ^ 128) (bound1 : target < 2 ^ 128) (boundL : liquidity < 2 ^ 128)
    (returned : getAmountFixedDelta m current target liquidity isIn aToB = .ok value) :
    value = roundTo isIn (amountOf (specifiedIsA isIn aToB) liquidity current target) ∧
      value < 2 ^ 64 := by
  refine getAmountDelta_eq_ok (m := m) first second bound0 bound1 boundL ?_
  simpa only [getAmountFixedDelta, specifiedIsA, decide_eq_true_eq] using returned

/-- The other side of a step is the exact amount, rounded down for an output and up for an input. -/
theorem getAmountUnfixedDelta_eq_ok {value : ℕ} (first : 0 < current) (second : 0 < target)
    (bound0 : current < 2 ^ 128) (bound1 : target < 2 ^ 128) (boundL : liquidity < 2 ^ 128)
    (returned : getAmountUnfixedDelta m current target liquidity isIn aToB = .ok value) :
    value = roundTo (!isIn) (amountOf (!specifiedIsA isIn aToB) liquidity current target) ∧
      value < 2 ^ 64 := by
  refine getAmountDelta_eq_ok (m := m) first second bound0 bound1 boundL ?_
  by_cases same : aToB = isIn <;>
    simpa only [getAmountUnfixedDelta, specifiedIsA, same, decide_true, decide_false, ↓reduceIte,
      Bool.not_true, Bool.not_false, Bool.false_eq_true] using returned

/-- What the remaining amount pays for: all of it for an exact output, and what is
left after the fee for an exact input. -/
def amountCalc (rem feeRate : ℕ) (isIn : Bool) : ℕ :=
  if isIn then rem * (feeRateMulValue - feeRate) / feeRateMulValue else rem

/-- The fee of a step that reaches its target. -/
def fullFee (amountIn feeRate : ℕ) : ℕ :=
  ⌈(amountIn : ℚ) * feeRate / (feeRateMulValue - feeRate : ℕ)⌉₊

/-- What a step that returns has computed. -/
structure StepContract (rem feeRate liquidity current target : ℕ) (isIn aToB : Bool)
    (step : SwapStepComputation) : Prop where
  leaves : Onward aToB current step.nextPrice
  stops : Onward aToB step.nextPrice target
  /-- The target is reached exactly when it can be paid for. -/
  reaches : isIn = true → (step.nextPrice = target ↔
    amountOf aToB liquidity current target ≤ amountCalc rem feeRate true)
  /-- Short of its target, an exact-in step moves as far as it can pay for. -/
  farthest : isIn = true → step.nextPrice ≠ target → ∀ x, 0 < x → Onward aToB current x →
    (Onward aToB x step.nextPrice ↔
      amountOf aToB liquidity current x ≤ amountCalc rem feeRate true)
  amountIn : step.amountIn = ⌈amountOf aToB liquidity current step.nextPrice⌉₊
  amountOut : step.amountOut = if isIn then ⌊amountOf (!aToB) liquidity current step.nextPrice⌋₊
    else min ⌊amountOf (!aToB) liquidity current step.nextPrice⌋₊ rem
  fee : step.feeAmount = if isIn ∧ step.nextPrice ≠ target then rem - step.amountIn
    else fullFee step.amountIn feeRate
  exhausts : step.nextPrice ≠ target →
    if isIn then step.amountIn ≤ rem else step.amountOut = rem
  empty : liquidity = 0 → step.nextPrice = target

/-- What is left for the price move is no more than what remains. -/
theorem amountCalc_le (rem feeRate : ℕ) (isIn : Bool) : amountCalc rem feeRate isIn ≤ rem := by
  unfold amountCalc
  split_ifs
  · exact Nat.div_le_of_le_mul (by rw [Nat.mul_comm]; exact Nat.mul_le_mul_right _ (Nat.sub_le _ _))
  · exact le_rfl

/-- The budget of a step as the program computes it. -/
private theorem amountCalc_eq_ok {amount : ℕ}
    (returned : (if isIn then
        checkedMulDiv rem (feeRateMulValue - feeRate) feeRateMulValue >>= tryIntoU64
      else .ok rem) = .ok amount) : amount = amountCalc rem feeRate isIn := by
  unfold amountCalc
  cases isIn
  · exact (Except.ok.inj returned).symm
  · simp only [↓reduceIte] at returned ⊢
    obtain ⟨value, divided, converted⟩ := bind_eq_ok.mp returned
    rw [checkedMulDiv, checkedMulDivRoundUpIf, guard_eq_ok, guard_eq_ok] at divided
    have quotient := Except.ok.inj divided.2.2
    simp only [Bool.false_eq_true, false_and, ↓reduceIte] at quotient
    unfold tryIntoU64 at converted
    split_ifs at converted
    rw [← Except.ok.inj converted, quotient]

/-- The fee of a step that reaches its target is the full fee of the input. -/
private theorem fullFee_eq_ok {amountIn fee : ℕ}
    (returned : (checkedMulDivRoundUp amountIn feeRate (feeRateMulValue - feeRate) >>=
      tryIntoU64) = .ok fee) : fee = fullFee amountIn feeRate := by
  obtain ⟨value, divided, converted⟩ := bind_eq_ok.mp returned
  rw [checkedMulDivRoundUp, checkedMulDivRoundUpIf, guard_eq_ok, guard_eq_ok] at divided
  obtain ⟨nonzero, -, divided⟩ := divided
  have quotient := Except.ok.inj divided
  rw [div_round_eq (K := ℚ) _ (Nat.pos_of_ne_zero nonzero), roundTo_true, Nat.cast_mul] at quotient
  unfold tryIntoU64 at converted
  split_ifs at converted
  rw [← Except.ok.inj converted, ← quotient]
  rfl

/-- The place of the price reached by a step, with its two special cases. -/
theorem reached_place {next initial : ℕ} (positive : 0 < current)
    (targetPositive : 0 < target) (bound0 : current < 2 ^ 128) (remBound : rem < 2 ^ 64)
    (boundL : liquidity < 2 ^ 128) (onward : Onward aToB current target)
    (fixed : initial = roundTo isIn
      (amountOf (specifiedIsA isIn aToB) liquidity current target))
    (returned : (if amountCalc rem feeRate isIn ≥ initial then .ok target
      else getNextSqrtPrice m current liquidity (amountCalc rem feeRate isIn) isIn aToB) =
        .ok next) :
    Onward aToB current next ∧ Onward aToB next target ∧
      (isIn = true → (next = target ↔
        amountOf aToB liquidity current target ≤ amountCalc rem feeRate true)) ∧
      (next ≠ target → ∀ x, 0 < x → Onward aToB current x →
        if isIn then
          Onward aToB x next ↔ amountOf aToB liquidity current x ≤ amountCalc rem feeRate true
        else Onward aToB next x ↔ (rem : ℚ) ≤ amountOf (!aToB) liquidity current x) ∧
      (liquidity = 0 → next = target) := by
  by_cases enough : amountCalc rem feeRate isIn ≥ initial
  · rw [if_pos enough] at returned
    obtain rfl := Except.ok.inj returned
    refine ⟨onward, .refl _ _, ?_, fun short => absurd rfl short, fun _ => rfl⟩
    rintro rfl
    rw [fixed, roundTo_true, ge_iff_le, Nat.ceil_le] at enough
    simpa only [true_iff, specifiedIsA, Bool.decide_eq_true] using enough
  · rw [if_neg enough] at returned
    rw [ge_iff_le, not_le] at enough
    have liquid : 0 < liquidity := by
      rcases Nat.eq_zero_or_pos liquidity with absent | liquid
      · rw [fixed, absent, amountOf_zero, roundTo_zero] at enough
        exact absurd enough (Nat.not_lt_zero _)
      · exact liquid
    obtain ⟨leaves, place⟩ := getNextSqrtPrice_eq_ok positive bound0 liquid boundL
      (lt_of_le_of_lt (amountCalc_le _ _ _) remBound) returned
    have atTarget := place target targetPositive onward
    cases isIn
    · simp only [Bool.false_eq_true, ↓reduceIte, specifiedIsA, Bool.decide_eq_false,
        roundTo_false] at *
      have yields : (rem : ℚ) ≤ amountOf (!aToB) liquidity current target := by
        have floor := Nat.floor_le (amountOf_nonneg (!aToB) liquidity
          positive targetPositive)
        rw [fixed] at enough
        exact le_trans (Nat.cast_le.mpr enough.le) floor
      exact ⟨leaves, atTarget.mpr yields, fun absurdity => by simp at absurdity,
        fun _ x xPositive beyond => place x xPositive beyond, fun absent => by omega⟩
    · simp only [↓reduceIte, specifiedIsA, Bool.decide_eq_true, roundTo_true] at *
      have beyond : ¬ Onward aToB target next := by
        rw [atTarget, not_le]
        rw [fixed, Nat.lt_ceil] at enough
        exact enough
      have short : next ≠ target := fun same => beyond (same ▸ .refl _ _)
      refine ⟨leaves, (onward_total aToB next target).resolve_right beyond, fun _ => ?_,
        fun _ x xPositive beyond => place x xPositive beyond, fun absent => by omega⟩
      exact ⟨fun same => absurd same short, fun pays => absurd (atTarget.mpr pays) beyond⟩

/-- A swap step that returns keeps its contract. -/
theorem computeSwap_contract {step : SwapStepComputation} (positive : 0 < current)
    (targetPositive : 0 < target) (bound0 : current < 2 ^ 128) (bound1 : target < 2 ^ 128)
    (boundL : liquidity < 2 ^ 128) (remBound : rem < 2 ^ 64)
    (onward : Onward aToB current target)
    (returned : computeSwap m rem feeRate liquidity current target isIn aToB = .ok step) :
    StepContract rem feeRate liquidity current target isIn aToB step := by
  simp only [computeSwap, bind_eq_ok, Except.ok.injEq] at returned
  obtain ⟨initial, fixed, amount, calculated, next, moved, unfixed, unfixedDelta, fixedUsed,
    fixedDelta, fee, feeComputed, rfl⟩ := returned
  obtain rfl := amountCalc_eq_ok calculated
  obtain ⟨fixed_eq, -⟩ := getAmountFixedDelta_eq_ok positive targetPositive bound0
    bound1 boundL fixed
  obtain ⟨leaves, stops, reaches, farthest, empty⟩ := reached_place positive targetPositive bound0
    remBound boundL onward fixed_eq moved
  have nextPositive := leaves.pos stops positive targetPositive
  have nextBound := leaves.lt stops bound0 bound1
  obtain ⟨unfixed_eq, -⟩ := getAmountUnfixedDelta_eq_ok positive nextPositive bound0
    nextBound boundL
    unfixedDelta
  have used_eq : fixedUsed =
      roundTo isIn (amountOf (specifiedIsA isIn aToB) liquidity current next) := by
    by_cases full : next = target
    · rw [if_pos full] at fixedDelta
      rw [← Except.ok.inj fixedDelta, fixed_eq, full]
    · rw [if_neg full] at fixedDelta
      exact (getAmountFixedDelta_eq_ok positive nextPositive bound0 nextBound boundL fixedDelta).1
  have nonneg : 0 ≤ amountOf aToB liquidity current next := amountOf_nonneg aToB liquidity
    positive nextPositive
  cases isIn
  · simp only [Bool.false_eq_true, ↓reduceIte, specifiedIsA, Bool.decide_eq_false, Bool.not_not,
      roundTo_false, Bool.not_false, roundTo_true, not_false_eq_true, true_and, false_and] at *
    have capped : (if fixedUsed > rem then rem else fixedUsed) = min fixedUsed rem := by
      split_ifs with excess
      · exact (min_eq_right excess.le).symm
      · exact (min_eq_left (not_lt.mp excess)).symm
    refine ⟨leaves, stops, fun absurdity => by simp at absurdity,
      fun absurdity => by simp at absurdity, unfixed_eq, ?_, ?_, ?_, empty⟩
    · simpa only [used_eq, Bool.false_eq_true, ↓reduceIte] using capped
    · simpa only [Bool.false_eq_true, false_and, ↓reduceIte] using fullFee_eq_ok feeComputed
    · intro short
      have yields := (farthest short next nextPositive leaves).mp (.refl _ _)
      rw [used_eq] at capped
      simp only [Bool.false_eq_true, ↓reduceIte, used_eq, capped]
      exact min_eq_right (Nat.le_floor yields)
  · simp only [↓reduceIte, specifiedIsA, Bool.decide_eq_true, roundTo_true, Bool.not_true,
      roundTo_false, true_and, not_true_eq_false, false_and, true_implies] at *
    have paid (short : next ≠ target) : fixedUsed ≤ rem := by
      have pays := (farthest short next nextPositive leaves).mp (.refl _ _)
      rw [used_eq, Nat.ceil_le]
      exact le_trans pays (Nat.cast_le.mpr (amountCalc_le rem feeRate true))
    refine ⟨leaves, stops, fun _ => reaches, fun _ => farthest, used_eq, ?_, ?_, ?_, empty⟩
    · simp only [↓reduceIte, unfixed_eq]
    · by_cases full : next = target
      · simp only [full, not_true_eq_false, ↓reduceIte, ne_eq, and_false] at feeComputed ⊢
        exact fullFee_eq_ok feeComputed
      · simp only [full, not_false_eq_true, ↓reduceIte, ne_eq, and_true] at feeComputed ⊢
        rw [m.plainSub_of_le (paid full)] at feeComputed
        exact (Except.ok.inj feeComputed).symm
    · simpa only [↓reduceIte] using paid

end Step
end Whirlpools
