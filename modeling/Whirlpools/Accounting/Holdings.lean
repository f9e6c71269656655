import Whirlpools.Accounting.Market
import Whirlpools.Foundation.Book

/-! # The tokens held by the liquidity of all positions

The exact amount of a token that a position's liquidity holds at a price is an area
over its range. The holdings of all positions are the area of the liquidity in
range, so a price move along which this liquidity is constant changes them by the
amount of the token between the two prices.
-/

namespace Whirlpools

open Ledger Book

/-- The coordinate of a price in which the amounts of a token are linear. -/
def coord (isTokenA : Bool) : ℕ → ℚ := if isTokenA then coordA else coordB

/-- The exact amount of a token in a liquidity over the range of a position at a price. -/
def Position.tokensOf (position : Position) (liquidity : ℕ) (isTokenA : Bool) (sqrtPrice : ℕ) : ℚ :=
  let lowerPrice := sqrtPriceFromTickIndex position.tickLowerIndex
  let upperPrice := sqrtPriceFromTickIndex position.tickUpperIndex
  let place := clamp lowerPrice upperPrice sqrtPrice
  if isTokenA then amountA liquidity place upperPrice else amountB liquidity lowerPrice place

/-- The exact amount of a token in the liquidity of a position at a price. -/
def Position.tokens (position : Position) (isTokenA : Bool) (sqrtPrice : ℕ) : ℚ :=
  position.tokensOf position.liquidity isTokenA sqrtPrice

/-- The exact amount of a token in the liquidity of all positions at a price. -/
def holdings (positions : Records Pubkey Position) (isTokenA : Bool) (sqrtPrice : ℕ) : ℚ :=
  total (fun position => position.tokens isTokenA sqrtPrice) positions

/-- The area of a book of liquidity below a price, in the coordinate of a token. -/
noncomputable def depth (liquidity : ℤ → ℚ) (isTokenA : Bool) (sqrtPrice : ℕ) : ℚ :=
  area tickPrice (coord isTokenA) (minTickIndex - 1) (maxTickIndex + 1) liquidity sqrtPrice

namespace Position

variable {position : Position} {tickSpacing : ℕ}

/-- The bounds of a position are in order and within the range of ticks. -/
theorem WellFormed.range (wellFormed : position.WellFormed tickSpacing) :
    minTickIndex ≤ position.tickLowerIndex ∧ position.tickLowerIndex < position.tickUpperIndex ∧
      position.tickUpperIndex ≤ maxTickIndex := by
  obtain ⟨lower, -⟩ := checkIsUsableTick_iff.mp wellFormed.lower
  obtain ⟨upper, -⟩ := checkIsUsableTick_iff.mp wellFormed.upper
  exact ⟨lower.1, wellFormed.ordered, upper.2⟩

/-- The program's prices of the bounds are those of the ticks. -/
theorem WellFormed.prices (wellFormed : position.WellFormed tickSpacing) :
    sqrtPriceFromTickIndex position.tickLowerIndex = tickPrice position.tickLowerIndex ∧
      sqrtPriceFromTickIndex position.tickUpperIndex = tickPrice position.tickUpperIndex := by
  have range := wellFormed.range
  exact ⟨(tickPrice_of_range range.1 (by omega)).symm,
    (tickPrice_of_range (by omega) range.2.2).symm⟩

/-- The tokens in some liquidity are in proportion to it. -/
theorem tokensOf_eq_mul (position : Position) (liquidity : ℕ) (isTokenA : Bool)
    (sqrtPrice : ℕ) : position.tokensOf liquidity isTokenA sqrtPrice =
      liquidity * position.tokensOf 1 isTokenA sqrtPrice := by
  unfold tokensOf amountA amountB
  split_ifs <;> rw [Nat.cast_one, one_mul]

/-- No liquidity stands for a negative amount of tokens. -/
theorem tokensOf_nonneg (wellFormed : position.WellFormed tickSpacing) (liquidity : ℕ)
    (isTokenA : Bool) (sqrtPrice : ℕ) : 0 ≤ position.tokensOf liquidity isTokenA sqrtPrice := by
  unfold tokensOf
  rw [wellFormed.prices.1, wellFormed.prices.2]
  cases isTokenA with
  | false => exact amountB_nonneg _ _ _
  | true =>
      exact amountA_nonneg (lt_of_lt_of_le (tickPrice_pos _) le_clamp) (tickPrice_pos _)

/-- The area below a price of the book of one position. -/
theorem depth_weight (wellFormed : position.WellFormed tickSpacing) (isTokenA : Bool)
    (sqrtPrice : ℕ) : depth (fun tick => (position.weight tick : ℚ)) isTokenA sqrtPrice =
      position.liquidity * (coord isTokenA (clamp (tickPrice position.tickLowerIndex)
        (tickPrice position.tickUpperIndex) sqrtPrice) -
          coord isTokenA (tickPrice position.tickLowerIndex)) := by
  obtain ⟨above, ordered, below⟩ := wellFormed.range
  have range : area tickPrice (coord isTokenA) (minTickIndex - 1) (maxTickIndex + 1)
      (fun tick => if position.tickLowerIndex ≤ tick ∧ tick < position.tickUpperIndex then
        (position.liquidity : ℚ) else 0) sqrtPrice = _ :=
    area_range tickPrice_mono (by omega) ordered.le (by omega) _
  rw [← range]
  refine area_congr fun tick _ _ => ?_
  unfold weight
  rw [Nat.cast_ite, Nat.cast_zero]

/-- The tokens of a position are the area of its book: of token B below the price, of
token A above it. -/
theorem tokens_eq (wellFormed : position.WellFormed tickSpacing) (isTokenA : Bool)
    (sqrtPrice : ℕ) :
    let book := fun tick => (position.weight tick : ℚ)
    position.tokens isTokenA sqrtPrice =
      if isTokenA then depth book true maxSqrtPriceX64 - depth book true sqrtPrice
      else depth book false sqrtPrice := by
  intro book
  have ordered := tickPrice_mono wellFormed.ordered.le
  unfold tokens tokensOf
  rw [wellFormed.prices.1, wellFormed.prices.2]
  simp only [book, depth_weight wellFormed]
  cases isTokenA with
  | false =>
      simp only [Bool.false_eq_true, ↓reduceIte]
      rw [amountB_of_le le_clamp]
      rfl
  | true =>
      simp only [↓reduceIte]
      rw [amountA_of_le (clamp_le ordered), clamp_of_ge (tickPrice_le_maxSqrtPrice _) ordered,
        ← mul_sub, sub_sub_sub_cancel_right]
      rfl

end Position

section Holdings

variable {positions : Records Pubkey Position} {tickSpacing : ℕ}

/-- Depths are additive. -/
private theorem total_depth (positions : Records Pubkey Position) (isTokenA : Bool)
    (sqrtPrice : ℕ) :
    total (fun position => depth (fun tick => (position.weight tick : ℚ)) isTokenA sqrtPrice)
      positions = depth (fun tick => (activeAt positions tick : ℚ)) isTokenA sqrtPrice := by
  have summed := total_map_hom (areaHom tickPrice (coord isTokenA) (minTickIndex - 1)
    (maxTickIndex + 1) sqrtPrice)
    (fun position : Position => fun tick => (position.weight tick : ℚ))
    positions
  have pointwise : total (fun position : Position => fun tick => (position.weight tick : ℚ))
      positions = fun tick => (activeAt positions tick : ℚ) := by
    funext tick
    have one := total_map_hom (Pi.evalAddMonoidHom (fun _ : ℤ => ℚ) tick)
      (fun position : Position => fun tick => (position.weight tick : ℚ)) positions
    have other := total_map_hom (Nat.castAddMonoidHom ℚ)
      (fun position : Position => position.weight tick) positions
    exact one.trans other.symm
  simp only [areaHom_apply, pointwise] at summed
  unfold depth
  exact summed.symm

/-- The holdings of all positions are the area of the liquidity in range. -/
theorem holdings_eq
    (ranges : ∀ position, Holds positions position → position.WellFormed tickSpacing)
    (isTokenA : Bool) (sqrtPrice : ℕ) :
    let book := fun tick => (activeAt positions tick : ℚ)
    holdings positions isTokenA sqrtPrice =
      if isTokenA then depth book true maxSqrtPriceX64 - depth book true sqrtPrice
      else depth book false sqrtPrice := by
  intro book
  have each : total _ positions = total _ positions := total_congr fun position held =>
    Position.tokens_eq (ranges position held) isTokenA sqrtPrice
  unfold holdings
  rw [each]
  cases isTokenA with
  | false => exact total_depth positions false sqrtPrice
  | true =>
      simp only [↓reduceIte, book]
      rw [eq_sub_iff_add_eq, ← total_depth, ← total_depth, ← total_add]
      simp only [sub_add_cancel]

/-- The tokens in all positions are not negative. -/
theorem holdings_nonneg
    (ranges : ∀ position, Holds positions position → position.WellFormed tickSpacing)
    (isTokenA : Bool) (sqrtPrice : ℕ) : 0 ≤ holdings positions isTokenA sqrtPrice :=
  total_nonneg fun position held =>
    Position.tokensOf_nonneg (ranges position held) position.liquidity isTokenA sqrtPrice

/-- The depth between two prices of a segment of constant liquidity. -/
theorem depth_sub_of_segment (book : ℤ → ℚ) {lower upper : ℤ} {liquidity price price' : ℕ}
    (isTokenA : Bool) (above : minTickIndex - 1 ≤ lower) (ordered : lower ≤ upper + 1)
    (below : upper ≤ maxTickIndex)
    (constant : ∀ tick, lower ≤ tick → tick ≤ upper → book tick = liquidity)
    (inside : tickPrice lower ≤ price ∧ price ≤ tickPrice (upper + 1))
    (inside' : tickPrice lower ≤ price' ∧ price' ≤ tickPrice (upper + 1)) :
    depth book isTokenA price' - depth book isTokenA price =
      liquidity * (coord isTokenA price' - coord isTokenA price) :=
  area_sub_of_segment tickPrice_mono above ordered (by omega)
    (fun tick after before => constant tick after (by omega)) inside.1 inside.2 inside'.1 inside'.2

/-- The distance of two prices in a coordinate as an amount of the token. -/
theorem coord_sub_eq {aToB : Bool} {price price' liquidity : ℕ} (isTokenA : Bool)
    (onward : Onward aToB price price') :
    (liquidity : ℚ) * (coord isTokenA price' - coord isTokenA price) =
      if aToB then -amountOf isTokenA liquidity price price'
      else amountOf isTokenA liquidity price price' := by
  unfold amountOf coord
  cases aToB <;> cases isTokenA <;>
    simp only [onward_true, onward_false, Bool.false_eq_true, ↓reduceIte] at onward ⊢
  · rw [amountB_of_le onward]
  · rw [amountA_of_le onward]
  · rw [amountB_comm, amountB_of_le onward]
    ring
  · rw [amountA_comm, amountA_of_le onward]
    ring

/-- A move of the price in a segment of constant liquidity adds the amount of the input
token between the two prices and takes that of the output token. -/
theorem holdings_move {lower upper : ℤ} {liquidity price price' : ℕ} {aToB : Bool}
    (ranges : ∀ position, Holds positions position → position.WellFormed tickSpacing)
    (isTokenA : Bool) (above : minTickIndex - 1 ≤ lower) (ordered : lower ≤ upper + 1)
    (below : upper ≤ maxTickIndex)
    (constant : ∀ tick, lower ≤ tick → tick ≤ upper → activeAt positions tick = liquidity)
    (inside : tickPrice lower ≤ price ∧ price ≤ tickPrice (upper + 1))
    (inside' : tickPrice lower ≤ price' ∧ price' ≤ tickPrice (upper + 1))
    (onward : Onward aToB price price') :
    holdings positions isTokenA price' = holdings positions isTokenA price +
      if isTokenA = aToB then amountOf isTokenA liquidity price price'
      else -amountOf isTokenA liquidity price price' := by
  have moved := depth_sub_of_segment (fun tick => (activeAt positions tick : ℚ)) isTokenA
    above ordered below (fun tick after before => congrArg Nat.cast (constant tick after before))
    inside inside'
  rw [coord_sub_eq isTokenA onward] at moved
  rw [holdings_eq ranges, holdings_eq ranges]
  cases aToB <;> cases isTokenA <;>
    simp only [Bool.false_eq_true, Bool.true_eq_false, ↓reduceIte] at moved ⊢ <;> linarith

end Holdings
end Whirlpools
