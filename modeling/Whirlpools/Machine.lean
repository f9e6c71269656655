import Whirlpools.Math.U256Math

/-! # How the program is compiled

The source leaves two readings open, and every result holds for both. The
manifest fixes no `overflow-checks`: plain arithmetic wraps in a release build
and panics in a debug build. `U256Muldiv::div` may be read as the word-level
division of the source or as exact floor division; all that is used of it is that
what it returns is the quotient and the remainder, that it returns on a zero
dividend, and that it fails by a panic.
-/

namespace Whirlpools

/-- `wrapping_sub` on `u128`. -/
def wrappingSub (a b : ℕ) : ℕ := (a + (2 ^ 128 - b % 2 ^ 128)) % 2 ^ 128

/-- `wrapping_add` on an unsigned type of the given width. -/
def wrappingAdd (width a b : ℕ) : ℕ := (a + b) % 2 ^ width

/-- `wrapping_mul` on an unsigned type of the given width. -/
def wrappingMul (width a b : ℕ) : ℕ := a * b % 2 ^ width

/-- A build of the program, with a reading of `U256Muldiv::div`. -/
structure Machine where
  overflowChecks : Bool
  div : U256Muldiv → U256Muldiv → Bool → Result (U256Muldiv × U256Muldiv)
  div_sound : ∀ {dividend divisor : U256Muldiv} {returnRemainder : Bool}
    {quotient remainder : U256Muldiv},
    div dividend divisor returnRemainder = .ok (quotient, remainder) →
      divisor.toNat ≠ 0 ∧ quotient.toNat = dividend.toNat / divisor.toNat ∧
        (returnRemainder = true → remainder.toNat = dividend.toNat % divisor.toNat)
  div_zero : ∀ {dividend divisor : U256Muldiv} {returnRemainder : Bool},
    dividend.toNat = 0 → divisor.toNat ≠ 0 →
      ∃ result, div dividend divisor returnRemainder = .ok result
  div_panics : ∀ {dividend divisor : U256Muldiv} {returnRemainder : Bool} {failure : Failure},
    div dividend divisor returnRemainder = .error failure → failure = .panic

namespace Machine

/-- Exact floor division, with the remainder where it is asked for. -/
def exactDiv (dividend divisor : U256Muldiv) (returnRemainder : Bool) :
    Result (U256Muldiv × U256Muldiv) :=
  if divisor.toNat = 0 then .error .panic
  else .ok (.ofNat (dividend.toNat / divisor.toNat),
    if returnRemainder then .ofNat (dividend.toNat % divisor.toNat) else .ofNat 0)

/-- The reading of the program in which `U256Muldiv::div` is exact floor division. -/
def exact (overflowChecks : Bool) : Machine where
  overflowChecks := overflowChecks
  div := exactDiv
  div_sound := by
    intro dividend divisor returnRemainder quotient remainder returned
    rw [exactDiv, Outcome.guard_eq_ok] at returned
    obtain ⟨nonzero, pair⟩ := returned
    simp only [Except.ok.injEq, Prod.mk.injEq] at pair
    have small := dividend.toNat_lt
    refine ⟨nonzero, ?_, ?_⟩
    · rw [← pair.1, U256Muldiv.toNat_ofNat (lt_of_le_of_lt (Nat.div_le_self _ _) small)]
    · intro wanted
      rw [← pair.2, if_pos wanted,
        U256Muldiv.toNat_ofNat (lt_of_le_of_lt (Nat.mod_le _ _) small)]
  div_zero := by
    intro dividend divisor returnRemainder _ nonzero
    exact ⟨_, if_neg nonzero⟩
  div_panics := by
    intro dividend divisor returnRemainder failure failed
    unfold exactDiv at failed
    split_ifs at failed
    exact (Except.error.inj failed).symm

variable (m : Machine)

/-- Plain `-` on an unsigned type of the given width. -/
def plainSub (width a b : ℕ) : Result ℕ :=
  if b ≤ a then .ok (a - b)
  else if m.overflowChecks then .error .panic
  else .ok ((a + 2 ^ width - b) % 2 ^ width)

/-- Plain `+` on an unsigned type of the given width. -/
def plainAdd (width a b : ℕ) : Result ℕ :=
  if a + b < 2 ^ width then .ok (a + b)
  else if m.overflowChecks then .error .panic
  else .ok ((a + b) % 2 ^ width)

/-- Plain `*` on an unsigned type of the given width. -/
def plainMul (width a b : ℕ) : Result ℕ :=
  if a * b < 2 ^ width then .ok (a * b)
  else if m.overflowChecks then .error .panic
  else .ok (a * b % 2 ^ width)

/-- Plain unary `-` on `i128`; the least value has no negation. -/
def plainNeg (a : ℤ) : Result ℤ :=
  if a ≠ -2 ^ 127 then .ok (-a)
  else if m.overflowChecks then .error .panic
  else .ok a

/-- `abs() as u128` on `i128`; the absolute value of the least value overflows. -/
def plainAbs (a : ℤ) : Result ℕ :=
  if a ≠ -2 ^ 127 then .ok a.natAbs
  else if m.overflowChecks then .error .panic
  else .ok (2 ^ 127)

/-- Plain subtraction is exact where it does not underflow, with and without checks. -/
theorem plainSub_of_le {width a b : ℕ} (fits : b ≤ a) : m.plainSub width a b = .ok (a - b) :=
  if_pos fits

/-- Plain addition is exact where it does not overflow. -/
theorem plainAdd_of_lt {width a b : ℕ} (fits : a + b < 2 ^ width) :
    m.plainAdd width a b = .ok (a + b) := if_pos fits

/-- Plain multiplication is exact where it does not overflow. -/
theorem plainMul_of_lt {width a b : ℕ} (fits : a * b < 2 ^ width) :
    m.plainMul width a b = .ok (a * b) := if_pos fits

theorem plainNeg_of_ne {a : ℤ} (fits : a ≠ -2 ^ 127) : m.plainNeg a = .ok (-a) := if_pos fits

/-- The plain absolute value is exact but at the least number. -/
theorem plainAbs_of_ne {a : ℤ} (fits : a ≠ -2 ^ 127) : m.plainAbs a = .ok a.natAbs := if_pos fits

/-- Whatever the build, a plain sum that returns is at most the sum. -/
theorem plainAdd_le {width a b c : ℕ} (returned : m.plainAdd width a b = .ok c) : c ≤ a + b := by
  unfold plainAdd at returned
  split_ifs at returned with fits
  · exact (Except.ok.inj returned).ge
  · exact (Except.ok.inj returned) ▸ Nat.mod_le _ _

/-- The absolute value returned is the absolute value, also where it wraps. -/
theorem plainAbs_eq {a : ℤ} {b : ℕ} (returned : m.plainAbs a = .ok b) : b = a.natAbs := by
  unfold plainAbs at returned
  split_ifs at returned with fits
  · exact (Except.ok.inj returned).symm
  · rw [not_not] at fits
    rw [← Except.ok.inj returned, fits]
    rfl

/-- The negation returned agrees with the negation modulo `2 ^ 128`. -/
theorem plainNeg_eq {a b : ℤ} (returned : m.plainNeg a = .ok b) :
    b = -a ∨ a = -2 ^ 127 ∧ b = -2 ^ 127 := by
  unfold plainNeg at returned
  split_ifs at returned with fits
  · exact .inl (Except.ok.inj returned).symm
  · rw [not_not] at fits
    exact .inr ⟨fits, by rw [← Except.ok.inj returned, fits]⟩

end Machine
end Whirlpools
