import Mathlib.Order.GaloisConnection.Defs
import Mathlib.Order.Nat

/-! # Exact adjoints on the natural numbers

The lower adjoint of a map assigns to a value the least argument whose value reaches it.
Where the map starts at zero and grows by at most one at each argument, that argument has
exactly this value, so that the lower adjoint is a least inverse.
-/

namespace GaloisConnection

variable {lower upper : ℕ → ℕ}

/-- A map that grows by at most one at each argument takes every value of its adjoint. -/
theorem upper_lower_eq (adjoint : GaloisConnection lower upper) (zero : upper 0 = 0)
    (grows : ∀ argument, upper (argument + 1) ≤ upper argument + 1) (value : ℕ) :
    upper (lower value) = value := by
  refine le_antisymm ?_ (adjoint.le_u_l value)
  cases least : lower value with
  | zero =>
      rw [zero]
      exact Nat.zero_le value
  | succ before =>
      have short : ¬ value ≤ upper before := by
        rw [← adjoint value before, least]
        exact Nat.not_succ_le_self before
      have step := grows before
      omega

/-- The lower adjoint is the least argument of a value. -/
theorem isLeast_lower (adjoint : GaloisConnection lower upper) (zero : upper 0 = 0)
    (grows : ∀ argument, upper (argument + 1) ≤ upper argument + 1) (value : ℕ) :
    IsLeast {argument | upper argument = value} (lower value) :=
  ⟨adjoint.upper_lower_eq zero grows value, fun _ same => (adjoint _ _).mpr (Eq.ge same)⟩

end GaloisConnection
