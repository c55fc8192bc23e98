import Mathlib
import LinProg.Scalar

/-!
# Exact arithmetic

The exact reading of `Scalar`: on an ordered field every operation is the field's own, every value
is finite, and every value is a number. Two things have no counterpart in a field and stay open:
the square root, about which nothing is assumed, and the gap after one, which is any constant that
is not negative (`Exact`). Storage is left out of account, as rounding is (`Exact.stores`).

`Mat m n K` is the type of matrices of linear algebra, beside the row lists of `Matrix K`.
-/

/-- Matrices with `m` rows and `n` columns. -/
abbrev Mat (m n : ℕ) (K : Type) := Matrix (Fin m) (Fin n) K

namespace LinProg

/-- What exact arithmetic on an ordered field leaves open. -/
class Exact (K : Type) [Field K] [LinearOrder K] where
  /-- Stands in for the square root. -/
  sqrt : K → K
  /-- Stands in for the gap between one and the next larger number. -/
  epsilon : K
  /-- The gap is not negative. -/
  epsilon_nonneg : 0 ≤ epsilon

instance exactScalar {K : Type} [Field K] [LinearOrder K] [Exact K] : Scalar K where
  decidableLT := inferInstance
  decidableLE := inferInstance
  abs a := |a|
  sqrt := Exact.sqrt
  isFinite _ := true
  epsilon := Exact.epsilon
  bytes := 0

/-- The rational numbers, with the square roots that squares of rational numbers have. -/
instance : Exact ℚ := ⟨Rat.sqrt, 0, le_rfl⟩

namespace Exact

variable {K : Type} [Field K] [LinearOrder K] [Exact K]

@[simp] theorem isNaN_eq_false (a : K) : Scalar.isNaN a = false := by
  simp [Scalar.isNaN]

@[simp] theorem isFinite_eq_true (a : K) : Scalar.isFinite a = true := rfl

@[simp] theorem abs_eq (a : K) : Scalar.abs a = |a| := rfl

@[simp] theorem max_eq (a b : K) : Scalar.max a b = max a b := by
  simp only [Scalar.max, isNaN_eq_false, Bool.false_or, decide_eq_true_eq]
  split
  · rename_i h
    exact (max_eq_right h.le).symm
  · rename_i h
    exact (max_eq_left (not_lt.mp h)).symm

@[simp] theorem stores (n : ℕ) : Scalar.Stores K n := by
  simp [Scalar.Stores, Scalar.bytes]

@[simp] theorem entries?_eq (n : ℕ) : Scalar.entries? K n = some n :=
  Scalar.entries?_eq (stores n)

theorem scalar_epsilon_nonneg : (0 : K) ≤ Scalar.epsilon := Exact.epsilon_nonneg

end Exact

end LinProg
