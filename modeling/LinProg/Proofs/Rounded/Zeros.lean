import LinProg.Proofs.Exact.Arithmetic

/-!
# Zeros in rounded arithmetic

A *zero* is a value that equals zero; a machine format has two of them. Rounding leaves an operation
with a zero alone: `ExactZeros` says what becomes of a zero next to finite values, up to the sign of
the zero, and `OrderedZeros` how zeros compare with tolerances. Nothing is asked of any other
result, so what follows from these laws holds however an arithmetic rounds.

Exact arithmetic has the laws with a single zero. `LinProg.Proofs.Rounded.Formats` proves them for
the machine formats.
-/

namespace LinProg

/-- Arithmetic that is exact at zeros, up to their sign. -/
class ExactZeros (α : Type) [Scalar α] : Prop where
  zero_isZero : ((0 : α) == 0) = true
  one_notZero : ((1 : α) == 0) = false
  div_isZero : ∀ {z v : α}, (z == 0) = true → Scalar.isFinite v = true → (v == 0) = false →
    (z / v == 0) = true
  mul_isZero : ∀ {v z : α}, Scalar.isFinite v = true → (z == 0) = true → (v * z == 0) = true
  /-- Taking off a zero changes no more than the sign of a zero. -/
  sub_isZero : ∀ {v z : α}, Scalar.isFinite v = true → (z == 0) = true →
    v - z = v ∨ (v == 0) = true ∧ (v - z == 0) = true

/-- Zeros lie within every tolerance, and one within none that is smaller. -/
class OrderedZeros (α : Type) [Scalar α] : Prop extends ExactZeros α where
  abs_isZero : ∀ {z : α}, (z == 0) = true → Scalar.abs z = 0
  abs_isZero_sub_one : ∀ {z : α}, (z == 0) = true → Scalar.abs (z - 1) = 1
  abs_one_sub_one : Scalar.abs (1 - 1 : α) = 0
  not_le_of_lt : ∀ {a b : α}, a < b → ¬b ≤ a
  isZero_le : ∀ {z t : α}, (z == 0) = true → 0 ≤ t → z ≤ t
  neg_le_isZero : ∀ {z t : α}, (z == 0) = true → 0 ≤ t → -t ≤ z

section Exact

variable {K : Type} [Field K] [LinearOrder K] [Exact K]

instance exactZeros_exact : ExactZeros K where
  zero_isZero := beq_self_eq_true _
  one_notZero := beq_eq_false_iff_ne.mpr one_ne_zero
  div_isZero := by
    intro z v hz _ _
    rw [beq_iff_eq.mp hz, zero_div]
    exact beq_self_eq_true _
  mul_isZero := by
    intro v z _ hz
    rw [beq_iff_eq.mp hz, mul_zero]
    exact beq_self_eq_true _
  sub_isZero := by
    intro v z _ hz
    left
    rw [beq_iff_eq.mp hz]
    exact sub_zero v

instance orderedZeros_exact [IsStrictOrderedRing K] : OrderedZeros K where
  abs_isZero := by
    intro z hz
    rw [beq_iff_eq.mp hz]
    exact abs_zero
  abs_isZero_sub_one := by
    intro z hz
    rw [beq_iff_eq.mp hz, Exact.abs_eq, zero_sub, abs_neg, abs_one]
  abs_one_sub_one := by rw [Exact.abs_eq, sub_self, abs_zero]
  not_le_of_lt := fun h => not_le.mpr h
  isZero_le := by
    intro z t hz ht
    rw [beq_iff_eq.mp hz]
    exact ht
  neg_le_isZero := by
    intro z t hz ht
    rw [beq_iff_eq.mp hz]
    exact neg_nonpos.mpr ht

end Exact

end LinProg
