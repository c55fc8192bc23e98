/-!
# Scalars

The arithmetic the solvers run on: `Scalar α` lists the operations and asks for no laws, so that
one definition of an algorithm has its rounded reading on `Float` and `Float32` and an exact one
on any ordered field.

* `Scalar.isNaN`: a value that differs from itself.
* `Scalar.max`: the larger of two values; one that is not a number loses.
* `Scalar.entries?`: a number of entries that storage can hold. Where it cannot, an operation breaks
  down.
-/

namespace LinProg

/-- The operations of a solver's number type. -/
class Scalar (α : Type) extends Zero α, One α, Add α, Sub α, Mul α, Div α, Neg α, LT α, LE α,
    BEq α, OfScientific α where
  decidableLT : DecidableLT α
  decidableLE : DecidableLE α
  abs : α → α
  sqrt : α → α
  /-- Neither infinite nor without a value. -/
  isFinite : α → Bool
  /-- The gap between one and the next larger number. -/
  epsilon : α
  /-- The bytes of storage that a number takes, none if storage is left out of account. -/
  bytes : Nat

-- Where a type has an algebraic structure of its own, that one is found first.
attribute [instance (low)] Scalar.toZero Scalar.toOne Scalar.toAdd Scalar.toSub Scalar.toMul
  Scalar.toDiv Scalar.toNeg Scalar.toLT Scalar.toLE Scalar.toBEq Scalar.toOfScientific

attribute [reducible, instance (low)] Scalar.decidableLT Scalar.decidableLE

namespace Scalar

variable {α : Type} [Scalar α]

/-- A value is not a number when it differs from itself. -/
def isNaN (a : α) : Bool := !(a == a)

/-- The larger of two values; when one is not a number the other is taken. -/
protected def max (a b : α) : α := if isNaN a || decide (a < b) then b else a

/-- Storage holds `n` numbers: their bytes fit a signed word. -/
def Stores (α : Type) [Scalar α] (n : Nat) : Prop := n * bytes α < 0x8000000000000000

instance (n : Nat) : Decidable (Stores α n) := inferInstanceAs (Decidable (_ < _))

/-- A number of entries that storage can hold. -/
def entries? (α : Type) [Scalar α] (n : Nat) : Option Nat := if Stores α n then some n else none

theorem entries?_eq_some_iff {n k : Nat} : entries? α n = some k ↔ Stores α n ∧ n = k := by
  simp [entries?]

theorem entries?_eq {n : Nat} (h : Stores α n) : entries? α n = some n := if_pos h

theorem entries?_eq_none {n : Nat} (h : ¬Stores α n) : entries? α n = none := if_neg h

theorem Stores.mono {m n : Nat} (h : Stores α n) (hle : m ≤ n) : Stores α m :=
  Nat.lt_of_le_of_lt (Nat.mul_le_mul_right _ hle) h

end Scalar

instance : Scalar Float where
  zero := 0.0
  one := 1.0
  add := Float.add
  sub := Float.sub
  mul := Float.mul
  div := Float.div
  neg := Float.neg
  lt := fun a b => a < b
  le := fun a b => a ≤ b
  beq := Float.beq
  ofScientific := Float.ofScientific
  decidableLT := fun a b => inferInstanceAs (Decidable (a < b))
  decidableLE := fun a b => inferInstanceAs (Decidable (a ≤ b))
  abs := Float.abs
  sqrt := Float.sqrt
  isFinite := Float.isFinite
  epsilon := Float.ofBits 0x3cb0000000000000
  bytes := 8

instance : Scalar Float32 where
  zero := 0.0
  one := 1.0
  add := Float32.add
  sub := Float32.sub
  mul := Float32.mul
  div := Float32.div
  neg := Float32.neg
  lt := fun a b => a < b
  le := fun a b => a ≤ b
  beq := Float32.beq
  ofScientific := Float32.ofScientific
  decidableLT := fun a b => inferInstanceAs (Decidable (a < b))
  decidableLE := fun a b => inferInstanceAs (Decidable (a ≤ b))
  abs := Float32.abs
  sqrt := Float32.sqrt
  isFinite := Float32.isFinite
  epsilon := Float32.ofBits 0x34000000
  bytes := 4

end LinProg
