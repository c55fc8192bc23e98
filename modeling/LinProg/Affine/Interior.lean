import LinProg.Precheck

/-!
# Interior points

The constraints `A x ≤ b` are carried as `[A | I] (x, s) = b`, so an iterate of affine scaling holds
the variables followed by one slack per constraint.
-/

namespace LinProg

/-- An iterate of affine scaling. -/
structure InteriorPoint (α : Type) where
  /-- The variables, followed by the slacks. -/
  x : List α
  nvars : Nat
  /-- Number of steps that led to it. -/
  iteration : Nat
  deriving Repr

namespace InteriorPoint

variable {α : Type}

/-- The variables, if there are enough entries. -/
def primal? (s : InteriorPoint α) : Option (List α) :=
  if s.nvars ≤ s.x.length then some (s.x.take s.nvars) else none

/-- The slacks, if there are enough entries. -/
def slack? (s : InteriorPoint α) : Option (List α) :=
  if s.nvars ≤ s.x.length then some (s.x.drop s.nvars) else none

variable [Scalar α]

/-- A starting point together with its slacks; all of them have to be positive. -/
def initial (p : Problem α) (start : List α) :
    Outcome (ApplicabilityError α) (InteriorPoint α) := do
  (Outcome.ofExcept (p.validatePoint start)).mapError .input
  let lhs ← Outcome.ofOption (p.constraints.productInto? start (List.replicate p.ncons 0))
  let _ ← Outcome.ofOption (Scalar.entries? α (start.length + p.ncons))
  let x := start ++ p.rhs.zipWith (· - ·) lhs
  match x.zipIdx.find? fun (v, _) => !decide (v > 0) with
  | some (v, i) => .error (.notInterior i v)
  | none => return ⟨x, p.nvars, 0⟩

end InteriorPoint

end LinProg
