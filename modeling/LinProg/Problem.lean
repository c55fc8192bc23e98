import LinProg.Matrix

/-!
# Linear programs

A problem is `maximize cᵀx subject to A x ≤ b, x ≥ 0`. `Problem.validate` checks that its parts
fit together and hold finite numbers only.
-/

namespace LinProg

/-- `maximize costᵀ x subject to constraints · x ≤ rhs, x ≥ 0`. -/
structure Problem (α : Type) where
  cost : List α
  /-- One row per constraint. -/
  constraints : Matrix α
  rhs : List α
  deriving Repr, BEq

namespace Problem

variable {α : Type} [Scalar α]

def nvars (p : Problem α) : Nat := p.cost.length

def ncons (p : Problem α) : Nat := p.rhs.length

/-- The objective at the first entries of a point, if it has enough of them. -/
def objective? (p : Problem α) (x : List α) : Option α :=
  if p.nvars ≤ x.length then Vec.dot? p.cost (x.take p.nvars) else none

/-- The parts fit together and all numbers are finite. The first failing check gives the error. -/
def validate (p : Problem α) : Outcome (InputError α) Unit := do
  Outcome.check (p.nvars ≠ 0) .emptyObjective
  p.constraints.validate
  Outcome.check (p.constraints.ncols = p.nvars) (.columnCount p.constraints.ncols p.nvars)
  Outcome.check (p.constraints.nrows = p.ncons) (.rowCount p.constraints.nrows p.ncons)
  Outcome.check (Vec.allFinite p.cost ∧ Vec.allFinite p.constraints.data ∧ Vec.allFinite p.rhs)
    .nonFiniteProblem

/-- A point has one finite entry per variable. -/
def validatePoint (p : Problem α) (point : List α) : Except (InputError α) Unit :=
  if point.length ≠ p.nvars then .error (.pointLength point.length p.nvars)
  else if Vec.allFinite point then .ok ()
  else .error .nonFinitePoint

/-- The problem of given parts, if it is valid. -/
def of (cost : List α) (constraints : Matrix α) (rhs : List α) :
    Outcome (InputError α) (Problem α) := do
  let p : Problem α := ⟨cost, constraints, rhs⟩
  p.validate
  return p

end Problem

end LinProg
