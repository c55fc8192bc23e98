import LinProg.Duration
import LinProg.InputError
import LinProg.Outcome
import LinProg.Scalar

/-!
# Options of a solve

Methods, tolerances and limits, with their defaults, and the check that they make sense.
-/

namespace LinProg

inductive Method where
  | affineScaling
  | simplex
  deriving Repr, DecidableEq

def Method.name : Method → String
  | affineScaling => "AffineScaling"
  | simplex => "Simplex"

/-- Settings shared by both methods. -/
structure Options (α : Type) where
  /-- Affine scaling has converged when a step is at most this long. -/
  tolerance : α
  /-- Bound on the iterations of affine scaling and on the pivots of the simplex method. -/
  maxIterations : Nat
  /-- Bound on the running time of affine scaling. -/
  maxTime : Option Duration
  /-- The part of the way to the boundary that a step goes, strictly between zero and one. -/
  affineStep : α
  /-- Affine scaling gives up when the smallest projected cost is this large. -/
  reducedCostThreshold : α
  /-- How far a constraint may be missed. -/
  feasibilityTolerance : α
  /-- Up to this magnitude an entry of a tableau counts as zero. -/
  zeroTolerance : α
  /-- A pivot is singular when elimination leaves no larger part of its diagonal entry. -/
  singularTolerance : α
  deriving Repr

namespace Options

variable {α : Type} [Scalar α]

/-- The settings that hold unless others are given. -/
def default : Options α where
  tolerance := 1e-6
  maxIterations := 10000
  maxTime := none
  affineStep := 0.5
  reducedCostThreshold := 0.1
  feasibilityTolerance := 1e-9
  zeroTolerance := 1e-9
  singularTolerance := 1e-12

/-- The defaults with another convergence tolerance. -/
def withTolerance (tolerance : α) : Options α := { default with tolerance := tolerance }

/-- The same settings with another step. -/
def withStep (o : Options α) (step : α) : Options α := { o with affineStep := step }

/-- A tolerance is finite and not negative. -/
def checkTolerance (name : ToleranceName) (value : α) : Except (InputError α) Unit :=
  if 0 ≤ value ∧ Scalar.isFinite value then .ok () else .error (.badTolerance name value)

/-- The settings make sense. The first failing check gives the error. -/
def validate (o : Options α) : Except (InputError α) Unit := do
  unless 0 < o.affineStep ∧ o.affineStep < 1 do throw (.stepOutOfRange o.affineStep)
  unless 0 < o.tolerance do throw (.toleranceNotPositive o.tolerance)
  checkTolerance .zero o.zeroTolerance
  checkTolerance .feasibility o.feasibilityTolerance
  checkTolerance .singular o.singularTolerance
  unless Scalar.isFinite o.reducedCostThreshold do
    throw (.thresholdNotFinite o.reducedCostThreshold)
  unless o.maxIterations ≠ 0 do throw .noIterations

end Options

end LinProg
