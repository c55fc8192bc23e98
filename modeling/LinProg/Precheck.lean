import LinProg.Problem
import LinProg.Solution

/-!
# Checks before affine scaling

Affine scaling applies to a problem whose constraint rows each have a positive coefficient, from a
starting point that satisfies the constraints. `Precheck.check` finds the first reason why it does
not.
-/

namespace LinProg

/-- Why affine scaling does not start. -/
inductive ApplicabilityError (α : Type) where
  /-- A constraint row has no positive coefficient. -/
  | noSolution (row : Nat)
  | infeasibleStart (row : Nat) (lhs rhs : α)
  /-- A variable or slack of the starting point is not positive. -/
  | notInterior (index : Nat) (value : α)
  /-- The problem or the starting point is malformed. -/
  | input (cause : InputError α)
  deriving Repr

namespace ApplicabilityError

variable {α : Type}

/-- The status that callers see, none for malformed input. -/
def status? : ApplicabilityError α → Option Status
  | noSolution _ => some .noSolution
  | infeasibleStart .. | notInterior .. => some (.notApplicable .initialPoint)
  | input _ => none

/-- The wording of a reason. Values are written as numbers of 64 bits. -/
def message [Binary α] : ApplicabilityError α → String
  | noSolution row =>
    s!"constraint row {row} has no positive coefficient; the problem has no solution"
  | infeasibleStart row lhs rhs =>
    s!"starting point violates constraint row {row}: " ++ Binary.plainWide lhs ++ " > " ++
      Binary.plainWide rhs
  | notInterior index value =>
    s!"starting point is not strictly interior at coordinate {index} (value " ++
      Binary.plainWide value ++ ")"
  | input cause => cause.message

end ApplicabilityError

namespace Precheck

variable {α : Type} [Scalar α]

/-- Every constraint row has a positive coefficient. -/
def checkRows (constraints : Matrix α) : Except (ApplicabilityError α) Unit :=
  match constraints.rows.findIdx? fun r => r.all fun v => decide (v ≤ 0) with
  | some row => .error (.noSolution row)
  | none => .ok ()

/-- Every constraint holds at the starting point, up to the tolerance. -/
def checkStart (tolerance : α) (p : Problem α) (start : List α) :
    Outcome (ApplicabilityError α) Unit := do
  let lhs ← Outcome.ofOption (p.constraints.productInto? start (List.replicate p.ncons 0))
  match (lhs.zip p.rhs).zipIdx.find? fun (v, _) => decide (v.1 > v.2 + tolerance) with
  | some (v, row) => .error (.infeasibleStart row v.1 v.2)
  | none => .ok ()

/-- All checks, in the order problem, point, rows, constraints at the point. -/
def check (tolerance : α) (p : Problem α) (start : List α) :
    Outcome (ApplicabilityError α) Unit := do
  p.validate.mapError .input
  (Outcome.ofExcept (p.validatePoint start)).mapError .input
  Outcome.ofExcept (checkRows p.constraints)
  checkStart tolerance p start

/-- The checks that need no starting point. -/
def checkWithoutStart (p : Problem α) : Outcome (ApplicabilityError α) Unit := do
  p.validate.mapError .input
  Outcome.ofExcept (checkRows p.constraints)

end Precheck

end LinProg
