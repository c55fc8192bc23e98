import LinProg.Affine.Interior
import LinProg.Ldl

/-!
# The projection of affine scaling

What all iterations of one solve share, and the projection of the scaled cost. At a point `x`, with
`D = diag x`, the cost `D c` is projected onto the null space of `[A | I] D`: the normal system is
factored, and the projection is done twice with the same factors, the second time to take off what
rounding has left.
-/

namespace LinProg

/-- A problem in the form that affine scaling works on. -/
structure Workspace (α : Type) where
  /-- `[A | I]`. -/
  augmented : Matrix α
  /-- The cost of the variables, and zeros for the slacks. -/
  cost : List α
  rhs : List α
  nvars : Nat
  deriving Repr

/-- Work counted over the steps of a solve. -/
structure Effort where
  factorizations : Nat := 0
  linearSolves : Nat := 0
  deriving Repr, DecidableEq

namespace Workspace

variable {α : Type} [Scalar α]

/-- The form of a problem that affine scaling works on. -/
def of? (p : Problem α) : Option (Workspace α) := do
  let _ ← Scalar.entries? α (← Size.add? p.nvars p.ncons)
  let augmented ← p.constraints.withIdentityBlock?
  return ⟨augmented, p.cost ++ List.replicate p.ncons 0, p.rhs, p.nvars⟩

def ncons (w : Workspace α) : Nat := w.augmented.nrows

/-- The objective at the first entries of a point, if it has enough of them. -/
def objective? (w : Workspace α) (x : List α) : Option α :=
  if w.nvars ≤ x.length then Vec.dot? (w.cost.take w.nvars) (x.take w.nvars) else none

/-- `maxᵢ |([A | I] x - b)ᵢ|`; rows whose residual is not a number do not count. -/
def residual? (w : Workspace α) (x : List α) : Option α := do
  let lhs ← w.augmented.product? x
  return ((lhs.zip w.rhs).map fun p => Scalar.abs (p.1 - p.2)).foldl Scalar.max 0

/-- The residual that an accepted iterate may have at most. -/
def residualBound (w : Workspace α) (feasibilityTolerance : α) : α :=
  feasibilityTolerance * (1 + Vec.normInf w.rhs)

/-- `D c`. -/
def scaledCost (w : Workspace α) (x : List α) : List α := w.cost.zipWith (· * ·) x

/-- The largest magnitude in `D c`. -/
def scaledCostNorm (w : Workspace α) (x : List α) : α := Vec.normInf (w.scaledCost x)

/-- Takes the part of a vector that lies in the row space of a matrix off it, by solving the normal
system. -/
def projectOnce? (scaled : Matrix α) (solver : LdlSolver α) (width : Nat) (v : List α) :
    Option (Except (LdlError α) (List α)) := do
  match solver.solve (← scaled.product? v) with
  | .error e => return .error e
  | .ok w =>
    let correction ← scaled.transposeProductInto? w (List.replicate width 0)
    return .ok (v.zipWith (· - ·) correction)

/-- `P D c`, where `P` projects onto the null space of `[A | I] D`, with the effort it took. A
singular normal system takes none. -/
def projectedCost? (w : Workspace α) (x : List α) (solver : LdlSolver α) (effort : Effort) :
    Option (Except (LdlError α) (List α) × Effort) := do
  let scaled ← w.augmented.scaleColumns? x
  match ← solver.factor? (← scaled.gram?) with
  | (.error e, _) => return (.error e, effort)
  | (.ok (), solver) =>
    let effort := { effort with factorizations := effort.factorizations + 1 }
    match ← projectOnce? scaled solver x.length (w.scaledCost x) with
    | .error e => return (.error e, effort)
    | .ok v =>
      let effort := { effort with linearSolves := effort.linearSolves + 1 }
      match ← projectOnce? scaled solver x.length v with
      | .error e => return (.error e, effort)
      | .ok v => return (.ok v, { effort with linearSolves := effort.linearSolves + 1 })

end Workspace

end LinProg
