import LinProg.Duration
import LinProg.Options

/-!
# Solutions

How a solve ended, what it found, and the record it kept on the way.
-/

namespace LinProg

/-- Why affine scaling did not apply to a problem. -/
inductive Applicability where
  /-- The starting point violates a constraint or is not strictly inside. -/
  | initialPoint
  /-- The smallest projected cost reached its threshold. -/
  | stopCriterion
  deriving Repr, DecidableEq

inductive Status where
  | optimal
  | noSolution
  | notApplicable (why : Applicability)
  | unbounded
  | maxIterations
  | maxTime
  | numericalFailure
  deriving Repr, DecidableEq

def Applicability.name : Applicability → String
  | initialPoint => "InitialPoint"
  | stopCriterion => "StopCriterion"

namespace Status

def name : Status → String
  | optimal => "Optimal"
  | noSolution => "NoSolution"
  | notApplicable why => "NotApplicable(" ++ why.name ++ ")"
  | unbounded => "Unbounded"
  | maxIterations => "MaxIterations"
  | maxTime => "MaxTime"
  | numericalFailure => "NumericalFailure"

def isOptimal (s : Status) : Bool := s = optimal

end Status

/-- One iteration of either method. Affine scaling records the length of the step and the smallest
projected cost, the simplex method the place of the pivot. -/
structure Record (α : Type) where
  /-- Number of the iteration, from one on. -/
  iteration : Nat
  objective : α
  stepNorm : Option α
  minReducedCost : Option α
  pivot : Option (Nat × Nat)
  elapsed : Duration
  deriving Repr

structure Stats (α : Type) where
  history : Array (Record α) := #[]
  solveTime : Duration := .zero
  factorizations : Nat := 0
  linearSolves : Nat := 0
  pivots : Nat := 0
  deriving Repr

structure Solution (α : Type) where
  primal : List α
  /-- What each constraint leaves. -/
  slack : List α
  status : Status
  objectiveValue : α
  iterations : Nat
  stats : Stats α
  deriving Repr

namespace Record

variable {α : Type}

/-- The record of a step of affine scaling. -/
def affine (iteration : Nat) (objective stepNorm minReducedCost : α) (elapsed : Duration) :
    Record α := ⟨iteration, objective, some stepNorm, some minReducedCost, none, elapsed⟩

def pivoted (iteration : Nat) (objective : α) (row column : Nat) (elapsed : Duration) : Record α :=
  ⟨iteration, objective, none, none, some (row, column), elapsed⟩

end Record

namespace Stats

variable {α : Type}

def push (s : Stats α) (r : Record α) : Stats α := { s with history := s.history.push r }

def last? (s : Stats α) : Option (Record α) := s.history.back?

end Stats

/-- A solution that says how the solve ended and nothing else: `n` variables and `m` slacks, all
zero. -/
def Solution.terminated {α : Type} [Scalar α] (status : Status) (n m : Nat) : Solution α where
  primal := List.replicate n 0
  slack := List.replicate m 0
  status := status
  objectiveValue := 0
  iterations := 0
  stats := {}

/-- The same, if storage holds the vectors. -/
def Solution.terminated? {α : Type} [Scalar α] (status : Status) (n m : Nat) :
    Option (Solution α) := do
  let _ ← Scalar.entries? α n
  let _ ← Scalar.entries? α m
  some (terminated status n m)

theorem Solution.terminated?_eq_some_iff {α : Type} [Scalar α] {status : Status} {n m : Nat}
    {sol : Solution α} : terminated? status n m = some sol ↔
      (Scalar.Stores α n ∧ Scalar.Stores α m) ∧ terminated status n m = sol := by
  simp [terminated?, Option.bind_eq_some_iff, Scalar.entries?_eq_some_iff, and_assoc]

/-- A stopping rule for affine scaling. -/
abbrev Criterion (α : Type) := Record α → Options α → Bool

/-- Stops when a step is no longer than the convergence tolerance. -/
def Criterion.stepNorm {α : Type} [Scalar α] : Criterion α := fun r o =>
  match r.stepNorm with
  | some norm => decide (norm ≤ o.tolerance)
  | none => false

end LinProg
