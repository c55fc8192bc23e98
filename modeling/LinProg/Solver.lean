import LinProg.Affine.Solver
import LinProg.Simplex

/-!
# Solving with either method

A `Solver` is a method with its options and, for affine scaling, a starting point. `Builder` puts a
problem together from its parts, and `Suite` solves one problem with both methods.
-/

namespace LinProg

inductive ProblemPart where
  | objective
  | constraints
  | rhs
  deriving Repr, DecidableEq

/-- Why a solver gives no solution. -/
inductive SolverError (α : Type) where
  /-- The problem or the options are malformed. -/
  | invalidProblem (cause : InputError α)
  /-- A part of the problem was never given. -/
  | missingPart (part : ProblemPart)
  /-- The method needs a starting point and has none. -/
  | missingStart (method : Method)
  /-- The method does not start at the given point. -/
  | backend (cause : ApplicabilityError α)
  deriving Repr

/-- The wording of a missing part. -/
def ProblemPart.missing : ProblemPart → String
  | objective => "objective vector missing"
  | constraints => "constraint matrix missing"
  | rhs => "right-hand side missing"

def SolverError.message {α : Type} [Binary α] : SolverError α → String
  | invalidProblem cause => "problem validation failed: " ++ cause.message
  | missingPart part => "problem validation failed: " ++ part.missing
  | missingStart method => method.name ++ " needs a strictly interior starting point"
  | backend cause => "solver failed: " ++ cause.message

/-- A problem in the making. -/
structure Builder (α : Type) where
  cost : Option (List α) := none
  constraints : Option (Matrix α) := none
  rhs : Option (List α) := none
  deriving Repr

namespace Builder

variable {α : Type}

def withCost (b : Builder α) (cost : List α) : Builder α := { b with cost := some cost }

/-- Gives the constraints and their bounds. -/
def withConstraints (b : Builder α) (matrix : Matrix α) (rhs : List α) : Builder α :=
  { b with constraints := some matrix, rhs := some rhs }

/-- Gives the constraints row by row, and their bounds. -/
def withRows (b : Builder α) (rows : List (List α)) (rhs : List α) :
    Except (SolverError α) (Builder α) :=
  match Matrix.ofRows rows with
  | .ok matrix => .ok (b.withConstraints matrix rhs)
  | .error e => .error (.invalidProblem e)

/-- A part that must have been given. -/
def part {β : Type} (p : ProblemPart) : Option β → Outcome (SolverError α) β
  | some b => .ok b
  | none => .error (.missingPart p)

/-- The problem, if all parts were given and fit together. -/
def build [Scalar α] (b : Builder α) : Outcome (SolverError α) (Problem α) := do
  let cost ← part .objective b.cost
  let constraints ← part .constraints b.constraints
  let rhs ← part .rhs b.rhs
  (Problem.of cost constraints rhs).mapError .invalidProblem

end Builder

/-- A method with its options and, if given, a starting point. -/
structure Solver (α : Type) where
  method : Method
  options : Options α
  /-- Where affine scaling starts. -/
  start : Option (List α)
  deriving Repr

namespace Solver

variable {α : Type} [Scalar α]

/-- The simplex method with default options. -/
def default : Solver α := ⟨.simplex, Options.default, none⟩

/-- The error of an affine-scaling solve as a solver reports it. -/
def affineError : AffineError α → SolverError α
  | .input cause => .invalidProblem cause
  | .start cause => .backend cause

def solve (s : Solver α) (p : Problem α) : Timed (Outcome (SolverError α) (Solution α)) :=
  match s.method, s.start with
  | .affineScaling, none => .done (.error (.missingStart .affineScaling))
  | .affineScaling, some start => do
    return (← (AffineScaling.of s.options).solve p start).mapError affineError
  | .simplex, _ => do return (← Simplex.solve s.options p).mapError .invalidProblem

/-- Checks whether affine scaling applies, without solving. -/
def check (s : Solver α) (p : Problem α) : Outcome (ApplicabilityError α) Unit :=
  match s.start with
  | some start => Precheck.check s.options.feasibilityTolerance p start
  | none => Precheck.checkWithoutStart p

end Solver

/-- One run of affine scaling in a suite. -/
structure AffineRun (α : Type) where
  step : α
  solution : Solution α
  deriving Repr

/-- What both methods find on one problem. -/
structure Suite (α : Type) where
  affine : List (AffineRun α)
  simplex : Solution α
  deriving Repr

namespace Suite

variable {α : Type} [Scalar α]

/-- The steps of the runs of affine scaling. -/
def steps : List α := [0.5, 0.9]

/-- Solves with affine scaling at each of the steps; the first refusal ends it. -/
def affineRuns (o : Options α) (p : Problem α) (start : List α) :
    List α → Timed (Outcome (SolverError α) (List (AffineRun α)))
  | [] => .done (.ok [])
  | step :: steps => do
    match ← (Solver.mk .affineScaling (o.withStep step) (some start)).solve p with
    | .error e => return .error e
    | .fault => return .fault
    | .ok solution =>
      return (← affineRuns o p start steps).bind fun runs => .ok (⟨step, solution⟩ :: runs)

/-- Solves with affine scaling at each of the steps, then with the simplex method. -/
def run (o : Options α) (p : Problem α) (start : List α) :
    Timed (Outcome (SolverError α) (Suite α)) := do
  match ← affineRuns o p start steps with
  | .error e => return .error e
  | .fault => return .fault
  | .ok runs =>
    return (← (Solver.mk .simplex o none).solve p).bind fun simplex => .ok ⟨runs, simplex⟩

end Suite

end LinProg
