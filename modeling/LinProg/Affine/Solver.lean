import LinProg.Affine.Workspace

/-!
# Affine scaling

The primal affine-scaling method. Each step projects the scaled cost and goes a fraction of the way
to the boundary along the projection; `x` becomes `x (1 + alpha p / |min p|)`, entry by entry.

A step that would leave the feasible region, or arrive at a number that is not finite, ends the
solve as a numerical failure.

* `AffineScaling.step?`: one iteration.
* `AffineScaling.iterate`: iterations until the stopping rule, a limit or a failure ends them.
* `AffineScaling.solve`: from a problem and a starting point to a solution.
-/

namespace LinProg

/-- A solver with its options and its stopping rule. -/
structure AffineScaling (α : Type) where
  options : Options α
  /-- Says after each step whether the solve has converged. -/
  criterion : Criterion α

/-- Why an affine-scaling solve is refused. -/
inductive AffineError (α : Type) where
  /-- The problem or the options are malformed. -/
  | input (cause : InputError α)
  /-- The method does not start at the given point. -/
  | start (cause : ApplicabilityError α)
  deriving Repr

namespace AffineScaling

variable {α : Type}

inductive StepFailure (α : Type) where
  | system (cause : LdlError α)
  /-- No entry of the projected cost is a number. -/
  | noProjectedCost
  | nonFinite (iteration : Nat)
  | infeasible (iteration : Nat) (residual : α)
  deriving Repr

def StepFailure.message [Binary α] : StepFailure α → String
  | system cause => cause.message
  | noProjectedCost => "projected cost has no finite entry"
  | nonFinite iteration => s!"iterate became non-finite at iteration {iteration}"
  | infeasible iteration residual =>
    s!"iterate left the feasible region at iteration {iteration} (residual " ++
      Binary.plain residual ++ ")"

inductive StepOutcome (α : Type) where
  /-- A new iterate, and the solve goes on. -/
  | advanced (point : InteriorPoint α) (record : Record α)
  /-- A new iterate, with which the solve has converged. -/
  | converged (point : InteriorPoint α) (record : Record α)
  /-- The smallest projected cost reached its threshold. -/
  | notApplicable (minReducedCost : α)
  | failed (why : StepFailure α)
  deriving Repr

variable [Scalar α]

/-- The solver that stops when steps get short. -/
def of (o : Options α) : AffineScaling α := ⟨o, Criterion.stepNorm⟩

/-- The next iterate. Where the projected cost has vanished the iterate stays. -/
def move (alpha : α) (w : Workspace α) (x projected : List α) (minReducedCost : α) : List α :=
  if Vec.normInf projected ≤ Scalar.epsilon * w.scaledCostNorm x then x
  else
    let scale := Scalar.abs minReducedCost
    x.zipWith (fun v p => v * (1 + alpha * p / scale)) projected

/-- Accepts a new iterate that is finite and feasible. -/
def accept? (a : AffineScaling α) (w : Workspace α) (s : InteriorPoint α) (minReducedCost : α)
    (next : List α) : Option (StepOutcome α) := do
  let iteration ← Size.add? s.iteration 1
  if !Vec.allFinite next then return .failed (.nonFinite iteration)
  else
    let residual ← w.residual? next
    if residual ≤ w.residualBound a.options.feasibilityTolerance then
      let norm ← Vec.distance2? next s.x
      let objective ← w.objective? next
      let point : InteriorPoint α := ⟨next, s.nvars, iteration⟩
      let record := Record.affine iteration objective norm minReducedCost .zero
      if a.criterion record a.options then return .converged point record
      else return .advanced point record
    else return .failed (.infeasible iteration residual)

/-- One iteration, with the effort added up. -/
def step? (a : AffineScaling α) (w : Workspace α) (s : InteriorPoint α) (effort : Effort) :
    Option (StepOutcome α × Effort) := do
  let fresh : LdlSolver α := { tolerance := a.options.singularTolerance }
  let solver ← fresh.analyse? w.ncons
  match ← w.projectedCost? s.x solver effort with
  | (.error e, effort) => return (.failed (.system e), effort)
  | (.ok projected, effort) =>
    match Vec.argmin projected with
    | none => return (.failed .noProjectedCost, effort)
    | some (_, least) =>
      if least ≥ a.options.reducedCostThreshold then return (.notApplicable least, effort)
      else
        let next := move a.options.affineStep w s.x projected least
        return (← a.accept? w s least next, effort)

/-- A solve between two steps. -/
structure Progress (α : Type) where
  point : InteriorPoint α
  /-- The record of the steps so far. -/
  history : Array (Record α) := #[]
  effort : Effort := {}
  deriving Repr

/-- One more iterate, reached `elapsed` after the start. -/
def Progress.advanced (p : Progress α) (point : InteriorPoint α) (record : Record α)
    (elapsed : Duration) (effort : Effort) : Progress α where
  point := point
  history := p.history.push { record with elapsed := elapsed }
  effort := effort

/-- Whether the limit on the time has passed. Only where there is one the clock is looked at. -/
def outOfTime (o : Options α) (start : Duration) : Timed Bool :=
  match o.maxTime with
  | some limit => .look fun now => .done ((start.since now).exceeds limit)
  | none => .done false

omit [Scalar α] in
theorem outOfTime_of_unlimited {o : Options α} (h : o.maxTime = none) (start : Duration) :
    outOfTime o start = .done false := by
  rw [outOfTime, h]

/-- Steps until one ends the solve, at most `budget` times. -/
def iterate (a : AffineScaling α) (w : Workspace α) (start : Duration) :
    Nat → Progress α → Timed (Option (Status × Progress α))
  | 0, p => .done (some (.maxIterations, p))
  | budget + 1, p =>
    match a.step? w p.point p.effort with
    | none => .done none
    | some (.notApplicable _, effort) =>
      .done (some (.notApplicable .stopCriterion, { p with effort := effort }))
    | some (.failed _, effort) => .done (some (.numericalFailure, { p with effort := effort }))
    | some (.converged point record, effort) =>
      .look fun now => .done (some (.optimal, p.advanced point record (start.since now) effort))
    | some (.advanced point record, effort) =>
      .look fun now => do
        let p := p.advanced point record (start.since now) effort
        if ← outOfTime a.options start then return some (.maxTime, p)
        else iterate a w start budget p

/-- The last iterate is worth keeping when the solve converged or a limit ended it. -/
def keepsIterate : Status → Bool
  | .optimal | .maxIterations | .maxTime => true
  | _ => false

/-- The solution that a finished solve amounts to. -/
def report? (w : Workspace α) (status : Status) (p : Progress α) (solveTime : Duration) :
    Option (Solution α) := do
  let iterations := p.history.size
  let stats : Stats α := {
    history := p.history
    solveTime := solveTime
    factorizations := p.effort.factorizations
    linearSolves := p.effort.linearSolves }
  let objective ← w.objective? p.point.x
  if keepsIterate status then
    return {
      primal := ← p.point.primal?
      slack := ← p.point.slack?
      status := status
      objectiveValue := objective
      iterations := iterations
      stats := stats }
  else
    return { ← Solution.terminated? status w.nvars w.ncons with
      iterations := iterations
      stats := stats }

/-- Iterates from a starting point until the solve ends. -/
def run (a : AffineScaling α) (w : Workspace α) (point : InteriorPoint α) :
    Timed (Option (Solution α)) := do
  let start ← Timed.now
  let ended ← a.iterate w start a.options.maxIterations { point := point }
  let now ← Timed.now
  return do
    let (status, p) ← ended
    report? w status p (start.since now)

/-- Where a solve begins: at an interior point, or nowhere because the method does not apply. -/
inductive Beginning (α : Type) where
  | at (w : Workspace α) (point : InteriorPoint α)
  | rejected (status : Status)
  deriving Repr

/-- Checks problem, options and starting point, in this order. -/
def begin (a : AffineScaling α) (p : Problem α) (start : List α) :
    Outcome (AffineError α) (Beginning α) := do
  p.validate.mapError .input
  (Outcome.ofExcept a.options.validate).mapError .input
  let initial : Outcome (ApplicabilityError α) (InteriorPoint α) := do
    Precheck.check a.options.feasibilityTolerance p start
    InteriorPoint.initial p start
  match initial with
  | .ok point => return .at (← Outcome.ofOption (Workspace.of? p)) point
  | .fault => .fault
  | .error e =>
    match e.status? with
    | some status => return .rejected status
    | none => .error (.start e)

/-- Solves a problem from a starting point. -/
def solve (a : AffineScaling α) (p : Problem α) (start : List α) :
    Timed (Outcome (AffineError α) (Solution α)) :=
  match a.begin p start with
  | .error e => .done (.error e)
  | .fault => .done .fault
  | .ok (.rejected status) =>
    .done (Outcome.ofOption (Solution.terminated? status p.nvars p.ncons))
  | .ok (.at w point) => do return Outcome.ofOption (← a.run w point)

end AffineScaling

end LinProg
