import LinProg.Exchange.Problem

/-!
# Solutions in JSON

How solutions, their records and the reports of a suite are written and read.
-/

namespace LinProg

open Json

namespace Applicability

def toJson (a : Applicability) : Json := text a.name

def ofJson? (v : Json) : Option Applicability := do
  let name ← v.plainName?
  [initialPoint, stopCriterion].find? fun a => a.name = name

end Applicability

namespace Status

/-- The statuses that are a name and nothing else. -/
def plainOnes : List Status :=
  [optimal, noSolution, unbounded, maxIterations, maxTime, numericalFailure]

/-- The JSON form: a name, or the reason under the name. -/
def toJson : Status → Json
  | notApplicable why => object [("NotApplicable", why.toJson)]
  | s => text s.name

def ofJson? (v : Json) : Option Status := do
  match ← v.alternative? with
  | ("NotApplicable", payload) => return notApplicable (← Applicability.ofJson? (← payload))
  | _ =>
    let name ← v.plainName?
    plainOnes.find? fun s => s.name = name

end Status

namespace Record

/-- The JSON form of a place. -/
def placeToJson (p : Nat × Nat) : Json := arr [count p.1, count p.2]

/-- Reads a place. -/
def placeOfJson? : Json → Option (Nat × Nat)
  | arr [row, column] => do return (← count? row, ← count? column)
  | _ => none

def toJson (r : Record Float) : Json :=
  object [("iteration", count r.iteration), ("objective", float r.objective),
    ("step_norm", Json.nullable float r.stepNorm),
    ("min_reduced_cost", Json.nullable float r.minReducedCost),
    ("pivot", Json.nullable placeToJson r.pivot), ("elapsed", r.elapsed.toJson)]

def ofJson? (v : Json) : Option (Record Float) := do
  match ← v.fields? ["iteration", "objective", "step_norm", "min_reduced_cost", "pivot",
    "elapsed"] with
  | [iteration, objective, stepNorm, minReducedCost, pivot, elapsed] =>
    return ⟨← iteration.required count?, ← objective.required float?, ← stepNorm.nullable float?,
      ← minReducedCost.nullable float?, ← pivot.nullable placeOfJson?,
      ← elapsed.required Duration.ofJson?⟩
  | _ => none

end Record

namespace Stats

def toJson (s : Stats Float) : Json :=
  object [("history", list Record.toJson s.history.toList), ("solve_time", s.solveTime.toJson),
    ("factorizations", count s.factorizations), ("linear_solves", count s.linearSolves),
    ("pivots", count s.pivots)]

def ofJson? (v : Json) : Option (Stats Float) := do
  match ← v.fields? ["history", "solve_time", "factorizations", "linear_solves", "pivots"] with
  | [history, solveTime, factorizations, linearSolves, pivots] =>
    return {
      history := (← history.required (list? Record.ofJson?)).toArray
      solveTime := ← solveTime.required Duration.ofJson?
      factorizations := ← factorizations.required count?
      linearSolves := ← linearSolves.required count?
      pivots := ← pivots.required count? }
  | _ => none

end Stats

namespace Solution

def toJson (s : Solution Float) : Json :=
  object [("primal", list float s.primal), ("slack", list float s.slack),
    ("status", s.status.toJson), ("objective_value", float s.objectiveValue),
    ("iterations", count s.iterations), ("stats", s.stats.toJson)]

def ofJson? (v : Json) : Option (Solution Float) := do
  match ← v.fields? ["primal", "slack", "status", "objective_value", "iterations", "stats"] with
  | [primal, slack, status, objectiveValue, iterations, stats] =>
    return {
      primal := ← primal.required (list? float?)
      slack := ← slack.required (list? float?)
      status := ← status.required Status.ofJson?
      objectiveValue := ← objectiveValue.required float?
      iterations := ← iterations.required count?
      stats := ← stats.required Stats.ofJson? }
  | _ => none

end Solution

namespace Suite

/-- The JSON form of a run of affine scaling. -/
def runToJson (r : AffineRun Float) : Json :=
  object [("step", float r.step), ("solution", r.solution.toJson)]

/-- Reads a run of affine scaling. -/
def runOfJson? (v : Json) : Option (AffineRun Float) := do
  match ← v.fields? ["step", "solution"] with
  | [step, solution] =>
    return ⟨← step.required float?, ← solution.required Solution.ofJson?⟩
  | _ => none

def toJson (s : Suite Float) : Json :=
  object [("affine", list runToJson s.affine), ("simplex", s.simplex.toJson)]

def ofJson? (v : Json) : Option (Suite Float) := do
  match ← v.fields? ["affine", "simplex"] with
  | [affine, simplex] =>
    return ⟨← affine.required (list? runOfJson?), ← simplex.required Solution.ofJson?⟩
  | _ => none

end Suite

end LinProg
