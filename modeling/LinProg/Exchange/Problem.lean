import LinProg.Json.Fields
import LinProg.Json.Printer
import LinProg.Solver

/-!
# Problems and options in JSON

How matrices, problems, options and their parts are written and read.
-/

namespace LinProg

open Json

/-- A problem together with an optional starting point. -/
structure ProblemFile where
  problem : Problem Float
  /-- Where affine scaling starts. -/
  start : Option (List Float)
  deriving Repr, BEq

namespace Matrix

def toJson (M : Matrix Float) : Json :=
  object [("nrows", count M.nrows), ("ncols", count M.ncols), ("data", list float M.data)]

/-- Reads the JSON form. The sizes need not agree with the entries. -/
def ofJson? (v : Json) : Option (Matrix Float) := do
  match ← v.fields? ["nrows", "ncols", "data"] with
  | [nrows, ncols, data] =>
    return ⟨← nrows.required count?, ← ncols.required count?, ← data.required (list? float?)⟩
  | _ => none

end Matrix

namespace Problem

def toJson (p : Problem Float) : Json :=
  object [("cost", list float p.cost), ("constraints", p.constraints.toJson),
    ("rhs", list float p.rhs)]

/-- Reads the JSON form, without checking that the parts fit together. -/
def ofJson? (v : Json) : Option (Problem Float) := do
  match ← v.fields? ["cost", "constraints", "rhs"] with
  | [cost, constraints, rhs] =>
    return ⟨← cost.required (list? float?), ← constraints.required Matrix.ofJson?,
      ← rhs.required (list? float?)⟩
  | _ => none

end Problem

namespace ProblemFile

/-- The JSON form. A starting point that is absent is not written. -/
def toJson (f : ProblemFile) : Json :=
  object (("problem", f.problem.toJson) ::
    match f.start with
    | some start => [("start", list float start)]
    | none => [])

/-- Reads the JSON form, without checking that the parts fit together. -/
def ofJson? (v : Json) : Option ProblemFile := do
  match ← v.fields? ["problem", "start"] with
  | [problem, start] =>
    return ⟨← problem.required Problem.ofJson?, ← start.orElse none (nullable? (list? float?))⟩
  | _ => none

end ProblemFile

namespace Duration

def toJson (d : Duration) : Json := object [("secs", count d.secs), ("nanos", count d.nanos)]

/-- A count that fits 32 bits. -/
def shortCount? (v : Json) : Option Nat := (count? v).filter (· < 0x100000000)

/-- Reads the JSON form: both parts and no other. -/
def ofJson? (v : Json) : Option Duration := do
  let known := match v with
    | obj ms => ms.all fun m => m.1 = some "secs" || m.1 = some "nanos"
    | _ => true
  match ← v.fields? ["secs", "nanos"] with
  | [secs, nanos] =>
    if known then ofParts? (← secs.required count?) (← nanos.required shortCount?) else none
  | _ => none

end Duration

namespace Method

def toJson (m : Method) : Json := text m.name

def ofJson? (v : Json) : Option Method := do
  let name ← v.plainName?
  [affineScaling, simplex].find? fun m => m.name = name

end Method

namespace Options

def toJson (o : Options Float) : Json :=
  object [("tolerance", float o.tolerance), ("max_iterations", count o.maxIterations),
    ("max_time", nullable Duration.toJson o.maxTime), ("affine_step", float o.affineStep),
    ("reduced_cost_threshold", float o.reducedCostThreshold),
    ("feasibility_tolerance", float o.feasibilityTolerance),
    ("zero_tolerance", float o.zeroTolerance), ("singular_tolerance", float o.singularTolerance)]

/-- Reads the JSON form. Missing settings have their defaults. -/
def ofJson? (v : Json) : Option (Options Float) := do
  let o : Options Float := default
  match ← v.fields? ["tolerance", "max_iterations", "max_time", "affine_step",
    "reduced_cost_threshold", "feasibility_tolerance", "zero_tolerance",
    "singular_tolerance"] with
  | [tolerance, maxIterations, maxTime, affineStep, threshold, feasibility, zero, singular] =>
    return {
      tolerance := ← tolerance.orElse o.tolerance float?
      maxIterations := ← maxIterations.orElse o.maxIterations count?
      maxTime := ← maxTime.orElse o.maxTime (nullable? Duration.ofJson?)
      affineStep := ← affineStep.orElse o.affineStep float?
      reducedCostThreshold := ← threshold.orElse o.reducedCostThreshold float?
      feasibilityTolerance := ← feasibility.orElse o.feasibilityTolerance float?
      zeroTolerance := ← zero.orElse o.zeroTolerance float?
      singularTolerance := ← singular.orElse o.singularTolerance float? }
  | _ => none

end Options

namespace Builder

def toJson (b : Builder Float) : Json :=
  object [("cost", nullable (list float) b.cost),
    ("constraints", nullable Matrix.toJson b.constraints), ("rhs", nullable (list float) b.rhs)]

def ofJson? (v : Json) : Option (Builder Float) := do
  match ← v.fields? ["cost", "constraints", "rhs"] with
  | [cost, constraints, rhs] =>
    return ⟨← cost.nullable (list? float?), ← constraints.nullable Matrix.ofJson?,
      ← rhs.nullable (list? float?)⟩
  | _ => none

end Builder

end LinProg
