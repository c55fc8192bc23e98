import LinProg.CommandLine.Command
import LinProg.CommandLine.Report
import LinProg.Files.Store

/-!
# The program

Each command as a session. `Program.run` goes from a command line to what the program prints and
writes, and to how it ends.
-/

namespace LinProg

namespace Overrides

/-- The same options with the settings that were given. -/
def apply (o : Overrides) (options : Options Float) : Options Float :=
  { options with
    tolerance := o.tolerance.getD options.tolerance
    maxIterations := o.maxIterations.getD options.maxIterations
    maxTime := (o.timeLimit.map Duration.seconds).or options.maxTime }

/-- The options of a command: those of the file or the defaults, then the settings of the command
line. -/
def options (o : Overrides) (step : Option Float) : Attempt (Options Float) := do
  let options ← match o.file with
    | some path => Store.readOptions path
    | none => pure Options.default
  let options := o.apply options
  let options := options.withStep (step.getD options.affineStep)
  Attempt.of ((Outcome.ofExcept options.validate).mapError fun e =>
    ⟨["invalid solver options"], .input e⟩)
  return options

end Overrides

namespace Program

/-- A solve, whose refusal gets a place in the messages. -/
def solving {β : Type} (contexts : List String) (x : Timed (Outcome (SolverError Float) β)) :
    Attempt β := do
  let outcome ← Attempt.lift (Session.ofTimed x)
  Attempt.of (outcome.mapError fun e => ⟨contexts, .solver e⟩)

def say (text : String) : Attempt Unit := Attempt.lift (Session.say text)

/-- Solves a problem, prints the solution, and writes it to a file if one was named. -/
def solve (problem : String) (method : Method) (options : Options Float) (output : Option String)
    (json : Bool) : Attempt Unit := do
  let file ← Store.readProblem problem
  let solution ← solving ["failed to solve " ++ Text.quoted problem]
    ((Solver.mk method options file.start).solve file.problem)
  say (if json then solution.toJson.line else solution.summary method.name)
  match output with
  | some path => Store.writeSolution path solution
  | none => pure ()

/-- Checks a problem, and its starting point if it has one. -/
def check (problem : String) : Attempt Unit := do
  let file ← Store.readProblem problem
  let p := file.problem
  match { (Solver.default : Solver Float) with start := file.start }.check p with
  | .fault => Attempt.of .fault
  | .ok () =>
    say s!"problem with {p.nvars} variables and {p.ncons} constraints is applicable\n"
    if file.start.isNone then
      say "no starting point given; only the constraint rows were checked\n"
  | .error e =>
    match e.status? with
    | some status => say ("status: " ++ status.name ++ "\nreason: " ++ e.message ++ "\n")
    | none => Attempt.fail ⟨["problem validation failed"], .applicability e⟩

/-- Solves a problem with both methods and prints the solutions. -/
def compare (problem : String) (options : Options Float) (json : Bool) : Attempt Unit := do
  let file ← Store.readProblem problem
  match file.start with
  | none =>
    Attempt.fail { cause := .plain "compare needs a starting point in the problem file" }
  | some start =>
    let suite ← solving [] (Suite.run options file.problem start)
    say (if json then suite.toJson.line else suite.summary)

def perform : Command → Attempt Unit
  | .solve problem method step overrides output json => do
    solve problem method (← overrides.options step) output json
  | .check problem => check problem
  | .compare problem overrides json => do
    compare problem (← overrides.options none) json

/-- How a run of the program ends. -/
structure Ending where
  /-- The exit code: 0 after a success, 1 after a failure, 2 for a command line that asks for
  nothing the program knows, 101 after a breakdown. -/
  code : Nat
  /-- What is written for the user when it is no success. -/
  complaint : String := ""
  deriving Repr

/-- What a user sees who asks for nothing the program knows. -/
def usage : String :=
  "usage: lpkit solve|check|compare --problem FILE [OPTIONS]\n"

def run (arguments : List String) : Session Ending :=
  match Request.ofArguments? arguments with
  | none => return { code := 2, complaint := usage }
  | some .version => do
    Session.say "lpkit 0.1.0\n"
    return { code := 0 }
  | some (.command c) => do
    match ← (perform c).toSession with
    | .ok () => return { code := 0 }
    | .error f => return { code := 1, complaint := f.report }
    | .fault => return { code := 101, complaint := "Error: the solve broke down\n" }

end Program

end LinProg
