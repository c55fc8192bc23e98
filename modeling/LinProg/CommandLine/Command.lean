import LinProg.CommandLine.Argument
import LinProg.Decimal.Nearest
import LinProg.Options

/-!
# Commands

What the program can be asked for. `Request.ofArguments?` reads a command line; it gives nothing for
one that asks for nothing the program knows.
-/

namespace LinProg

/-- Settings that are given on the command line. -/
structure Overrides where
  tolerance : Option Float
  /-- Bound on iterations and pivots. -/
  maxIterations : Option Nat
  /-- Bound on the running time, in seconds. -/
  timeLimit : Option Nat
  /-- A file with options. -/
  file : Option String
  deriving Repr

/-- What to do with a problem file. -/
inductive Command where
  | solve (problem : String) (method : Method) (step : Option Float) (overrides : Overrides)
      (output : Option String) (json : Bool)
  | check (problem : String)
  | compare (problem : String) (overrides : Overrides) (json : Bool)
  deriving Repr

/-- What the program is asked for. -/
inductive Request where
  | version
  | command (c : Command)
  deriving Repr

open Argument

/-- A path, which must not be empty. -/
def pathArgument? (s : String) : Option String := if s.isEmpty then none else some s

/-- A method by its name on the command line. -/
def Method.ofArgument? : String → Option Method
  | "affine" => some .affineScaling
  | "simplex" => some .simplex
  | _ => none

namespace Overrides

def known : List Known :=
  [{ name := "--tol" }, { name := "--max-iters" }, { name := "--time-limit" },
    { name := "--options" }]

def ofGiven? (g : Given) : Option Overrides := do
  return {
    tolerance := ← g.optional? "--tol" Decimal.float?
    maxIterations := ← g.optional? "--max-iters" Decimal.count?
    timeLimit := ← g.optional? "--time-limit" Decimal.count?
    file := ← g.optional? "--options" pathArgument? }

end Overrides

namespace Command

/-- The option that names the problem file. -/
def problemOption : Known := { name := "--problem" }

/-- The flag that asks for log messages as JSON. There are none, so it is accepted and has no
effect. -/
def logFlag : Known := { name := "--log-json", hasValue := false }

/-- The flag that asks for results as JSON. -/
def jsonFlag : Known := { name := "--json", hasValue := false }

/-- Reads the arguments after `solve`. -/
def solve? (arguments : List String) : Option Command := do
  let g ← given?
    ([problemOption, { name := "--method" }, { name := "--alpha" }, { name := "--output" },
      jsonFlag, logFlag] ++ Overrides.known) arguments
  let problem ← g.required? "--problem" pathArgument?
  let method ← g.optional? "--method" Method.ofArgument?
  let step ← g.optional? "--alpha" Decimal.float?
  let overrides ← Overrides.ofGiven? g
  let output ← g.optional? "--output" pathArgument?
  return solve problem (method.getD .simplex) step overrides output (g.flag "--json")

/-- Reads the arguments after `check`. -/
def check? (arguments : List String) : Option Command := do
  let g ← given? [problemOption, logFlag] arguments
  return check (← g.required? "--problem" pathArgument?)

/-- Reads the arguments after `compare`. -/
def compare? (arguments : List String) : Option Command := do
  let g ← given? ([problemOption, jsonFlag, logFlag] ++ Overrides.known) arguments
  let problem ← g.required? "--problem" pathArgument?
  return compare problem (← Overrides.ofGiven? g) (g.flag "--json")

/-- Reads the name of a command and its arguments. -/
def ofArguments? : List String → Option Command
  | "solve" :: arguments => solve? arguments
  | "check" :: arguments => check? arguments
  | "compare" :: arguments => compare? arguments
  | _ => none

end Command

namespace Request

/-- Asks for the version, whatever follows. -/
def asksForVersion (argument : String) : Bool :=
  argument = "--version" || argument.startsWith "-V"

/-- Reads a command line. The flag for log messages may stand before the command. -/
def ofArguments? (arguments : List String) : Option Request :=
  let rest := match arguments with
    | "--log-json" :: rest => rest
    | rest => rest
  match rest with
  | [] => none
  | argument :: _ =>
    if asksForVersion argument then some .version
    else (Command.ofArguments? rest).map command

end Request

end LinProg
