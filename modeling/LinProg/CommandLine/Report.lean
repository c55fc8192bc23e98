import LinProg.Files.Failure
import LinProg.Json.Printer
import LinProg.Exchange.Solution

/-!
# What the program prints

Solutions and reports for a reader, and failures with their causes.
-/

namespace LinProg

/-- Numbers of a summary have six places. -/
def Solution.places : Nat := 6

/-- A solution in five lines, the first of which is a label. -/
def Solution.summary (label : String) (s : Solution Float) : String :=
  let number (x : Float) := Binary.fixed places x
  label ++ "\n  status: " ++ s.status.name ++ "\n  objective: " ++ number s.objectiveValue ++
    s!"\n  iters: {s.iterations}\n  x: [" ++ ", ".intercalate (s.primal.map number) ++ "]\n"

/-- The summaries of all runs of a suite. -/
def Suite.summary (s : Suite Float) : String :=
  let label (step : Float) := "affine scaling (alpha = " ++ Binary.plain step ++ ")"
  String.join (s.affine.map fun r => r.solution.summary (label r.step)) ++
    s.simplex.summary "simplex"

/-- A JSON text that is printed ends in a new line. -/
def Json.line (v : Json) : String := v.pretty ++ "\n"

namespace Failure

/-- A number in a column of five. -/
def columnOf (n : Nat) : String :=
  let digits := toString n
  String.ofList (List.replicate (5 - digits.length) ' ') ++ digits

/-- The lines of the causes, which are numbered if there are several. -/
def causeLines : List String → List String
  | [cause] => ["    " ++ cause]
  | causes => causes.zipIdx.map fun (cause, i) => columnOf i ++ ": " ++ cause

def report (f : Failure) : String :=
  let lines := match f.messages with
    | [] => []
    | [message] => ["Error: " ++ message]
    | message :: causes => ["Error: " ++ message, "", "Caused by:"] ++ causeLines causes
  String.join (lines.map (· ++ "\n"))

end Failure

end LinProg
