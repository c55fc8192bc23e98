import LinProg.Exchange.Solution
import LinProg.Files.Failure

/-!
# Problems, options and solutions in files

Reading and writing of the files that the program works on. What is read is checked as well:
`Store.problemOfText` and `Store.optionsOfText` say what a text holds, and give the path a place in
the messages.
-/

namespace LinProg.Store

/-- What a text that was read from a path holds, as JSON. -/
def parse (path text : String) : Except Failure Json :=
  match Json.parse? text with
  | some v => .ok v
  | none => .error ⟨["failed to parse " ++ Text.quoted path], .json⟩

def hasMember (v : Json) (key : String) : Bool :=
  match v with
  | .obj ms => !(Json.valuesOf key ms).isEmpty
  | _ => false

/-- The problem that a text from a path holds, before it is checked. -/
def decodeProblem (path text : String) : Except Failure ProblemFile := do
  let v ← parse path text
  match Json.plain? v with
  | none => throw ⟨["failed to parse " ++ Text.quoted path], .json⟩
  | some v =>
    if !hasMember v "problem" && hasMember v "status" then
      throw { cause := .plain (Text.quoted path ++
        " contains a solver solution, expected a problem with a 'problem' field") }
    match ProblemFile.ofJson? v with
    | some file => return file
    | none => throw ⟨["failed to parse JSON problem"], .json⟩

/-- The problem that a text from a path holds. -/
def problemOfText (path text : String) : Outcome Failure ProblemFile := do
  let file ← Outcome.ofExcept (decodeProblem path text)
  file.problem.validate.mapError fun e =>
    ⟨["invalid problem in " ++ Text.quoted path], .input e⟩
  return file

/-- The options that a text from a path holds. -/
def optionsOfText (path text : String) : Outcome Failure (Options Float) := do
  let v ← Outcome.ofExcept (parse path text)
  match Options.ofJson? v with
  | none => .error ⟨["failed to parse " ++ Text.quoted path], .json⟩
  | some o =>
    (Outcome.ofExcept o.validate).mapError fun e =>
      ⟨["invalid options in " ++ Text.quoted path], .input e⟩
    return o

def readProblem (path : String) : Attempt ProblemFile := do
  let text ← Attempt.file (Session.readText path)
  Attempt.of (problemOfText path text)

/-- Reads options; those that the file does not give have their defaults. -/
def readOptions (path : String) : Attempt (Options Float) := do
  let text ← Attempt.file (Session.readText path)
  Attempt.of (optionsOfText path text)

def writeJson (path : String) (v : Json) : Attempt Unit :=
  Attempt.file (Session.writeText path v.pretty)

def writeProblem (path : String) (file : ProblemFile) : Attempt Unit :=
  writeJson path file.toJson

def writeSolution (path : String) (s : Solution Float) : Attempt Unit :=
  writeJson path s.toJson

end LinProg.Store
