import LinProg.CommandLine.Program

/-!
# The executable

Carries a session out on the file system, the standard streams and the clock.
-/

namespace LinProg

/-- The reason that the operating system gives. -/
def SystemError.ofCode (code : UInt32) (text : String) : SystemError :=
  if code = 2 then .notFound
  else if code = 17 then .alreadyExists
  else if code = 20 then .notADirectory
  else if code = 21 then .isADirectory
  else if code = 36 then .nameTooLong
  else .other text

/-- The reason behind an error of the runtime. -/
def SystemError.ofError (e : IO.Error) : SystemError :=
  match e with
  | .noFileOrDirectory _ code _ | .alreadyExists _ code _ | .inappropriateType _ code _
  | .invalidArgument _ code _ | .permissionDenied _ code _ | .resourceExhausted _ code _
  | .otherError code _ => .ofCode code e.toString
  | _ => .other e.toString

namespace Session

/-- Runs a stage of a file operation. -/
def stage {β : Type} (path : String) (stage : FileStage) (x : IO β) :
    ExceptT FileError IO β := do
  match ← x.toBaseIO with
  | .ok b => return b
  | .error e => throw ⟨path, stage, .ofError e⟩

def readFile (path : String) : ExceptT FileError IO ByteArray := do
  let file ← stage path .opening (IO.FS.Handle.mk path .read)
  stage path .reading file.readBinToEnd

/-- The path leads to a directory: it can be opened, but not read. -/
def isDirectory (path : String) : IO Bool := do
  match ← (readFile path).run with
  | .error ⟨_, .reading, .isADirectory⟩ => return true
  | _ => return false

/-- Makes a directory where there is nothing, and is content with one that is there. -/
def ensureDirectory (path : String) : IO Unit := do
  match ← (IO.FS.createDir path).toBaseIO with
  | .ok () => return ()
  | .error e => unless ← isDirectory path do throw e

/-- Makes a directory and those above it that are missing. The bound exceeds their number. -/
def makeDirectories : Nat → String → IO Unit
  | 0, _ => return ()
  | bound + 1, path => do
    if path.isEmpty then return ()
    match ← (ensureDirectory path).toBaseIO with
    | .ok () => return ()
    | .error e =>
      match SystemError.ofError e, Path.parent? path with
      | .notFound, some parent =>
        makeDirectories bound parent
        ensureDirectory path
      | _, _ => throw e

/-- Writes a file anew, in a directory that is made if it is missing. -/
def writeFile (path : String) (bytes : ByteArray) : ExceptT FileError IO Unit := do
  let parent := (Path.parent? path).getD ""
  stage parent .makingParent (makeDirectories (parent.length + 1) parent)
  let file ← stage path .creating (IO.FS.Handle.mk path .write)
  stage path .writing do
    file.write bytes
    file.flush

/-- Carries a session out. The clock shows the time since `origin`. -/
def perform {β : Type} (origin : Nat) : Session β → IO β
  | done b => return b
  | look next => do
    let now ← IO.monoNanosNow
    (next ⟨now - origin⟩).perform origin
  | read path next => do
    let r ← (readFile path).run
    (next r).perform origin
  | write path bytes next => do
    let r ← (writeFile path bytes).run
    (next r).perform origin
  | print text next => do
    let out ← IO.getStdout
    out.putStr text
    out.flush
    next.perform origin

end Session

end LinProg

/-- Runs the program on the arguments of the command line. -/
def main (arguments : List String) : IO UInt32 := do
  let origin ← IO.monoNanosNow
  let ending ← (LinProg.Program.run arguments).perform origin
  IO.eprint ending.complaint
  return UInt32.ofNat ending.code
