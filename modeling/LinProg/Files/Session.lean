import LinProg.Duration
import LinProg.Files.Tree

/-!
# Sessions

A `Session` is a computation that reads and writes files, prints and looks at a clock; which files
there are and what the clock shows is not part of it. `Session.simulate` gives it a file tree and a
clock that is known in advance.

A file is read in two stages and written in three, and a refusal tells the stage.
-/

namespace LinProg

/-- What was being done to a file. -/
inductive FileStage where
  | opening
  | reading
  | makingParent
  | creating
  | writing
  deriving Repr, DecidableEq

/-- Why a file was not read or written. -/
structure FileError where
  /-- The path that the stage was about. -/
  path : String
  stage : FileStage
  cause : SystemError
  deriving Repr

/-- A computation that reads and writes files, prints and looks at a clock. -/
inductive Session (β : Type) where
  | done (b : β)
  /-- Goes on with the time that the clock shows. -/
  | look (next : Duration → Session β)
  /-- Goes on with the bytes of a file. -/
  | read (path : String) (next : Except FileError ByteArray → Session β)
  /-- Writes a file anew, in a directory that is made if it is missing. -/
  | write (path : String) (bytes : ByteArray) (next : Except FileError Unit → Session β)
  | print (text : String) (next : Session β)

namespace Session

variable {β γ : Type}

protected def bind (x : Session β) (f : β → Session γ) : Session γ :=
  match x with
  | done b => f b
  | look next => look fun now => (next now).bind f
  | read path next => read path fun r => (next r).bind f
  | write path bytes next => write path bytes fun r => (next r).bind f
  | print text next => print text (next.bind f)

instance : Monad Session where
  pure := done
  bind := Session.bind

/-- A session that only looks at the clock. -/
def ofTimed : Timed β → Session β
  | .done b => done b
  | .look next => look fun now => ofTimed (next now)

def readText (path : String) : Session (Except FileError String) :=
  read path fun r => done do
    match String.fromUTF8? (← r) with
    | some text => return text
    | none => throw ⟨path, .reading, .invalidData⟩

/-- Writes a text to a file. -/
def writeText (path text : String) : Session (Except FileError Unit) :=
  write path text.toUTF8 done

def say (text : String) : Session Unit := print text (done ())

/-- The world of a session in which everything is known in advance. -/
structure World where
  files : FileTree
  printed : String := ""
  /-- How often the clock has been looked at. -/
  looks : Nat := 0

/-- Reads a file of a tree. -/
def readFrom (t : FileTree) (path : String) : Except FileError ByteArray :=
  match t.find path with
  | .ok (.file _ bytes) => .ok bytes
  | .ok .directory => .error ⟨path, .reading, .isADirectory⟩
  | .ok (.missing _) => .error ⟨path, .opening, .notFound⟩
  | .error e => .error ⟨path, .opening, e⟩

/-- Writes a file of a tree. The directory that was made for it stays when the file is refused. -/
def writeTo (t : FileTree) (path : String) (bytes : ByteArray) :
    Except FileError Unit × FileTree :=
  let parent := (Path.parent? path).getD ""
  match t.makeDirectories (parent.length + 1) parent with
  | .error e => (.error ⟨parent, .makingParent, e⟩, t)
  | .ok t =>
    match t.write path bytes with
    | .error e => (.error ⟨path, .creating, e⟩, t)
    | .ok t => (.ok (), t)

/-- The result in a world, and the world afterwards. -/
def simulate (clock : Nat → Duration) : Session β → World → β × World
  | done b, w => (b, w)
  | look next, w => (next (clock w.looks)).simulate clock { w with looks := w.looks + 1 }
  | read path next, w => (next (readFrom w.files path)).simulate clock w
  | write path bytes next, w =>
    let (r, files) := writeTo w.files path bytes
    (next r).simulate clock { w with files := files }
  | print text next, w => next.simulate clock { w with printed := w.printed ++ text }

end Session

end LinProg
