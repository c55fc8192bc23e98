import LinProg.Files.Path

/-!
# File trees

All files as a value. `FileTree.find`, `FileTree.makeDirectories` and `FileTree.write` act on it as
a file system does, and refuse what it refuses.
-/

namespace LinProg

inductive SystemError where
  | notFound
  | alreadyExists
  | notADirectory
  | isADirectory
  | nameTooLong
  | invalidData
  /-- A path holds a character that no path can hold. -/
  | invalidPath
  | other (text : String)
  deriving Repr, DecidableEq

/-- The system's words for a reason. -/
def SystemError.message : SystemError → String
  | notFound => "No such file or directory (os error 2)"
  | alreadyExists => "File exists (os error 17)"
  | notADirectory => "Not a directory (os error 20)"
  | isADirectory => "Is a directory (os error 21)"
  | nameTooLong => "File name too long (os error 36)"
  | invalidData => "stream did not contain valid UTF-8"
  | invalidPath => "file name contained an unexpected NUL byte"
  | other text => text

/-- What a name in a directory stands for. -/
inductive Entry where
  | file (bytes : ByteArray)
  | directory (entries : List (String × Entry))

/-- The entries of a directory, each with its name. -/
abbrev Directory : Type := List (String × Entry)

inductive Target where
  | directory
  | file (place : List String) (bytes : ByteArray)
  /-- Nothing yet, in a directory that is there. -/
  | missing (place : List String)

namespace Directory

/-- A directory with one entry replaced or added. -/
def insert (d : Directory) (name : String) (e : Entry) : Directory :=
  (name, e) :: d.filter fun p => p.1 ≠ name

/-- The directory of a name, empty if there is none. -/
def inner (d : Directory) (name : String) : Directory :=
  match d.lookup name with
  | some (.directory entries) => entries
  | _ => []

/-- Puts an entry at a place below a directory. -/
def put (e : Entry) : List String → Directory → Directory
  | [], d => d
  | [name], d => d.insert name e
  | name :: rest, d => d.insert name (.directory (put e rest (d.inner name)))

/-- The place of a name, given the names that lead to its directory, the last one first. -/
def placeOf (above : List (String × Directory)) (name : String) : List String :=
  (above.map (·.1)).reverse ++ [name]

/-- Follows components from a directory. `above` holds the names that have led to it, the last one
first, each with the directory that it was found in; the outermost directory is its own parent. -/
def follow (here : Directory) (above : List (String × Directory)) :
    List String → Except SystemError Target
  | [] => .ok .directory
  | "." :: rest => follow here above rest
  | ".." :: rest =>
    match above with
    | [] => follow here [] rest
    | (_, parent) :: above => follow parent above rest
  | name :: rest =>
    if Path.maxNameBytes < name.utf8ByteSize then .error .nameTooLong
    else
      match here.lookup name with
      | some (.directory entries) => follow entries ((name, here) :: above) rest
      | some (.file bytes) =>
        if rest.isEmpty then .ok (.file (placeOf above name) bytes) else .error .notADirectory
      | none => if rest.isEmpty then .ok (.missing (placeOf above name)) else .error .notFound

end Directory

/-- The place of the working directory. Its names are empty, so that no path leads to it by name. -/
def workingPlace : List String := ["", ""]

/-- All files, and a working directory, in which paths begin that do not begin at the root. -/
structure FileTree where
  root : Directory := Directory.put (.directory []) workingPlace []

namespace FileTree

/-- Puts an entry at a place. -/
def put (t : FileTree) (place : List String) (e : Entry) : FileTree :=
  ⟨Directory.put e place t.root⟩

def follow (t : FileTree) (path : String) (components : List String) :
    Except SystemError Target :=
  if !Path.isValid path then .error .invalidPath
  else if Path.maxBytes < path.utf8ByteSize then .error .nameTooLong
  else if path.isEmpty then .error .notFound
  else if Path.isAbsolute path then t.root.follow [] components
  else t.root.follow [] (workingPlace ++ components)

def find (t : FileTree) (path : String) : Except SystemError Target :=
  t.follow path (Path.components path)

/-- Makes a directory where there is nothing, and is content with one that is there. -/
def ensureDirectory (t : FileTree) (path : String) : Except SystemError FileTree := do
  match ← t.find path with
  | .missing place => return t.put place (.directory [])
  | .directory => return t
  | .file _ _ => throw .alreadyExists

/-- Makes a directory and those above it that are missing. The bound exceeds their number. -/
def makeDirectories (t : FileTree) : Nat → String → Except SystemError FileTree
  | 0, _ => .ok t
  | bound + 1, path =>
    if path.isEmpty then .ok t
    else
      match t.ensureDirectory path with
      | .error .notFound =>
        match Path.parent? path with
        | some parent => do (← t.makeDirectories bound parent).ensureDirectory path
        | none => .error .notFound
      | r => r

/-- Where a new file goes. After the directories above it, a name with a slash after it is refused
unseen. -/
def findForWriting (t : FileTree) (path : String) : Except SystemError Target := do
  if Path.namesDirectory path then
    t.follow path ((Path.names path).dropLast ++ ["."])
  else t.find path

def write (t : FileTree) (path : String) (bytes : ByteArray) : Except SystemError FileTree := do
  match ← t.findForWriting path with
  | .directory => throw .isADirectory
  | .file place _ => return t.put place (.file bytes)
  | .missing place => return t.put place (.file bytes)

def bytes? (t : FileTree) (path : String) : Option ByteArray :=
  match t.find path with
  | .ok (.file _ bytes) => some bytes
  | _ => none

end FileTree

end LinProg
