/-!
# Paths

A path is a text of components between slashes. Empty components and single dots within a path
stand for nothing; a slash at the end asks for a directory.
-/

namespace LinProg.Path

/-- The components of a path that are not empty, as they are written. -/
def names (path : String) : List String := (path.splitOn "/").filter (· ≠ "")

/-- A path that begins at the root. -/
def isAbsolute (path : String) : Bool := path.toList.head? == some '/'

/-- A path with a slash at its end. -/
def endsInSlash (path : String) : Bool := path.toList.getLast? == some '/'

/-- The components of a path, with a dot for a slash at the end. -/
def components (path : String) : List String :=
  if endsInSlash path then names path ++ ["."] else names path

/-- A component that leads to a directory known already. -/
def isDots (component : String) : Bool := component == "." || component == ".."

/-- A path whose last component is a name with a slash after it: no file can be made there. -/
def namesDirectory (path : String) : Bool :=
  endsInSlash path && (names path).getLast?.any fun c => !isDots c

/-- A text that can be a path: no character of it is zero. -/
def isValid (path : String) : Bool := path.toList.all fun c => c.toNat ≠ 0

/-- The bytes that a path can have at most. -/
def maxBytes : Nat := 4095

/-- The bytes that a component can have at most. -/
def maxNameBytes : Nat := 255

/-- Drops slashes, and dots after a slash, off the end of the characters in reverse. A dot that is
the whole path stays. -/
def trimReversed : List Char → List Char
  | '.' :: '/' :: cs => trimReversed ('/' :: cs)
  | '/' :: c :: cs => trimReversed (c :: cs)
  | cs => cs

/-- The path without its last component; none for the root and for the empty path. -/
def parent? (path : String) : Option String :=
  match trimReversed path.toList.reverse with
  | [] => none
  | ['/'] => none
  | cs =>
    let rest := cs.dropWhile (· ≠ '/')
    some (String.ofList (trimReversed rest).reverse)

end LinProg.Path
