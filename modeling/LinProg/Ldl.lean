import LinProg.Decimal.Layout
import LinProg.Matrix

/-!
# The factorization `L D Lᵀ`

Factors a symmetric positive definite matrix, of which only the lower triangle is read, and solves
with the factors.

Both triangular factors come from one rule: an entry of the matrix less the sum of
`lᵢₖ lⱼₖ dₖ` over the columns before (`Ldl.reduce`). On the diagonal it is the pivot `dⱼ`; below,
the quotient by the pivot is `lᵢⱼ`. A pivot is singular when the reduction has left no more of the
diagonal entry than a given part.

* `Ldl.factor`: the factors of a matrix.
* `Ldl.Factors.solve`: the solution of a system.
* `LdlSolver`: a solver that keeps its factors between calls.
-/

namespace LinProg

/-- Why a system is not solved. -/
inductive LdlError (α : Type) where
  /-- The size differs from the one that was analysed. -/
  | dimensionMismatch (expected found : Nat)
  /-- The matrix is not square. -/
  | notSquare (nrows ncols : Nat)
  /-- The pivot of a column is too small. -/
  | singular (column : Nat) (magnitude : α)
  /-- There are no factors to solve with. -/
  | notFactored
  deriving Repr, DecidableEq

def LdlError.message {α : Type} [Binary α] : LdlError α → String
  | dimensionMismatch expected found =>
    s!"matrix dimension {found} does not match analysed dimension {expected}"
  | notSquare nrows ncols => s!"matrix is not square ({nrows} x {ncols})"
  | singular column magnitude =>
    s!"near-singular pivot encountered at column {column} (|d_j| = " ++
      Binary.scientific 3 magnitude ++ ")"
  | notFactored => "solve called before a successful factorization"

namespace Ldl

variable {α : Type} [Scalar α]

structure Factors (α : Type) where
  /-- Row `i` of `L` to the left of its unit diagonal. -/
  lower : List (List α)
  /-- The diagonal of `D`. -/
  diagonal : List α
  deriving Repr

/-- `m - ∑ aₖ bₖ dₖ`, subtracted one by one from the front. -/
def reduce (m : α) (a b d : List α) : α :=
  (a.zip (b.zip d)).foldl (fun s p => s - p.1 * p.2.1 * p.2.2) m

/-- A column below its pivot: each row gets one more entry, or none if the matrix has none. -/
def extend? (M : Matrix α) (column : Nat) (pivotRow diagonal : List α) (pivot : α) :
    List (Nat × List α) → Option (List (Nat × List α))
  | [] => some []
  | (i, r) :: rest => do
    let m ← M.get? i column
    let extended ← extend? M column pivotRow diagonal pivot rest
    some ((i, r ++ [reduce m r pivotRow diagonal / pivot]) :: extended)

/-- Goes through the columns. `finished` holds the factors of the columns so far and `open` the rows
below them, each with its index. The bound is the number of open rows. -/
def columns (M : Matrix α) (tolerance : α) :
    Nat → Factors α → List (Nat × List α) → Outcome (LdlError α) (Factors α)
  | 0, finished, _ => .ok finished
  | _ + 1, finished, [] => .ok finished
  | bound + 1, ⟨lower, diagonal⟩, (j, r) :: rest => do
    let m ← Outcome.ofOption (M.get? j j)
    let pivot := reduce m r r diagonal
    if Scalar.abs pivot > tolerance * Scalar.abs m then
      let rest ← Outcome.ofOption (extend? M j r diagonal pivot rest)
      columns M tolerance bound ⟨lower ++ [r], diagonal ++ [pivot]⟩ rest
    else .error (.singular j (Scalar.abs pivot))

/-- The factors of a square matrix. -/
def factor (M : Matrix α) (tolerance : α) : Outcome (LdlError α) (Factors α) :=
  columns M tolerance M.nrows ⟨[], []⟩ ((List.range M.nrows).map fun i => (i, []))

namespace Factors

/-- Solves `L y = b` from the first row on; `solved` holds the entries found so far. -/
def forward (solved : List α) : List (List α) → List α → List α
  | r :: rs, b :: bs =>
    forward (solved ++ [(r.zip solved).foldl (fun s p => s - p.1 * p.2) b]) rs bs
  | _, _ => solved

/-- Column `i` of `L` below the diagonal. -/
def below (F : Factors α) (i : Nat) : List α := (F.lower.drop (i + 1)).filterMap fun r => r[i]?

/-- Solves `Lᵀ x = z` from the last of the first `i` rows on; `solved` holds the entries after
them. -/
def backward (F : Factors α) (z : List α) : Nat → List α → List α
  | 0, solved => solved
  | i + 1, solved =>
    match z[i]? with
    | some b =>
      backward F z i ((((F.below i).zip solved).foldl (fun s p => s - p.1 * p.2) b) :: solved)
    | none => backward F z i solved

/-- The solution of `L D Lᵀ x = b`. -/
def solve (F : Factors α) (b : List α) : List α :=
  let y := forward [] F.lower b
  let z := y.zipWith (· / ·) F.diagonal
  backward F z z.length []

end Factors

end Ldl

/-- What a solver has been given so far. -/
inductive LdlStage (α : Type) where
  | fresh
  | analysed (n : Nat)
  /-- A size and a matrix of that size, which has been factored. -/
  | factored (n : Nat) (factors : Ldl.Factors α)
  deriving Repr

/-- A solver that keeps its factors between calls. -/
structure LdlSolver (α : Type) where
  /-- The part of a diagonal entry that a pivot has to exceed. -/
  tolerance : α
  /-- What it has been given so far. -/
  stage : LdlStage α := .fresh
  factorizations : Nat := 0
  deriving Repr

namespace LdlSolver

variable {α : Type} [Scalar α]

/-- The tolerance that holds unless another is given. -/
def defaultTolerance : α := 1e-12

/-- Sets the size of the matrices to come. Factors of an earlier matrix are lost. -/
def resized (s : LdlSolver α) (n : Nat) : LdlSolver α := { s with stage := .analysed n }

/-- Sets the size of the matrices to come, if there is storage for the factors. -/
def analyse? (s : LdlSolver α) (n : Nat) : Option (LdlSolver α) := do
  let _ ← Matrix.room? α n n
  some (s.resized n)

theorem analyse?_eq {n : Nat} (h : Matrix.Room α n n) (s : LdlSolver α) :
    s.analyse? n = some (s.resized n) := by
  simp [analyse?, Matrix.room?, h]

/-- The size that has been set. -/
def dimension? (s : LdlSolver α) : Option Nat :=
  match s.stage with
  | .fresh => none
  | .analysed n => some n
  | .factored n _ => some n

/-- Sets the size, unless one has been set. -/
def ensureAnalysed? (s : LdlSolver α) (n : Nat) : Option (LdlSolver α × Nat) :=
  match s.dimension? with
  | some m => some (s, m)
  | none => (s.analyse? n).map fun s => (s, n)

/-- Factors a matrix of the size that has been set, or of any size if none has. A matrix that is not
square or has another size changes nothing; after a singular one there are no factors. -/
def factor? (s : LdlSolver α) (M : Matrix α) :
    Option (Except (LdlError α) Unit × LdlSolver α) :=
  if M.nrows ≠ M.ncols then some (.error (.notSquare M.nrows M.ncols), s)
  else do
    let (s, n) ← s.ensureAnalysed? M.nrows
    if M.nrows ≠ n then some (.error (.dimensionMismatch n M.nrows), s)
    else
      match Ldl.factor M s.tolerance with
      | .ok F =>
        some (.ok (), { s with stage := .factored n F, factorizations := s.factorizations + 1 })
      | .error e => some (.error e, s.resized n)
      | .fault => none

/-- Solves with the factors of the last matrix. -/
def solve (s : LdlSolver α) (rhs : List α) : Except (LdlError α) (List α) :=
  match s.stage with
  | .factored n F =>
    if rhs.length ≠ n then .error (.dimensionMismatch n rhs.length) else .ok (F.solve rhs)
  | _ => .error .notFactored

end LdlSolver

end LinProg
