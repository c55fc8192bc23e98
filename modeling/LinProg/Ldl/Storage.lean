import LinProg.Ldl

/-!
# A factorization in place

`LdlSolver` says what a solver answers; `LdlStorage` is how one keeps what it needs: `L` as a square
matrix and `D` as a list, which every factorization writes over, and two flags. A factorization that
meets a singular pivot leaves both half written. Right-hand sides are solved in place.

* `LdlStorage.analyse?`, `LdlStorage.factor?`, `LdlStorage.solve?`: the calls.
* `Ldl.sweep?`: goes through the columns and overwrites the factors.
-/

namespace LinProg

namespace Ldl

variable {α : Type} [Scalar α]

/-- The list with one entry replaced. -/
def put? (l : List α) (i : Nat) (v : α) : Option (List α) :=
  if i < l.length then some (l.set i v) else none

/-- `m - ∑ lᵢₖ lⱼₖ dₖ` over the columns before `j`, subtracted one by one. -/
def reduceAt? (L : Matrix α) (d : List α) (i j : Nat) (m : α) : Option α :=
  (List.range j).foldlM
    (fun v k => do some (v - (← L.get? i k) * (← L.get? j k) * (← d[k]?))) m

/-- Writes the identity over the first `n` rows and columns. -/
def reset? (n : Nat) (L : Matrix α) : Option (Matrix α) :=
  (List.range n).foldlM
    (fun L i => (List.range n).foldlM (fun L j => L.set? i j (if i = j then 1 else 0)) L) L

/-- Writes the entries of column `j` in the rows after the pivot. -/
def fillColumn? (M : Matrix α) (d : List α) (n j : Nat) (pivot : α) (L : Matrix α) :
    Option (Matrix α) :=
  (List.range' (j + 1) (n - (j + 1))).foldlM
    (fun L i => do L.set? i j ((← reduceAt? L d i j (← M.get? i j)) / pivot)) L

/-- Goes through columns. A singular pivot ends it; what has been written by then stays. -/
def sweep? (M : Matrix α) (tolerance : α) (n : Nat) :
    List Nat → Matrix α → List α → Option (Except (LdlError α) Unit × Matrix α × List α)
  | [], L, d => some (.ok (), L, d)
  | j :: js, L, d => do
    let m ← M.get? j j
    let pivot ← reduceAt? L d j j m
    if Scalar.abs pivot > tolerance * Scalar.abs m then
      let d ← put? d j pivot
      let L ← fillColumn? M d n j pivot L
      sweep? M tolerance n js L d
    else some (.error (.singular j (Scalar.abs pivot)), L, d)

/-- Takes `l` times entry `j` off entry `i`. -/
def subtractAt? (b : List α) (i j : Nat) (l : α) : Option (List α) := do
  put? b i ((← b[i]?) - l * (← b[j]?))

/-- Solves `L y = b` in place, from the first row on. -/
def forwardInPlace? (L : Matrix α) (n : Nat) (b : List α) : Option (List α) :=
  (List.range n).foldlM
    (fun b i => (List.range i).foldlM (fun b j => do subtractAt? b i j (← L.get? i j)) b) b

/-- Divides by the pivots in place. -/
def divideInPlace? (d : List α) (n : Nat) (b : List α) : Option (List α) :=
  (List.range n).foldlM (fun b i => do put? b i ((← b[i]?) / (← d[i]?))) b

/-- Solves `Lᵀ x = z` in place, from the last row on. -/
def backwardInPlace? (L : Matrix α) (n : Nat) (b : List α) : Option (List α) :=
  (List.range n).reverse.foldlM
    (fun b i => (List.range' (i + 1) (n - (i + 1))).foldlM
      (fun b j => do subtractAt? b i j (← L.get? j i)) b) b

end Ldl

/-- A solver that writes its factors over those of the matrix before. -/
structure LdlStorage (α : Type) where
  /-- The part of a diagonal entry that a pivot has to exceed. -/
  tolerance : α
  /-- `L`, a square matrix of the size that has been analysed. -/
  lower : Matrix α := ⟨0, 0, []⟩
  /-- The diagonal of `D`. -/
  diagonal : List α := []
  /-- A size has been set. -/
  analysed : Bool := false
  /-- `lower` and `diagonal` are the factors of a matrix. -/
  factored : Bool := false
  factorizations : Nat := 0
  deriving Repr, DecidableEq

namespace LdlStorage

variable {α : Type} [Scalar α]

def dimension (s : LdlStorage α) : Nat := s.lower.nrows

/-- Sets the size of the matrices to come, with new storage for it. -/
def analyse? (s : LdlStorage α) (n : Nat) : Option (LdlStorage α) := do
  let lower ← Matrix.zeros? n n
  let diagonal ← Vec.constant? n 0
  some { s with lower := lower, diagonal := diagonal, analysed := true, factored := false }

/-- Sets the size, unless one has been set. -/
def ensureAnalysed? (s : LdlStorage α) (n : Nat) : Option (LdlStorage α) :=
  if s.analysed then some s else s.analyse? n

/-- Overwrites the factors by those of a matrix of the size that has been set. There are none until
the last column is done. -/
def overwrite? (s : LdlStorage α) (M : Matrix α) :
    Option (Except (LdlError α) Unit × LdlStorage α) := do
  let n := s.dimension
  let lower ← Ldl.reset? n s.lower
  let (r, lower, diagonal) ← Ldl.sweep? M s.tolerance n (List.range n) lower s.diagonal
  let s := { s with lower := lower, diagonal := diagonal, factored := false }
  match r with
  | .ok () => some (.ok (), { s with factored := true, factorizations := s.factorizations + 1 })
  | .error e => some (.error e, s)

/-- Factors a matrix of the size that has been set, or of any size if none has. -/
def factor? (s : LdlStorage α) (M : Matrix α) :
    Option (Except (LdlError α) Unit × LdlStorage α) :=
  if M.nrows ≠ M.ncols then some (.error (.notSquare M.nrows M.ncols), s)
  else do
    let s ← s.ensureAnalysed? M.nrows
    if M.nrows ≠ s.dimension then some (.error (.dimensionMismatch s.dimension M.nrows), s)
    else s.overwrite? M

/-- Solves with the factors of the last matrix, in place: gives the result and what has become of
the right-hand side. -/
def solve? (s : LdlStorage α) (rhs : List α) : Option (Except (LdlError α) Unit × List α) :=
  if !s.factored then some (.error .notFactored, rhs)
  else if rhs.length ≠ s.dimension then
    some (.error (.dimensionMismatch s.dimension rhs.length), rhs)
  else do
    let n := s.dimension
    let y ← Ldl.forwardInPlace? s.lower n rhs
    let z ← Ldl.divideInPlace? s.diagonal n y
    some (.ok (), ← Ldl.backwardInPlace? s.lower n z)

end LdlStorage

end LinProg
