import LinProg.InputError
import LinProg.Outcome
import LinProg.Size
import LinProg.Vec

/-!
# Dense matrices

A matrix is two sizes and its entries in one list, row after row. Nothing ties the length of the
list to the sizes: `Matrix.validate` says whether they agree, and an operation that meets an entry
outside of the list has no result. An entry is found at `row * ncols + col`, so a column beyond the
last one reaches into the next row.

* `Matrix.get?`, `Matrix.row?`: access by index.
* `Matrix.rows`: the rows one after another.
* `Matrix.productInto?`, `Matrix.transposeProductInto?`: products with a vector.
* `Matrix.scaleColumns?`, `Matrix.withIdentityBlock?`, `Matrix.gram?`: new matrices. One of another
  size needs room for its entries first (`Matrix.room?`).
-/

namespace LinProg

/-- A row-major dense matrix. -/
structure Matrix (α : Type) where
  nrows : Nat
  ncols : Nat
  /-- The entries, row after row. -/
  data : List α
  deriving Repr, BEq, DecidableEq

namespace Matrix

variable {α : Type}

/-- The sizes say how many entries there are. -/
def Consistent (M : Matrix α) : Prop := M.data.length = M.nrows * M.ncols

instance (M : Matrix α) : Decidable M.Consistent := inferInstanceAs (Decidable (_ = _))

/-- The place of an entry in the list. -/
def place? (M : Matrix α) (row col : Nat) : Option Nat := do
  Size.add? (← Size.mul? row M.ncols) col

def get? (M : Matrix α) (row col : Nat) : Option α := do
  M.data[← M.place? row col]?

/-- The matrix with one entry replaced. -/
def set? (M : Matrix α) (row col : Nat) (value : α) : Option (Matrix α) := do
  let i ← M.place? row col
  if i < M.data.length then some { M with data := M.data.set i value } else none

/-- Where a row begins, if the list holds all of it. -/
def rowStart? (M : Matrix α) (row : Nat) : Option Nat := do
  let start ← Size.mul? row M.ncols
  let stop ← Size.add? start M.ncols
  if stop ≤ M.data.length then some start else none

def row? (M : Matrix α) (row : Nat) : Option (List α) := do
  let start ← M.rowStart? row
  some ((M.data.drop start).take M.ncols)

/-- The matrix with one row replaced by as many values. -/
def setRow? (M : Matrix α) (row : Nat) (values : List α) : Option (Matrix α) := do
  let start ← M.rowStart? row
  if values.length = M.ncols then
    let data := M.data.take start ++ values ++ M.data.drop (start + M.ncols)
    some { M with data := data }
  else none

/-- Cuts `count` pieces of a width off a list, fewer when it runs out; the last may be short. -/
def chunks (width : Nat) : Nat → List α → List (List α)
  | 0, _ => []
  | _ + 1, [] => []
  | count + 1, v :: vs =>
    (v :: vs).take width :: chunks width count ((v :: vs).drop width)

/-- The rows one after another. A list without entries has none, whatever the number of rows. -/
def rows (M : Matrix α) : List (List α) := chunks (max M.ncols 1) M.nrows M.data

/-- Cuts exactly `count` pieces of a width off a list. -/
def pieces (width : Nat) : Nat → List α → List (List α)
  | 0, _ => []
  | count + 1, vs => vs.take width :: pieces width count (vs.drop width)

/-- Every row by its index, if the list holds them all. -/
def allRows? (M : Matrix α) : Option (List (List α)) := do
  if M.nrows = 0 then some []
  else
    let used ← Size.mul? M.nrows M.ncols
    if used ≤ M.data.length then some (pieces M.ncols M.nrows M.data) else none

/-- The matrix with given rows, whose width is given for the case of no rows. -/
def ofRowList (ncols : Nat) (rows : List (List α)) : Matrix α := ⟨rows.length, ncols, rows.flatten⟩

/-- The matrix with given rows; they need one length. -/
def ofRows (rows : List (List α)) : Except (InputError α) (Matrix α) :=
  let ncols := (rows.head?.map List.length).getD 0
  match rows.zipIdx.find? fun (r, _) => r.length ≠ ncols with
  | some (r, i) => .error (.raggedRow i r.length ncols)
  | none => .ok (ofRowList ncols rows)

/-- Checks that the list has as many entries as the sizes say. -/
def validate (M : Matrix α) : Outcome (InputError α) Unit := do
  let entries ← Outcome.ofOption (Size.mul? M.nrows M.ncols)
  Outcome.check (M.data.length = entries) (.dataLength M.data.length M.nrows M.ncols)

variable [Scalar α]

/-- The entries of a matrix of the given size have addresses, and storage holds them. -/
def Room (α : Type) [Scalar α] (nrows ncols : Nat) : Prop :=
  nrows * ncols < 0x10000000000000000 ∧ Scalar.Stores α (nrows * ncols)

instance (nrows ncols : Nat) : Decidable (Room α nrows ncols) := inferInstanceAs (Decidable (_ ∧ _))

/-- The number of entries of a matrix of the given size, if there is room for them. -/
def room? (α : Type) [Scalar α] (nrows ncols : Nat) : Option Nat :=
  if Room α nrows ncols then some (nrows * ncols) else none

def zeros? (nrows ncols : Nat) : Option (Matrix α) := do
  some ⟨nrows, ncols, List.replicate (← room? α nrows ncols) 0⟩

/-- Row `i` of the identity of size `n`. -/
def unitRow (n i : Nat) : List α := (List.range n).map fun j => if j = i then 1 else 0

def identity? (n : Nat) : Option (Matrix α) := do
  let _ ← room? α n n
  some (ofRowList n ((List.range n).map (unitRow n)))

/-- `M · diag scale`. Entries after the last row stay. -/
def scaleColumns? (M : Matrix α) (scale : List α) : Option (Matrix α) := do
  if scale.length = M.ncols then
    let rows ← M.allRows?
    let scaled := (rows.map fun r => r.zipWith (· * ·) scale).flatten
    some { M with data := scaled ++ M.data.drop scaled.length }
  else none

/-- `[M | I]`: one more column per row. -/
def withIdentityBlock? (M : Matrix α) : Option (Matrix α) := do
  let ncols ← Size.add? M.ncols M.nrows
  let _ ← room? α M.nrows ncols
  let rows ← M.allRows?
  some (ofRowList ncols (rows.zipIdx.map fun (r, i) => r ++ unitRow M.nrows i))

/-- `M · Mᵀ`. The product of two rows is computed once, with the earlier row on the left. -/
def gram? (M : Matrix α) : Option (Matrix α) := do
  let _ ← room? α M.nrows M.nrows
  let rows ← M.allRows?
  let entry (r s : List α × Nat) := if r.2 ≤ s.2 then Vec.dot r.1 s.1 else Vec.dot s.1 r.1
  some (ofRowList M.nrows (rows.zipIdx.map fun r => rows.zipIdx.map (entry r)))

/-- Replaces the entries of `y` by the products of the rows with `x`, as far as there are rows. -/
def productRows? (x : List α) : List (List α) → List α → Option (List α)
  | r :: rs, _ :: ys => do
    let v ← Vec.dot? r x
    let vs ← productRows? x rs ys
    some (v :: vs)
  | _, ys => some ys

/-- `M x`, written over `y`. -/
def productInto? (M : Matrix α) (x y : List α) : Option (List α) :=
  if x.length = M.ncols ∧ y.length = M.nrows then productRows? x M.rows y else none

/-- `M x`, written over zeros. -/
def product? (M : Matrix α) (x : List α) : Option (List α) :=
  M.productInto? x (List.replicate M.nrows 0)

/-- `Mᵀ x`: the rows are added up, weighted by `x`. What `y` holds does not matter, only its
length does. -/
def transposeProductInto? (M : Matrix α) (x y : List α) : Option (List α) :=
  if x.length = M.nrows ∧ y.length = M.ncols then
    (M.rows.zip x).foldlM (fun sum p => Vec.axpy? p.2 p.1 sum) (y.map fun _ => 0)
  else none

end Matrix

end LinProg
