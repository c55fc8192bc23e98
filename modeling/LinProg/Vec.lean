import LinProg.Scalar

/-!
# Vectors

A vector is a list of scalars. Sums run from the front and start at zero; this order is part of
their meaning, because a rounded sum depends on it. An operation on two vectors that ends in `?`
has no result when their lengths differ.

* `Vec.dot`, `Vec.norm2`, `Vec.normInf`, `Vec.distance2?`: products and norms.
* `Vec.axpy`: `y + a x`.
* `Vec.argmin`: the first of the smallest entries.
-/

namespace LinProg.Vec

variable {α : Type} [Scalar α]

/-- The vector with one value in `n` places, if there is storage for it. -/
def constant? (n : Nat) (v : α) : Option (List α) := do
  let n ← Scalar.entries? α n
  some (List.replicate n v)

/-- `∑ xᵢ yᵢ` over the places that both vectors have. -/
def dot (x y : List α) : α := (x.zip y).foldl (fun s p => s + p.1 * p.2) 0

/-- The inner product of two vectors of one length. -/
def dot? (x y : List α) : Option α := if x.length = y.length then some (dot x y) else none

def norm2 (x : List α) : α := Scalar.sqrt (dot x x)

/-- The largest magnitude, zero for an empty vector; entries that are not numbers do not count. -/
def normInf (x : List α) : α := (x.map Scalar.abs).foldl Scalar.max 0

/-- `∑ (xᵢ - yᵢ)²` over the places that both vectors have. -/
def squaredDistance (x y : List α) : α :=
  (x.zip y).foldl (fun s p => s + (p.1 - p.2) * (p.1 - p.2)) 0

/-- The Euclidean distance of two vectors of one length. -/
def distance2? (x y : List α) : Option α :=
  if x.length = y.length then some (Scalar.sqrt (squaredDistance x y)) else none

/-- `y + a x` at the places that both vectors have. -/
def axpy (a : α) (x y : List α) : List α := x.zipWith (fun xi yi => yi + a * xi) y

/-- `y + a x` for two vectors of one length. -/
def axpy? (a : α) (x y : List α) : Option (List α) :=
  if x.length = y.length then some (axpy a x y) else none

/-- No entry is infinite or without a value. -/
def allFinite (x : List α) : Bool := x.all Scalar.isFinite

/-- Scans entries numbered from `i` on and keeps the best place found so far: an entry replaces it
when it is a number and smaller. -/
def argminFrom (i : Nat) (best : Option (Nat × α)) : List α → Option (Nat × α)
  | [] => best
  | v :: vs =>
    let better := match best with
      | some (_, b) => decide (v < b)
      | none => true
    argminFrom (i + 1) (if better && !Scalar.isNaN v then some (i, v) else best) vs

/-- Place and value of the smallest entry. The first of equal entries is taken, and an entry that
is not a number never. -/
def argmin (x : List α) : Option (Nat × α) := argminFrom 0 none x

end LinProg.Vec
