import LinProg.Problem

/-!
# Simplex tableaux

A tableau of a problem with `n` variables and `m` constraints has `m + 1` rows and `n + m + 1`
columns: one per variable, one per slack, and the right-hand side. The last row is the objective
row, which starts as the negated cost, so that maximising brings its entries up to zero.

* `Tableau.of`: the tableau of a problem, in which the slacks are basic, if storage holds it.
* `Tableau.entering`, `Tableau.leaving?`: the choice of a pivot. Equal candidates go to the lowest
  index.
* `Tableau.pivot?`: elimination on an entry.
* `Tableau.primal?`, `Tableau.slack?`: the values of the basic columns.
-/

namespace LinProg

/-- A simplex tableau. -/
structure Tableau (α : Type) where
  nvars : Nat
  /-- One row per constraint. -/
  body : List (List α)
  objectiveRow : List α
  /-- The basic column of each constraint row. -/
  basis : List Nat
  deriving Repr, BEq

namespace Tableau

variable {α : Type}

def ncons (T : Tableau α) : Nat := T.body.length

def width (T : Tableau α) : Nat := T.nvars + T.ncons + 1

/-- All entries, row after row. -/
def matrix (T : Tableau α) : Matrix α :=
  ⟨T.ncons + 1, T.width, T.body.flatten ++ T.objectiveRow⟩

def get? (T : Tableau α) (row column : Nat) : Option α := T.matrix.get? row column

/-- The right-hand side of a row. -/
def rhs? (T : Tableau α) (row : Nat) : Option α := T.get? row (T.nvars + T.ncons)

variable [Scalar α]

/-- The objective: the right-hand side of the objective row. -/
def objective (T : Tableau α) : α := T.objectiveRow.getLastD 0

/-- The entries of the objective row under the variables and slacks. -/
def reducedCosts (T : Tableau α) : List α := T.objectiveRow.take (T.nvars + T.ncons)

/-- The tableau of a valid problem whose bounds are not negative. -/
def of (p : Problem α) : Outcome (InputError α) (Tableau α) := do
  p.validate
  match p.rhs.zipIdx.find? fun (b, _) => decide (b < 0) with
  | some (b, row) => .error (.negativeRhs row b)
  | none =>
    let n := p.nvars
    let m := p.ncons
    let _ ← Outcome.ofOption (Matrix.room? α (m + 1) (n + m + 1))
    let rows ← Outcome.ofOption p.constraints.allRows?
    return {
      nvars := n
      body := (rows.zip p.rhs).zipIdx.map fun (r, i) => r.1 ++ Matrix.unitRow m i ++ [r.2]
      objectiveRow := p.cost.map (fun c => -c) ++ List.replicate (m + 1) 0
      basis := (List.range m).map (n + ·) }

/-- Scans entries numbered from `j` on for the most negative one below `-tolerance`. -/
def enteringFrom (tolerance : α) (j : Nat) (best : Option (Nat × α)) :
    List α → Option (Nat × α)
  | [] => best
  | v :: vs =>
    let keeps := match best with
      | some (_, b) => decide (v ≥ b)
      | none => false
    enteringFrom tolerance (j + 1) (if v ≥ -tolerance || keeps then best else some (j, v)) vs

/-- The column that enters the basis: the most negative entry of the objective row, none once the
tableau is optimal. -/
def entering (T : Tableau α) (tolerance : α) : Option Nat :=
  (enteringFrom tolerance 0 none T.reducedCosts).map (·.1)

/-- Scans pairs of an entry and a right-hand side, numbered from `i` on, for the smallest ratio
among the entries above the tolerance. -/
def leavingFrom (tolerance : α) (i : Nat) (best : Option (Nat × α)) :
    List (α × α) → Option (Nat × α)
  | [] => best
  | (entry, rhs) :: rest =>
    let ratio := rhs / entry
    let keeps := match best with
      | some (_, b) => decide (ratio ≥ b)
      | none => false
    leavingFrom tolerance (i + 1) (if entry ≤ tolerance || keeps then best else some (i, ratio))
      rest

/-- The row that leaves the basis for a column, by the ratio test; none if the column is
unbounded. -/
def leaving? (T : Tableau α) (column : Nat) (tolerance : α) : Option (Option Nat) := do
  let pairs ← (List.range T.ncons).mapM fun row => do
    return (← T.get? row column, ← T.rhs? row)
  return (leavingFrom tolerance 0 none pairs).map (·.1)

/-- Takes a multiple of the pivot row off a row, so that its entry in the column is zero. -/
def eliminate (pivotRow : List α) (column : Nat) (r : List α) : List α :=
  match r[column]? with
  | some factor =>
    if factor == 0 then r
    else (r.zipWith (fun v p => v - factor * p) pivotRow).set column 0
  | none => r

/-- Elimination on an entry: its row is divided by it, every other row, the objective row included,
gets a zero in its column, and the column becomes basic. -/
def pivot? (T : Tableau α) (row column : Nat) : Option (Tableau α) := do
  if T.width ≤ column then none
  else
    let r ← T.body[row]?
    let entry ← r[column]?
    let pivotRow := (r.map (· / entry)).set column 1
    return { T with
      body := T.body.zipIdx.map fun (s, i) =>
        if i = row then pivotRow else eliminate pivotRow column s
      objectiveRow := eliminate pivotRow column T.objectiveRow
      basis := T.basis.set row column }

/-- Looks for the one unit entry among zeros in a column, over the rows of a list; `unit` is the
unit entry found so far. The first row that speaks against it ends the search. -/
def unitRow? (T : Tableau α) (column : Nat) (tolerance : α) (unit : Option Nat) :
    List Nat → Option (Option Nat)
  | [] => some unit
  | row :: rows => do
    let v ← T.get? row column
    if Scalar.abs (v - 1) ≤ tolerance then
      if unit.isSome then return none else unitRow? T column tolerance (some row) rows
    else if Scalar.abs v > tolerance then return none
    else unitRow? T column tolerance unit rows

/-- The row in which a column is basic: exactly one entry is 1, all others are 0, and the basis
agrees. -/
def basicRow? (T : Tableau α) (column : Nat) (tolerance : α) : Option (Option Nat) := do
  let unit ← T.unitRow? column tolerance none (List.range (T.ncons + 1))
  return unit.filter fun row => decide (row < T.ncons) && T.basis[row]? == some column

/-- The value of a column: the right-hand side of its row if it is basic, zero otherwise. -/
def value? (T : Tableau α) (column : Nat) (tolerance : α) : Option α := do
  match ← T.basicRow? column tolerance with
  | some row => T.rhs? row
  | none => return 0

/-- The values of columns, if storage holds them. -/
def values? (T : Tableau α) (columns : List Nat) (tolerance : α) : Option (List α) := do
  let _ ← Scalar.entries? α columns.length
  columns.mapM fun column => T.value? column tolerance

def primal? (T : Tableau α) (tolerance : α) : Option (List α) :=
  T.values? (List.range T.nvars) tolerance

def slack? (T : Tableau α) (tolerance : α) : Option (List α) :=
  T.values? ((List.range T.ncons).map (T.nvars + ·)) tolerance

end Tableau

end LinProg
