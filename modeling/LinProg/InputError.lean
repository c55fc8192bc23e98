import LinProg.Decimal.Layout

/-!
# Malformed input

Why a problem, a starting point or the options of a solve cannot be worked with: `InputError` has
one constructor per cause and `InputError.message` its wording. Values in a message have the
shortest digits of their own type, except a negative right-hand side, which is written as a number
of 64 bits.
-/

namespace LinProg

/-- The tolerances that have to be finite and not negative. -/
inductive ToleranceName where
  | zero
  | feasibility
  | singular
  deriving Repr, DecidableEq

/-- The name that users know a tolerance by. -/
def ToleranceName.text : ToleranceName → String
  | zero => "zero_tolerance"
  | feasibility => "feasibility_tolerance"
  | singular => "singular_tolerance"

inductive InputError (α : Type) where
  /-- A row of a matrix differs in length from the first. -/
  | raggedRow (row entries expected : Nat)
  /-- A matrix does not hold as many numbers as its sizes say. -/
  | dataLength (length nrows ncols : Nat)
  /-- The constraints have another number of columns than there are variables. -/
  | columnCount (ncols nvars : Nat)
  /-- The constraints have another number of rows than there are bounds. -/
  | rowCount (nrows bounds : Nat)
  /-- A starting point has another number of entries than there are variables. -/
  | pointLength (length nvars : Nat)
  | emptyObjective
  /-- A number of the problem is not finite. -/
  | nonFiniteProblem
  /-- A number of the starting point is not finite. -/
  | nonFinitePoint
  /-- The step is not strictly between zero and one. -/
  | stepOutOfRange (step : α)
  | toleranceNotPositive (tolerance : α)
  /-- Another tolerance is negative or not finite. -/
  | badTolerance (name : ToleranceName) (value : α)
  /-- The threshold of the projected cost is not finite. -/
  | thresholdNotFinite (value : α)
  | noIterations
  /-- A bound is negative, so the slacks alone are no feasible basis. -/
  | negativeRhs (row : Nat) (value : α)
  deriving Repr

inductive InputErrorKind where
  | dimensionMismatch
  | invalidStructure
  | negativeRhs
  deriving Repr, DecidableEq

namespace InputError

variable {α : Type}

def kind : InputError α → InputErrorKind
  | raggedRow .. | dataLength .. | columnCount .. | rowCount .. | pointLength .. =>
    .dimensionMismatch
  | negativeRhs .. => .negativeRhs
  | _ => .invalidStructure

/-- The opening words of a family. -/
def opening : InputErrorKind → String
  | .dimensionMismatch => "dimension mismatch: "
  | .invalidStructure => "invalid structure: "
  | .negativeRhs => ""

/-- What is wrong, without the opening words. -/
def detail [Binary α] : InputError α → String
  | raggedRow row entries expected => s!"row {row} has {entries} entries, expected {expected}"
  | dataLength length nrows ncols =>
    s!"data length {length} != nrows * ncols ({nrows} * {ncols})"
  | columnCount ncols nvars => s!"constraint matrix columns {ncols} != nvars {nvars}"
  | rowCount nrows bounds => s!"constraint rows {nrows} != rhs len {bounds}"
  | pointLength length nvars => s!"starting point length {length} != nvars {nvars}"
  | emptyObjective => "objective vector is empty"
  | nonFiniteProblem => "problem data contains non-finite values"
  | nonFinitePoint => "starting point contains non-finite values"
  | stepOutOfRange step => "affine step " ++ Binary.plain step ++ " must lie in (0, 1)"
  | toleranceNotPositive tolerance =>
    "tolerance " ++ Binary.plain tolerance ++ " must be positive"
  | badTolerance name value =>
    name.text ++ " " ++ Binary.plain value ++ " must be finite and non-negative"
  | thresholdNotFinite value =>
    "reduced cost threshold " ++ Binary.plain value ++ " must be finite"
  | noIterations => "max_iterations must be at least 1"
  | negativeRhs row value =>
    "negative right-hand side " ++ Binary.plainWide value ++
      s!" in row {row}; the all-slack basis is infeasible"

def message [Binary α] (e : InputError α) : String := opening e.kind ++ e.detail

end InputError

end LinProg
