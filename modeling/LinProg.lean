import LinProg.Affine.Interior
import LinProg.Affine.Solver
import LinProg.Affine.Workspace
import LinProg.CommandLine.Argument
import LinProg.CommandLine.Command
import LinProg.CommandLine.Program
import LinProg.CommandLine.Report
import LinProg.Decimal.Binary
import LinProg.Decimal.Layout
import LinProg.Decimal.Nearest
import LinProg.Decimal.Shortest
import LinProg.Duration
import LinProg.Exchange.Problem
import LinProg.Exchange.Solution
import LinProg.Files.Failure
import LinProg.Files.Path
import LinProg.Files.Session
import LinProg.Files.Store
import LinProg.Files.Tree
import LinProg.InputError
import LinProg.Json.Fields
import LinProg.Json.Printer
import LinProg.Json.Reader
import LinProg.Json.Value
import LinProg.Ldl
import LinProg.Ldl.Storage
import LinProg.Main
import LinProg.Matrix
import LinProg.Options
import LinProg.Outcome
import LinProg.Precheck
import LinProg.Problem
import LinProg.Proofs.Affine.Bounded
import LinProg.Proofs.Affine.Convergence
import LinProg.Proofs.Affine.Invariant
import LinProg.Proofs.Affine.Moves
import LinProg.Proofs.Affine.Order
import LinProg.Proofs.Affine.Projection
import LinProg.Proofs.Affine.Refusals
import LinProg.Proofs.Affine.Reordering
import LinProg.Proofs.Affine.Runs
import LinProg.Proofs.Affine.Sizes
import LinProg.Proofs.Affine.Start
import LinProg.Proofs.Affine.Steps
import LinProg.Proofs.Checked.Arithmetic
import LinProg.Proofs.Checked.Matrices
import LinProg.Proofs.Checked.Starts
import LinProg.Proofs.Checked.Steps
import LinProg.Proofs.Clocks
import LinProg.Proofs.Comparison.Breakdowns
import LinProg.Proofs.Comparison.Gap
import LinProg.Proofs.Comparison.Overflow
import LinProg.Proofs.Comparison.Records
import LinProg.Proofs.Comparison.RowSigns
import LinProg.Proofs.Comparison.Suite
import LinProg.Proofs.Comparison.Unbounded
import LinProg.Proofs.Comparison.WeakDuality
import LinProg.Proofs.Exact.Arithmetic
import LinProg.Proofs.Exact.Matrices
import LinProg.Proofs.Exact.Programs
import LinProg.Proofs.Exact.Vectors
import LinProg.Proofs.Exchange.Problems
import LinProg.Proofs.Exchange.Saving
import LinProg.Proofs.Exchange.Solutions
import LinProg.Proofs.Files.Trees
import LinProg.Proofs.Json.Numbers
import LinProg.Proofs.Json.Numerals
import LinProg.Proofs.Json.Structures
import LinProg.Proofs.Json.Texts
import LinProg.Proofs.Ldl.Calls
import LinProg.Proofs.Ldl.Columns
import LinProg.Proofs.Ldl.Definite
import LinProg.Proofs.Ldl.Exactness
import LinProg.Proofs.Ldl.Factors
import LinProg.Proofs.Ldl.History
import LinProg.Proofs.Ldl.InPlace
import LinProg.Proofs.Ldl.Solving
import LinProg.Proofs.Rounded.Formats
import LinProg.Proofs.Rounded.Overflow
import LinProg.Proofs.Rounded.Ranges
import LinProg.Proofs.Rounded.Zeros
import LinProg.Proofs.Rows
import LinProg.Proofs.Simplex.Budgets
import LinProg.Proofs.Simplex.Consistency
import LinProg.Proofs.Simplex.Losses
import LinProg.Proofs.Simplex.Pivots
import LinProg.Proofs.Simplex.Rounding
import LinProg.Proofs.Simplex.Runs
import LinProg.Proofs.Simplex.Termination
import LinProg.Proofs.Simplex.Tolerances
import LinProg.Proofs.Simplex.Verdicts
import LinProg.Proofs.Tableau.BasicPoint
import LinProg.Proofs.Tableau.Certificates
import LinProg.Proofs.Tableau.Determined
import LinProg.Proofs.Tableau.Extraction
import LinProg.Proofs.Tableau.Initial
import LinProg.Proofs.Tableau.Scans
import LinProg.Proofs.Tableau.Selection
import LinProg.Proofs.Tableau.Shape
import LinProg.Proofs.Tableau.Solutions
import LinProg.Proofs.Tableau.System
import LinProg.Proofs.Tableau.UnitBasis
import LinProg.Scalar
import LinProg.Simplex
import LinProg.Size
import LinProg.Solution
import LinProg.Solver
import LinProg.Tableau
import LinProg.Text.Blank
import LinProg.Text.Joining
import LinProg.Text.Quoted
import LinProg.Text.Unassigned
import LinProg.Vec
import LinProg.Proofs.Ldl.Minors
import LinProg.Proofs.Affine.NormalMatrix
import LinProg.Proofs.Affine.Orthogonality
import LinProg.Proofs.Checked.Divisions
import LinProg.Proofs.Rounded.Numbers
import LinProg.Proofs.Affine.Residuals
import LinProg.Proofs.Affine.Reports
import LinProg.Proofs.Simplex.Reports
import LinProg.Proofs.Affine.Applicability
import LinProg.Proofs.Exchange.Validation
import LinProg.Proofs.RowIteration
import LinProg.Proofs.Comparison.Refusals
import LinProg.Proofs.Exact.Operators
import LinProg.Proofs.Scans
import LinProg.Proofs.Solvers
import LinProg.Proofs.Tableau.LowestIndex
