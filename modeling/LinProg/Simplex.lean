import LinProg.Solution
import LinProg.Tableau

/-!
# The simplex method

Pivots a tableau until it is optimal, the problem turns out unbounded, or the pivots run out. There
is no first phase: the slacks are the first basis, so the bounds must not be negative.

* `Simplex.step?`: at most one pivot.
* `Simplex.run`: pivots as long as the options allow.
* `Simplex.solve`: from a problem to its solution.
-/

namespace LinProg.Simplex

variable {α : Type} [Scalar α]

inductive PivotOutcome where
  | pivoted (row column : Nat)
  | optimal
  /-- The objective grows without bound along a column. -/
  | unbounded (column : Nat)
  deriving Repr, DecidableEq

/-- At most one pivot. -/
def step? (tolerance : α) (T : Tableau α) : Option (PivotOutcome × Tableau α) :=
  match T.entering tolerance with
  | none => some (.optimal, T)
  | some column => do
    match ← T.leaving? column tolerance with
    | none => return (.unbounded column, T)
    | some row => return (.pivoted row column, ← T.pivot? row column)

/-- A tableau with the record of the pivots that led to it. -/
structure Progress (α : Type) where
  tableau : Tableau α
  stats : Stats α
  deriving Repr

/-- One more pivot, made `elapsed` after the start. -/
def Progress.pivoted (p : Progress α) (T : Tableau α) (row column : Nat) (elapsed : Duration) :
    Progress α where
  tableau := T
  stats :=
    let k := p.stats.pivots + 1
    { p.stats.push (Record.pivoted k T.objective row column elapsed) with pivots := k }

/-- Steps until one does not pivot, at most `budget` times. -/
def pivots (tolerance : α) (start : Duration) :
    Nat → Progress α → Timed (Option (Status × Progress α))
  | 0, p => .done (some (.maxIterations, p))
  | budget + 1, p =>
    match step? tolerance p.tableau with
    | none => .done none
    | some (.optimal, _) => .done (some (.optimal, p))
    | some (.unbounded _, _) => .done (some (.unbounded, p))
    | some (.pivoted row column, T) =>
      .look fun now => pivots tolerance start budget (p.pivoted T row column (start.since now))

/-- The pivots may run out exactly on an optimal tableau. -/
def finalStatus (tolerance : α) (status : Status) (T : Tableau α) : Status :=
  if status = .maxIterations ∧ (T.entering tolerance).isNone then .optimal else status

/-- The solution that a tableau and its record amount to. Only an optimal tableau has values. -/
def report? (tolerance : α) (status : Status) (p : Progress α) (solveTime : Duration) :
    Option (Solution α) := do
  let T := p.tableau
  let stats := { p.stats with solveTime := solveTime }
  if status = .optimal then
    return {
      primal := ← T.primal? tolerance
      slack := ← T.slack? tolerance
      status := status
      objectiveValue := T.objective
      iterations := stats.pivots
      stats := stats }
  else
    return { ← Solution.terminated? status T.nvars T.ncons with
      iterations := stats.pivots
      stats := stats }

/-- Pivots a tableau until it is optimal, unbounded, or the pivots run out; gives the solution and
the last tableau. An optimal tableau stays as it is. -/
def run (o : Options α) (T : Tableau α) : Timed (Option (Solution α × Tableau α)) := do
  let start ← Timed.now
  let ended ← pivots o.zeroTolerance start o.maxIterations ⟨T, {}⟩
  let now ← Timed.now
  return do
    let (status, p) ← ended
    let status := finalStatus o.zeroTolerance status p.tableau
    return (← report? o.zeroTolerance status p (start.since now), p.tableau)

/-- Solves a problem from the basis of its slacks. -/
def solve (o : Options α) (p : Problem α) : Timed (Outcome (InputError α) (Solution α)) :=
  match Outcome.ofExcept o.validate >>= fun _ => Tableau.of p with
  | .error e => .done (.error e)
  | .fault => .done .fault
  | .ok T => do return (Outcome.ofOption (← run o T)).bind fun r => .ok r.1

end LinProg.Simplex
