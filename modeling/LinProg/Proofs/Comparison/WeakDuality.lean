import LinProg.Proofs.Affine.Invariant
import LinProg.Proofs.Simplex.Tolerances
import LinProg.Proofs.Solvers

/-!
# Weak duality between the two methods

Affine scaling keeps a feasible point, and an optimal tableau bounds the objective of all feasible
points up to its tolerance. So no solve by affine scaling reports a larger objective than an optimal
one by the simplex method, but for the tolerance (`affine_le_simplex`), and neither does one in a
suite of solves.
-/

open scoped Matrix

namespace LinProg

variable {K : Type} [Field K] [LinearOrder K] [IsStrictOrderedRing K] [Exact K] {p : Problem K}

theorem AffineScaling.exists_interior {a : AffineScaling K} {start : List K} {sol : Solution K}
    (h : (a.solve p start).Yields (.ok sol)) (hkeeps : keepsIterate sol.status = true) :
    ∃ z : Fin (p.nvars + p.ncons) → K, (∀ j, 0 < z j) ∧ p.augmented *ᵥ z = p.bounds ∧
      sol.objectiveValue = p.augmentedCosts ⬝ᵥ z ∧
      ∑ j, z j = sol.primal.sum + sol.slack.sum := by
  rcases solve_yields_ok h with ⟨w, point, hbegin, hrun⟩ | ⟨hnot, -⟩
  · rcases run_yields_reports hbegin hrun with ⟨hnone, -⟩ | ⟨_, l, Q, hsome, hreports⟩
    · cases hnone
    · cases hsome
      obtain ⟨rfl, -⟩ := Kept.begin hbegin
      have hinside := (hreports.reached.kept hbegin).inside
      obtain ⟨hprimal, hslack, hobjective⟩ := hreports.iterate hkeeps
      refine ⟨_, hinside.positive, hinside.solves, hobjective, ?_⟩
      rw [hprimal, hslack, List.sum_ofFn, List.sum_ofFn, Fin.sum_univ_add]
  · rw [hkeeps] at hnot
    cases hnot

/-- If both solutions have a point, the first does not report a larger objective than the second,
but for a tolerance on each of its variables and slacks. -/
def NotAbove (tolerance : K) (affine simplex : Solution K) : Prop :=
  AffineScaling.keepsIterate affine.status = true → simplex.status = .optimal →
    affine.objectiveValue ≤
      simplex.objectiveValue + tolerance * (affine.primal.sum + affine.slack.sum)

theorem notAbove_of_solves {a : AffineScaling K} {start : List K} {o : Options K}
    {affine simplex : Solution K} (haffine : (a.solve p start).Yields (.ok affine))
    (hsimplex : (Simplex.solve o p).Yields (.ok simplex)) :
    NotAbove o.zeroTolerance affine simplex := by
  intro hkeeps hopt
  obtain ⟨z, hpos, hz, hobjective, hsum⟩ := AffineScaling.exists_interior haffine hkeeps
  rw [hobjective, ← hsum]
  exact Simplex.value_le_of_optimal hsimplex hopt hz fun j => (hpos j).le

/-- **Weak duality.** In exact arithmetic, whatever the starting point, the options and the stopping
rule: if affine scaling ends with a point, because it has converged or a limit ended it, and the
simplex method ends optimal, then the first reports at most the objective of the second plus the
second's zero tolerance on each variable and slack of the point. So with a tolerance of zero it
never reports more; and all of this holds for the solves of a suite.

Both methods return nothing for a problem that is not valid, and the second for one with a negative
bound. A field divides by zero with the result zero, so no step has to be left out. -/
theorem affine_le_simplex :
    (∀ (a : AffineScaling K) (start : List K) (o : Options K) (affine simplex : Solution K),
      (a.solve p start).Yields (.ok affine) → (Simplex.solve o p).Yields (.ok simplex) →
      NotAbove o.zeroTolerance affine simplex ∧
      (AffineScaling.keepsIterate affine.status = true → simplex.status = .optimal →
        o.zeroTolerance = 0 → affine.objectiveValue ≤ simplex.objectiveValue)) ∧
    ∀ (o : Options K) (start : List K) (suite : Suite K),
      (Suite.run o p start).Yields (.ok suite) →
      ∀ r ∈ suite.affine, NotAbove o.zeroTolerance r.solution suite.simplex := by
  constructor
  · intro a start o affine simplex haffine hsimplex
    have hle := notAbove_of_solves haffine hsimplex
    refine ⟨hle, fun hkeeps hopt hzero => ?_⟩
    have hle := hle hkeeps hopt
    rwa [hzero, zero_mul, add_zero] at hle
  · intro o start suite hsuite r hr
    obtain ⟨haffine, hsimplex⟩ := Suite.run_yields hsuite
    exact notAbove_of_solves (haffine r hr) hsimplex

/-- Two steps of affine scaling on `Problem.twoByTwo` stay below its optimum. -/
theorem twoByTwo_affine_le_simplex : ∃ suite,
    (Suite.run AffineScaling.twoSteps Problem.twoByTwo [1, 1]).Yields (.ok suite) ∧
    suite.simplex.status = .optimal ∧ suite.affine.length = 2 ∧
    ∀ r ∈ suite.affine, r.solution.status = .maxIterations ∧
      r.solution.objectiveValue ≤ suite.simplex.objectiveValue +
        AffineScaling.twoSteps.zeroTolerance * (r.solution.primal.sum + r.solution.slack.sum) := by
  obtain ⟨suite, hyields, hopt, htwo, hmax⟩ := Timed.exists_yields_ok
    (x := Suite.run AffineScaling.twoSteps Problem.twoByTwo [1, 1])
    (P := fun suite => suite.simplex.status = .optimal ∧ suite.affine.length = 2 ∧
      ∀ r ∈ suite.affine, r.solution.status = .maxIterations) (by decide +kernel)
  obtain ⟨-, hle⟩ := affine_le_simplex (p := Problem.twoByTwo)
  refine ⟨suite, hyields, hopt, htwo, fun r hr => ⟨hmax r hr, ?_⟩⟩
  exact hle _ _ _ hyields r hr (by rw [hmax r hr]; rfl) hopt

end LinProg
