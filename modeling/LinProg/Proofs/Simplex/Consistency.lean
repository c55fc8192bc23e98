import LinProg.Proofs.Simplex.Tolerances

/-!
# When an optimal solution agrees with itself

The objective of an optimal solution comes from the objective row of the last tableau, its variables
and slacks from the columns that look like unit columns. With a tolerance of one or more a zero
looks like a one, no column is found, and zeros are reported with the objective of another point.
The options are valid at any such tolerance.

`optimal_consistent_iff` says for which tolerances and bounds the parts agree.
-/

open scoped Matrix

namespace LinProg

variable {K : Type} [Field K]

/-- Variables and slacks solve the constraints and have the objective that is reported. -/
def Solution.Consistent (sol : Solution K) (p : Problem K) : Prop :=
  p.coeffs *ᵥ Vec.coords p.nvars sol.primal + Vec.coords p.ncons sol.slack = p.bounds ∧
    sol.objectiveValue = p.costs ⬝ᵥ Vec.coords p.nvars sol.primal

instance [DecidableEq K] (sol : Solution K) (p : Problem K) : Decidable (sol.Consistent p) :=
  inferInstanceAs (Decidable (_ ∧ _))

theorem Solution.consistent_iff {sol : Solution K} {p : Problem K} : sol.Consistent p ↔
    p.augmented *ᵥ sol.point p = p.bounds ∧
      p.augmentedCosts ⬝ᵥ sol.point p = sol.objectiveValue := by
  rw [Problem.augmented_mulVec, Problem.augmentedCosts_dotProduct, Solution.point]
  simp only [Fin.append_left, Fin.append_right]
  exact and_congr_right fun _ => eq_comm

namespace Simplex

variable [LinearOrder K] [Exact K] {p : Problem K} {o : Options K} {sol : Solution K}

theorem exists_point_of_optimal (hr : (solve o p).Yields (.ok sol)) (hopt : sol.status = .optimal) :
    ∃ z, p.augmented *ᵥ z = p.bounds ∧ p.augmentedCosts ⬝ᵥ z = sol.objectiveValue ∧
      (p.bounds = 0 → z = 0) := by
  obtain ⟨T, hrep, -, hvalues⟩ := solve_represents hr
  obtain ⟨-, -, hobjective⟩ := hvalues hopt
  refine ⟨_, hrep.augmented_basicPoint, hobjective ▸ hrep.value_basicPoint, fun hzero => ?_⟩
  -- without bounds there are no right-hand sides
  have hrhs : T.rhsColumn p.nvars p.ncons = 0 := by
    rw [hrep.rhsColumn_eq, hzero, Matrix.mulVec_zero]
  funext j
  rw [Tableau.basicPoint, hrhs, Tableau.spread]
  exact Finset.sum_eq_zero fun k _ => ite_self 0

variable [IsStrictOrderedRing K]

theorem zeros_of_optimal (hr : (solve o p).Yields (.ok sol)) (hopt : sol.status = .optimal)
    (htol : 1 ≤ o.zeroTolerance) :
    sol.primal = List.replicate p.nvars 0 ∧ sol.slack = List.replicate p.ncons 0 := by
  obtain ⟨T, hrep, -, hvalues⟩ := solve_represents hr
  obtain ⟨hx, hs, -⟩ := hvalues hopt
  rw [hrep.primal?_of_one_le htol, Option.some.injEq] at hx
  rw [hrep.slack?_of_one_le htol, Option.some.injEq] at hs
  exact ⟨hx.symm, hs.symm⟩

/-- **When an optimal solution agrees with itself.** In exact arithmetic, for every solve that ends
optimal, at any tolerance that the options allow:

* its objective is that of a point with `[A | I] z = b`;
* its variables and slacks solve the constraints and have that objective if and only if the
  tolerance is below one or all bounds are zero;
* with a tolerance of one or more all of them are zero.

A solve returns only for a valid problem without negative bounds and valid options. -/
theorem optimal_consistent_iff (hr : (solve o p).Yields (.ok sol)) (hopt : sol.status = .optimal) :
    sol.primal.length = p.nvars ∧ sol.slack.length = p.ncons ∧
    (∃ z, p.augmented *ᵥ z = p.bounds ∧ p.augmentedCosts ⬝ᵥ z = sol.objectiveValue) ∧
    (sol.Consistent p ↔ o.zeroTolerance < 1 ∨ p.bounds = 0) ∧
    (1 ≤ o.zeroTolerance →
      sol.primal = List.replicate p.nvars 0 ∧ sol.slack = List.replicate p.ncons 0) := by
  obtain ⟨hxlen, hslen⟩ : sol.primal.length = p.nvars ∧ sol.slack.length = p.ncons := by
    obtain ⟨T, hrep, -, hvalues⟩ := solve_represents hr
    obtain ⟨hx, hs, -⟩ := hvalues hopt
    obtain ⟨x, s, hx', hs', hxlen, hslen, -⟩ := hrep.shaped.exists_primal?_slack?
      (Exact.stores _) (Exact.stores _) o.zeroTolerance
    rw [hx, Option.some.injEq] at hx'
    rw [hs, Option.some.injEq] at hs'
    exact ⟨hx' ▸ hxlen, hs' ▸ hslen⟩
  obtain ⟨z, hz, hvalue, hzero⟩ := exists_point_of_optimal hr hopt
  refine ⟨hxlen, hslen, ⟨z, hz, hvalue⟩, ?_, zeros_of_optimal hr hopt⟩
  rw [Solution.consistent_iff]
  rcases lt_or_ge o.zeroTolerance 1 with htol | htol
  · exact iff_of_true (point_of_optimal hr hopt htol) (Or.inl htol)
  · obtain ⟨hx, hs⟩ := zeros_of_optimal hr hopt htol
    have hpoint : sol.point p = 0 := by
      rw [Solution.point, hx, hs]
      funext j
      refine Fin.addCases (fun j => ?_) (fun i => ?_) j
      · simp [Vec.coords]
      · simp [Vec.coords]
    rw [hpoint, Matrix.mulVec_zero, dotProduct_zero]
    constructor
    · rintro ⟨hbounds, -⟩
      exact Or.inr hbounds.symm
    · rintro (hlt | hbounds)
      · exact absurd hlt (not_lt.mpr htol)
      · refine ⟨hbounds.symm, ?_⟩
        rw [← hvalue, hzero hbounds, dotProduct_zero]

/-- Options with a tolerance of one. -/
def unitTolerance : Options ℚ := { Options.default with zeroTolerance := 1 }

/-- Maximise `3 x` subject to `2 x ≤ 1`. -/
def doubledRow : Problem ℚ := ⟨[3], ⟨1, 1, [2]⟩, [1]⟩

theorem doubledRow_consistent : ∃ sol, (solve halfTolerance doubledRow).Yields (.ok sol) ∧
    sol.status = .optimal ∧ sol.Consistent doubledRow := by
  obtain ⟨sol, hyields, hopt⟩ := Timed.exists_yields_ok (x := solve halfTolerance doubledRow)
    (P := fun sol => sol.status = .optimal) (by decide +kernel)
  obtain ⟨-, -, -, hiff, -⟩ := optimal_consistent_iff hyields hopt
  exact ⟨sol, hyields, hopt, hiff.mpr (Or.inl (by decide +kernel))⟩

/-- **The parts disagree with a tolerance of one.** The options are valid, and the optimum of
`doubledRow` is reported with the objective `3/2` at zero, where the constraint does not hold. -/
theorem doubledRow_reports_zeros :
    unitTolerance.validate = .ok () ∧ doubledRow.validate = .ok () ∧ (∀ b ∈ doubledRow.rhs, 0 ≤ b) ∧
    ∃ sol, (solve unitTolerance doubledRow).Yields (.ok sol) ∧ sol.status = .optimal ∧
      sol.objectiveValue = 3 / 2 ∧ sol.primal = [0] ∧ sol.slack = [0] ∧
      ¬sol.Consistent doubledRow := by
  refine ⟨Options.validate_eq_ok_iff.mpr (by decide +kernel), rfl, by decide +kernel, ?_⟩
  obtain ⟨sol, hyields, hopt, hvalue, hx, hs⟩ := Timed.exists_yields_ok
    (x := solve unitTolerance doubledRow)
    (P := fun sol => sol.status = .optimal ∧ sol.objectiveValue = 3 / 2 ∧ sol.primal = [0] ∧
      sol.slack = [0]) (by decide +kernel)
  refine ⟨sol, hyields, hopt, hvalue, hx, hs, ?_⟩
  unfold Solution.Consistent
  rw [hvalue, hx, hs]
  decide +kernel

end Simplex

end LinProg
