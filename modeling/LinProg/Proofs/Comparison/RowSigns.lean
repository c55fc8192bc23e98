import LinProg.Proofs.Affine.Refusals
import LinProg.Proofs.Comparison.Unbounded
import LinProg.Proofs.Comparison.WeakDuality
import LinProg.Proofs.Simplex.Verdicts

/-!
# What the sign test of the rows decides

Affine scaling ends with the status that there is no solution where some row has no positive
coefficient, and nowhere else (`AffineScaling.noSolution_iff`). The test looks at one row at a time,
at neither its bound nor the objective. A flagged row with a bound that is not negative excludes no
point (`Problem.feasible_iff_of_flagged`), so the problem may well have an optimum
(`segment_has_optimum`); it has none if some variable with a positive cost has no positive
coefficient in any row (`Problem.exists_value_gt_of_free`).
-/

open scoped Matrix

namespace LinProg

variable {K : Type} [Field K] [LinearOrder K] {p : Problem K}

namespace Problem

/-- A row without a positive coefficient. -/
def Flagged (p : Problem K) (i : Fin p.ncons) : Prop := ∀ j, p.coeffs i j ≤ 0

theorem not_flagged_iff {i : Fin p.ncons} : ¬p.Flagged i ↔ ∃ j, 0 < p.coeffs i j := by
  unfold Flagged
  push Not
  rfl

variable [IsStrictOrderedRing K]

theorem mulVec_nonpos_of_flagged {i : Fin p.ncons} (h : p.Flagged i) {y : Fin p.nvars → K}
    (hy : ∀ j, 0 ≤ y j) : (p.coeffs *ᵥ y) i ≤ 0 := by
  unfold Matrix.mulVec dotProduct
  apply Finset.sum_nonpos
  intro j _
  exact mul_nonpos_of_nonpos_of_nonneg (h j) (hy j)

theorem feasible_iff_of_flagged (hbounds : ∀ i, p.Flagged i → 0 ≤ p.bounds i)
    {y : Fin p.nvars → K} : p.Feasible y ↔
      (∀ j, 0 ≤ y j) ∧ ∀ i, ¬p.Flagged i → (p.coeffs *ᵥ y) i ≤ p.bounds i := by
  constructor
  · rintro ⟨hnonneg, hrows⟩
    exact ⟨hnonneg, fun i _ => hrows i⟩
  · rintro ⟨hnonneg, hrows⟩
    refine ⟨hnonneg, fun i => ?_⟩
    by_cases hflag : p.Flagged i
    · exact (mulVec_nonpos_of_flagged hflag hnonneg).trans (hbounds i hflag)
    · exact hrows i hflag

theorem exists_value_gt_of_free {j : Fin p.nvars} (hcost : 0 < p.costs j)
    (hfree : ∀ i, p.coeffs i j ≤ 0) {y : Fin p.nvars → K} (hy : p.Feasible y) (B : K) :
    ∃ z, p.Feasible z ∧ B < p.costs ⬝ᵥ z := by
  apply exists_value_gt_of_ray hy (d := Pi.single j 1)
  · intro k
    rw [Pi.single_apply]
    split
    · exact zero_le_one
    · exact le_rfl
  · intro i
    rw [Matrix.mulVec_single_one]
    exact hfree i
  · rw [dotProduct_single_one]
    exact hcost

end Problem

variable [Exact K]

theorem Precheck.checkRows_eq_noSolution_iff (hv : p.validate = .ok ()) {i : Fin p.ncons} :
    Precheck.checkRows p.constraints = .error (.noSolution i) ↔
      p.Flagged i ∧ ∀ k < i, ¬p.Flagged k := by
  rcases Precheck.checkRows_cases hv with ⟨hok, hrows⟩ | ⟨row, herror, hflag, hbefore⟩
  · rw [hok]
    refine iff_of_false nofun ?_
    rintro ⟨hflag, -⟩
    exact Problem.not_flagged_iff.mpr (hrows i) hflag
  · rw [herror]
    constructor
    · intro heq
      obtain rfl : row = i := by
        apply Fin.ext
        injection heq with heq
        injection heq
      exact ⟨hflag, fun k hk => Problem.not_flagged_iff.mpr (hbefore k hk)⟩
    · rintro ⟨hi, hfirst⟩
      -- neither of two first rows comes before the other
      obtain rfl : row = i := by
        apply le_antisymm
        · by_contra! hlt
          exact Problem.not_flagged_iff.mpr (hbefore i hlt) hi
        · by_contra! hlt
          exact hfirst row hlt hflag
      rfl

theorem AffineScaling.noSolution_iff {a : AffineScaling K} {start : List K} {sol : Solution K}
    (hsol : (a.solve p start).Yields (.ok sol)) :
    sol.status = .noSolution ↔ ∃ i, p.Flagged i := by
  obtain ⟨hv, ho, hpoint⟩ := valid_of_solve hsol
  have hlen := InteriorPoint.validatePoint_eq_ok_iff.mp hpoint
  have hpasses : (∀ i, ∃ j, 0 < p.coeffs i j) → ¬∃ i, p.Flagged i := by
    rintro hrows ⟨i, hflag⟩
    exact Problem.not_flagged_iff.mpr (hrows i) hflag
  have hcases := solve_cases hv ho hlen hsol
  rcases Precheck.check_cases hv hlen a.options.feasibilityTolerance with
    ⟨hcheck, hrows, -⟩ | ⟨i, hcheck, hflag⟩ | ⟨hrows, i, hcheck, -⟩
  · refine iff_of_false (fun hstatus => ?_) (hpasses hrows)
    rw [hcheck] at hcases
    rcases hcases with ⟨e, _, herror, -⟩ | ⟨-, ⟨-, _, hok, hpoint⟩ | ⟨-, hgoes⟩⟩
    · cases herror
    · cases hok
      cases hstatus.symm.trans hpoint
    · exact (hgoes sol rfl).1 hstatus
  · refine iff_of_true ?_ ⟨i, hflag⟩
    rw [hcheck] at hcases
    rcases hcases with ⟨e, _, herror, hok, hstatus⟩ | ⟨hok, -⟩
    · cases herror
      cases hok
      exact (Option.some.inj hstatus).symm
    · cases hok
  · refine iff_of_false (fun hstatus => ?_) (hpasses hrows)
    rw [hcheck] at hcases
    rcases hcases with ⟨e, _, herror, hok, hpoint⟩ | ⟨hok, -⟩
    · cases herror
      cases hok
      cases (Option.some.inj hpoint).trans hstatus
    · cases hok

theorem Simplex.feasible_zero_of_solve [IsStrictOrderedRing K] {o : Options K} {sol : Solution K}
    (hsol : (Simplex.solve o p).Yields (.ok sol)) : p.Feasible 0 := by
  obtain ⟨-, T, -, hT, -⟩ := Simplex.solve_yields_ok hsol
  obtain ⟨-, hrhs, -⟩ := Tableau.of_eq_ok_iff.mp hT
  have hlen : p.rhs.length = p.ncons := rfl
  refine ⟨fun _ => le_rfl, fun i => ?_⟩
  rw [Matrix.mulVec_zero, Pi.zero_apply, Problem.bounds, Vec.coords_eq_get hlen]
  exact not_lt.mp (hrhs _ (List.get_mem _ _))

/-- **The status that there is no solution reads signs of rows.** In exact arithmetic, for a valid
problem:

* the test of the rows names a row if it is the first one without a positive coefficient, and only
  then;
* a solve by affine scaling ends with the status that there is no solution if there is such a row,
  and only then;
* such rows with bounds that are not negative exclude no point, so that optimum and feasible points
  are those of the other rows;
* there is no optimum where a variable with a positive cost has no positive coefficient: no point is
  feasible or the objective grows without end;
* so in a suite without a zero tolerance, whose affine runs all end with that status or none of
  them, the simplex method ends optimal only if each variable with a positive cost has a positive
  coefficient. -/
theorem noSolution_reads_row_signs [IsStrictOrderedRing K] (hvalid : p.validate = .ok ()) :
    (∀ i : Fin p.ncons, Precheck.checkRows p.constraints = .error (.noSolution i) ↔
      p.Flagged i ∧ ∀ k < i, ¬p.Flagged k) ∧
    (∀ (a : AffineScaling K) (start : List K) (sol : Solution K),
      (a.solve p start).Yields (.ok sol) → (sol.status = .noSolution ↔ ∃ i, p.Flagged i)) ∧
    ((∀ i, p.Flagged i → 0 ≤ p.bounds i) → ∀ y, p.Feasible y ↔
      (∀ j, 0 ≤ y j) ∧ ∀ i, ¬p.Flagged i → (p.coeffs *ᵥ y) i ≤ p.bounds i) ∧
    (∀ j, 0 < p.costs j → (∀ i, p.coeffs i j ≤ 0) →
      (∀ y, ¬p.Feasible y) ∨ ∀ B, ∃ y, p.Feasible y ∧ B < p.costs ⬝ᵥ y) ∧
    ∀ (o : Options K) (start : List K) (suite : Suite K),
      (Suite.run o p start).Yields (.ok suite) → o.zeroTolerance = 0 →
      (∀ r ∈ suite.affine, r.solution.status = .noSolution ↔ ∃ i, p.Flagged i) ∧
      (suite.simplex.status = .optimal → ∀ j, 0 < p.costs j → ∃ i, 0 < p.coeffs i j) := by
  refine ⟨fun i => Precheck.checkRows_eq_noSolution_iff hvalid, ?_, ?_, ?_, ?_⟩
  · intro a start sol hsol
    exact AffineScaling.noSolution_iff hsol
  · intro hbounds y
    exact Problem.feasible_iff_of_flagged hbounds
  · intro j hcost hfree
    by_cases hany : ∃ y, p.Feasible y
    · right
      obtain ⟨y, hy⟩ := hany
      exact Problem.exists_value_gt_of_free hcost hfree hy
    · left
      exact not_exists.mp hany
  · intro o start suite hsuite hzero
    obtain ⟨haffine, hsimplex⟩ := Suite.run_yields hsuite
    refine ⟨fun r hr => AffineScaling.noSolution_iff (haffine r hr), fun hopt j hcost => ?_⟩
    by_contra! hfree
    have hbounded := Simplex.bounded_of_optimal hsimplex hopt hzero
    have hunbounded := Problem.exists_value_gt_of_free hcost hfree
      (Simplex.feasible_zero_of_solve hsimplex)
    exact Problem.not_bounded_iff.mpr hunbounded hbounded

/-- Maximise `x` subject to `x ≤ 1` and `-x ≤ 0`. -/
def segment : Problem ℚ := ⟨[1], ⟨2, 1, [1, -1]⟩, [1, 0]⟩

theorem segment_flagged : segment.Flagged (1 : Fin 2) := by
  unfold Problem.Flagged
  decide +kernel

/-- Every solve of `segment` ends with the status, while its second row excludes nothing. -/
theorem segment_row_signs :
    (∀ (a : AffineScaling ℚ) (start : List ℚ) (sol : Solution ℚ),
      (a.solve segment start).Yields (.ok sol) → sol.status = .noSolution) ∧
    ∀ y, segment.Feasible y ↔ (∀ j, 0 ≤ y j) ∧
      ∀ i, ¬segment.Flagged i → (segment.coeffs *ᵥ y) i ≤ segment.bounds i := by
  obtain ⟨-, hstatus, hfeasible, -, -⟩ := noSolution_reads_row_signs (p := segment) rfl
  have hbounds : ∀ i, 0 ≤ segment.bounds i := by decide +kernel
  exact ⟨fun a start sol hsol => (hstatus a start sol hsol).mpr ⟨_, segment_flagged⟩,
    hfeasible fun i _ => hbounds i⟩

/-- **The status is wrong of `segment`.** The test of the rows names its second row, while its
largest objective is that of the point `1`. The simplex method finds it, in the suite whose affine
runs end with the status that there is no solution. -/
theorem segment_has_optimum :
    segment.validate = .ok () ∧
    Precheck.checkRows segment.constraints = .error (.noSolution 1) ∧
    (segment.Feasible 1 ∧ ∀ y, segment.Feasible y → segment.costs ⬝ᵥ y ≤ segment.costs ⬝ᵥ 1) ∧
    ∃ suite, (Suite.run Simplex.exactOptions segment [1 / 2]).Yields (.ok suite) ∧
      suite.simplex.status = .optimal ∧ suite.simplex.objectiveValue = 1 ∧
      suite.affine.length = 2 ∧ ∀ r ∈ suite.affine, r.solution.status = .noSolution := by
  refine ⟨rfl, ?_, ⟨⟨?_, ?_⟩, ?_⟩, ?_⟩
  · have hvalid : segment.validate = .ok () := rfl
    refine (Precheck.checkRows_eq_noSolution_iff hvalid (i := (1 : Fin 2))).mpr
      ⟨segment_flagged, fun k hk => ?_⟩
    obtain rfl : k = (0 : Fin 2) := Fin.ext (Nat.lt_one_iff.mp hk)
    exact Problem.not_flagged_iff.mpr ⟨(0 : Fin 1), by decide +kernel⟩
  · decide +kernel
  · decide +kernel
  · intro y hy
    have hrow := hy.2 (0 : Fin 2)
    have hlhs : (segment.coeffs *ᵥ y) (0 : Fin 2) = 1 * y (0 : Fin 1) := by
      show ∑ j : Fin 1, segment.coeffs (0 : Fin 2) j * y j = _
      rw [Fin.sum_univ_one]
      rfl
    have hbound : segment.bounds (0 : Fin 2) = 1 := rfl
    have hvalue : segment.costs ⬝ᵥ y = 1 * y (0 : Fin 1) := Fin.sum_univ_one _
    have hone : segment.costs ⬝ᵥ 1 = 1 := by decide +kernel
    linarith
  · exact Timed.exists_yields_ok (x := Suite.run Simplex.exactOptions segment [1 / 2])
      (P := fun suite => suite.simplex.status = .optimal ∧ suite.simplex.objectiveValue = 1 ∧
        suite.affine.length = 2 ∧ ∀ r ∈ suite.affine, r.solution.status = .noSolution)
      (by decide +kernel)

end LinProg
