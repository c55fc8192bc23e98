import LinProg.Proofs.Affine.Invariant
import LinProg.Proofs.Simplex.Tolerances
import LinProg.Proofs.Simplex.Verdicts

/-!
# What the stop criterion certifies

Affine scaling gives up where the smallest projected cost reaches a threshold. With a positive
threshold all of the projected cost is positive there. Scaled back, it is a direction along which
every variable and every slack grows and the objective gains (`AffineScaling.Projected.ascends`), so
the objective grows without end (`AffineScaling.stopCriterion_certifies_unbounded`). The simplex
method does not call such a problem optimal, as its optimal tableaux bound the objective
(`Simplex.bounded_of_optimal`).
-/

open scoped Matrix

namespace LinProg

variable {K : Type} [Field K] [LinearOrder K] [IsStrictOrderedRing K] {p : Problem K}

omit [IsStrictOrderedRing K] in
theorem Problem.not_bounded_iff : ¬p.Bounded ↔ ∀ B, ∃ y, p.Feasible y ∧ B < p.costs ⬝ᵥ y := by
  unfold Problem.Bounded
  push Not
  rfl

theorem Problem.exists_value_gt_of_ray {y d : Fin p.nvars → K} (hy : p.Feasible y)
    (hd : ∀ j, 0 ≤ d j) (hrows : ∀ i, (p.coeffs *ᵥ d) i ≤ 0) (hgain : 0 < p.costs ⬝ᵥ d) (B : K) :
    ∃ z, p.Feasible z ∧ B < p.costs ⬝ᵥ z := by
  obtain ⟨hsolves, hnonneg⟩ := augmented_of_feasible hy
  -- with the slacks that the direction adds, it keeps the equations
  let e : Fin (p.nvars + p.ncons) → K := Fin.append d (-(p.coeffs *ᵥ d))
  have he : ∀ k, 0 ≤ e k := by
    apply Fin.addCases
    · intro j
      show 0 ≤ Fin.append _ _ _
      rw [Fin.append_left]
      exact hd j
    · intro i
      show 0 ≤ Fin.append _ _ _
      rw [Fin.append_right]
      exact neg_nonneg.mpr (hrows i)
  have hker : p.augmented *ᵥ e = 0 := by
    rw [augmented_mulVec]
    simp only [e, Fin.append_left, Fin.append_right]
    exact add_neg_cancel _
  have hgain : 0 < p.augmentedCosts ⬝ᵥ e := by
    rw [augmentedCosts_dotProduct]
    simp only [e, Fin.append_left]
    exact hgain
  exact exists_value_gt hsolves hnonneg he hker hgain B

/-- A direction along which all variables and all slacks grow and the objective gains. -/
structure Problem.Ascends (p : Problem K) (d : Fin p.nvars → K) : Prop where
  pos : ∀ j, 0 < d j
  slacks : ∀ i, (p.coeffs *ᵥ d) i < 0
  gain : 0 < p.costs ⬝ᵥ d

theorem Problem.Ascends.exists_value_gt {y d : Fin p.nvars → K} (h : p.Ascends d)
    (hy : p.Feasible y) (B : K) : ∃ z, p.Feasible z ∧ B < p.costs ⬝ᵥ z :=
  Problem.exists_value_gt_of_ray hy (fun j => (h.pos j).le) (fun i => (h.slacks i).le) h.gain B

variable [Exact K]

theorem Simplex.bounded_of_optimal {o : Options K} {sol : Solution K}
    (hsol : (Simplex.solve o p).Yields (.ok sol)) (hopt : sol.status = .optimal)
    (hzero : o.zeroTolerance = 0) : p.Bounded := by
  refine ⟨sol.objectiveValue, fun y hy => ?_⟩
  obtain ⟨hsolves, hnonneg⟩ := Problem.augmented_of_feasible hy
  have hle := Simplex.value_le_of_optimal hsol hopt hsolves hnonneg
  rw [hzero, zero_mul, add_zero, Problem.augmentedCosts_dotProduct] at hle
  simpa only [Fin.append_left] using hle

namespace AffineScaling

variable {a : AffineScaling K} {start : List K} {sol : Solution K}

omit [IsStrictOrderedRing K] in
theorem exists_stopped (hsol : (a.solve p start).Yields (.ok sol))
    (hstop : sol.status = .notApplicable .stopCriterion) :
    ∃ w point l Q least effort, a.begin p start = .ok (.at w point) ∧
      Reached a w { point := point } l Q ∧
      a.step? w Q.point Q.effort = some (.notApplicable least, effort) := by
  rcases solve_yields hsol with
    ⟨w, point, hbegin, s, hs, hok⟩ | ⟨status, hbegin, hok⟩ | ⟨e, -, herror⟩ | ⟨-, hfault⟩
  · obtain rfl : s = some sol := Outcome.ofOption_eq_ok.mp hok.symm
    obtain ⟨l, Q, effort, -, hQ, hend⟩ := ended_of_run hs
    rw [hstop] at hend
    obtain ⟨least, hstep⟩ := hend
    exact ⟨w, point, l, Q, least, effort, hbegin, hQ, hstep⟩
  · cases hok
    obtain rfl : status = .notApplicable .stopCriterion := hstop
    rcases status_of_begin_rejected hbegin with h | h
    · cases h
    · cases h
  · cases herror
  · cases hfault

theorem projected_of_notApplicable {s : InteriorPoint K} {effort effort' : Effort} {least : K}
    (hv : p.validate = .ok ()) (hfit : Workspace.Fits p) (ho : a.options.validate = .ok ())
    (h : s.Inside p)
    (hstep : a.step? (Workspace.form p) s effort = some (.notApplicable least, effort')) :
    a.options.reducedCostThreshold ≤ least ∧
      ∃ q, Projected a p (Vec.coords (p.nvars + p.ncons) s.x) effort q least effort' := by
  rcases step?_cases hv hfit ho h effort with
    ⟨e, -, hfailed⟩ | ⟨q, least', effort'', hproj, ⟨hle, hgives⟩ |
      ⟨-, ⟨-, hnone⟩ | ⟨point, record, -, hadvanced | hconverged⟩⟩⟩
  · rw [hstep] at hfailed
    cases hfailed
  · rw [hstep] at hgives
    cases hgives
    exact ⟨hle, q, hproj⟩
  · rw [hstep] at hnone
    cases hnone
  · rw [hstep] at hadvanced
    cases hadvanced
  · rw [hstep] at hconverged
    cases hconverged

theorem Projected.ascends {s : InteriorPoint K} {effort effort' : Effort} {least : K}
    {q : Fin (p.nvars + p.ncons) → K} (h : s.Inside p)
    (hproj : Projected a p (Vec.coords (p.nvars + p.ncons) s.x) effort q least effort')
    (hleast : 0 < least) : ∃ d, p.Ascends d := by
  have hq : ∀ k, 0 < q k := fun k => hleast.trans_le (hproj.least_le k)
  let e := Matrix.diagonal (Vec.coords (p.nvars + p.ncons) s.x) *ᵥ q
  have he : ∀ k, 0 < e k := by
    intro k
    show 0 < (Matrix.diagonal _ *ᵥ q) k
    rw [Matrix.mulVec_diagonal]
    exact mul_pos (h.positive k) (hq k)
  have hker : p.augmented *ᵥ e = 0 := augmented_mulVec_direction hproj.projection.kernel
  have hgain : 0 < p.augmentedCosts ⬝ᵥ e := by
    apply value_direction_pos hproj.projection
    rintro rfl
    obtain ⟨k, -⟩ := hproj.exists_eq_least
    exact absurd (hq k) (lt_irrefl 0)
  refine ⟨fun j => e (Fin.castAdd p.ncons j), fun j => he _, fun i => ?_, ?_⟩
  · -- the row and what its slack gains add up to nothing
    have hi := congrFun hker i
    rw [Problem.augmented_mulVec, Pi.add_apply, Pi.zero_apply] at hi
    rw [eq_neg_of_add_eq_zero_left hi, neg_lt_zero]
    exact he _
  · rwa [Problem.augmentedCosts_dotProduct] at hgain

/-- **The stop criterion certifies an unbounded problem.** In exact arithmetic, whatever the
problem, the starting point, the stopping rule and the options, as long as the threshold is
positive: where a solve ends at the stop criterion, after any number of steps,

* there is a direction along which all variables and all slacks grow and the objective gains;
* feasible points have objectives above every value;
* no solve by the simplex method without a zero tolerance ends optimal.

A solve returns only for a valid problem and valid options. A field divides by zero with the result
zero, so a step along a projected cost whose least entry is zero goes nowhere and no step has to be
left out. -/
theorem stopCriterion_certifies_unbounded (hthreshold : 0 < a.options.reducedCostThreshold)
    (hsol : (a.solve p start).Yields (.ok sol))
    (hstop : sol.status = .notApplicable .stopCriterion) :
    (∃ d, p.Ascends d) ∧ (∀ B, ∃ y, p.Feasible y ∧ B < p.costs ⬝ᵥ y) ∧
    ∀ (o : Options K) (simplex : Solution K), o.zeroTolerance = 0 →
      (Simplex.solve o p).Yields (.ok simplex) → simplex.status ≠ .optimal := by
  obtain ⟨w, point, l, Q, least, effort, hbegin, hQ, hstep⟩ := exists_stopped hsol hstop
  obtain ⟨hv, ho, -⟩ := begin_eq_at_iff.mp hbegin
  obtain ⟨rfl, hfit, -⟩ := Kept.begin hbegin
  -- the state is inside however many steps have led to it
  have hinside := (hQ.kept hbegin).inside
  obtain ⟨hle, q, hproj⟩ := projected_of_notApplicable hv hfit ho hinside hstep
  obtain ⟨d, hd⟩ := hproj.ascends hinside (hthreshold.trans_le hle)
  have hfeasible := Problem.feasible_of_augmented hinside.solves fun k => (hinside.positive k).le
  have hunbounded := hd.exists_value_gt hfeasible
  refine ⟨⟨d, hd⟩, hunbounded, ?_⟩
  intro o simplex hzero hsimplex hopt
  exact Problem.not_bounded_iff.mpr hunbounded (Simplex.bounded_of_optimal hsimplex hopt hzero)

/-- Maximise `x₁` subject to `x₀ - x₁ ≤ 1`. -/
def openStrip : Problem ℚ := ⟨[0, 1], ⟨1, 2, [1, -1]⟩, [1]⟩

/-- The projected cost at `(1, 1)` has the least entry `1/3`. -/
theorem openStrip_unbounded :
    (∃ sol, ((of Options.default).solve openStrip [1, 1]).Yields (.ok sol) ∧
      sol.iterations = 0 ∧ sol.status = .notApplicable .stopCriterion) ∧
    (∃ d, openStrip.Ascends d) ∧
    (∀ B, ∃ y, openStrip.Feasible y ∧ B < openStrip.costs ⬝ᵥ y) ∧
    ∃ simplex, (Simplex.solve Simplex.exactOptions openStrip).Yields (.ok simplex) ∧
      simplex.status ≠ .optimal := by
  obtain ⟨sol, hyields, hstop, hzero⟩ := Timed.exists_yields_ok
    (x := (of Options.default).solve openStrip [1, 1])
    (P := fun sol => sol.status = .notApplicable .stopCriterion ∧ sol.iterations = 0)
    (by decide +kernel)
  obtain ⟨simplex, hsimplex, -⟩ := Timed.exists_yields_ok
    (x := Simplex.solve Simplex.exactOptions openStrip)
    (P := fun sol => sol.iterations = 0) (by decide +kernel)
  have hthreshold : 0 < (of (Options.default : Options ℚ)).options.reducedCostThreshold := by
    decide +kernel
  obtain ⟨hray, hunbounded, hnot⟩ := stopCriterion_certifies_unbounded hthreshold hyields hstop
  exact ⟨⟨sol, hyields, hzero, hstop⟩, hray, hunbounded, simplex, hsimplex, hnot _ _ rfl hsimplex⟩

end AffineScaling

end LinProg
