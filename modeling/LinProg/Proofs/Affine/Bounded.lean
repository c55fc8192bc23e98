import LinProg.Proofs.Affine.Invariant

/-!
# Affine scaling on a bounded problem

On a bounded problem and without a tolerance for singular systems no step from an interior point
fails (`AffineScaling.step?_bounded`). The normal system is definite there. A projected cost without
negative entries is a direction in which the objective grows without end, unless it is zero; and it
is zero for the zero objective only, since nothing but the zero combination of the rows of `[A | I]`
vanishes on the slacks.
-/

open scoped Matrix

namespace LinProg

variable {K : Type} [Field K] {p : Problem K} {x q : Fin (p.nvars + p.ncons) → K}

namespace Problem

theorem vecMul_augmented_natAdd (w : Fin p.ncons → K) (k : Fin p.ncons) :
    (w ᵥ* p.augmented) (Fin.natAdd p.nvars k) = w k := by
  rw [augmented, LinProg.Matrix.vecMul_identityBlock, Fin.append_right]

theorem costs_eq_zero_of_projection (hx : ∀ i, x i ≠ 0)
    (hq : IsProjection (p.scaled x) (p.scaledCosts x) 0) : p.costs = 0 := by
  obtain ⟨w, hw⟩ := hq.rowSpace
  have hcosts : p.augmentedCosts = w ᵥ* p.augmented := by
    funext i
    have hi := congrFun hw i
    rw [sub_zero, scaled, ← Matrix.vecMul_vecMul, Matrix.vecMul_diagonal] at hi
    exact mul_right_cancel₀ (hx i) hi
  -- on the slacks the costs are zero and the rows of `[A | I]` are the unit vectors
  have hzero : w = 0 := by
    funext k
    have hk := congrFun hcosts (Fin.natAdd p.nvars k)
    rw [vecMul_augmented_natAdd, augmentedCosts, Fin.append_right] at hk
    exact hk.symm
  funext j
  have hj := congrFun hcosts (Fin.castAdd p.ncons j)
  rw [hzero, Matrix.zero_vecMul, augmentedCosts, Fin.append_left] at hj
  exact hj

variable [LinearOrder K] [IsStrictOrderedRing K]

theorem exists_neg_of_bounded (hbounded : p.Bounded) (hx : ∀ i, 0 ≤ x i)
    (hsolves : p.augmented *ᵥ x = p.bounds) (hq : IsProjection (p.scaled x) (p.scaledCosts x) q)
    (hne : q ≠ 0) : ∃ i, q i < 0 := by
  by_contra! hnonneg
  -- a projection without negative entries is a direction that never leaves the feasible points
  have hdirection : ∀ i, 0 ≤ (Matrix.diagonal x *ᵥ q) i := by
    intro i
    rw [Matrix.mulVec_diagonal]
    exact mul_nonneg (hx i) (hnonneg i)
  have hgain : 0 < p.augmentedCosts ⬝ᵥ Matrix.diagonal x *ᵥ q :=
    AffineScaling.value_direction_pos hq hne
  obtain ⟨B, hB⟩ := hbounded
  obtain ⟨y, hy, hlt⟩ := exists_value_gt hsolves hx hdirection
    (AffineScaling.augmented_mulVec_direction hq.kernel) hgain B
  exact absurd (hB y hy) (not_le.mpr hlt)

end Problem

namespace AffineScaling

variable [LinearOrder K] [IsStrictOrderedRing K] [Exact K]
variable {a : AffineScaling K} {s point : InteriorPoint K} {record : Record K}
variable {effort effort' : Effort} {least : K}

section Least

variable (hbounded : p.Bounded) (h : s.Inside p)
  (hproj : Projected a p (Vec.coords (p.nvars + p.ncons) s.x) effort q least effort')
include hbounded h hproj

theorem Projected.least_neg (hcosts : p.costs ≠ 0) : least < 0 := by
  have hne : q ≠ 0 := by
    rintro rfl
    exact hcosts (p.costs_eq_zero_of_projection (fun i => (h.positive i).ne') hproj.projection)
  obtain ⟨i, hi⟩ := p.exists_neg_of_bounded hbounded (fun i => (h.positive i).le) h.solves
    hproj.projection hne
  exact (hproj.least_le i).trans_lt hi

theorem Projected.least_nonpos : least ≤ 0 := by
  by_cases hne : q = 0
  · obtain ⟨i, hi⟩ := hproj.exists_eq_least
    rw [← hi, hne, Pi.zero_apply]
  · obtain ⟨i, hi⟩ := p.exists_neg_of_bounded hbounded (fun i => (h.positive i).le) h.solves
      hproj.projection hne
    exact (hproj.least_le i).trans hi.le

end Least

theorem step?_bounded (hv : p.validate = .ok ()) (hfit : Workspace.Fits p)
    (ho : a.options.validate = .ok ()) (hsingular : a.options.singularTolerance = 0)
    (hthreshold : 0 < a.options.reducedCostThreshold) (hbounded : p.Bounded) (h : s.Inside p)
    (effort : Effort) :
    (2 ^ 64 ≤ s.iteration + 1 ∧ a.step? (Workspace.form p) s effort = none) ∨
      ∃ point record effort', Advances a (Workspace.form p) s effort point record effort' := by
  rcases step?_cases hv hfit ho h effort with
    ⟨e, he, -⟩ | ⟨q, least, effort', hproj, ⟨hle, -⟩ | ⟨-, hnone | ⟨point, record, -, hok⟩⟩⟩
  · -- the normal system of an interior point is not singular
    obtain ⟨q, effort', hq, -⟩ := Workspace.projectedCost?_interior
      (x := Vec.coords (p.nvars + p.ncons) s.x)
      (s := LdlSolver.resized { tolerance := a.options.singularTolerance } p.ncons) hv hfit
      hsingular rfl (fun k => (h.positive _).ne') effort
    rw [h.eq_ofFn, hq] at he
    cases he
  · have hleast := hproj.least_nonpos hbounded h
    exact absurd (hle.trans hleast) (not_le.mpr hthreshold)
  · exact Or.inl hnone
  · exact Or.inr ⟨point, record, effort', hok⟩

theorem Advances.minReducedCost_neg (hv : p.validate = .ok ()) (hfit : Workspace.Fits p)
    (ho : a.options.validate = .ok ()) (hbounded : p.Bounded) (hcosts : p.costs ≠ 0)
    (h : s.Inside p) (hstep : Advances a (Workspace.form p) s effort point record effort') :
    ∃ v < 0, record.minReducedCost = some v := by
  obtain ⟨q, least, hproj, -, hacc⟩ := hstep.accepted hv hfit ho h
  exact ⟨least, hproj.least_neg hbounded h hcosts, hacc.minReducedCost⟩

theorem keepsIterate_iff {status : Status} : keepsIterate status = true ↔
    status = .optimal ∨ status = .maxIterations ∨ status = .maxTime := by
  cases status <;> simp [keepsIterate]

section Solve

variable {start : List K} {w : Workspace K} {k : ℕ} {P : Progress K}

theorem Reached.minReducedCost_neg (hbegin : a.begin p start = .ok (.at w point))
    (hbounded : p.Bounded) (hcosts : p.costs ≠ 0) (hP : Reached a w { point := point } k P) :
    ∀ r ∈ P.history, ∃ v < 0, r.minReducedCost = some v := by
  obtain ⟨hv, ho, -, -, -⟩ := begin_eq_at_iff.mp hbegin
  obtain ⟨rfl, hfit, -, -⟩ := Kept.begin hbegin
  induction hP with
  | start =>
    intro r hr
    exact absurd hr (Array.not_mem_empty r)
  | step hP hstep elapsed ih =>
    intro r hr
    rcases Array.mem_push.mp hr with hr | rfl
    · exact ih r hr
    · obtain ⟨v, hneg, hv'⟩ := hstep.minReducedCost_neg hv hfit ho hbounded hcosts
        (hP.kept hbegin).inside
      exact ⟨v, hneg, hv'⟩

theorem Reached.leads_on (hbegin : a.begin p start = .ok (.at w point))
    (hsingular : a.options.singularTolerance = 0) (hthreshold : 0 < a.options.reducedCostThreshold)
    (hbounded : p.Bounded) (hP : Reached a w { point := point } k P) :
    (2 ^ 64 ≤ k + 1 ∧ a.step? w P.point P.effort = none) ∨
      ∃ point' record effort, Advances a w P.point P.effort point' record effort := by
  obtain ⟨hv, ho, -, -, -⟩ := begin_eq_at_iff.mp hbegin
  obtain ⟨rfl, hfit, -, -⟩ := Kept.begin hbegin
  have hstep := step?_bounded hv hfit ho hsingular hthreshold hbounded (hP.kept hbegin).inside
    P.effort
  rwa [hP.iteration hbegin] at hstep

end Solve

omit [IsStrictOrderedRing K] in
theorem Ended.keepsIterate {w : Workspace K} {P : Progress K} {status : Status}
    (hend : Ended a w P effort status)
    (hleads : a.step? w P.point P.effort = none ∨
      ∃ point record effort', Advances a w P.point P.effort point record effort') :
    AffineScaling.keepsIterate status = true := by
  have hnot : ∀ outcome effort', a.step? w P.point P.effort = some (outcome, effort') →
      ∃ point record, outcome = .advanced point record ∨ outcome = .converged point record := by
    intro outcome effort' houtcome
    rcases hleads with hnone | ⟨point, record, effort'', hstep⟩
    · rw [houtcome] at hnone
      cases hnone
    · exact ⟨point, record, (hstep.outcome houtcome).1⟩
  cases status with
  | optimal => rfl
  | maxIterations => rfl
  | maxTime => rfl
  | unbounded => exact hend.elim
  | noSolution => exact hend.elim
  | numericalFailure =>
    obtain ⟨why, hstep⟩ := hend
    obtain ⟨point, record, hok | hok⟩ := hnot _ _ hstep
    · cases hok
    · cases hok
  | notApplicable why =>
    cases why with
    | stopCriterion =>
      obtain ⟨least, hstep⟩ := hend
      obtain ⟨point, record, hok | hok⟩ := hnot _ _ hstep
      · cases hok
      · cases hok
    | _ => exact hend.elim

/-- **A bounded problem never fails.** In exact arithmetic, on a valid and bounded problem whose
rows all have a positive coefficient, from a start strictly inside, with valid options that have no
tolerance for singular systems and a positive threshold:

* a step from every state of a solve leads on;
* a solve ends with an optimum or with a limit, unless a size or an iteration count does not fit in
  a word;
* and the smallest projected costs on record are negative, unless the objective is zero. -/
theorem bounded_never_fails {start : List K} (hvalid : p.validate = .ok ())
    (ho : a.options.validate = .ok ()) (hsingular : a.options.singularTolerance = 0)
    (hthreshold : 0 < a.options.reducedCostThreshold) (hbounded : p.Bounded)
    (hrows : ∀ i, ∃ j, 0 < p.coeffs i j) (hlen : start.length = p.nvars)
    (hpos : ∀ v ∈ start, 0 < v)
    (hstrict : ∀ i, (p.coeffs *ᵥ Vec.coords p.nvars start) i < p.bounds i) :
    (∀ w point k P, a.begin p start = .ok (.at w point) → Reached a w { point := point } k P →
      k + 1 < 2 ^ 64 →
      ∃ point' record effort, Advances a w P.point P.effort point' record effort ∧
        (p.costs ≠ 0 → ∃ v < 0, record.minReducedCost = some v)) ∧
    ∀ r, (a.solve p start).Yields r →
      (r = .fault ∧ (¬Workspace.Fits p ∨ 2 ^ 64 ≤ a.options.maxIterations)) ∨
      ∃ sol, r = .ok sol ∧
        (sol.status = .optimal ∨ sol.status = .maxIterations ∨ sol.status = .maxTime) ∧
        (p.costs ≠ 0 → ∀ r ∈ sol.stats.history, ∃ v < 0, r.minReducedCost = some v) := by
  refine ⟨?_, ?_⟩
  · intro w point k P hbegin hP hk
    obtain ⟨hlarge, -⟩ | ⟨point', record, effort, hstep⟩ :=
      hP.leads_on hbegin hsingular hthreshold hbounded
    · omega
    · obtain ⟨rfl, hfit, -, -⟩ := Kept.begin hbegin
      exact ⟨point', record, effort, hstep, fun hcosts =>
        hstep.minReducedCost_neg hvalid hfit ho hbounded hcosts (hP.kept hbegin).inside⟩
  · intro r hr
    rcases begin_cases hvalid ho hrows hlen hpos hstrict with ⟨hfit, hfault⟩ | hbegin
    · left
      rw [solve, hfault] at hr
      exact ⟨hr.symm, Or.inl hfit⟩
    · rw [solve, hbegin] at hr
      obtain ⟨s, hs, rfl⟩ := Timed.yields_bind.mp hr
      rcases run_yields_reports hbegin hs with
        ⟨rfl, l, Q, hl, hQ, hnone⟩ | ⟨sol, l, Q, rfl, hreports⟩
      · left
        obtain ⟨hlarge, -⟩ | ⟨point, record, effort, hstep⟩ :=
          hQ.leads_on hbegin hsingular hthreshold hbounded
        · exact ⟨rfl, Or.inr (by omega)⟩
        · exact absurd hnone hstep.step?_ne_none
      · right
        obtain ⟨effort, hend⟩ := hreports.ended
        have hleads := hreports.reached.leads_on hbegin hsingular hthreshold hbounded
        have hkeeps := hend.keepsIterate (hleads.imp_left And.right)
        refine ⟨sol, rfl, keepsIterate_iff.mp hkeeps, fun hcosts => ?_⟩
        rw [hreports.history]
        exact hreports.reached.minReducedCost_neg hbegin hbounded hcosts

theorem twoByTwo_bounded : Problem.twoByTwo.Bounded := by
  refine ⟨4, fun y hy => ?_⟩
  have hrow := hy.2 (0 : Fin 2)
  have hsecond := hy.1 (1 : Fin 2)
  have hlhs : (Problem.twoByTwo.coeffs *ᵥ y) (0 : Fin 2) =
      1 * y (0 : Fin 2) + 2 * y (1 : Fin 2) := by
    show ∑ j : Fin 2, Problem.twoByTwo.coeffs (0 : Fin 2) j * y j = _
    rw [Fin.sum_univ_two]
    rfl
  have hbound : Problem.twoByTwo.bounds (0 : Fin 2) = 4 := rfl
  have hvalue : Problem.twoByTwo.costs ⬝ᵥ y = 1 * y (0 : Fin 2) + 1 * y (1 : Fin 2) :=
    Fin.sum_univ_two _
  linarith

theorem twoByTwo_never_fails : ∃ sol,
    ((of twoSteps).solve Problem.twoByTwo [1, 1]).Yields (.ok sol) ∧
    (sol.status = .optimal ∨ sol.status = .maxIterations ∨ sol.status = .maxTime) ∧
    ∀ r ∈ sol.stats.history, ∃ v < 0, r.minReducedCost = some v := by
  have hyields := Timed.yields_runFrom (fun _ => .zero) 0
    ((of twoSteps).solve Problem.twoByTwo [1, 1])
  have hrows : ∀ i, 0 < Problem.twoByTwo.coeffs i (0 : Fin 2) := by decide +kernel
  have hlen : ([1, 1] : List ℚ).length = Problem.twoByTwo.nvars := rfl
  obtain ⟨-, h⟩ := bounded_never_fails (a := of twoSteps) (p := Problem.twoByTwo) rfl
    twoSteps_validate rfl (by decide +kernel) twoByTwo_bounded (fun i => ⟨_, hrows i⟩) hlen
    (by decide +kernel) (by decide +kernel)
  rcases h _ hyields with ⟨-, hfits | hlarge⟩ | ⟨sol, hsol, hstatus, hneg⟩
  · exact absurd ⟨by decide, by decide⟩ hfits
  · exact absurd hlarge (by decide)
  · rw [hsol] at hyields
    refine ⟨sol, hyields, hstatus, hneg fun hcosts => ?_⟩
    exact absurd (congrFun hcosts (0 : Fin 2)) one_ne_zero

end AffineScaling

end LinProg
