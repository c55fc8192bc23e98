import LinProg.Proofs.Affine.Invariant

/-!
# The last step of a converged solve

A solve with the step-norm rule ends optimal for one reason: its last step was short. `LastStep`
holds what is known of that step in exact arithmetic. The point that it comes from is an interior
point, the step goes along the projected cost there, and the solution reports where it leads
(`exists_lastStep`). How far the objective is from that of another solution of the equations is
bounded on the scale of that point (`LastStep.sq_gap_le`).
-/

open scoped Matrix

namespace LinProg.AffineScaling

section Rule

variable {α : Type} [Scalar α] {a : AffineScaling α} {w : Workspace α} {s point : InteriorPoint α}
  {record : Record α} {least : α} {next : List α}

theorem criterion_of_accept?
    (h : a.accept? w s least next = some (.converged point record)) :
    a.criterion record a.options = true ∧ record.stepNorm = Vec.distance2? next s.x := by
  rcases accept?_outcomes h with
    ⟨-, hends⟩ | ⟨r, -, -, -, hends⟩ | ⟨point', record', rfl, hfollows, hends⟩
  · cases hends
  · cases hends
  · unfold leads at hends
    split at hends
    · rename_i hcriterion
      cases hends
      exact ⟨hcriterion, hfollows.stepNorm⟩
    · cases hends

end Rule

variable {K : Type} [Field K] [LinearOrder K] [IsStrictOrderedRing K] [Exact K] {p : Problem K}

/-- The last step of a solve that has converged, from the point `x` along the projected cost `q`
with the least entry `least`. -/
structure LastStep (o : Options K) (p : Problem K) (start : List K)
    (x q : Fin (p.nvars + p.ncons) → K) (least : K) (sol : Solution K) : Prop where
  /-- The solve has reached the point, and the only record after it is that of the step. -/
  reached : ∃ w point k P record, (of o).begin p start = .ok (.at w point) ∧
    Reached (of o) w { point := point } k P ∧ x = Vec.coords (p.nvars + p.ncons) P.point.x ∧
    sol.stats.history = P.history.push record ∧ record.minReducedCost = some least ∧
    record.stepNorm = some (Scalar.sqrt (∑ i, (nextPoint p o.affineStep least x q i - x i) ^ 2))
  positive : ∀ i, 0 < x i
  solves : p.augmented *ᵥ x = p.bounds
  projection : IsProjection (p.scaled x) (p.scaledCosts x) q
  least_le : ∀ i, least ≤ q i
  exists_eq_least : ∃ i, q i = least
  /-- The solution reports where the step leads. -/
  primal : sol.primal =
    List.ofFn fun j => nextPoint p o.affineStep least x q (Fin.castAdd p.ncons j)
  slack : sol.slack =
    List.ofFn fun i => nextPoint p o.affineStep least x q (Fin.natAdd p.nvars i)
  objective : sol.objectiveValue = p.augmentedCosts ⬝ᵥ nextPoint p o.affineStep least x q
  short : Scalar.sqrt (∑ i, (nextPoint p o.affineStep least x q i - x i) ^ 2) ≤ o.tolerance

theorem short_of_step? {o : Options K} {s point : InteriorPoint K} {record : Record K}
    {effort effort' : Effort} (hv : p.validate = .ok ()) (hfit : Workspace.Fits p)
    (ho : o.validate = .ok ()) (h : s.Inside p)
    (hstep : (of o).step? (Workspace.form p) s effort = some (.converged point record, effort')) :
    let x := Vec.coords (p.nvars + p.ncons) s.x
    ∃ q least, Projected (of o) p x effort q least effort' ∧
      Accepted p s least (nextPoint p o.affineStep least x q) point record ∧
      record.stepNorm = some (Scalar.sqrt (∑ i, (nextPoint p o.affineStep least x q i - x i) ^ 2)) ∧
      Scalar.sqrt (∑ i, (nextPoint p o.affineStep least x q i - x i) ^ 2) ≤ o.tolerance := by
  intro x
  have hadvances : Advances (of o) (Workspace.form p) s effort point record effort' := Or.inr hstep
  obtain ⟨q, least, hproj, -, hacc⟩ := hadvances.accepted hv hfit ho h
  rw [step?_of_projected hfit h.eq_ofFn hproj] at hstep
  split at hstep
  · cases hstep
  · obtain ⟨outcome, haccept, heq⟩ := Option.map_eq_some_iff.mp hstep
    cases heq
    obtain ⟨hcriterion, hdistance⟩ := criterion_of_accept? haccept
    have hnorm : record.stepNorm =
        some (Scalar.sqrt (∑ i, (nextPoint p o.affineStep least x q i - x i) ^ 2)) :=
      hdistance.trans ((congrArg _ h.eq_ofFn).trans (Vec.distance2?_ofFn _ _))
    refine ⟨q, least, hproj, hacc, hnorm, ?_⟩
    simpa only [of, Criterion.stepNorm, hnorm, decide_eq_true_eq] using hcriterion

theorem exists_lastStep {o : Options K} {start : List K} {sol : Solution K}
    (hsol : ((of o).solve p start).Yields (.ok sol)) (hopt : sol.status = .optimal) :
    o.validate = .ok () ∧ ∃ x q least, LastStep o p start x q least sol := by
  rcases solve_yields_ok hsol with ⟨w, point, hbegin, hrun⟩ | ⟨hnot, -⟩
  · obtain ⟨hv, ho, -⟩ := begin_eq_at_iff.mp hbegin
    obtain ⟨rfl, hfit, -⟩ := Kept.begin hbegin
    obtain ⟨_, ended, time, hended, hsome⟩ := run_yields hrun
    obtain ⟨⟨status, Q⟩, rfl, hreport⟩ := Option.bind_eq_some_iff.mp hsome.symm
    obtain rfl : sol.status = status := status_of_report? hreport
    rw [hopt] at hended hreport
    obtain ⟨l, P, point', record, effort, elapsed, hP, hstep, rfl⟩ :=
      iterate_yields_optimal .start hended
    have hinside := (hP.kept hbegin).inside
    obtain ⟨q, least, hproj, hacc, hnorm, hshort⟩ := short_of_step? hv hfit ho hinside hstep
    -- the report is that of the point which the step leads to
    have hkept := (hP.step (Or.inr hstep) elapsed).kept hbegin
    obtain ⟨_, hspec, -, hhistory, hiterate⟩ := report?_spec hkept .optimal time
    cases hspec.symm.trans hreport
    obtain ⟨hprimal, hslack, hobjective⟩ := hiterate rfl
    have hnext : Vec.coords (p.nvars + p.ncons) (P.advanced point' record elapsed effort).point.x =
        nextPoint p o.affineStep least (Vec.coords (p.nvars + p.ncons) P.point.x) q :=
      hacc.coords_eq
    rw [hnext] at hprimal hslack hobjective
    have hreached := And.intro hhistory (And.intro hacc.minReducedCost hnorm)
    exact ⟨ho, _, q, least, ⟨_, point, l, P, _, hbegin, hP, rfl, hreached⟩, hinside.positive,
      hinside.solves, hproj.projection, hproj.least_le, hproj.exists_eq_least, hprimal, hslack,
      hobjective, hshort⟩
  · rw [hopt] at hnot
    cases hnot

section LastStep

variable {o : Options K} {start : List K} {sol : Solution K} {least : K}
variable {x q z : Fin (p.nvars + p.ncons) → K}

theorem LastStep.gap_le_of_stationary (h : LastStep o p start x q least sol)
    (hstat : Stationary p x q) (hz : p.augmented *ᵥ z = p.bounds) :
    p.augmentedCosts ⬝ᵥ z - sol.objectiveValue ≤
      Scalar.epsilon * Vec.normInf (List.ofFn (p.scaledCosts x)) *
        ∑ i, |(z i - x i) / x i| := by
  have hobjective := h.objective
  rw [nextPoint, if_pos hstat] at hobjective
  rw [hobjective, value_sub_eq (fun i => (h.positive i).ne') h.projection
    (hz.trans h.solves.symm)]
  exact hstat.dotProduct_le _

theorem LastStep.sq_gap_le (h : LastStep o p start x q least sol) (halpha : 0 ≤ o.affineStep)
    (hsqrt : ∀ v, 0 ≤ v → Scalar.sqrt v ≤ o.tolerance → v ≤ o.tolerance ^ 2)
    (hstat : ¬Stationary p x q) (hleast : least ≠ 0) (hz : p.augmented *ᵥ z = p.bounds)
    (hgap : 0 ≤ p.augmentedCosts ⬝ᵥ z - sol.objectiveValue) :
    o.affineStep ^ 2 * (p.augmentedCosts ⬝ᵥ z - sol.objectiveValue) ^ 2 ≤
      o.tolerance ^ 2 * least ^ 2 * ∑ i, ((z i - x i) / x i ^ 2) ^ 2 := by
  have hx : ∀ i, x i ≠ 0 := fun i => (h.positive i).ne'
  have hshort := hsqrt _ (Finset.sum_nonneg fun i _ => sq_nonneg _) h.short
  rw [nextPoint, if_neg hstat] at hshort
  -- the step has not lost anything, so the gap is at most what `x` left to gain
  have hle : p.augmentedCosts ⬝ᵥ z - sol.objectiveValue ≤
      q ⬝ᵥ fun i => (z i - x i) / x i := by
    rw [← value_sub_eq hx h.projection (hz.trans h.solves.symm), h.objective]
    exact sub_le_sub_left (value_le_nextPoint halpha h.projection) _
  calc o.affineStep ^ 2 * (p.augmentedCosts ⬝ᵥ z - sol.objectiveValue) ^ 2
      ≤ o.affineStep ^ 2 * (q ⬝ᵥ fun i => (z i - x i) / x i) ^ 2 :=
        mul_le_mul_of_nonneg_left (pow_le_pow_left₀ hgap hle 2) (sq_nonneg _)
    _ ≤ least ^ 2 * ((∑ i, (moved o.affineStep least x q i - x i) ^ 2) *
          ∑ i, ((z i - x i) / x i ^ 2) ^ 2) := sq_gain_le hx hleast
    _ ≤ least ^ 2 * (o.tolerance ^ 2 * ∑ i, ((z i - x i) / x i ^ 2) ^ 2) := by
        gcongr
    _ = o.tolerance ^ 2 * least ^ 2 * ∑ i, ((z i - x i) / x i ^ 2) ^ 2 := by ring

theorem LastStep.sq_least_le (h : LastStep o p start x q least sol) :
    least ^ 2 ≤ ∑ i, p.scaledCosts x i ^ 2 := by
  obtain ⟨i, rfl⟩ := h.exists_eq_least
  calc q i ^ 2 ≤ ∑ j, q j ^ 2 :=
        Finset.single_le_sum (fun j _ => sq_nonneg (q j)) (Finset.mem_univ i)
    _ = q ⬝ᵥ q := Finset.sum_congr rfl fun j _ => sq (q j)
    _ ≤ p.scaledCosts x ⬝ᵥ p.scaledCosts x := h.projection.dotProduct_self_le
    _ = ∑ i, p.scaledCosts x i ^ 2 := Finset.sum_congr rfl fun j _ => (sq _).symm

end LastStep

end LinProg.AffineScaling
