import LinProg.Proofs.Checked.Steps
import LinProg.Proofs.Ldl.History

/-!
# Where a step divides by zero

A step divides by the least entry of the projected cost, once this is below the threshold and the
projected cost has not vanished (`AffineScaling.Scales`). An entry that is least and zero among
positive ones passes both guards. The projected cost is then a direction in which the objective
grows without end while a coordinate stays as it is (`Problem.FlatRay`), so this takes an unbounded
problem, and the third guard, on iterates that are not finite, ends the solve
(`AffineScaling.scale_eq_zero_iff_flatRay`).
-/

open scoped Matrix

namespace LinProg

variable {K : Type} [Field K] [LinearOrder K]

/-- A direction in which the objective grows without end, while some coordinate stays. -/
structure Problem.FlatRay (p : Problem K) (d : Fin (p.nvars + p.ncons) → K) : Prop where
  kernel : p.augmented *ᵥ d = 0
  nonneg : ∀ i, 0 ≤ d i
  fixed : ∃ i, d i = 0
  gain : 0 < p.augmentedCosts ⬝ᵥ d

variable [Exact K]

open Checked

namespace AffineScaling

/-- A step from `x` comes to the scaled update: its projected cost `q` has the least entry `least`,
which is below the threshold, and has not vanished. -/
structure Scales (o : Options K) (p : Problem K) (x : Fin (p.nvars + p.ncons) → K) (effort : Effort)
    (q : Fin (p.nvars + p.ncons) → K) (least : K) : Prop where
  projected : ∃ effort', Projected (of o) p x effort q least effort'
  below : least < o.reducedCostThreshold
  moves : ¬Stationary p x q

variable {o : Options K} {c : Criterion (Checked K)} {p : Problem K}
  {x q : Fin (p.nvars + p.ncons) → K} {least : K} {effort effort' : Effort} {k : ℕ}

theorem Scales.leastProjected (h : Scales o p x effort q least) :
    LeastProjected p x q least := by
  obtain ⟨effort', hproj⟩ := h.projected
  exact hproj.leastProjected

theorem outcomeAt_eq_nonFinite_iff {j : ℕ} :
    outcomeAt o c p x q least k = some (.failed (.nonFinite j)) ↔
      (least < o.reducedCostThreshold ∧ ¬Stationary p x q ∧ least = 0) ∧
        k + 1 < 2 ^ 64 ∧ j = k + 1 := by
  unfold outcomeAt moveOutcome
  split
  · rename_i hgives
    refine iff_of_false nofun fun h => not_le.mpr h.1.1 hgives
  · rename_i hbelow
    split
    · rename_i hcount
      exact iff_of_false nofun fun h => absurd h.2.1 (not_lt.mpr hcount)
    · rename_i hcount
      split
      · rename_i hzero
        simp only [Option.some.injEq, StepOutcome.failed.injEq, StepFailure.nonFinite.injEq]
        exact ⟨fun hj => ⟨⟨not_le.mp hbelow, hzero⟩, not_le.mp hcount, hj.symm⟩,
          fun h => h.2.2.symm⟩
      · rename_i hzero
        dsimp only
        split
        · exact iff_of_false nofun fun h => hzero h.1.2
        · exact iff_of_false nofun fun h => hzero h.1.2

variable [IsStrictOrderedRing K]

theorem Scales.eq_zero_iff (h : Scales o p x effort q least) (hx : ∀ i, 0 < x i) :
    least = 0 ↔ p.FlatRay (Matrix.diagonal x *ᵥ q) := by
  have hleast := h.leastProjected
  constructor
  · rintro rfl
    -- the update goes along a ray that leaves the coordinate with the least entry alone
    obtain ⟨i, hi⟩ := hleast.attained
    refine ⟨augmented_mulVec_direction hleast.projection.kernel, fun i => ?_, ⟨i, ?_⟩,
      value_direction_pos hleast.projection (ne_zero_of_not_stationary h.moves)⟩
    · rw [Matrix.mulVec_diagonal]
      exact mul_nonneg (hx i).le (hleast.le i)
    · rw [Matrix.mulVec_diagonal, hi, mul_zero]
  · intro hray
    obtain ⟨i, hi⟩ := hleast.attained
    obtain ⟨j, hj⟩ := hray.fixed
    have hnonneg := hray.nonneg i
    rw [Matrix.mulVec_diagonal] at hnonneg hj
    have hqj : q j = 0 := (mul_eq_zero.mp hj).resolve_left (hx j).ne'
    refine le_antisymm (hqj ▸ hleast.le j) ?_
    rw [← hi]
    exact nonneg_of_mul_nonneg_right hnonneg (hx i)

omit [Exact K] in
theorem Interior.not_bounded (hx : Interior p x) {d : Fin (p.nvars + p.ncons) → K}
    (hd : p.FlatRay d) : ¬p.Bounded := by
  rintro ⟨B, hB⟩
  obtain ⟨y, hy, hlt⟩ := Problem.exists_value_gt hx.solves (fun i => (hx.positive i).le) hd.nonneg
    hd.kernel hd.gain B
  exact absurd (hB y hy) (not_le.mpr hlt)

theorem Projected.zero_cases (hv : p.validate = .ok ()) (hfit : Workspace.Fits p)
    (ho : o.validate = .ok ()) (hx : Interior p x) (h : Projected (of o) p x effort q 0 effort') :
    (o.reducedCostThreshold ≤ 0 ∧
      step? ⟨o.map number, c⟩ ((Workspace.form p).map number) (iterateAt p x k) effort =
        some (.notApplicable (number 0), effort')) ∨
    (Stationary p x q ∧ (k + 1 < 2 ^ 64 → ∃ record,
      step? ⟨o.map number, c⟩ ((Workspace.form p).map number) (iterateAt p x k) effort =
          some (.converged (iterateAt p x (k + 1)) record, effort') ∨
        step? ⟨o.map number, c⟩ ((Workspace.form p).map number) (iterateAt p x k) effort =
          some (.advanced (iterateAt p x (k + 1)) record, effort'))) ∨
    Scales o p x effort q 0 := by
  rw [checkedStep?_of_projected hv hfit ho hx h, outcomeAt]
  by_cases hthreshold : o.reducedCostThreshold ≤ 0
  · left
    rw [if_pos hthreshold]
    exact ⟨hthreshold, rfl⟩
  · right
    by_cases hstat : Stationary p x q
    · left
      refine ⟨hstat, fun hcount => ⟨recordAt p x x 0 k, ?_⟩⟩
      rw [if_neg hthreshold, moveOutcome, if_neg (not_le.mpr hcount), if_neg fun h => h.1 hstat,
        nextPoint, if_pos hstat]
      dsimp only
      split
      · exact Or.inl rfl
      · exact Or.inr rfl
    · exact Or.inr ⟨⟨effort', h⟩, not_le.mp hthreshold, hstat⟩

/-- **Divisions by zero.** From an interior point of a valid problem, with valid options, whatever
the stopping rule:

* where a step comes to the scaled update, the scale is zero if and only if the update goes along a
  ray on which the objective grows without end and a coordinate stays. This takes a positive
  threshold and an unbounded problem.
* A least projected cost of zero makes the step give up, makes it stay, or is such a scale.
* The step ends at an iterate that is not finite if and only if the scale is zero, as long as its
  number fits in a word. -/
theorem scale_eq_zero_iff_flatRay (hv : p.validate = .ok ()) {w : Workspace (Checked K)}
    (hw : Workspace.of? (p.map number) = some w) (ho : o.validate = .ok ()) (hx : Interior p x)
    (c : Criterion (Checked K)) (k : ℕ) (effort : Effort) :
    (∀ q least, Scales o p x effort q least →
      (Scalar.abs least = 0 ↔ p.FlatRay (Matrix.diagonal x *ᵥ q)) ∧
        (Scalar.abs least = 0 → 0 < o.reducedCostThreshold ∧ ¬p.Bounded)) ∧
    (∀ q effort', Projected (of o) p x effort q 0 effort' →
      (o.reducedCostThreshold ≤ 0 ∧ step? ⟨o.map number, c⟩ w (iterateAt p x k) effort =
        some (.notApplicable (number 0), effort')) ∨
      (Stationary p x q ∧ (k + 1 < 2 ^ 64 → ∃ record,
        step? ⟨o.map number, c⟩ w (iterateAt p x k) effort =
            some (.converged (iterateAt p x (k + 1)) record, effort') ∨
          step? ⟨o.map number, c⟩ w (iterateAt p x k) effort =
            some (.advanced (iterateAt p x (k + 1)) record, effort'))) ∨
      Scales o p x effort q 0) ∧
    ((∃ j effort', step? ⟨o.map number, c⟩ w (iterateAt p x k) effort =
      some (.failed (.nonFinite j), effort')) ↔
        k + 1 < 2 ^ 64 ∧ ∃ q, Scales o p x effort q 0) := by
  rw [Workspace.of?_map_number, Option.map_eq_some_iff] at hw
  obtain ⟨w₀, hw₀, rfl⟩ := hw
  obtain ⟨hfit, rfl⟩ := Workspace.form_of_of?_eq_some hv hw₀
  refine ⟨fun q least h => ?_, fun q effort' h => h.zero_cases hv hfit ho hx, ?_, ?_⟩
  · have habs : Scalar.abs least = 0 ↔ least = 0 := abs_eq_zero
    rw [habs]
    refine ⟨h.eq_zero_iff hx.positive, fun hzero => ⟨?_, hx.not_bounded (h.eq_zero_iff hx.positive
      |>.mp hzero)⟩⟩
    rw [← hzero]
    exact h.below
  · rintro ⟨j, effort', hfailed⟩
    rcases checkedStep?_cases (c := c) (k := k) hv hfit ho hx effort with
      ⟨-, e, hsystem⟩ | ⟨q, least, effort'', hproj, hstep⟩
    · rw [hfailed] at hsystem
      cases hsystem
    · rw [hstep, Option.map_eq_some_iff] at hfailed
      obtain ⟨outcome, houtcome, heq⟩ := hfailed
      cases heq
      obtain ⟨⟨hbelow, hmoves, rfl⟩, hcount, -⟩ := outcomeAt_eq_nonFinite_iff.mp houtcome
      exact ⟨hcount, q, ⟨effort', hproj⟩, hbelow, hmoves⟩
  · rintro ⟨hcount, q, ⟨effort', hproj⟩, hbelow, hmoves⟩
    refine ⟨k + 1, effort', ?_⟩
    rw [checkedStep?_of_projected hv hfit ho hx hproj,
      outcomeAt_eq_nonFinite_iff.mpr ⟨⟨hbelow, hmoves, rfl⟩, hcount, rfl⟩]
    rfl

/-- Maximise `x₀` subject to `x₁ ≤ 2`. -/
def flatColumn (α : Type) [Scalar α] : Problem α := ⟨[1, 0], ⟨1, 2, [0, 1]⟩, [1 + 1]⟩

theorem flatColumn_scales :
    Scales Options.default (flatColumn ℚ) (Vec.coords _ [1, 1, 1]) {} (Vec.coords _ [1, 0, 0])
      0 where
  projected := ⟨⟨1, 2⟩,
    { cost := by decide +kernel
      argmin := ⟨1, by decide +kernel⟩
      projection := ⟨by decide +kernel, 0, by decide +kernel⟩ }⟩
  below := by decide +kernel
  moves := by decide +kernel

theorem flatColumn_interior : Interior (flatColumn ℚ) (Vec.coords _ [1, 1, 1]) :=
  ⟨by decide +kernel, by decide +kernel⟩

/-- On valid input a step comes to a scale of zero, and on rounded numbers it ends the solve. -/
theorem flatColumn_divides_by_zero :
    ((flatColumn ℚ).validate = .ok () ∧ (Options.default : Options ℚ).validate = .ok () ∧
      Interior (flatColumn ℚ) (Vec.coords _ [1, 1, 1]) ∧
      ∃ q, Scales Options.default (flatColumn ℚ) (Vec.coords _ [1, 1, 1]) {} q 0) ∧
    ∃ sol, ((of Options.default).solve (flatColumn Float) [1, 1]).Yields (.ok sol) ∧
      sol.status = .numericalFailure ∧ sol.iterations = 0 := by
  refine ⟨⟨rfl, Options.validate_eq_ok_iff.mpr (by decide +kernel), flatColumn_interior, _,
    flatColumn_scales⟩, ?_⟩
  exact Timed.exists_yields_ok (x := (of Options.default).solve (flatColumn Float) [1, 1])
    (P := fun sol => sol.status = .numericalFailure ∧ sol.iterations = 0) (by decide +kernel)

/-- The step ends at an iterate that is not finite, and the problem is unbounded. -/
theorem flatColumn_step : ¬(flatColumn ℚ).Bounded ∧ ∃ j effort',
    step? ⟨Options.default.map number, .stepNorm⟩ ((Workspace.form (flatColumn ℚ)).map number)
      (iterateAt (flatColumn ℚ) (Vec.coords _ [1, 1, 1]) 0) {} =
        some (.failed (.nonFinite j), effort') := by
  have hw : Workspace.of? ((flatColumn ℚ).map number) =
      some ((Workspace.form (flatColumn ℚ)).map number) := by
    rw [Workspace.of?_map_number, Workspace.of?_eq rfl ⟨by decide, by decide⟩, Option.map_some]
  obtain ⟨hscale, -, hfails⟩ := scale_eq_zero_iff_flatRay (p := flatColumn ℚ)
    (o := Options.default) rfl hw (Options.validate_eq_ok_iff.mpr (by decide +kernel))
    flatColumn_interior .stepNorm 0 {}
  refine ⟨((hscale _ 0 flatColumn_scales).2 abs_zero).2, ?_⟩
  exact hfails.mpr ⟨by decide, _, flatColumn_scales⟩

end AffineScaling

end LinProg
