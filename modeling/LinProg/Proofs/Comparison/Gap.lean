import LinProg.Proofs.Affine.Convergence
import LinProg.Proofs.Comparison.WeakDuality

/-!
# What a short step says about the optimum

A solve by affine scaling with the step-norm rule ends optimal when its last step was short, and how
far its objective then is from that of an optimal solve by the simplex method depends on where the
step came from. From a point `x` next to a face a step is short whatever it gains, and the tolerance
times the length of the objective does not bound the gap (`short_steps_miss_optimum`). What does is
the tolerance times the distance of the two points on the scale of `x²` (`gap_le_of_short_step`).
-/

open scoped Matrix

namespace LinProg

variable {K : Type} [Field K] [LinearOrder K] [IsStrictOrderedRing K] [Exact K] {p : Problem K}

/-- **A short last step bounds the gap.** In exact arithmetic, let affine scaling end optimal with
the tolerance `eps` and the step `alpha`, and the simplex method with default options. Then the
objective of affine scaling is not above the other by more than the zero tolerance on each of its
variables and slacks, and how far it is below is bounded through the last step, which comes from an
interior point `x` and goes along the projected cost `q` with the least entry `least`. With `z` the
point of the simplex method:

* where the projected cost has vanished, the gap is at most the rounding gap of one times the
  largest magnitude of `D c`, on the scale of `x`;
* otherwise it is at most `eps / alpha` times `|least| ≤ ‖D c‖` times the length of `(z - x) / x²`.

Of the square root only this is used, that a step whose length is within the tolerance has its
square within the square of the tolerance. A field divides by zero with the result zero, so a move
with `least = 0` is left out. -/
theorem gap_le_of_short_step {eps alpha : K}
    (hsqrt : ∀ v, 0 ≤ v → Scalar.sqrt v ≤ eps → v ≤ eps ^ 2) {start : List K}
    {affine simplex : Solution K}
    (haffine : ((AffineScaling.of ((Options.withTolerance eps).withStep alpha)).solve p
      start).Yields (.ok affine))
    (hsimplex : (Simplex.solve Options.default p).Yields (.ok simplex))
    (hopt : affine.status = .optimal) (hbest : simplex.status = .optimal) :
    affine.objectiveValue ≤ simplex.objectiveValue +
      (Options.default : Options K).zeroTolerance * (affine.primal.sum + affine.slack.sum) ∧
    ∃ x q least,
      AffineScaling.LastStep ((Options.withTolerance eps).withStep alpha) p start x q least affine ∧
      let z := simplex.point p
      let gap := simplex.objectiveValue - affine.objectiveValue
      (AffineScaling.Stationary p x q →
        gap ≤ Scalar.epsilon * Vec.normInf (List.ofFn (p.scaledCosts x)) *
          ∑ i, |(z i - x i) / x i|) ∧
      (¬AffineScaling.Stationary p x q → least ≠ 0 → 0 ≤ gap →
        alpha ^ 2 * gap ^ 2 ≤ eps ^ 2 * least ^ 2 * ∑ i, ((z i - x i) / x i ^ 2) ^ 2) ∧
      least ^ 2 ≤ ∑ i, p.scaledCosts x i ^ 2 := by
  constructor
  · exact notAbove_of_solves haffine hsimplex (by rw [hopt]; rfl) hbest
  · obtain ⟨ho, x, q, least, hlast⟩ := AffineScaling.exists_lastStep haffine hopt
    obtain ⟨⟨halpha, -⟩, -⟩ := Options.validate_eq_ok_iff.mp ho
    have htol : (Options.default : Options K).zeroTolerance < 1 := by
      norm_num [Options.default]
    obtain ⟨hz, hvalue⟩ := Simplex.point_of_optimal hsimplex hbest htol
    rw [← hvalue]
    exact ⟨x, q, least, hlast, fun hstat => hlast.gap_le_of_stationary hstat hz,
      fun hstat hleast hgap => hlast.sq_gap_le halpha.le hsqrt hstat hleast hz hgap,
      hlast.sq_least_le⟩

/-- Maximise `(2 + 2⁻⁴¹) x₀ - x₁` subject to `x₀ ≤ 1 + 2⁻²¹`. -/
def steep : Problem ℚ := ⟨[2 + 1 / 2 ^ 41, -1], ⟨1, 2, [1, 0]⟩, [1 + 1 / 2 ^ 21]⟩

section ExactRoots

/-- The rational numbers with a square root that is exact for the squares and above the number
itself for all others, so that it is never too small, and with the rounding gap of `Float`. -/
local instance exactRoots : Exact ℚ where
  sqrt v := if Rat.sqrt v * Rat.sqrt v = v then Rat.sqrt v else v + 1
  epsilon := 1 / 2 ^ 52
  epsilon_nonneg := by norm_num

theorem le_sq_of_sqrt_le {v c : ℚ} (hv : 0 ≤ v) (h : Scalar.sqrt v ≤ c) : v ≤ c ^ 2 := by
  have h : (if Rat.sqrt v * Rat.sqrt v = v then Rat.sqrt v else v + 1) ≤ c := h
  split at h
  · rename_i hroot
    rw [← hroot, ← sq]
    exact pow_le_pow_left₀ (Rat.sqrt_nonneg v) h 2
  · calc v ≤ v + 1 := le_add_of_nonneg_right zero_le_one
      _ ≤ (v + 1) ^ 2 := le_self_pow₀ (le_add_of_nonneg_left hv) two_ne_zero
      _ ≤ c ^ 2 := pow_le_pow_left₀ (add_nonneg hv zero_le_one) h 2

/-- From a point next to two faces a step is short, far below the optimum. -/
theorem steep_solutions :
    (∃ sol, ((AffineScaling.of ((Options.withTolerance (1 / 10 ^ 6)).withStep (1 / 2))).solve steep
      [1 / 2 ^ 21, 1 / 2 ^ 21]).Yields (.ok sol) ∧
      sol.status = .optimal ∧ sol.objectiveValue ≤ 1 ∧
      sol.stats.last?.bind Record.stepNorm ≠ some 0 ∧
      sol.stats.last?.bind Record.minReducedCost ≠ some 0) ∧
    ∃ sol, (Simplex.solve Options.default steep).Yields (.ok sol) ∧
      sol.status = .optimal ∧ 2 ≤ sol.objectiveValue :=
  ⟨Timed.exists_yields_ok (by decide +kernel), Timed.exists_yields_ok (by decide +kernel)⟩

/-- On `steep` the gap is within the bound that the last step gives. -/
theorem steep_gap_le : ∃ affine simplex,
    ((AffineScaling.of ((Options.withTolerance (1 / 10 ^ 6)).withStep (1 / 2))).solve steep
      [1 / 2 ^ 21, 1 / 2 ^ 21]).Yields (.ok affine) ∧
    (Simplex.solve Options.default steep).Yields (.ok simplex) ∧
    affine.objectiveValue ≤ simplex.objectiveValue +
      (Options.default : Options ℚ).zeroTolerance * (affine.primal.sum + affine.slack.sum) ∧
    ∃ x q least,
      AffineScaling.LastStep ((Options.withTolerance (1 / 10 ^ 6)).withStep (1 / 2)) steep
        [1 / 2 ^ 21, 1 / 2 ^ 21] x q least affine ∧
      (1 / 2) ^ 2 * (simplex.objectiveValue - affine.objectiveValue) ^ 2 ≤
        (1 / 10 ^ 6) ^ 2 * least ^ 2 * ∑ i, ((simplex.point steep i - x i) / x i ^ 2) ^ 2 := by
  obtain ⟨⟨affine, haffine, hopt, hlow, hnorm, hmin⟩, simplex, hsimplex, hbest, hhigh⟩ :=
    steep_solutions
  obtain ⟨habove, x, q, least, hlast, -, hbelow, -⟩ := gap_le_of_short_step
    (fun v => le_sq_of_sqrt_le) haffine hsimplex hopt hbest
  obtain ⟨_, _, _, _, record, -, -, -, hhistory, hleast, hstep⟩ := hlast.reached
  rw [Stats.last?, hhistory, Array.back?_push, Option.bind_some] at hnorm hmin
  refine ⟨affine, simplex, haffine, hsimplex, habove, x, q, least, hlast,
    hbelow (fun hstat => hnorm ?_) (fun hzero => hmin ?_) (by linarith)⟩
  · -- where the projected cost has vanished the step goes nowhere
    have hroot : Scalar.sqrt (0 : ℚ) = 0 := by decide +kernel
    rw [hstep, AffineScaling.nextPoint, if_pos hstat]
    simp only [sub_self, zero_pow two_ne_zero, Finset.sum_const_zero, hroot]
  · rw [hleast, hzero]

/-- Both methods end optimal on a valid problem without negative bounds, affine scaling from a start
strictly inside, but their objectives are further apart than twice the tolerance times the length of
the objective. -/
structure Disagree (p : Problem K) (start : List K) (eps alpha : K) : Prop where
  valid : p.validate = .ok ()
  rhs : ∀ b ∈ p.rhs, 0 ≤ b
  length : start.length = p.nvars
  positive : ∀ v ∈ start, 0 < v
  inside : ∀ i, (p.coeffs *ᵥ Vec.coords p.nvars start) i < p.bounds i
  tolerance : 0 < eps
  step : 0 < alpha ∧ alpha < 1
  solutions : ∃ affine simplex,
    ((AffineScaling.of ((Options.withTolerance eps).withStep alpha)).solve p start).Yields
      (.ok affine) ∧
    (Simplex.solve Options.default p).Yields (.ok simplex) ∧
    affine.status = .optimal ∧ simplex.status = .optimal ∧
    (2 * eps) ^ 2 * (p.costs ⬝ᵥ p.costs) < (affine.objectiveValue - simplex.objectiveValue) ^ 2

/-- Maximise `2⁻³⁰ x` subject to `(3 / 4) x ≤ 12`. -/
def flat : Problem ℚ := ⟨[1 / 2 ^ 30], ⟨1, 1, [3 / 4]⟩, [12]⟩

/-- The simplex method takes a small objective for zero, where affine scaling does not. -/
theorem flat_solutions :
    (∃ sol, ((AffineScaling.of ((Options.withTolerance (1 / 10 ^ 6)).withStep (1 / 2))).solve flat
      [16 - 1 / 2 ^ 20]).Yields (.ok sol) ∧
      sol.status = .optimal ∧ 1 / 10 ^ 8 ≤ sol.objectiveValue) ∧
    ∃ sol, (Simplex.solve Options.default flat).Yields (.ok sol) ∧
      sol.status = .optimal ∧ sol.objectiveValue = 0 :=
  ⟨Timed.exists_yields_ok (by decide +kernel), Timed.exists_yields_ok (by decide +kernel)⟩

/-- After a short step affine scaling may be far below the optimum, or above what the simplex method
takes for it. -/
theorem short_steps_miss_optimum :
    Disagree steep [1 / 2 ^ 21, 1 / 2 ^ 21] (1 / 10 ^ 6) (1 / 2) ∧
      Disagree flat [16 - 1 / 2 ^ 20] (1 / 10 ^ 6) (1 / 2) := by
  constructor
  · obtain ⟨⟨affine, haffine, hopt, hlow, -⟩, simplex, hsimplex, hbest, hhigh⟩ := steep_solutions
    refine ⟨rfl, by decide +kernel, rfl, by decide +kernel, by decide +kernel, by norm_num,
      by norm_num, affine, simplex, haffine, hsimplex, hopt, hbest, ?_⟩
    have hgap : 1 ≤ simplex.objectiveValue - affine.objectiveValue := by linarith
    rw [sub_sq_comm]
    calc (2 * (1 / 10 ^ 6)) ^ 2 * (steep.costs ⬝ᵥ steep.costs) < 1 ^ 2 := by decide +kernel
      _ ≤ _ := pow_le_pow_left₀ zero_le_one hgap 2
  · obtain ⟨⟨affine, haffine, hopt, hhigh⟩, simplex, hsimplex, hbest, hzero⟩ := flat_solutions
    refine ⟨rfl, by decide +kernel, rfl, by decide +kernel, by decide +kernel, by norm_num,
      by norm_num, affine, simplex, haffine, hsimplex, hopt, hbest, ?_⟩
    rw [hzero, sub_zero]
    calc (2 * (1 / 10 ^ 6)) ^ 2 * (flat.costs ⬝ᵥ flat.costs) < (1 / 10 ^ 8) ^ 2 := by
          decide +kernel
      _ ≤ _ := pow_le_pow_left₀ (by norm_num) hhigh 2

end ExactRoots

end LinProg
