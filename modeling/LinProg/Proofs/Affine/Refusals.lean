import LinProg.Proofs.Affine.Start
import LinProg.Solver

/-!
# What the checks say about a solve

`Solver.check` runs the checks of affine scaling without the solve. A point that it refuses is
refused by the solve with the same status, and a point that it accepts is refused by the solve only
if it is not strictly inside: the checks allow for the feasibility tolerance and ask nothing of the
signs of the variables, while the first iterate has to be positive, slacks included.
-/

open scoped Matrix

namespace LinProg

namespace AffineScaling

section Rejection

variable {α : Type} [Scalar α] {a : AffineScaling α} {p : Problem α} {start : List α}
  {r : Outcome (AffineError α) (Solution α)}

theorem solve_yields_of_rejected (hn : Scalar.Stores α p.nvars) (hm : Scalar.Stores α p.ncons)
    {status : Status} (hbegin : a.begin p start = .ok (.rejected status))
    (hr : (a.solve p start).Yields r) : r = .ok (Solution.terminated status p.nvars p.ncons) := by
  unfold solve at hr
  rw [hbegin] at hr
  dsimp only at hr
  rw [Solution.terminated?_eq_some_iff.mpr ⟨⟨hn, hm⟩, rfl⟩] at hr
  exact hr.symm

theorem solve_yields_of_fault (hbegin : a.begin p start = .fault)
    (hr : (a.solve p start).Yields r) : r = .fault := by
  unfold solve at hr
  rw [hbegin] at hr
  exact hr.symm

theorem status_ne_refused {w : Workspace α} {point : InteriorPoint α}
    (hbegin : a.begin p start = .ok (.at w point)) {sol : Solution α}
    (hsol : (a.solve p start).Yields (.ok sol)) :
    sol.status ≠ .noSolution ∧ sol.status ≠ .notApplicable .initialPoint := by
  unfold solve at hsol
  rw [hbegin] at hsol
  obtain ⟨s, hs, hok⟩ := Timed.yields_bind.mp hsol
  obtain rfl : s = some sol := Outcome.ofOption_eq_ok.mp hok
  obtain ⟨l, Q, effort, -, -, hend⟩ := ended_of_run hs
  exact hend.ne_refused

end Rejection

variable {K : Type} [Field K] [LinearOrder K] [Exact K] {p : Problem K} {start : List K}

/-- **The solve after the checks.** With a valid problem, valid options and a point of the right
length, the status of a failed check is that of the solve; and after passed checks the solve is
refused for the point, or goes on from a point strictly inside. -/
theorem solve_cases {a : AffineScaling K} (hv : p.validate = .ok ())
    (ho : a.options.validate = .ok ()) (hlen : start.length = p.nvars)
    {r : Outcome (AffineError K) (Solution K)} (hr : (a.solve p start).Yields r) :
    (∃ e sol, Precheck.check a.options.feasibilityTolerance p start = .error e ∧ r = .ok sol ∧
      e.status? = some sol.status) ∨
    Precheck.check a.options.feasibilityTolerance p start = .ok () ∧
      ((∃ i, p.withSlacks start i ≤ 0) ∧
        (∃ sol, r = .ok sol ∧ sol.status = .notApplicable .initialPoint) ∨
      (∀ i, 0 < p.withSlacks start i) ∧ ∀ sol, r = .ok sol →
        sol.status ≠ .noSolution ∧ sol.status ≠ .notApplicable .initialPoint) := by
  rcases begin_outcomes hv ho hlen with
    ⟨e, status, hcheck, hstatus, hbegin⟩ | ⟨hcheck, ⟨hout, hbegin⟩ | ⟨hin, ⟨-, hbegin⟩ | hbegin⟩⟩
  · left
    obtain rfl := solve_yields_of_rejected (Exact.stores _) (Exact.stores _) hbegin hr
    exact ⟨e, _, hcheck, rfl, hstatus⟩
  · right
    have hsol := solve_yields_of_rejected (Exact.stores _) (Exact.stores _) hbegin hr
    exact ⟨hcheck, Or.inl ⟨hout, _, hsol, rfl⟩⟩
  · right
    obtain rfl := solve_yields_of_fault hbegin hr
    exact ⟨hcheck, Or.inr ⟨hin, nofun⟩⟩
  · right
    refine ⟨hcheck, Or.inr ⟨hin, ?_⟩⟩
    rintro sol rfl
    exact status_ne_refused hbegin hr

end AffineScaling

namespace Solver

/-- A solve ends with the status of a check that has failed. -/
def Refused {α : Type} (r : Outcome (SolverError α) (Solution α)) : Prop :=
  ∃ sol, r = .ok sol ∧ (sol.status = .noSolution ∨ sol.status = .notApplicable .initialPoint)

variable {K : Type} [Field K] [LinearOrder K] [Exact K] {p : Problem K} {o : Options K}
variable {start : List K}

/-- The solver that a check and a solve by affine scaling share. -/
def scaling (o : Options K) (start : List K) : Solver K := ⟨.affineScaling, o, some start⟩

/-- **What a check predicts.** In exact arithmetic, for a valid problem, valid options and a point
of the right length, a check never breaks down, and

* it passes if each row has a positive coefficient and the point misses no constraint by more than
  the feasibility tolerance, and only then;
* the solve is not refused if the check passes and the point is strictly inside, and only then;
* the status of a failed check is that of the solve;
* a point that passes the check without being strictly inside is refused by the solve.

The checks allow a point on a bound, beyond it by no more than the tolerance, or with variables
that are not positive. -/
theorem check_predicts_refusal [IsStrictOrderedRing K] (hvalid : p.validate = .ok ())
    (ho : o.validate = .ok ()) (hlen : start.length = p.nvars)
    {r : Outcome (SolverError K) (Solution K)} (hr : ((scaling o start).solve p).Yields r) :
    (scaling o start).check p ≠ .fault ∧
    ((scaling o start).check p = .ok () ↔ (∀ i, ∃ j, 0 < p.coeffs i j) ∧
      ∀ i, (p.coeffs *ᵥ Vec.coords p.nvars start) i ≤ p.bounds i + o.feasibilityTolerance) ∧
    ((scaling o start).check p = .ok () ∧ p.StrictlyInside start ↔ ¬Refused r) ∧
    (∀ e, (scaling o start).check p = .error e →
      ∃ sol, r = .ok sol ∧ e.status? = some sol.status) ∧
    ((scaling o start).check p = .ok () → ¬p.StrictlyInside start →
      ∃ sol, r = .ok sol ∧ sol.status = .notApplicable .initialPoint) := by
  refine ⟨Precheck.check_ne_fault hvalid hlen _, Precheck.check_eq_ok_iff hvalid hlen _, ?_⟩
  obtain ⟨s, hs, rfl⟩ := Timed.yields_bind.mp hr
  rcases AffineScaling.solve_cases (a := .of o) hvalid ho hlen hs with
    ⟨e, sol, hcheck, rfl, hstatus⟩ | ⟨hcheck, ⟨⟨i, hi⟩, sol, rfl, hsol⟩ | ⟨hin, hgoes⟩⟩
  · have hrefused : Refused (.ok sol) := ⟨sol, rfl, e.status?_cases hstatus⟩
    have hnot : (scaling o start).check p ≠ .ok () := by
      intro hok
      cases hcheck.symm.trans hok
    refine ⟨iff_of_false (fun h => hnot h.1) (fun h => h hrefused), ?_, fun hok => absurd hok hnot⟩
    intro e' he'
    cases hcheck.symm.trans he'
    exact ⟨sol, rfl, hstatus⟩
  · have hout : ¬p.StrictlyInside start := by
      intro hin
      exact absurd ((Problem.withSlacks_pos_iff hlen).mpr hin i) (not_lt.mpr hi)
    have hrefused : Refused (.ok sol) := ⟨sol, rfl, Or.inr hsol⟩
    refine ⟨iff_of_false (fun h => hout h.2) (fun h => h hrefused), ?_, fun _ _ => ⟨sol, rfl, hsol⟩⟩
    intro e he
    cases hcheck.symm.trans he
  · have hin : p.StrictlyInside start := (Problem.withSlacks_pos_iff hlen).mp hin
    have hgoes : ¬Refused (s.mapError affineError) := by
      rintro ⟨sol, hsol, hrefused⟩
      obtain ⟨hnosolution, hpoint⟩ := hgoes sol (Outcome.mapError_eq_ok.mp hsol)
      exact hrefused.elim hnosolution hpoint
    refine ⟨iff_of_true ⟨hcheck, hin⟩ hgoes, ?_, fun _ hout => absurd hin hout⟩
    intro e he
    cases hcheck.symm.trans he

/-- The point `(4, 4)` misses a constraint, and the solve says so. -/
theorem twoByTwo_check_predicts : ∃ e sol,
    (scaling Options.default [4, 4]).check Problem.twoByTwo = .error e ∧
    ((scaling Options.default [4, 4]).solve Problem.twoByTwo).Yields (.ok sol) ∧
    e.status? = some sol.status := by
  have hyields := Timed.yields_runFrom (fun _ => .zero) 0
    ((scaling Options.default [4, 4]).solve Problem.twoByTwo)
  have hoptions : (Options.default : Options ℚ).validate = .ok () :=
    Options.validate_eq_ok_iff.mpr (by decide +kernel)
  have hlen : ([4, 4] : List ℚ).length = Problem.twoByTwo.nvars := rfl
  obtain ⟨hfault, hpasses, -, herror, -⟩ := check_predicts_refusal rfl hoptions hlen hyields
  have hmisses : ¬∀ i, (Problem.twoByTwo.coeffs *ᵥ Vec.coords Problem.twoByTwo.nvars [4, 4]) i ≤
      Problem.twoByTwo.bounds i + (Options.default : Options ℚ).feasibilityTolerance := by
    decide +kernel
  cases hcheck : (scaling Options.default [4, 4]).check Problem.twoByTwo with
  | ok _ => exact absurd (hpasses.mp hcheck).2 hmisses
  | fault => exact absurd hcheck hfault
  | error e =>
    obtain ⟨sol, hsol, hstatus⟩ := herror e hcheck
    rw [hsol] at hyields
    exact ⟨e, sol, rfl, hyields, hstatus⟩

/-- A check is not enough to know that a solve begins: `(1, 3/2)` is on the first bound, passes the
check and is refused by the solve. -/
theorem boundary_start_passes_check :
    Problem.twoByTwo.validate = .ok () ∧ (Options.default : Options ℚ).validate = .ok () ∧
    (scaling Options.default [1, 3 / 2]).check Problem.twoByTwo = .ok () ∧
    ∃ sol, ((scaling Options.default [1, 3 / 2]).solve Problem.twoByTwo).Yields (.ok sol) ∧
      sol.status = .notApplicable .initialPoint := by
  refine ⟨rfl, Options.validate_eq_ok_iff.mpr (by decide +kernel), ?_, ?_⟩
  · have hvalid : Problem.twoByTwo.validate = .ok () := rfl
    have hlen : ([1, 3 / 2] : List ℚ).length = Problem.twoByTwo.nvars := rfl
    have hrows : ∀ i, 0 < Problem.twoByTwo.coeffs i (0 : Fin 2) := by decide +kernel
    have hmeets : ∀ i, (Problem.twoByTwo.coeffs *ᵥ Vec.coords Problem.twoByTwo.nvars [1, 3 / 2]) i ≤
        Problem.twoByTwo.bounds i + (Options.default : Options ℚ).feasibilityTolerance := by
      decide +kernel
    exact (Precheck.check_eq_ok_iff hvalid hlen _).mpr ⟨fun i => ⟨_, hrows i⟩, hmeets⟩
  · exact Timed.exists_yields_ok (x := (scaling Options.default [1, 3 / 2]).solve Problem.twoByTwo)
      (P := fun sol => sol.status = .notApplicable .initialPoint) (by decide +kernel)

end Solver

end LinProg
