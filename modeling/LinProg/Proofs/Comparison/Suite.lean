import LinProg.Proofs.Clocks
import LinProg.Proofs.Exact.Programs
import LinProg.Proofs.Simplex.Rounding

/-!
# The step of a suite

The options of a suite name a step, and its runs of affine scaling have steps of their own. So the
named one does not matter, as long as it makes sense (`Suite.run_withStep`): the simplex method,
which comes last, has no step but checks all of its options.
-/

namespace LinProg

variable {α : Type}

/-- A run without the time. -/
def AffineRun.untimed (r : AffineRun α) : AffineRun α := { r with solution := r.solution.untimed }

def Suite.untimed (s : Suite α) : Suite α := ⟨s.affine.map AffineRun.untimed, s.simplex.untimed⟩

variable [Scalar α] {o : Options α} {p : Problem α} {start : List α} {a b : α}

namespace Options

/-- A step is strictly between zero and one. -/
def StepInRange (a : α) : Prop := 0 < a ∧ a < 1

instance (a : α) : Decidable (StepInRange a) := inferInstanceAs (Decidable (_ ∧ _))

theorem validate_withStep (ha : StepInRange a) (hb : StepInRange b) :
    (o.withStep a).validate = (o.withStep b).validate := by
  have hstep : 0 < (o.withStep a).affineStep ∧ (o.withStep a).affineStep < 1 := ha
  have hstep' : 0 < (o.withStep b).affineStep ∧ (o.withStep b).affineStep < 1 := hb
  rw [validate, validate, if_pos hstep, if_pos hstep']
  rfl

theorem validate_withStep_error (ha : ¬StepInRange a) :
    (o.withStep a).validate = .error (.stepOutOfRange a) := by
  have hstep : ¬(0 < (o.withStep a).affineStep ∧ (o.withStep a).affineStep < 1) := ha
  rw [validate, if_neg hstep]
  rfl

end Options

namespace Suite

theorem affineRuns_withStep (o : Options α) (p : Problem α) (start : List α) (a b : α)
    (steps : List α) :
    affineRuns (o.withStep a) p start steps = affineRuns (o.withStep b) p start steps := by
  induction steps with
  | nil => rfl
  | cons step steps ih =>
    rw [affineRuns, affineRuns, ih]
    rfl

theorem simplex_withStep (ha : Options.StepInRange a) (hb : Options.StepInRange b) :
    (Solver.mk .simplex (o.withStep a) none).solve p =
      (Solver.mk .simplex (o.withStep b) none).solve p := by
  have hsolve : Simplex.solve (o.withStep a) p = Simplex.solve (o.withStep b) p := by
    unfold Simplex.solve
    rw [Options.validate_withStep ha hb]
    rfl
  unfold Solver.solve
  rw [hsolve]

theorem simplex_withStep_error (ha : ¬Options.StepInRange a) :
    (Solver.mk .simplex (o.withStep a) none).solve p =
      .done (.error (.invalidProblem (.stepOutOfRange a))) := by
  unfold Solver.solve Simplex.solve
  rw [Options.validate_withStep_error ha]
  rfl

theorem affineRuns_agree (hlimit : o.maxTime = none) (steps : List α) :
    Timed.Agree (List.map AffineRun.untimed <$> ·) (affineRuns o p start steps)
      (affineRuns o p start steps) := by
  induction steps with
  | nil => exact .done rfl
  | cons step steps ih =>
    unfold affineRuns
    refine (Solver.solve_agree _ hlimit p).bind fun x x' hx => ?_
    rcases Outcome.cases_of_map_eq hx with ⟨e, rfl, rfl⟩ | ⟨rfl, rfl⟩ | ⟨sol, sol', rfl, rfl, hsol⟩
    · exact .done rfl
    · exact .done rfl
    · refine ih.bind fun y y' hy => .done ?_
      rcases Outcome.cases_of_map_eq hy with
        ⟨e, rfl, rfl⟩ | ⟨rfl, rfl⟩ | ⟨runs, runs', rfl, rfl, hruns⟩
      · rfl
      · rfl
      · have hrun : (⟨step, sol⟩ : AffineRun α).untimed = AffineRun.untimed ⟨step, sol'⟩ :=
          congrArg (AffineRun.mk step) hsol
        exact congrArg Outcome.ok (congrArg₂ List.cons hrun hruns)

theorem run_agree (hlimit : o.maxTime = none) :
    Timed.Agree (Suite.untimed <$> ·) (run o p start) (run o p start) := by
  unfold run
  refine (affineRuns_agree hlimit steps).bind fun x x' hx => ?_
  rcases Outcome.cases_of_map_eq hx with
    ⟨e, rfl, rfl⟩ | ⟨rfl, rfl⟩ | ⟨runs, runs', rfl, rfl, hruns⟩
  · exact .done rfl
  · exact .done rfl
  · refine (Solver.solve_agree _ hlimit p).bind fun y y' hy => .done ?_
    rcases Outcome.cases_of_map_eq hy with ⟨e, rfl, rfl⟩ | ⟨rfl, rfl⟩ | ⟨sol, sol', rfl, rfl, hsol⟩
    · rfl
    · rfl
    · exact congrArg Outcome.ok (congrArg₂ Suite.mk hruns hsol)

theorem run_withStep_error (ha : ¬Options.StepInRange a) :
    run (o.withStep a) p start = do
      return (← affineRuns (o.withStep b) p start steps).bind fun _ =>
        .error (.invalidProblem (.stepOutOfRange a)) := by
  unfold run
  rw [affineRuns_withStep o p start a b, simplex_withStep_error ha]
  refine congrArg _ (funext fun x => ?_)
  cases x with
  | error e => rfl
  | fault => rfl
  | ok runs => rfl

/-- **The step of a suite** is not used. With any two steps that make sense its runs are the same,
so under one clock are their outcomes, and without a time limit these depend on the clock in the
time only. With a step that makes none, whatever its runs of affine scaling come to, they do with
any other step, and after them the simplex method refuses the step. -/
theorem run_withStep (o : Options α) (p : Problem α) (start : List α) (a b : α) :
    (Options.StepInRange a → Options.StepInRange b →
      run (o.withStep a) p start = run (o.withStep b) p start ∧
      (o.maxTime = none → Timed.Agree (Suite.untimed <$> ·) (run (o.withStep a) p start)
        (run (o.withStep b) p start))) ∧
    (¬Options.StepInRange a → run (o.withStep a) p start = do
      return (← affineRuns (o.withStep b) p start steps).bind fun _ =>
        .error (.invalidProblem (.stepOutOfRange a))) := by
  refine ⟨fun ha hb => ?_, run_withStep_error⟩
  have hrun : run (o.withStep a) p start = run (o.withStep b) p start := by
    unfold run
    rw [affineRuns_withStep o p start a b, simplex_withStep ha hb]
  refine ⟨hrun, fun hlimit => ?_⟩
  rw [hrun]
  exact run_agree hlimit

/-- A problem in binary64 at two steps that make sense and one that does not. -/
theorem run_withStep_roundedTwoByTwo :
    run ((Options.withTolerance 10).withStep 0.25) Simplex.roundedTwoByTwo [1, 1] =
        run ((Options.withTolerance 10).withStep 0.75) Simplex.roundedTwoByTwo [1, 1] ∧
      Timed.Agree (Suite.untimed <$> ·)
        (run ((Options.withTolerance 10).withStep 0.25) Simplex.roundedTwoByTwo [1, 1])
        (run ((Options.withTolerance 10).withStep 0.75) Simplex.roundedTwoByTwo [1, 1]) ∧
      run ((Options.withTolerance 10).withStep 2) Simplex.roundedTwoByTwo [1, 1] = do
        return (← affineRuns ((Options.withTolerance 10).withStep 0.25) Simplex.roundedTwoByTwo
          [1, 1] steps).bind fun _ => .error (.invalidProblem (.stepOutOfRange 2)) := by
  obtain ⟨hrun, hagree⟩ := (run_withStep (Options.withTolerance 10) Simplex.roundedTwoByTwo [1, 1]
    (0.25 : Float) 0.75).1 (by decide +kernel) (by decide +kernel)
  exact ⟨hrun, hagree rfl, (run_withStep _ _ _ 2 0.25).2 (by decide +kernel)⟩

/-- The step that the options name decides whether there is a report. -/
theorem run_refuses_step :
    (∃ r, (run (Options.withTolerance 10) Simplex.roundedTwoByTwo [1, 1]).Yields (.ok r)) ∧
      ∀ r, ¬(run ((Options.withTolerance 10).withStep 2) Simplex.roundedTwoByTwo
        [1, 1]).Yields (.ok r) := by
  constructor
  · obtain ⟨r, hr, -⟩ := Timed.exists_yields_ok (P := fun _ => True)
      (x := run (Options.withTolerance 10) Simplex.roundedTwoByTwo [1, 1]) (by decide +kernel)
    exact ⟨r, hr⟩
  · intro r hr
    rw [run_withStep_error (b := 0.25) (by decide +kernel)] at hr
    obtain ⟨x, -, hx⟩ := Timed.yields_bind.mp hr
    cases x with
    | error e => cases hx
    | fault => cases hx
    | ok runs => cases hx

end Suite

end LinProg
