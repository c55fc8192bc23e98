import LinProg.Affine.Solver
import LinProg.Proofs.Rows

/-!
# Runs of affine scaling

Which states a run goes through and where it ends, in any arithmetic.

* `accept?_outcomes`: a new iterate is rejected, or accepted as one that `Follows` the last.
* `iterate_yields_turns`: a run is `Going` until its `LastTurn`.
* `Reached`: the states after a number of steps.
* `iterate_yields`: a run ends at one of them, for one of the reasons of `Ended`, or breaks down
  with a step there.
* `iterate_yields_optimal`: a run ends optimal only with a step that has converged.
* `solve_yields`, `begin_eq_at_iff`: a solve is a run from the point where it begins.
* `ended_of_run`, `valid_of_solve`: what is known of a run or a solve that returns.
-/

namespace LinProg

theorem ApplicabilityError.status?_cases {α : Type} (e : ApplicabilityError α) {status : Status}
    (h : e.status? = some status) :
    status = .noSolution ∨ status = .notApplicable .initialPoint := by
  cases e with
  | noSolution row => exact Or.inl (Option.some.inj h).symm
  | infeasibleStart row lhs rhs => exact Or.inr (Option.some.inj h).symm
  | notInterior index value => exact Or.inr (Option.some.inj h).symm
  | input cause => cases h

namespace AffineScaling

variable {α : Type} [Scalar α] {a : AffineScaling α} {w : Workspace α}

/-- An iterate that a step has accepted, with its record. -/
structure Follows (a : AffineScaling α) (w : Workspace α) (s point : InteriorPoint α)
    (record : Record α) : Prop where
  nvars : point.nvars = s.nvars
  iteration : point.iteration = s.iteration + 1
  finite : Vec.allFinite point.x = true
  residual : ∃ r, w.residual? point.x = some r ∧
    r ≤ w.residualBound a.options.feasibilityTolerance
  recorded : record.iteration = point.iteration
  objective : w.objective? point.x = some record.objective
  stepNorm : record.stepNorm = Vec.distance2? point.x s.x

/-- The outcome of a step to an accepted iterate. -/
def leads (a : AffineScaling α) (point : InteriorPoint α) (record : Record α) : StepOutcome α :=
  if a.criterion record a.options then .converged point record else .advanced point record

theorem accept?_outcomes {s : InteriorPoint α} {least : α} {next : List α} {outcome : StepOutcome α}
    (h : a.accept? w s least next = some outcome) :
    Vec.allFinite next = false ∧ outcome = .failed (.nonFinite (s.iteration + 1)) ∨
    (∃ r, Vec.allFinite next = true ∧ w.residual? next = some r ∧
      ¬r ≤ w.residualBound a.options.feasibilityTolerance ∧
      outcome = .failed (.infeasible (s.iteration + 1) r)) ∨
    ∃ point record, point.x = next ∧ Follows a w s point record ∧
      outcome = a.leads point record := by
  rw [accept?, Option.bind_eq_bind, Option.bind_eq_some_iff] at h
  obtain ⟨iteration, hcount, h⟩ := h
  obtain ⟨-, rfl⟩ := Size.add?_eq_some_iff.mp hcount
  split at h
  · rename_i hfinite
    rw [Bool.not_eq_true'] at hfinite
    exact Or.inl ⟨hfinite, (Option.some.inj h).symm⟩
  · rename_i hfinite
    rw [Bool.not_eq_true', Bool.not_eq_false] at hfinite
    right
    simp only [Option.bind_eq_bind, Option.bind_eq_some_iff] at h
    obtain ⟨r, hr, h⟩ := h
    split at h
    · rename_i hle
      right
      simp only [Option.bind_eq_some_iff] at h
      obtain ⟨norm, hnorm, objective, hobjective, h⟩ := h
      refine ⟨⟨next, s.nvars, s.iteration + 1⟩,
        Record.affine (s.iteration + 1) objective norm least .zero, rfl,
        ⟨rfl, rfl, hfinite, ⟨r, hr, hle⟩, rfl, hobjective, hnorm.symm⟩, ?_⟩
      rw [← Option.some.injEq, ← h, leads, apply_ite some]
      rfl
    · rename_i hle
      exact Or.inl ⟨r, hfinite, hr, hle, (Option.some.inj h).symm⟩

/-- A step leads on, whether the solve has converged with it or not. -/
def Advances (a : AffineScaling α) (w : Workspace α) (s : InteriorPoint α) (effort : Effort)
    (point : InteriorPoint α) (record : Record α) (effort' : Effort) : Prop :=
  a.step? w s effort = some (.advanced point record, effort') ∨
    a.step? w s effort = some (.converged point record, effort')

section Advances

variable {s point : InteriorPoint α} {record : Record α} {effort effort' : Effort}
  (h : Advances a w s effort point record effort')
include h

theorem Advances.step?_ne_none : a.step? w s effort ≠ none := by
  intro hnone
  rcases h with h | h
  · rw [hnone] at h
    cases h
  · rw [hnone] at h
    cases h

theorem Advances.outcome {outcome : StepOutcome α} {spent : Effort}
    (hstep : a.step? w s effort = some (outcome, spent)) :
    (outcome = .advanced point record ∨ outcome = .converged point record) ∧ spent = effort' := by
  rcases h with h | h
  · rw [hstep] at h
    cases h
    exact ⟨Or.inl rfl, rfl⟩
  · rw [hstep] at h
    cases h
    exact ⟨Or.inr rfl, rfl⟩

end Advances

/-- The states after `k` steps. -/
inductive Reached (a : AffineScaling α) (w : Workspace α) (P₀ : Progress α) :
    ℕ → Progress α → Prop where
  | start : Reached a w P₀ 0 P₀
  | step {k : ℕ} {P : Progress α} {point : InteriorPoint α} {record : Record α} {effort : Effort}
      (h : Reached a w P₀ k P) (hstep : Advances a w P.point P.effort point record effort)
      (elapsed : Duration) : Reached a w P₀ (k + 1) (P.advanced point record elapsed effort)

/-- The states after `k` steps, none of which has converged or has passed the limit on the time. -/
inductive Going (a : AffineScaling α) (w : Workspace α) (start : Duration) (P₀ : Progress α) :
    ℕ → Progress α → Prop where
  | start : Going a w start P₀ 0 P₀
  | step {k : ℕ} {P : Progress α} {point : InteriorPoint α} {record : Record α} {effort : Effort}
      (h : Going a w start P₀ k P)
      (hstep : a.step? w P.point P.effort = some (.advanced point record, effort))
      (now : Duration) (hintime : (outOfTime a.options start).Yields false) :
      Going a w start P₀ (k + 1) (P.advanced point record (start.since now) effort)

/-- The last turn of a run, with as many steps left as its budget allows. -/
inductive LastTurn (a : AffineScaling α) (w : Workspace α) (start : Duration) (P : Progress α) :
    ℕ → Option (Status × Progress α) → Prop where
  | spent : LastTurn a w start P 0 (some (.maxIterations, P))
  | broken {left : ℕ} (hstep : a.step? w P.point P.effort = none) :
      LastTurn a w start P (left + 1) none
  | stopped {left : ℕ} {least : α} {effort : Effort}
      (hstep : a.step? w P.point P.effort = some (.notApplicable least, effort)) :
      LastTurn a w start P (left + 1)
        (some (.notApplicable .stopCriterion, { P with effort := effort }))
  | failed {left : ℕ} {why : StepFailure α} {effort : Effort}
      (hstep : a.step? w P.point P.effort = some (.failed why, effort)) :
      LastTurn a w start P (left + 1) (some (.numericalFailure, { P with effort := effort }))
  | converged {left : ℕ} {point : InteriorPoint α} {record : Record α} {effort : Effort}
      (hstep : a.step? w P.point P.effort = some (.converged point record, effort))
      (now : Duration) : LastTurn a w start P (left + 1)
        (some (.optimal, P.advanced point record (start.since now) effort))
  | late {left : ℕ} {point : InteriorPoint α} {record : Record α} {effort : Effort}
      (hstep : a.step? w P.point P.effort = some (.advanced point record, effort))
      (now : Duration) (hlate : (outOfTime a.options start).Yields true) :
      LastTurn a w start P (left + 1)
        (some (.maxTime, P.advanced point record (start.since now) effort))

theorem Going.reached {start : Duration} {P₀ P Q : Progress α} {k l : ℕ}
    (hP : Reached a w P₀ k P) (h : Going a w start P l Q) : Reached a w P₀ (k + l) Q := by
  induction h with
  | start => exact hP
  | step h hstep now hintime ih => exact ih.step (Or.inl hstep) _

theorem iterate_yields_turns {start : Duration} {P₀ P : Progress α} {k budget : ℕ}
    (hP : Going a w start P₀ k P) {r : Option (Status × Progress α)}
    (hr : (iterate a w start budget P).Yields r) :
    ∃ l Q left, l + left = k + budget ∧ Going a w start P₀ l Q ∧ LastTurn a w start Q left r := by
  -- `P₀` stays where the run began, while `P` moves on with every step
  induction budget generalizing k P with
  | zero =>
    cases hr
    exact ⟨k, P, 0, rfl, hP, .spent⟩
  | succ budget ih =>
    rw [iterate] at hr
    split at hr
    · rename_i hstep
      cases hr
      exact ⟨k, P, budget + 1, rfl, hP, .broken hstep⟩
    · rename_i least effort hstep
      cases hr
      exact ⟨k, P, budget + 1, rfl, hP, .stopped hstep⟩
    · rename_i why effort hstep
      cases hr
      exact ⟨k, P, budget + 1, rfl, hP, .failed hstep⟩
    · rename_i point record effort hstep
      obtain ⟨now, hr⟩ := hr
      cases hr
      exact ⟨k, P, budget + 1, rfl, hP, .converged hstep now⟩
    · rename_i point record effort hstep
      obtain ⟨now, hr⟩ := hr
      obtain ⟨late, hlate, hr⟩ := Timed.yields_bind.mp hr
      cases late with
      | true =>
        cases hr
        exact ⟨k, P, budget + 1, rfl, hP, .late hstep now hlate⟩
      | false =>
        rw [← Nat.succ_add_eq_add_succ]
        exact ih (hP.step hstep now hlate) hr

/-- Why a run ends with a status and an effort at a state. -/
def Ended (a : AffineScaling α) (w : Workspace α) (P : Progress α) (effort : Effort) :
    Status → Prop
  | .optimal | .maxIterations | .maxTime => effort = P.effort
  | .notApplicable .stopCriterion =>
    ∃ least, a.step? w P.point P.effort = some (.notApplicable least, effort)
  | .numericalFailure => ∃ why, a.step? w P.point P.effort = some (.failed why, effort)
  | _ => False

/-- **A run ends at a reached state**, or breaks down with a step there. -/
theorem iterate_yields {start : Duration} {P₀ P : Progress α} {k budget : ℕ}
    (hP : Reached a w P₀ k P) {r : Option (Status × Progress α)}
    (hr : (iterate a w start budget P).Yields r) :
    (r = none ∧ ∃ l Q, l < k + budget ∧ Reached a w P₀ l Q ∧ a.step? w Q.point Q.effort = none) ∨
      ∃ status l Q effort, l ≤ k + budget ∧ Reached a w P₀ l Q ∧ Ended a w Q effort status ∧
        r = some (status, { Q with effort := effort }) := by
  obtain ⟨l, Q, left, hcount, hgoing, hlast⟩ := iterate_yields_turns .start hr
  have hQ := hgoing.reached hP
  cases hlast with
  | broken hstep => exact Or.inl ⟨rfl, k + l, Q, by omega, hQ, hstep⟩
  | spent => exact Or.inr ⟨.maxIterations, k + l, Q, Q.effort, by omega, hQ, rfl, rfl⟩
  | stopped hstep =>
    exact Or.inr ⟨.notApplicable .stopCriterion, k + l, Q, _, by omega, hQ, ⟨_, hstep⟩, rfl⟩
  | failed hstep => exact Or.inr ⟨.numericalFailure, k + l, Q, _, by omega, hQ, ⟨_, hstep⟩, rfl⟩
  | converged hstep now =>
    exact Or.inr ⟨.optimal, k + l + 1, _, _, by omega, hQ.step (Or.inr hstep) _, rfl, rfl⟩
  | late hstep now hlate =>
    exact Or.inr ⟨.maxTime, k + l + 1, _, _, by omega, hQ.step (Or.inl hstep) _, rfl, rfl⟩

theorem iterate_yields_optimal {start : Duration} {P₀ P Q : Progress α} {k budget : ℕ}
    (hP : Reached a w P₀ k P)
    (hr : (iterate a w start budget P).Yields (some (.optimal, Q))) :
    ∃ l P point record effort elapsed, Reached a w P₀ l P ∧
      a.step? w P.point P.effort = some (.converged point record, effort) ∧
      Q = P.advanced point record elapsed effort := by
  obtain ⟨l, R, left, -, hgoing, hlast⟩ := iterate_yields_turns .start hr
  cases hlast with
  | converged hstep now => exact ⟨k + l, R, _, _, _, _, hgoing.reached hP, hstep, rfl⟩

theorem run_yields {point : InteriorPoint α} {r : Option (Solution α)}
    (hr : (a.run w point).Yields r) :
    ∃ start ended time,
      (iterate a w start a.options.maxIterations { point := point }).Yields ended ∧
      r = ended.bind fun e => report? w e.1 e.2 time := by
  simp only [run, Timed.yields_bind] at hr
  obtain ⟨start, -, ended, hended, now, -, hr⟩ := hr
  exact ⟨start, ended, start.since now, hended, hr.symm⟩

theorem of_report? {status : Status} {P : Progress α} {time : Duration} {sol : Solution α}
    (h : report? w status P time = some sol) :
    sol.status = status ∧ sol.iterations = P.history.size ∧ sol.stats.history = P.history ∧
      sol.stats.factorizations = P.effort.factorizations ∧
      sol.stats.linearSolves = P.effort.linearSolves ∧ sol.stats.pivots = 0 := by
  rw [report?, Option.bind_eq_bind, Option.bind_eq_some_iff] at h
  obtain ⟨objective, -, h⟩ := h
  split at h
  · simp only [Option.bind_eq_bind, Option.bind_eq_some_iff] at h
    obtain ⟨primal, -, slack, -, h⟩ := h
    cases h
    exact ⟨rfl, rfl, rfl, rfl, rfl, rfl⟩
  · simp only [Option.bind_eq_bind, Option.bind_eq_some_iff,
      Solution.terminated?_eq_some_iff] at h
    obtain ⟨_, ⟨-, rfl⟩, h⟩ := h
    cases h
    exact ⟨rfl, rfl, rfl, rfl, rfl, rfl⟩

theorem status_of_report? {status : Status} {P : Progress α} {time : Duration} {sol : Solution α}
    (h : report? w status P time = some sol) : sol.status = status :=
  (of_report? h).1

theorem terminated_of_report? {status : Status} {P : Progress α} {time : Duration}
    {sol : Solution α} (hkeeps : keepsIterate status = false)
    (h : report? w status P time = some sol) :
    sol.primal = List.replicate w.nvars 0 ∧ sol.slack = List.replicate w.ncons 0 ∧
      sol.objectiveValue = 0 := by
  rw [report?, Option.bind_eq_bind, Option.bind_eq_some_iff] at h
  obtain ⟨objective, -, h⟩ := h
  simp only [hkeeps, Bool.false_eq_true, if_false, Option.bind_eq_bind, Option.bind_eq_some_iff,
    Solution.terminated?_eq_some_iff] at h
  obtain ⟨_, ⟨-, rfl⟩, h⟩ := h
  cases h
  exact ⟨rfl, rfl, rfl⟩

theorem ended_of_run {point : InteriorPoint α} {sol : Solution α}
    (hrun : (a.run w point).Yields (some sol)) :
    ∃ l Q effort, l ≤ a.options.maxIterations ∧ Reached a w { point := point } l Q ∧
      Ended a w Q effort sol.status := by
  obtain ⟨start, ended, time, hended, hsol⟩ := run_yields hrun
  obtain ⟨⟨status, P⟩, rfl, hreport⟩ := Option.bind_eq_some_iff.mp hsol.symm
  rcases iterate_yields .start hended with ⟨hnone, -⟩ | ⟨status', l, Q, effort, hl, hQ, hend, hsome⟩
  · cases hnone
  · cases hsome
    rw [Nat.zero_add] at hl
    rw [status_of_report? hreport]
    exact ⟨l, Q, effort, hl, hQ, hend⟩

theorem Ended.ne_refused {P : Progress α} {effort : Effort} {status : Status}
    (h : Ended a w P effort status) :
    status ≠ .noSolution ∧ status ≠ .notApplicable .initialPoint := by
  constructor
  · rintro rfl
    exact h
  · rintro rfl
    exact h

section Beginning

variable {p : Problem α} {start : List α} {point : InteriorPoint α}

theorem begin_eq_at_iff : a.begin p start = .ok (.at w point) ↔
    p.validate = .ok () ∧ a.options.validate = .ok () ∧
      Precheck.check a.options.feasibilityTolerance p start = .ok () ∧
      InteriorPoint.initial p start = .ok point ∧ Workspace.of? p = some w := by
  simp only [begin, Outcome.bind_eq_ok, Outcome.mapError_eq_ok, Outcome.ofExcept_eq_ok]
  constructor
  · rintro ⟨⟨⟩, hv, ⟨⟩, ho, h⟩
    split at h
    · rename_i point' hinitial
      obtain ⟨⟨⟩, hcheck, hpoint⟩ := Outcome.bind_eq_ok.mp hinitial
      simp only [Outcome.bind_eq_ok, Outcome.ofOption_eq_ok, Outcome.pure_eq, Outcome.ok.injEq,
        Beginning.at.injEq] at h
      obtain ⟨w', hw, rfl, rfl⟩ := h
      exact ⟨hv, ho, hcheck, hpoint, hw⟩
    · cases h
    · split at h <;> cases h
  · rintro ⟨hv, ho, hcheck, hpoint, hw⟩
    refine ⟨(), hv, (), ho, ?_⟩
    rw [hcheck, Outcome.ok_bind, hpoint, hw]
    rfl

theorem valid_of_begin {b : Beginning α} (h : a.begin p start = .ok b) :
    p.validate = .ok () ∧ a.options.validate = .ok () ∧ p.validatePoint start = .ok () := by
  simp only [begin, Outcome.bind_eq_ok, Outcome.mapError_eq_ok, Outcome.ofExcept_eq_ok] at h
  obtain ⟨⟨⟩, hv, ⟨⟩, ho, h⟩ := h
  refine ⟨hv, ho, ?_⟩
  cases hpoint : p.validatePoint start with
  | ok _ => rfl
  | error e =>
    rw [Precheck.check, hv, hpoint] at h
    cases h

theorem status_of_begin_rejected {status : Status}
    (h : a.begin p start = .ok (.rejected status)) :
    status = .noSolution ∨ status = .notApplicable .initialPoint := by
  simp only [begin, Outcome.bind_eq_ok, Outcome.mapError_eq_ok, Outcome.ofExcept_eq_ok] at h
  obtain ⟨-, -, -, -, h⟩ := h
  split at h
  · obtain ⟨w, -, hw⟩ := Outcome.bind_eq_ok.mp h
    cases hw
  · cases h
  · split at h
    · rename_i e _ _ _ hstatus
      cases h
      exact e.status?_cases hstatus
    · cases h

theorem keepsIterate_of_begin_rejected {status : Status}
    (h : a.begin p start = .ok (.rejected status)) : keepsIterate status = false := by
  rcases status_of_begin_rejected h with rfl | rfl
  · rfl
  · rfl

theorem solve_yields {r : Outcome (AffineError α) (Solution α)} (hr : (a.solve p start).Yields r) :
    (∃ w point, a.begin p start = .ok (.at w point) ∧
      ∃ s, (a.run w point).Yields s ∧ r = Outcome.ofOption s) ∨
    (∃ status, a.begin p start = .ok (.rejected status) ∧
      r = Outcome.ofOption (Solution.terminated? status p.nvars p.ncons)) ∨
    (∃ e, a.begin p start = .error e ∧ r = .error e) ∨ a.begin p start = .fault ∧ r = .fault := by
  rw [solve] at hr
  split at hr
  · rename_i e he
    exact Or.inr (Or.inr (Or.inl ⟨e, he, hr.symm⟩))
  · rename_i hfault
    exact Or.inr (Or.inr (Or.inr ⟨hfault, hr.symm⟩))
  · rename_i status hstatus
    exact Or.inr (Or.inl ⟨status, hstatus, hr.symm⟩)
  · rename_i w point hat
    obtain ⟨s, hs, hr⟩ := Timed.yields_bind.mp hr
    exact Or.inl ⟨w, point, hat, s, hs, hr.symm⟩

theorem valid_of_solve {sol : Solution α} (hsol : (a.solve p start).Yields (.ok sol)) :
    p.validate = .ok () ∧ a.options.validate = .ok () ∧ p.validatePoint start = .ok () := by
  rcases solve_yields hsol with
    ⟨w, point, hbegin, -⟩ | ⟨status, hbegin, -⟩ | ⟨e, -, herror⟩ | ⟨-, hfault⟩
  · exact valid_of_begin hbegin
  · exact valid_of_begin hbegin
  · cases herror
  · cases hfault

end Beginning

end AffineScaling

end LinProg
