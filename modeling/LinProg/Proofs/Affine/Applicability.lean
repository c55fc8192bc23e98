import LinProg.Proofs.Affine.Refusals
import LinProg.Proofs.Affine.Reports
import LinProg.Proofs.Checked.Starts

/-!
# Which inputs a solve goes on from

A solve refuses a malformed problem, malformed options or a malformed point, in this order
(`InputRefused`), rejects a problem with a row that has no positive coefficient and a point that is
not strictly inside, and from any other input it attempts a factorization at the point with its
slacks (`solve_decides`). What becomes of that attempt shows in the solution: a failure, or at least
one factorization (`Attempted`).

The tolerance of the checks makes no difference here: a point that they refuse is not strictly
inside, and one that they accept still has to be.
-/

open scoped Matrix

namespace LinProg.AffineScaling

section AnyArithmetic

variable {α : Type} [Scalar α] {a : AffineScaling α} {p : Problem α} {start : List α}
  {w : Workspace α} {s : InteriorPoint α} {n m k : ℕ}

/-! ### Refused input -/

/-- The error of the first check of the input that fails. -/
inductive InputRefused (a : AffineScaling α) (p : Problem α) (start : List α) :
    AffineError α → Prop where
  | problem {c : InputError α} (h : p.validate = .error c) : InputRefused a p start (.input c)
  | options {c : InputError α} (hv : p.validate = .ok ()) (h : a.options.validate = .error c) :
    InputRefused a p start (.input c)
  | point {c : InputError α} (hv : p.validate = .ok ()) (ho : a.options.validate = .ok ())
    (h : p.validatePoint start = .error c) : InputRefused a p start (.start (.input c))

theorem begin_eq_error_iff (e : AffineError α) :
    a.begin p start = .error e ↔ InputRefused a p start e := by
  constructor
  · intro hbegin
    cases hv : p.validate with
    | error c =>
      rw [begin, hv] at hbegin
      cases hbegin
      exact .problem hv
    | fault =>
      rw [begin, hv] at hbegin
      cases hbegin
    | ok u =>
      cases ho : a.options.validate with
      | error c =>
        rw [begin, hv, ho] at hbegin
        cases hbegin
        exact .options hv ho
      | ok u =>
        cases hpoint : p.validatePoint start with
        | error c =>
          rw [begin_of_bad_point hv ho hpoint] at hbegin
          cases hbegin
          exact .point hv ho hpoint
        | ok u => exact absurd hbegin (begin_ne_error hv ho hpoint e)
  · rintro (h | ⟨hv, h⟩ | ⟨hv, ho, h⟩)
    · rw [begin, h]
      rfl
    · rw [begin, hv, h]
      rfl
    · exact begin_of_bad_point hv ho h

/-- **A solve is refused** for the input alone, with the error of the first check that fails. -/
theorem solve_eq_error_iff {r : Outcome (AffineError α) (Solution α)}
    (hr : (a.solve p start).Yields r) (e : AffineError α) :
    r = .error e ↔ InputRefused a p start e := by
  rw [← begin_eq_error_iff]
  rcases solve_yields hr with
    ⟨w, point, hbegin, sol, -, rfl⟩ | ⟨status, hbegin, rfl⟩ | ⟨e', hbegin, rfl⟩ | ⟨hbegin, rfl⟩
  · rw [hbegin]
    exact iff_of_false (fun h => Outcome.ofOption_ne_error h) nofun
  · rw [hbegin]
    exact iff_of_false (fun h => Outcome.ofOption_ne_error h) nofun
  · rw [hbegin, Outcome.error.injEq, Outcome.error.injEq]
  · rw [hbegin]
    exact iff_of_false nofun nofun

/-! ### The first factorization -/

/-- What the solution of a run tells about the factorization that its first step attempts. -/
inductive Attempted (a : AffineScaling α) (w : Workspace α) (s : InteriorPoint α)
    (sol : Solution α) : Prop where
  | singular {e : LdlError α} {u : LdlSolver α} (h : a.attempt? w s = some (.error e, u))
    (hstatus : sol.status = .numericalFailure) (hspent : sol.stats.factorizations = 0)
    (hhistory : sol.stats.history = #[]) : Attempted a w s sol
  | factored {u : LdlSolver α} (h : a.attempt? w s = some (.ok (), u))
    (hspent : 1 ≤ sol.stats.factorizations) : Attempted a w s sol

theorem Going.first {began : Duration} {P₀ P : Progress α} (h : Going a w began P₀ k P)
    (hk : k ≠ 0) : ∃ point record effort,
      a.step? w P₀.point P₀.effort = some (.advanced point record, effort) := by
  induction h with
  | start => exact absurd rfl hk
  | @step l P point record effort h hstep now hintime ih =>
    rcases Nat.eq_zero_or_pos l with rfl | hl
    · cases h
      exact ⟨_, _, _, hstep⟩
    · exact ih hl.ne'

theorem LastTurn.attempts {began : Duration} {P F : Progress α} {left : ℕ} {status : Status}
    (h : LastTurn a w began P left (some (status, F))) (hw : w.Sized n m)
    (hs : P.point.Sized n m) :
    left = 0 ∧ F = P ∨
    (∃ e u, a.attempt? w P.point = some (.error e, u) ∧ status = .numericalFailure ∧ F = P) ∨
    (∃ u, a.attempt? w P.point = some (.ok (), u)) ∧ F.effort = P.effort.projected := by
  cases h with
  | spent => exact Or.inl ⟨rfl, rfl⟩
  | stopped hstep => exact Or.inr (Or.inr (factored_of_step? hw hs hstep nofun))
  | failed hstep =>
    rcases step?_outcomes hw hs hstep with ⟨e, u, hattempt, -, rfl⟩ | ⟨hattempt, hspent, -⟩
    · exact Or.inr (Or.inl ⟨e, u, hattempt, rfl, rfl⟩)
    · exact Or.inr (Or.inr ⟨hattempt, hspent⟩)
  | converged hstep now => exact Or.inr (Or.inr (factored_of_step? hw hs hstep nofun))
  | late hstep now hlate => exact Or.inr (Or.inr (factored_of_step? hw hs hstep nofun))

theorem iterate_attempts {began : Duration} {budget : ℕ} (hbudget : budget ≠ 0)
    (hw : w.Sized n m) (hs : s.Sized n m) (hzero : s.iteration = 0) {status : Status}
    {F : Progress α} (hr : (iterate a w began budget { point := s }).Yields (some (status, F))) :
    (∃ e u, a.attempt? w s = some (.error e, u) ∧ status = .numericalFailure ∧
      F = { point := s }) ∨
    (∃ u, a.attempt? w s = some (.ok (), u)) ∧ 1 ≤ F.effort.factorizations := by
  obtain ⟨l, Q, left, hcount, hgoing, hlast⟩ := iterate_yields_turns .start hr
  have hQ : Reached a w { point := s } l Q := Nat.zero_add l ▸ hgoing.reached .start
  have hattempts := hlast.attempts hw (hQ.sized hw hs hzero).1
  rcases Nat.eq_zero_or_pos l with rfl | hl
  · cases hgoing
    rcases hattempts with ⟨hleft, -⟩ | hsingular | ⟨hattempt, hspent⟩
    · omega
    · exact Or.inl hsingular
    · right
      rw [hspent]
      exact ⟨hattempt, le_rfl⟩
  · right
    have heffort := (hQ.recorded hw hs hzero).effort
    obtain ⟨point, record, effort, hfirst⟩ := hgoing.first hl.ne'
    refine ⟨(factored_of_step? hw hs hfirst nofun).1, ?_⟩
    rcases hattempts with ⟨-, rfl⟩ | ⟨e, u, -, -, rfl⟩ | ⟨-, hspent⟩
    · rw [heffort]
      exact hl
    · rw [heffort]
      exact hl
    · rw [hspent, heffort]
      exact Nat.le_add_left 1 l

theorem run_attempts (hbegin : a.begin p start = .ok (.at w s)) {sol : Solution α}
    (hr : (a.run w s).Yields (some sol)) : Attempted a w s sol := by
  obtain ⟨-, ho, -⟩ := begin_eq_at_iff.mp hbegin
  obtain ⟨-, -, -, -, -, -, hbudget⟩ := Options.validate_eq_ok_iff.mp ho
  obtain ⟨hw, hs, hzero⟩ := sized_of_begin hbegin
  obtain ⟨began, ended, time, hended, hsome⟩ := run_yields hr
  obtain ⟨⟨status, F⟩, rfl, hreport⟩ := Option.bind_eq_some_iff.mp hsome.symm
  obtain ⟨rfl, -, hhistory, hfactorizations, -⟩ := of_report? hreport
  rcases iterate_attempts hbudget hw hs hzero hended with
    ⟨e, u, hattempt, hstatus, rfl⟩ | ⟨⟨u, hattempt⟩, hspent⟩
  · exact .singular hattempt hstatus hfactorizations hhistory
  · exact .factored hattempt (hspent.trans_eq hfactorizations.symm)

section Begun

variable (hbegin : a.begin p start = .ok (.at w s)) {r : Outcome (AffineError α) (Solution α)}
  (hr : (a.solve p start).Yields r)
include hbegin hr

theorem solve_yields_of_begun : ∃ sol, (a.run w s).Yields sol ∧ r = Outcome.ofOption sol := by
  unfold solve at hr
  rw [hbegin] at hr
  obtain ⟨sol, hsol, hr⟩ := Timed.yields_bind.mp hr
  exact ⟨sol, hsol, hr.symm⟩

theorem attempted_of_begun {sol : Solution α} (hok : r = .ok sol) : Attempted a w s sol := by
  obtain ⟨sol', hrun, rfl⟩ := solve_yields_of_begun hbegin hr
  rw [Outcome.ofOption_eq_ok] at hok
  rw [hok] at hrun
  exact run_attempts hbegin hrun

theorem exists_solution_of_begun (hmax : a.options.maxIterations < 2 ^ 64) :
    ∃ sol, r = .ok sol := by
  obtain ⟨hw, hs, hzero⟩ := sized_of_begin hbegin
  obtain ⟨sol', hrun, rfl⟩ := solve_yields_of_begun hbegin hr
  obtain ⟨sol, rfl⟩ := run_yields_some hw hs hzero hmax hrun
  exact ⟨sol, rfl⟩

end Begun

end AnyArithmetic

/-! ### Exact arithmetic -/

open Checked

variable {K : Type} [Field K] [LinearOrder K] [IsStrictOrderedRing K] [Exact K]
  {a : AffineScaling (Checked K)} {p : Problem (Checked K)} {start : List (Checked K)}
  {r : Outcome (AffineError (Checked K)) (Solution (Checked K))}

open scoped Classical in
theorem begin_eq_number (hv : p.validate = .ok ()) (ho : a.options.validate = .ok ())
    (hpoint : p.validatePoint start = .ok ()) :
    a.begin p start =
      if ∃ i, ∀ j, (p.map value).coeffs i j ≤ 0 then .ok (.rejected .noSolution)
      else if ∃ i, (p.map value).withSlacks (start.map value) i ≤ 0 then
        .ok (.rejected (.notApplicable .initialPoint))
      else if Workspace.Fits (p.map value) then
        .ok (.at ((Workspace.form (p.map value)).map number)
          (iterateAt (p.map value) ((p.map value).withSlacks (start.map value)) 0))
      else .fault := by
  obtain ⟨options, criterion⟩ := a
  have hp := Problem.eq_map_number hv
  have hoptions := Options.eq_map_number ho
  have hstart := Vec.map_value_of_allFinite (Problem.allFinite_of_validatePoint hpoint)
  have hbegin := begin_map_number (c := criterion) (Problem.validate_map_value hv)
    (Options.validate_map_value ho) (Problem.length_map_value hpoint)
  rw [← hp, ← hoptions, ← hstart] at hbegin
  exact hbegin

theorem solve_forms (hv : p.validate = .ok ()) (ho : a.options.validate = .ok ())
    (hpoint : p.validatePoint start = .ok ()) (hr : (a.solve p start).Yields r) :
    (∃ i, ∀ j, (p.map value).coeffs i j ≤ 0) ∧
      r = .ok (Solution.terminated .noSolution p.nvars p.ncons) ∨
    (¬∃ i, ∀ j, (p.map value).coeffs i j ≤ 0) ∧
      ¬(p.map value).StrictlyInside (start.map value) ∧
      r = .ok (Solution.terminated (.notApplicable .initialPoint) p.nvars p.ncons) ∨
    (¬∃ i, ∀ j, (p.map value).coeffs i j ≤ 0) ∧
      (p.map value).StrictlyInside (start.map value) ∧
      (¬Workspace.Fits (p.map value) ∧ r = .fault ∨
        ∃ w point, a.begin p start = .ok (.at w point) ∧
          point.x = (List.ofFn ((p.map value).withSlacks (start.map value))).map number) := by
  have hinside := Problem.withSlacks_pos_iff (Problem.length_map_value hpoint)
  have hbegin := begin_eq_number hv ho hpoint
  by_cases hrow : ∃ i, ∀ j, (p.map value).coeffs i j ≤ 0
  · rw [if_pos hrow] at hbegin
    exact Or.inl ⟨hrow, solve_yields_of_rejected (stores _) (stores _) hbegin hr⟩
  · rw [if_neg hrow] at hbegin
    right
    by_cases hout : ∃ i, (p.map value).withSlacks (start.map value) i ≤ 0
    · rw [if_pos hout] at hbegin
      obtain ⟨i, hi⟩ := hout
      left
      exact ⟨hrow, fun h => not_lt.mpr hi (hinside.mpr h i),
        solve_yields_of_rejected (stores _) (stores _) hbegin hr⟩
    · rw [if_neg hout] at hbegin
      right
      refine ⟨hrow, hinside.mp fun i => not_le.mp fun hi => hout ⟨i, hi⟩, ?_⟩
      by_cases hfit : Workspace.Fits (p.map value)
      · rw [if_pos hfit] at hbegin
        exact Or.inr ⟨_, _, hbegin, rfl⟩
      · rw [if_neg hfit] at hbegin
        exact Or.inl ⟨hfit, solve_yields_of_fault hbegin hr⟩

/-- What a solve with valid input decides. -/
structure Decides (a : AffineScaling (Checked K)) (p : Problem (Checked K))
    (start : List (Checked K)) (r : Outcome (AffineError (Checked K)) (Solution (Checked K))) :
    Prop where
  noSolution : (∃ sol, r = .ok sol ∧ sol.status = .noSolution) ↔
    ∃ i, ∀ j, (p.map value).coeffs i j ≤ 0
  initialPoint : (∃ sol, r = .ok sol ∧ sol.status = .notApplicable .initialPoint) ↔
    (¬∃ i, ∀ j, (p.map value).coeffs i j ≤ 0) ∧ ¬(p.map value).StrictlyInside (start.map value)
  /-- A rejected solve reports zeros and nothing else. -/
  rejected : ∀ sol, r = .ok sol →
    sol.status = .noSolution ∨ sol.status = .notApplicable .initialPoint →
    sol = Solution.terminated sol.status p.nvars p.ncons
  /-- Any other solve goes on from the point with its slacks, if there is storage for it. -/
  goesOn : (¬∃ i, ∀ j, (p.map value).coeffs i j ≤ 0) →
    (p.map value).StrictlyInside (start.map value) →
    ¬Workspace.Fits (p.map value) ∧ r = .fault ∨
    ∃ w point, a.begin p start = .ok (.at w point) ∧
      point.x = (List.ofFn ((p.map value).withSlacks (start.map value))).map number ∧
      (∀ sol, r = .ok sol → Attempted a w point sol) ∧
      (a.options.maxIterations < 2 ^ 64 → ∃ sol, r = .ok sol)

theorem decides_of_valid (hv : p.validate = .ok ()) (ho : a.options.validate = .ok ())
    (hpoint : p.validatePoint start = .ok ()) (hr : (a.solve p start).Yields r) :
    Decides a p start r := by
  rcases solve_forms hv ho hpoint hr with
    ⟨hrow, rfl⟩ | ⟨hrow, hnot, rfl⟩ | ⟨hrow, hin, hgoes⟩
  · refine ⟨iff_of_true ⟨_, rfl, rfl⟩ hrow, iff_of_false ?_ fun h => h.1 hrow, ?_,
      fun hrows => absurd hrow hrows⟩
    · rintro ⟨sol, hok, hstatus⟩
      cases hok
      cases hstatus
    · rintro sol hok -
      cases hok
      rfl
  · refine ⟨iff_of_false ?_ hrow, iff_of_true ⟨_, rfl, rfl⟩ ⟨hrow, hnot⟩, ?_,
      fun _ hin => absurd hin hnot⟩
    · rintro ⟨sol, hok, hstatus⟩
      cases hok
      cases hstatus
    · rintro sol hok -
      cases hok
      rfl
  · have hne : ∀ sol, r = .ok sol →
        sol.status ≠ .noSolution ∧ sol.status ≠ .notApplicable .initialPoint := by
      rintro sol rfl
      rcases hgoes with ⟨-, hfault⟩ | ⟨w, point, hbegin, -⟩
      · cases hfault
      · exact status_ne_refused hbegin hr
    refine ⟨iff_of_false ?_ hrow, iff_of_false ?_ fun h => h.2 hin, ?_, fun _ _ => ?_⟩
    · rintro ⟨sol, hok, hstatus⟩
      exact (hne sol hok).1 hstatus
    · rintro ⟨sol, hok, hstatus⟩
      exact (hne sol hok).2 hstatus
    · intro sol hok hstatus
      exact (hstatus.elim (hne sol hok).1 (hne sol hok).2).elim
    · refine hgoes.imp_right ?_
      rintro ⟨w, point, hbegin, hx⟩
      exact ⟨w, point, hbegin, hx, fun sol => attempted_of_begun hbegin hr,
        exists_solution_of_begun hbegin hr⟩

/-- **A solve starts exactly on applicable input.** In exact arithmetic in which a division by zero
is undefined, for every problem, options, stopping rule and starting point:

* a solve is refused if the problem, the options or the point is malformed, with the error of the
  first of them that is. The point is malformed if it has the wrong length or an entry that is not
  a number;
* otherwise it ends with `noSolution` if a row has no positive coefficient, and only then;
* otherwise it ends with `notApplicable` because of the point if that is not strictly inside, and
  only then. In both cases the solution has zeros for values and counters, and no record;
* otherwise it attempts a factorization at the point with its slacks.

A problem too large for its storage breaks the solve down. -/
theorem solve_decides (hr : (a.solve p start).Yields r) :
    (∀ e, r = .error e ↔ InputRefused a p start e) ∧ (p.validate = .fault → r = .fault) ∧
    (p.validatePoint start = .ok () ↔
      start.length = p.nvars ∧ Vec.allFinite start = true) ∧
    (p.validate = .ok () → a.options.validate = .ok () → p.validatePoint start = .ok () →
      Decides a p start r) := by
  refine ⟨solve_eq_error_iff hr, fun hv => solve_yields_of_fault ?_ hr,
    ⟨fun h => ?_, fun ⟨hlen, hfinite⟩ => ?_⟩,
    fun hv ho hpoint => decides_of_valid hv ho hpoint hr⟩
  · rw [begin, hv]
    rfl
  · exact ⟨Problem.length_of_validatePoint h, Problem.allFinite_of_validatePoint h⟩
  · rw [Problem.validatePoint, if_neg (not_not.mpr hlen), if_pos hfinite]

/-- From `(1, 1/2)`, which leaves `(2, 5/2)` of the bounds. -/
theorem twoByTwo_decides : ∃ sol : Solution (Checked ℚ),
    (solve ⟨twoSteps.map number, .stepNorm⟩ (Problem.twoByTwo.map number)
      [number 1, number (1 / 2)]).Yields (.ok sol) ∧
    ∃ w point, begin ⟨twoSteps.map number, .stepNorm⟩ (Problem.twoByTwo.map number)
        [number 1, number (1 / 2)] = .ok (.at w point) ∧
      point.x = [1, 1 / 2, 2, 5 / 2].map number ∧
      Attempted ⟨twoSteps.map number, .stepNorm⟩ w point sol := by
  have hyields := Timed.yields_runFrom (fun _ => .zero) 0
    (solve ⟨twoSteps.map number, .stepNorm⟩ (Problem.twoByTwo.map number)
      [number 1, number (1 / 2)])
  obtain ⟨-, -, hpoint, hdecides⟩ := solve_decides hyields
  have hinside : ((Problem.twoByTwo.map number).map value).StrictlyInside
      ([number 1, number (1 / 2)].map value) := ⟨by decide +kernel, by decide +kernel⟩
  have hpositive : ∀ i, 0 < ((Problem.twoByTwo.map number).map value).coeffs i (0 : Fin 2) := by
    decide +kernel
  have hrows : ¬∃ i, ∀ j, ((Problem.twoByTwo.map number).map value).coeffs i j ≤ 0 :=
    fun ⟨i, hi⟩ => not_le.mpr (hpositive i) (hi _)
  have hfits : Workspace.Fits ((Problem.twoByTwo.map number).map value) :=
    ⟨by decide, by decide⟩
  rcases (hdecides rfl (Options.validate_map_number.mpr twoSteps_validate)
    (hpoint.mpr ⟨rfl, rfl⟩)).goesOn hrows hinside with ⟨hnot, -⟩ | ⟨w, point, hbegin, hx, hgoes⟩
  · exact absurd hfits hnot
  · obtain ⟨hattempts, hsol⟩ := hgoes
    obtain ⟨sol, hok⟩ := hsol (by decide)
    have hslacks : List.ofFn (((Problem.twoByTwo.map number).map value).withSlacks
        ([number 1, number (1 / 2)].map value)) = [1, 1 / 2, 2, 5 / 2] := by decide +kernel
    rw [hslacks] at hx
    rw [hok] at hyields
    exact ⟨sol, hyields, w, point, hbegin, hx, hattempts sol hok⟩

end LinProg.AffineScaling
