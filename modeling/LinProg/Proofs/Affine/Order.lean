import LinProg.Proofs.Affine.Invariant
import LinProg.Proofs.Affine.Reordering
import LinProg.Proofs.Checked.Starts
import LinProg.Proofs.Orders

/-!
# The order of constraints and variables

A solve by affine scaling and one of the same problem with its constraints and variables listed in
another order stay at the same iterates, step by step (`AffineScaling.iterate_reordered`). So they
end after the same number of steps, with the same status and history, and their solutions differ in
the order alone (`AffineScaling.solve_order_independent`).
-/

open scoped Matrix

namespace LinProg

open Checked

variable {K : Type} [Field K] [LinearOrder K] [Exact K]

namespace AffineScaling

variable {p p' : Problem K} {τ : Fin p'.nvars ≃ Fin p.nvars} {σ : Fin p'.ncons ≃ Fin p.ncons}
  {o : Options K} {c : Criterion (Checked K)} {P P' : Progress (Checked K)}

/-- The same state of two solves, up to the order and to the time. -/
structure SameProgress (p p' : Problem K) (τ : Fin p'.nvars ≃ Fin p.nvars)
    (σ : Fin p'.ncons ≃ Fin p.ncons) (P P' : Progress (Checked K)) : Prop where
  point : SameIterate p p' τ σ P.point P'.point
  history : P'.history.map Record.untimed = P.history.map Record.untimed

/-- The same end of two runs. -/
inductive SameEnd (p p' : Problem K) (τ : Fin p'.nvars ≃ Fin p.nvars)
    (σ : Fin p'.ncons ≃ Fin p.ncons) : Option (Status × Progress (Checked K)) →
    Option (Status × Progress (Checked K)) → Prop
  | broken : SameEnd p p' τ σ none none
  | ended {P P' : Progress (Checked K)} (status : Status) (h : SameProgress p p' τ σ P P') :
    SameEnd p p' τ σ (some (status, P)) (some (status, P'))

omit [Exact K] in
theorem SameProgress.spent (h : SameProgress p p' τ σ P P') (effort effort' : Effort) :
    SameProgress p p' τ σ { P with effort := effort } { P' with effort := effort' } :=
  ⟨h.point, h.history⟩

omit [Exact K] in
theorem SameProgress.advanced (h : SameProgress p p' τ σ P P')
    {s s' : InteriorPoint (Checked K)} (hs : SameIterate p p' τ σ s s')
    (record : Record (Checked K)) (elapsed elapsed' : Duration) (effort effort' : Effort) :
    SameProgress p p' τ σ (P.advanced s record elapsed effort)
      (P'.advanced s' record elapsed' effort') where
  point := hs
  history := by
    rw [Progress.advanced, Progress.advanced, Array.map_push, Array.map_push, h.history]
    rfl

section Reordered

variable (h : p.Reordered p' τ σ) (hv : p.validate = .ok ()) (hv' : p'.validate = .ok ())
  (hfit : Workspace.Fits p) (hfit' : Workspace.Fits p') (ho : o.validate = .ok ())
include h hv hv' hfit hfit' ho

/-- **Two runs stay at the same iterates** to their end, under different clocks. -/
theorem iterate_reordered [IsStrictOrderedRing K] (hsing : o.singularTolerance = 0)
    (htime : o.maxTime = none)
    {start start' : Duration} {budget : ℕ} (hP : SameProgress p p' τ σ P P')
    {r r' : Option (Status × Progress (Checked K))}
    (hr : (iterate ⟨o.map number, c⟩ ((Workspace.form p).map number) start budget P).Yields r)
    (hr' : (iterate ⟨o.map number, c⟩ ((Workspace.form p').map number) start' budget P').Yields
      r') : SameEnd p p' τ σ r r' := by
  have hunlimited : ∀ began, outOfTime (o.map number) began = .done false := fun began =>
    outOfTime_of_unlimited (o := o.map number) htime began
  induction budget generalizing P P' with
  | zero =>
    rw [iterate, Timed.Yields] at hr hr'
    rw [← hr, ← hr']
    exact .ended _ hP
  | succ budget ih =>
    obtain ⟨outcome, outcome', spent, spent', hsame, hstep, hstep'⟩ :=
      step?_reordered (c := c) h hv hv' hfit hfit' ho hsing hP.point P.effort P'.effort
    rw [iterate, hstep] at hr
    rw [iterate, hstep'] at hr'
    cases hsame with
    | broken =>
      obtain rfl := Timed.yields_done.mp hr
      obtain rfl := Timed.yields_done.mp hr'
      exact .broken
    | notApplicable least =>
      obtain rfl := Timed.yields_done.mp hr
      obtain rfl := Timed.yields_done.mp hr'
      exact .ended _ (hP.spent spent spent')
    | failed why =>
      obtain rfl := Timed.yields_done.mp hr
      obtain rfl := Timed.yields_done.mp hr'
      exact .ended _ (hP.spent spent spent')
    | converged record hs =>
      obtain ⟨now, hr⟩ := hr
      obtain ⟨now', hr'⟩ := hr'
      obtain rfl := Timed.yields_done.mp hr
      obtain rfl := Timed.yields_done.mp hr'
      exact .ended _ (hP.advanced hs record _ _ spent spent')
    | advanced record hs =>
      obtain ⟨now, hr⟩ := hr
      obtain ⟨now', hr'⟩ := hr'
      rw [hunlimited] at hr hr'
      exact ih (hP.advanced hs record _ _ spent spent') hr hr'

end Reordered

omit [Field K] [LinearOrder K] [Exact K] in
theorem primal?_iterateAt (x : Fin (p.nvars + p.ncons) → K) (k : ℕ) :
    (iterateAt p x k).primal? =
      some (List.ofFn fun j => number (x (Fin.castAdd p.ncons j))) := by
  rw [InteriorPoint.primal?, iterateAt, if_pos (by simp), ← List.map_take, Vec.take_ofFn,
    List.map_ofFn]
  rfl

omit [Field K] [LinearOrder K] [Exact K] in
theorem slack?_iterateAt (x : Fin (p.nvars + p.ncons) → K) (k : ℕ) :
    (iterateAt p x k).slack? =
      some (List.ofFn fun i => number (x (Fin.natAdd p.nvars i))) := by
  rw [InteriorPoint.slack?, iterateAt, if_pos (by simp), ← List.map_drop, Vec.drop_ofFn,
    List.map_ofFn]
  rfl

theorem report?_iterateAt {x : Fin (p.nvars + p.ncons) → K} {k : ℕ}
    (hpoint : P.point = iterateAt p x k) (status : Status) (time : Duration) :
    ∃ sol, report? ((Workspace.form p).map number) status P time = some sol ∧
      sol.status = status ∧ sol.iterations = P.history.size ∧ sol.stats.history = P.history ∧
      sol.objectiveValue =
        (if keepsIterate status then number (p.augmentedCosts ⬝ᵥ x) else 0) ∧
      sol.primal = List.ofFn (fun j =>
        if keepsIterate status then number (x (Fin.castAdd p.ncons j)) else 0) ∧
      sol.slack = List.ofFn fun i =>
        if keepsIterate status then number (x (Fin.natAdd p.nvars i)) else 0 := by
  have hobjective : ((Workspace.form p).map number).objective? P.point.x =
      some (number (p.augmentedCosts ⬝ᵥ x)) := by
    rw [hpoint, iterateAt, Workspace.objective?_map_number, Workspace.form_objective?,
      Option.map_some]
  rw [report?, hobjective, Option.bind_eq_bind, Option.bind_some]
  by_cases hkeeps : keepsIterate status = true
  · simp only [if_pos hkeeps]
    rw [hpoint, primal?_iterateAt, slack?_iterateAt]
    exact ⟨_, rfl, rfl, rfl, rfl, rfl, rfl, rfl⟩
  · have hncons : ((Workspace.form p).map number).ncons = p.ncons := Matrix.ofMat_nrows
    simp only [if_neg hkeeps, hncons]
    exact ⟨_, rfl, rfl, rfl, rfl, rfl, Vec.replicate_zero_eq_ofFn, Vec.replicate_zero_eq_ofFn⟩

theorem report?_reordered (h : p.Reordered p' τ σ) (hP : SameProgress p p' τ σ P P')
    (status : Status) (time time' : Duration) :
    ∃ sol sol', report? ((Workspace.form p).map number) status P time = some sol ∧
      report? ((Workspace.form p').map number) status P' time' = some sol' ∧
      SameSolution τ σ sol sol' := by
  have hsize : P'.history.size = P.history.size := by
    have := congrArg Array.size hP.history
    rwa [Array.size_map, Array.size_map] at this
  obtain ⟨x, k, -, hpoint, hpoint'⟩ := hP.point
  obtain ⟨sol, hsol, hstatus, hcount, hhistory, hobjective, hprimal, hslack⟩ :=
    report?_iterateAt hpoint status time
  obtain ⟨sol', hsol', hstatus', hcount', hhistory', hobjective', hprimal', hslack'⟩ :=
    report?_iterateAt hpoint' status time'
  refine ⟨sol, sol', hsol, hsol', ?_, ?_, ?_, ?_, ?_, ?_⟩
  · rw [hstatus, hstatus']
  · rw [hcount, hcount', hsize]
  · rw [hobjective, hobjective', h.value_comp]
  · rw [hhistory, hhistory', hP.history]
  · rw [hprimal, hprimal', Vec.reorder_ofFn]
    refine congrArg List.ofFn (funext fun j => ?_)
    simp only [Function.comp_apply, places_castAdd]
  · rw [hslack, hslack', Vec.reorder_ofFn]
    refine congrArg List.ofFn (funext fun i => ?_)
    simp only [Function.comp_apply, places_natAdd]

/-- The same answer of two solves. -/
inductive SameAnswer {α : Type} [Zero α] {n n' m m' : ℕ} (τ : Fin n' ≃ Fin n) (σ : Fin m' ≃ Fin m) :
    Outcome (AffineError α) (Solution α) → Outcome (AffineError α) (Solution α) → Prop
  | ok {sol sol' : Solution α} (h : SameSolution τ σ sol sol') : SameAnswer τ σ (.ok sol) (.ok sol')
  | error (e : AffineError α) : SameAnswer τ σ (.error e) (.error e)
  | fault : SameAnswer τ σ .fault .fault

variable [IsStrictOrderedRing K]

section Solve

variable (h : p.Reordered p' τ σ) (hv : p.validate = .ok ()) (hv' : p'.validate = .ok ())
  (ho : o.validate = .ok ()) {start start' : List K} (hlen : start.length = p.nvars)
  (hlen' : start'.length = p'.nvars)
  (hstart : Vec.coords p'.nvars start' = Vec.coords p.nvars start ∘ τ)
include h hv hv' ho hlen hlen' hstart

theorem begin_reordered :
    (∃ status, begin ⟨o.map number, c⟩ (p.map number) (start.map number) =
        .ok (.rejected status) ∧
      begin ⟨o.map number, c⟩ (p'.map number) (start'.map number) = .ok (.rejected status)) ∨
    (begin ⟨o.map number, c⟩ (p.map number) (start.map number) = .fault ∧
      begin ⟨o.map number, c⟩ (p'.map number) (start'.map number) = .fault) ∨
    ∃ s s', SameIterate p p' τ σ s s' ∧ Workspace.Fits p ∧ Workspace.Fits p' ∧
      begin ⟨o.map number, c⟩ (p.map number) (start.map number) =
        .ok (.at ((Workspace.form p).map number) s) ∧
      begin ⟨o.map number, c⟩ (p'.map number) (start'.map number) =
        .ok (.at ((Workspace.form p').map number) s') := by
  have hslacks := h.withSlacks_comp hstart
  have hrows : (∃ i, ∀ j, p'.coeffs i j ≤ 0) ↔ ∃ i, ∀ j, p.coeffs i j ≤ 0 := by
    rw [h.coeffs]
    exact σ.exists_congr fun i => τ.forall_congr fun j => Iff.rfl
  have hboundary : (∃ i, p'.withSlacks start' i ≤ 0) ↔ ∃ i, p.withSlacks start i ≤ 0 := by
    rw [hslacks]
    exact (places τ σ).exists_congr fun i => Iff.rfl
  have hfits : Workspace.Fits p' ↔ Workspace.Fits p := by
    rw [Workspace.Fits, Workspace.Fits, Fin.equiv_iff_eq.mp ⟨τ⟩, Fin.equiv_iff_eq.mp ⟨σ⟩]
  rw [begin_map_number hv ho hlen, begin_map_number hv' ho hlen']
  by_cases hrow : ∃ i, ∀ j, p.coeffs i j ≤ 0
  · left
    exact ⟨.noSolution, if_pos hrow, if_pos (hrows.mpr hrow)⟩
  · rw [if_neg hrow, if_neg (hrows.not.mpr hrow)]
    by_cases hedge : ∃ i, p.withSlacks start i ≤ 0
    · left
      exact ⟨.notApplicable .initialPoint, if_pos hedge, if_pos (hboundary.mpr hedge)⟩
    · right
      rw [if_neg hedge, if_neg (hboundary.not.mpr hedge)]
      by_cases hfit : Workspace.Fits p
      · right
        have hinterior : Interior p (p.withSlacks start) := by
          constructor
          · intro i
            exact not_le.mp fun hle => hedge ⟨i, hle⟩
          · exact p.augmented_withSlacks start
        refine ⟨_, _, ⟨_, 0, hinterior, rfl, rfl⟩, hfit, hfits.mpr hfit, if_pos hfit, ?_⟩
        rw [if_pos (hfits.mpr hfit), hslacks]
      · left
        exact ⟨if_neg hfit, if_neg (hfits.not.mpr hfit)⟩

theorem solve_reordered (hsing : o.singularTolerance = 0) (htime : o.maxTime = none)
    {r r' : Outcome (AffineError (Checked K)) (Solution (Checked K))}
    (hr : (solve ⟨o.map number, c⟩ (p.map number) (start.map number)).Yields r)
    (hr' : (solve ⟨o.map number, c⟩ (p'.map number) (start'.map number)).Yields r') :
    SameAnswer τ σ r r' := by
  have hnvars : ∀ p : Problem K, (p.map number).nvars = p.nvars := fun p => List.length_map _
  have hncons : ∀ p : Problem K, (p.map number).ncons = p.ncons := fun p => List.length_map _
  unfold solve at hr hr'
  rcases begin_reordered (c := c) h hv hv' ho hlen hlen' hstart with
    ⟨status, hbegin, hbegin'⟩ | ⟨hbegin, hbegin'⟩ | ⟨s, s', hs, hfit, hfit', hbegin, hbegin'⟩
  · rw [hbegin] at hr
    rw [hbegin'] at hr'
    obtain rfl := Timed.yields_done.mp hr
    obtain rfl := Timed.yields_done.mp hr'
    rw [hnvars, hnvars, hncons, hncons]
    exact .ok (.terminated τ σ status)
  · rw [hbegin] at hr
    rw [hbegin'] at hr'
    obtain rfl := Timed.yields_done.mp hr
    obtain rfl := Timed.yields_done.mp hr'
    exact .fault
  · rw [hbegin] at hr
    rw [hbegin'] at hr'
    obtain ⟨t, ht, hr⟩ := Timed.yields_bind.mp hr
    obtain ⟨t', ht', hr'⟩ := Timed.yields_bind.mp hr'
    obtain ⟨begun, ended, time, hended, rfl⟩ := run_yields ht
    obtain ⟨begun', ended', time', hended', rfl⟩ := run_yields ht'
    obtain rfl := Timed.yields_done.mp hr
    obtain rfl := Timed.yields_done.mp hr'
    have hP : SameProgress p p' τ σ { point := s } { point := s' } := ⟨hs, rfl⟩
    cases iterate_reordered h hv hv' hfit hfit' ho hsing htime hP hended hended' with
    | broken => exact .fault
    | ended status hsame =>
      obtain ⟨sol, sol', hsol, hsol', hsolution⟩ := report?_reordered h hsame status time time'
      rw [Option.bind_some, Option.bind_some, hsol, hsol']
      exact .ok hsolution

end Solve

variable {a : AffineScaling (Checked K)} {p : Problem (Checked K)}
  {start : List (Checked K)} {r r' : Outcome (AffineError (Checked K)) (Solution (Checked K))}

section Reorder

variable (hvalid : p.validate = .ok ()) (ho : a.options.validate = .ok ())
  (τ : Equiv.Perm (Fin p.nvars)) (σ : Equiv.Perm (Fin p.ncons))
include hvalid ho

omit [IsStrictOrderedRing K] in
theorem solve_reorder_of_bad_point {e : InputError (Checked K)}
    (hpoint : p.validatePoint start = .error e) (hr : (a.solve p start).Yields r)
    (hr' : (a.solve (p.reorder τ σ) (Vec.reorder τ start)).Yields r') : SameAnswer τ σ r r' := by
  have hpoint' := (Problem.validatePoint_reorder τ σ start).trans hpoint
  unfold solve at hr hr'
  rw [begin_of_bad_point hvalid ho hpoint] at hr
  rw [begin_of_bad_point (Problem.validate_reorder τ σ hvalid) ho hpoint'] at hr'
  obtain rfl := Timed.yields_done.mp hr
  obtain rfl := Timed.yields_done.mp hr'
  exact .error _

theorem solve_reorder_of_point (hsing : a.options.singularTolerance = 0)
    (htime : a.options.maxTime = none) (hpoint : p.validatePoint start = .ok ())
    (hr : (a.solve p start).Yields r)
    (hr' : (a.solve (p.reorder τ σ) (Vec.reorder τ start)).Yields r') : SameAnswer τ σ r r' := by
  obtain ⟨options, criterion⟩ := a
  have hvalid' := Problem.validate_reorder τ σ hvalid
  have hpoint' := (Problem.validatePoint_reorder τ σ start).trans hpoint
  have hp := Problem.eq_map_number hvalid
  have hp' := Problem.eq_map_number hvalid'
  have hoptions := Options.eq_map_number ho
  have hstart := Vec.map_value_of_allFinite (Problem.allFinite_of_validatePoint hpoint)
  have hstart' := Vec.map_value_of_allFinite (Problem.allFinite_of_validatePoint hpoint')
  have hsolve : (solve ⟨(options.map value).map number, criterion⟩ ((p.map value).map number)
      ((start.map value).map number)).Yields r := by
    rw [← hoptions, ← hp, ← hstart]
    exact hr
  have hsolve' : (solve ⟨(options.map value).map number, criterion⟩
      (((p.reorder τ σ).map value).map number)
      (((Vec.reorder τ start).map value).map number)).Yields r' := by
    rw [← hoptions, ← hp', ← hstart']
    exact hr'
  have hsame := solve_reordered (Problem.reordered_map_value p τ σ)
    (Problem.validate_map_value hvalid) (Problem.validate_map_value hvalid')
    (Options.validate_map_value ho) (Problem.length_map_value hpoint)
    (Problem.length_map_value hpoint')
    (Vec.coords_map_value_reorder (Problem.length_of_validatePoint hpoint) τ _ _)
    (congrArg value hsing) htime hsolve hsolve'
  cases hsame with
  | ok h =>
    refine .ok ⟨h.status, h.iterations, h.objectiveValue, h.history, ?_, ?_⟩
    · rw [h.primal, Problem.variablePlaces, Vec.reorder_finCongr]
    · rw [h.slack, Problem.constraintPlaces, Vec.reorder_finCongr]
  | error e => exact .error e
  | fault => exact .fault

end Reorder

/-- **The order of constraints and variables does not matter.** In exact arithmetic in which a
division by zero is undefined, take a valid problem, valid options without a tolerance for singular
systems and without a time limit, any stopping rule and any starting point. Solve the problem, and
solve it with its variables and constraints listed in another order, from the starting point in that
order, under any two clocks. The answers are the same: solutions with the same status, iterations,
objective and history, whose variables and slacks are those of each other in that order, or else
twice the same error, or two breakdowns. They are solutions whenever the starting point is one of
the problem and the sizes fit. -/
theorem solve_order_independent (hvalid : p.validate = .ok ())
    (ho : a.options.validate = .ok ()) (hsing : a.options.singularTolerance = 0)
    (htime : a.options.maxTime = none) (τ : Equiv.Perm (Fin p.nvars))
    (σ : Equiv.Perm (Fin p.ncons)) (hr : (a.solve p start).Yields r)
    (hr' : (a.solve (p.reorder τ σ) (Vec.reorder τ start)).Yields r') :
    SameAnswer τ σ r r' ∧
      (p.validatePoint start = .ok () → (p.ncons + 1) * (p.nvars + p.ncons + 1) < 2 ^ 64 →
        a.options.maxIterations < 2 ^ 64 → ∃ sol, r = .ok sol) := by
  constructor
  · rcases hpoint : p.validatePoint start with e | u
    · exact solve_reorder_of_bad_point hvalid ho τ σ hpoint hr hr'
    · exact solve_reorder_of_point hvalid ho τ σ hsing htime hpoint hr hr'
  · intro hpoint hfit hmax
    exact exists_solution hvalid ho hpoint ⟨hfit, Checked.stores _⟩ hmax hr

/-- The two constraints of the example change places, and so do its variables. -/
theorem twoByTwo_order_independent : ∃ sol sol' : Solution (Checked ℚ),
    (solve ⟨twoSteps.map number, .stepNorm⟩ (Problem.twoByTwo.map number)
      [number 1, number (1 / 2)]).Yields (.ok sol) ∧
    (solve ⟨twoSteps.map number, .stepNorm⟩
      ((Problem.twoByTwo.map number).reorder (finRotate 2) (finRotate 2))
      [number (1 / 2), number 1]).Yields (.ok sol') ∧
    sol.iterations = 2 ∧
    SameSolution (finRotate 2) (finRotate 2) sol sol' := by
  obtain ⟨sol, hsol, htwo⟩ := Timed.exists_yields_ok
    (x := solve ⟨twoSteps.map number, .stepNorm⟩ (Problem.twoByTwo.map number)
      [number 1, number (1 / 2)])
    (P := fun sol => sol.iterations = 2) (by decide +kernel)
  obtain ⟨sol', hsol', -⟩ := Timed.exists_yields_ok
    (x := solve ⟨twoSteps.map number, .stepNorm⟩
      ((Problem.twoByTwo.map number).reorder (finRotate 2) (finRotate 2))
      [number (1 / 2), number 1])
    (P := fun sol => sol.iterations = 2) (by decide +kernel)
  obtain ⟨hsame, -⟩ := solve_order_independent (p := Problem.twoByTwo.map number) rfl
    (Options.validate_map_number.mpr twoSteps_validate) rfl rfl (finRotate 2) (finRotate 2) hsol
    hsol'
  cases hsame with
  | ok h => exact ⟨sol, sol', hsol, hsol', htwo, h⟩

end AffineScaling

end LinProg
