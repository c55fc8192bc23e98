import LinProg.Proofs.Affine.Sizes
import LinProg.Proofs.Rounded.Overflow
import LinProg.Proofs.Simplex.Budgets
import LinProg.Proofs.Simplex.Rounding
import LinProg.Solver

/-!
# What an overflow leaves of an optimal solution

Affine scaling accepts only finite iterates, so an optimal solution of it has finite variables and
slacks. The simplex method looks at no value but the sign of reduced costs and ratios: a right-hand
side that has overflowed stays infinite or not a number up to the last tableau
(`Steps.isFinite_visited`), and the solution read off there counts as optimal all the same
(`overflow_counts_as_optimal`). Neither method looks at the objective.
-/

namespace LinProg

variable {α : Type} [Scalar α]

namespace Simplex

variable {tolerance : α} {T₀ T T' : Tableau α} {n m row column : ℕ} {made : List (Pivot α)}

theorem Steps.shaped (h : Steps tolerance T₀ made T) (hT₀ : T₀.Shaped n m) : T.Shaped n m :=
  h.invariant (I := fun _ T => T.Shaped n m) hT₀
    fun _ _ _ _ _ _ hT hstep => shaped_of_step? hT hstep

theorem Steps.shaped_visited (h : Steps tolerance T₀ made T) (hT₀ : T₀.Shaped n m) :
    ∀ U ∈ visited T₀ made, U.Shaped n m := by
  intro U hU
  rcases List.mem_cons.mp hU with rfl | hU
  · exact hT₀
  · obtain ⟨V, hV, rfl⟩ := List.mem_map.mp hU
    obtain ⟨⟨earlier, hbefore⟩, hstep⟩ := h.of_mem V hV
    exact shaped_of_step? (hbefore.shaped hT₀) hstep

section Lasting

variable [LastingOverflow α]

theorem isFinite_of_pivoted (h : T.Pivoted T' n m row column) {i j : ℕ} (hi : i ≤ m)
    (hj : j ≤ n + m) (hne : j ≠ column) (hfinite : Scalar.isFinite (T'.entry i j) = true) :
    Scalar.isFinite (T.entry i j) = true := by
  by_cases hrow : i = row
  · subst hrow
    rw [h.pivotRow j hj, if_neg hne] at hfinite
    exact LastingOverflow.isFinite_of_div hfinite
  · rw [h.others i hi hrow j hj, if_neg hne] at hfinite
    split at hfinite
    · exact hfinite
    · exact LastingOverflow.isFinite_of_sub hfinite

theorem isFinite_rhs_of_step? (h : T.Shaped n m)
    (hstep : step? tolerance T = some (.pivoted row column, T')) {i : ℕ} (hi : i ≤ m)
    (hfinite : Scalar.isFinite (T'.entry i (n + m)) = true) :
    Scalar.isFinite (T.entry i (n + m)) = true := by
  obtain ⟨hq, hl, hp⟩ := pivoted_of_step? hstep
  have hc := (h.not_le_of_entering hq).1
  have hr := (h.not_le_of_leaving hc.le hl).1
  exact isFinite_of_pivoted (h.pivoted hr hc.le hp) hi le_rfl hc.ne' hfinite

/-- **An overflow lasts**: a right-hand side that is finite in the end has been finite in all
tableaux on the way. -/
theorem Steps.isFinite_visited (h : Steps tolerance T₀ made T) (hT₀ : T₀.Shaped n m) {i : ℕ}
    (hi : i ≤ m) (hfinite : Scalar.isFinite (T.entry i (n + m)) = true) :
    ∀ U ∈ visited T₀ made, Scalar.isFinite (U.entry i (n + m)) = true := by
  revert hfinite
  refine h.invariant (I := fun made T => Scalar.isFinite (T.entry i (n + m)) = true →
    ∀ U ∈ visited T₀ made, Scalar.isFinite (U.entry i (n + m)) = true) ?_ ?_
  · intro hfinite U hU
    obtain rfl := List.mem_singleton.mp hU
    exact hfinite
  · intro made T row column T' hsteps ih hstep hfinite U hU
    rw [visited_append] at hU
    rcases List.mem_append.mp hU with hU | hU
    · exact ih (isFinite_rhs_of_step? (hsteps.shaped hT₀) hstep hi hfinite) U hU
    · obtain rfl := List.mem_singleton.mp hU
      exact hfinite

theorem Steps.isFinite_objective_iff (h : Steps tolerance T₀ made T) (hT₀ : T₀.Shaped n m)
    (hstart : Scalar.isFinite T₀.objective = true) :
    Scalar.isFinite T.objective = true ↔
      ∀ V ∈ made, Scalar.isFinite V.after.objective = true := by
  constructor
  · intro hfinite V hV
    rw [(h.shaped hT₀).objective_eq] at hfinite
    have hmem : V.after ∈ visited T₀ made := List.mem_cons_of_mem _ (List.mem_map_of_mem hV)
    rw [(h.shaped_visited hT₀ _ hmem).objective_eq]
    exact h.isFinite_visited hT₀ le_rfl hfinite _ hmem
  · intro hall
    -- the last tableau is the first one or the one after the last pivot
    have hlast := List.mem_of_getLast? h.getLast?_visited
    rcases List.mem_cons.mp hlast with rfl | hlast
    · exact hstart
    · obtain ⟨V, hV, rfl⟩ := List.mem_map.mp hlast
      exact hall V hV

end Lasting

theorem values_of_run {o : Options α} {sol : Solution α} (hT₀ : T₀.Shaped n m)
    (hr : (run o T₀).Yields (some (sol, T))) (hopt : sol.status = .optimal) :
    T.Shaped n m ∧ T.entering o.zeroTolerance = none ∧
      T.primal? o.zeroTolerance = some sol.primal ∧ T.slack? o.zeroTolerance = some sol.slack ∧
      sol.objectiveValue = T.objective := by
  obtain ⟨status, Q, time, hQ, hend, hsome⟩ := run_yields (I := fun P => P.tableau.Shaped n m)
    (fun P hP => by
      obtain ⟨a, T', hstep⟩ := exists_step?_eq_some hP o.zeroTolerance
      refine ⟨a, T', hstep, ?_⟩
      rintro row column rfl elapsed
      exact shaped_of_step? hP hstep)
    hT₀ hr
  obtain ⟨hn, hm⟩ := stores_of_run hr
  rw [hT₀.nvars] at hn
  rw [hT₀.ncons_eq] at hm
  obtain ⟨sol', hreport, rfl, hvalues⟩ := report?_eq_some hQ hn hm o.zeroTolerance status time
  rw [hreport] at hsome
  cases hsome
  rw [hopt] at hend
  exact ⟨hQ, hend, hvalues hopt⟩

/-- The values of an optimal solution come from the right-hand sides of the last tableau. -/
structure ReadOff (p : Problem α) (o : Options α) (sol : Solution α) (made : List (Pivot α))
    (T : Tableau α) : Prop where
  steps : Steps o.zeroTolerance (Tableau.initial p) made T
  entering : T.entering o.zeroTolerance = none
  objectives : sol.stats.history.toList.map (·.objective) = made.map (·.after.objective)
  objective : sol.objectiveValue = T.objective
  values : ∀ v ∈ sol.primal ++ sol.slack, v = 0 ∨ ∃ i < p.ncons, T.rhs? i = some v

variable {p : Problem α} {o : Options α} {sol : Solution α}

theorem exists_readOff (hr : (solve o p).Yields (.ok sol)) (hopt : sol.status = .optimal) :
    sol.primal.length = p.nvars ∧ sol.slack.length = p.ncons ∧
      (Tableau.initial p).Shaped p.nvars p.ncons ∧ ∃ made T, ReadOff p o sol made T := by
  obtain ⟨-, T₀, T, hT, hrun⟩ := solve_yields_ok hr
  obtain ⟨hv, -, hroom, rfl⟩ := Tableau.of_eq_ok_iff.mp hT
  have hshaped := Tableau.initial_shaped hv hroom.1
  obtain ⟨hn, hm⟩ := Tableau.stores_of_room hroom
  obtain ⟨made, hsteps, -, hobjectives, -⟩ := run_made hrun
  obtain ⟨hlast, hentering, hx, hs, hobjective⟩ := values_of_run hshaped hrun hopt
  obtain ⟨x, s, hx', hs', hxlen, hslen, hvalues⟩ :=
    hlast.exists_primal?_slack? hn hm o.zeroTolerance
  rw [hx, Option.some.injEq] at hx'
  rw [hs, Option.some.injEq] at hs'
  subst hx' hs'
  obtain ⟨hprimal, hslack⟩ := hvalues (fun v => v = 0 ∨ ∃ i < p.ncons, T.rhs? i = some v)
    (Or.inl rfl) fun i hi => Or.inr ⟨i, hi, hlast.rhs?_eq hi.le⟩
  refine ⟨hxlen, hslen, hshaped, made, T, hsteps, hentering, hobjectives, hobjective, ?_⟩
  intro v hv
  rcases List.mem_append.mp hv with hv | hv
  · exact hprimal v hv
  · exact hslack v hv

theorem isFinite_initial_objective [LastingOverflow α] (p : Problem α) :
    Scalar.isFinite (Tableau.initial p).objective = true := by
  have hzero : (Tableau.initial p).objective = 0 := by
    rw [Tableau.objective, Tableau.initial, List.getLastD_eq_getLast?, List.getLast?_append,
      List.getLast?_replicate, if_neg (Nat.succ_ne_zero _)]
    rfl
  rw [hzero]
  exact LastingOverflow.isFinite_zero

namespace ReadOff

variable [LastingOverflow α] {made : List (Pivot α)} {T : Tableau α} (h : ReadOff p o sol made T)
include h

theorem isFinite_objective_iff (hshaped : (Tableau.initial p).Shaped p.nvars p.ncons) :
    Scalar.isFinite sol.objectiveValue = true ↔
      ∀ r ∈ sol.stats.history.toList, Scalar.isFinite r.objective = true := by
  rw [h.objective, h.steps.isFinite_objective_iff hshaped (isFinite_initial_objective p)]
  have hhistory := List.forall_mem_map (l := sol.stats.history.toList) (f := (·.objective))
    (P := fun v => Scalar.isFinite v = true)
  have hmade := List.forall_mem_map (l := made) (f := (·.after.objective))
    (P := fun v => Scalar.isFinite v = true)
  rw [← hhistory, h.objectives, hmade]

theorem isFinite_rhs_visited (hshaped : (Tableau.initial p).Shaped p.nvars p.ncons) {i : ℕ}
    (hi : i ≤ p.ncons) {v : α} (hv : T.rhs? i = some v) (hfinite : Scalar.isFinite v = true) :
    ∀ U ∈ visited (Tableau.initial p) made, ∃ u, U.rhs? i = some u ∧
      Scalar.isFinite u = true := by
  intro U hU
  rw [(h.steps.shaped hshaped).rhs?_eq hi, Option.some.injEq] at hv
  rw [← hv] at hfinite
  refine ⟨_, (h.steps.shaped_visited hshaped U hU).rhs?_eq hi, ?_⟩
  exact h.steps.isFinite_visited hshaped hi hfinite U hU

theorem allFinite (hrhs : ∀ i < p.ncons, ∀ v, T.rhs? i = some v → Scalar.isFinite v = true) :
    Vec.allFinite sol.primal = true ∧ Vec.allFinite sol.slack = true := by
  have hall : ∀ v ∈ sol.primal ++ sol.slack, Scalar.isFinite v = true := by
    intro v hv
    rcases h.values v hv with rfl | ⟨i, hi, hv⟩
    · exact LastingOverflow.isFinite_zero
    · exact hrhs i hi v hv
  rw [List.forall_mem_append] at hall
  exact ⟨List.all_eq_true.mpr hall.1, List.all_eq_true.mpr hall.2⟩

end ReadOff

end Simplex

namespace AffineScaling

variable {a : AffineScaling α} {w : Workspace α} {point : InteriorPoint α} {n m : ℕ}
  {p : Problem α} {start : List α} {sol : Solution α}

theorem last_of_run (hw : w.Sized n m) (hpoint : point.Sized n m) (hzero : point.iteration = 0)
    (hr : (a.run w point).Yields (some sol)) (hopt : sol.status = .optimal) :
    ∃ last : InteriorPoint α, last.Sized n m ∧ Vec.allFinite last.x = true ∧
      sol.primal = last.x.take n ∧ sol.slack = last.x.drop n ∧
      w.objective? last.x = some sol.objectiveValue := by
  obtain ⟨first, ended, time, hended, hsol⟩ := run_yields hr
  rcases ended with _ | ⟨status, Q⟩
  · cases hsol
  · have hreport : some sol = report? w status Q time := hsol
    obtain rfl : status = .optimal := (status_of_report? hreport.symm).symm.trans hopt
    obtain ⟨l, P, last, record, effort, elapsed, hP, hstep, rfl⟩ :=
      iterate_yields_optimal .start hended
    obtain ⟨hsized, -, hfinite, -⟩ :=
      Advances.sized (Or.inr hstep) hw (hP.sized hw hpoint hzero).1
    obtain ⟨sol', hsol', -, hvalues⟩ :=
      exists_report? (P := P.advanced last record elapsed effort) hw hsized .optimal time
    rw [← hreport, Option.some.injEq] at hsol'
    subst hsol'
    exact ⟨last, hsized, hfinite, hvalues rfl⟩

theorem isFinite_of_optimal (hr : (a.solve p start).Yields (.ok sol))
    (hopt : sol.status = .optimal) : sol.primal.length = p.nvars ∧ sol.slack.length = p.ncons ∧
      Vec.allFinite sol.primal = true ∧ Vec.allFinite sol.slack = true ∧
      sol.objectiveValue = Vec.dot p.cost sol.primal := by
  rcases solve_yields hr with
    ⟨w, point, hbegin, s, hs, hsol⟩ | ⟨status, hbegin, hsol⟩ | ⟨e, -, hsol⟩ | ⟨-, hsol⟩
  · obtain ⟨hv, -, -, -, hof⟩ := begin_eq_at_iff.mp hbegin
    obtain ⟨hw, hpoint, hzero⟩ := sized_of_begin hbegin
    rcases s with _ | s
    · cases hsol
    · cases hsol
      obtain ⟨last, hsized, hfinite, hprimal, hslack, hobjective⟩ :=
        last_of_run hw hpoint hzero hs hopt
      have hall := List.all_eq_true.mp hfinite
      rw [Workspace.objective?_of_of? hv hof hsized.length, ← hprimal,
        Option.some.injEq] at hobjective
      refine ⟨?_, ?_, ?_, ?_, hobjective.symm⟩
      · rw [hprimal, hsized.length_values.1]
      · rw [hslack, hsized.length_values.2]
      · rw [hprimal]
        exact List.all_eq_true.mpr fun v hv => hall v (List.mem_of_mem_take hv)
      · rw [hslack]
        exact List.all_eq_true.mpr fun v hv => hall v (List.mem_of_mem_drop hv)
  · have hkeeps := keepsIterate_of_begin_rejected hbegin
    obtain ⟨-, rfl⟩ := Solution.terminated?_eq_some_iff.mp (Outcome.ofOption_eq_ok.mp hsol.symm)
    have hstatus : status = .optimal := hopt
    rw [hstatus] at hkeeps
    cases hkeeps
  · cases hsol
  · cases hsol

end AffineScaling

/-- **What an overflow leaves of an optimal solution.** In an arithmetic where an overflow lasts,
the machine formats among them, for every solve that ends optimal, by either method, with any
starting point and options:

* there are values for all variables and slacks;
* affine scaling: all of them are finite, and the objective is the product of the cost and the
  variables, finite or not;
* the simplex method: the values are zeros and right-hand sides of the last tableau, so they are
  finite if these are, and what is finite there has been finite in all tableaux on the way. The
  objective is finite if and only if all objectives of the history are.

A solve returns only for a valid problem and valid options. -/
theorem Solver.optimal_solution_overflow [LastingOverflow α] {s : Solver α} {p : Problem α}
    {sol : Solution α} (hr : (s.solve p).Yields (.ok sol)) (hopt : sol.status = .optimal) :
    sol.primal.length = p.nvars ∧ sol.slack.length = p.ncons ∧
    (s.method = .affineScaling →
      Vec.allFinite sol.primal = true ∧ Vec.allFinite sol.slack = true ∧
      sol.objectiveValue = Vec.dot p.cost sol.primal) ∧
    (s.method = .simplex →
      (Scalar.isFinite sol.objectiveValue = true ↔
        ∀ r ∈ sol.stats.history.toList, Scalar.isFinite r.objective = true) ∧
      ∃ made T, Simplex.ReadOff p s.options sol made T ∧
        (∀ i ≤ p.ncons, ∀ v, T.rhs? i = some v → Scalar.isFinite v = true →
          ∀ U ∈ Simplex.visited (Tableau.initial p) made,
            ∃ u, U.rhs? i = some u ∧ Scalar.isFinite u = true) ∧
        ((∀ i < p.ncons, ∀ v, T.rhs? i = some v → Scalar.isFinite v = true) →
          Vec.allFinite sol.primal = true ∧ Vec.allFinite sol.slack = true)) := by
  unfold solve at hr
  split at hr
  · cases hr
  · rename_i start hmethod _
    obtain ⟨r, hr, hok⟩ := Timed.yields_bind.mp hr
    obtain rfl : r = .ok sol := Outcome.mapError_eq_ok.mp hok
    obtain ⟨hxlen, hslen, hvalues⟩ := AffineScaling.isFinite_of_optimal hr hopt
    refine ⟨hxlen, hslen, fun _ => hvalues, fun hsimplex => ?_⟩
    rw [hmethod] at hsimplex
    cases hsimplex
  · rename_i hmethod
    obtain ⟨r, hr, hok⟩ := Timed.yields_bind.mp hr
    obtain rfl : r = .ok sol := Outcome.mapError_eq_ok.mp hok
    obtain ⟨hxlen, hslen, hshaped, made, T, hread⟩ := Simplex.exists_readOff hr hopt
    refine ⟨hxlen, hslen, fun haffine => ?_, fun _ => ?_⟩
    · rw [hmethod] at haffine
      cases haffine
    · exact ⟨hread.isFinite_objective_iff hshaped, made, T, hread,
        fun i hi v hv hfinite => hread.isFinite_rhs_visited hshaped hi hv hfinite,
        hread.allFinite⟩

theorem roundedTwoByTwo_optimal : ∃ sol,
    (Solver.solve ⟨.simplex, Options.default, none⟩ Simplex.roundedTwoByTwo).Yields (.ok sol) ∧
    sol.status = .optimal ∧ (Scalar.isFinite sol.objectiveValue = true ↔
      ∀ r ∈ sol.stats.history.toList, Scalar.isFinite r.objective = true) ∧
    ∃ affine, (Solver.solve ⟨.affineScaling, Options.withTolerance 1, some [1, 1]⟩
        Simplex.roundedTwoByTwo).Yields (.ok affine) ∧
      affine.status = .optimal ∧ Vec.allFinite affine.primal = true := by
  obtain ⟨sol, hyields, hopt⟩ := Timed.exists_yields_ok
    (x := Solver.solve ⟨.simplex, Options.default, none⟩ Simplex.roundedTwoByTwo)
    (P := fun sol => sol.status = .optimal) (by decide +kernel)
  obtain ⟨affine, hyields', hopt'⟩ := Timed.exists_yields_ok
    (x := Solver.solve ⟨.affineScaling, Options.withTolerance 1, some [1, 1]⟩
      Simplex.roundedTwoByTwo)
    (P := fun sol => sol.status = .optimal) (by decide +kernel)
  obtain ⟨-, -, -, hsimplex⟩ := Solver.optimal_solution_overflow hyields hopt
  obtain ⟨-, -, haffine, -⟩ := Solver.optimal_solution_overflow hyields' hopt'
  exact ⟨sol, hyields, hopt, (hsimplex rfl).1, affine, hyields', hopt', (haffine rfl).1⟩

/-- Maximise `x` subject to `1e-8 x ≤ 1e308`, in binary64: the ratio overflows. -/
def farBound : Problem Float := ⟨[1], ⟨1, 1, [1e-8]⟩, [1e308]⟩

/-- Maximise `1e308 (x₀ + x₁)` subject to `x₀ ≤ 4` and `x₁ ≤ 4`, in binary64. -/
def steepBox : Problem Float := ⟨[1e308, 1e308], ⟨2, 2, [1, 0, 0, 1]⟩, [4, 4]⟩

/-- **An overflow counts as optimal.** The simplex method reports an infinite variable and an
infinite objective as an optimum of `farBound`. Affine scaling reports an infinite objective of a
finite point as one of `steepBox`, with a tolerance of ten. -/
theorem overflow_counts_as_optimal :
    (farBound.validate = .ok () ∧ (Options.default : Options Float).validate = .ok () ∧
      ∃ sol, (Solver.solve ⟨.simplex, Options.default, none⟩ farBound).Yields (.ok sol) ∧
        sol.status = .optimal ∧ Vec.allFinite sol.primal = false ∧
        Scalar.isFinite sol.objectiveValue = false) ∧
    steepBox.validate = .ok () ∧ (Options.withTolerance 10 : Options Float).validate = .ok () ∧
      ∃ sol, (Solver.solve ⟨.affineScaling, Options.withTolerance 10, some [1, 1]⟩ steepBox).Yields
          (.ok sol) ∧
        sol.status = .optimal ∧ Vec.allFinite sol.primal = true ∧
        Scalar.isFinite sol.objectiveValue = false := by
  refine ⟨⟨Problem.validate_eq_ok_iff.mpr (by decide +kernel),
    Options.validate_eq_ok_iff.mpr (by decide +kernel), ?_⟩,
    Problem.validate_eq_ok_iff.mpr (by decide +kernel),
    Options.validate_eq_ok_iff.mpr (by decide +kernel), ?_⟩
  · exact Timed.exists_yields_ok
      (x := Solver.solve ⟨.simplex, Options.default, none⟩ farBound)
      (P := fun sol => sol.status = .optimal ∧ Vec.allFinite sol.primal = false ∧
        Scalar.isFinite sol.objectiveValue = false) (by decide +kernel)
  · exact Timed.exists_yields_ok
      (x := Solver.solve ⟨.affineScaling, Options.withTolerance 10, some [1, 1]⟩ steepBox)
      (P := fun sol => sol.status = .optimal ∧ Vec.allFinite sol.primal = true ∧
        Scalar.isFinite sol.objectiveValue = false) (by decide +kernel)

end LinProg
