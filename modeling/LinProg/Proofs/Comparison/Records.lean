import LinProg.Proofs.Comparison.Overflow

/-!
# Which numbers of a solution can overflow

Whatever ends a solve, affine scaling reports finite variables and slacks, and the simplex method
keeps a record without step lengths and projected costs. In both the objective of a solution is
zero or that of the last record, so it is finite if all objectives of the record are.
-/

namespace LinProg

variable {α : Type} [Scalar α]

namespace AffineScaling

variable {a : AffineScaling α} {w : Workspace α} {point : InteriorPoint α} {n m : ℕ}
  {p : Problem α} {start : List α} {sol : Solution α} {status : Status}

theorem iterate_yields_kept {start : Duration} {P₀ P Q : Progress α} {k budget : ℕ}
    (hP : Reached a w P₀ k P) (hkeeps : keepsIterate status = true)
    (hr : (iterate a w start budget P).Yields (some (status, Q))) :
    budget = 0 ∧ Q = P ∨
      ∃ l P point record effort elapsed, Reached a w P₀ l P ∧
        Advances a w P.point P.effort point record effort ∧
        Q = P.advanced point record elapsed effort := by
  obtain ⟨l, R, left, hcount, hgoing, hlast⟩ := iterate_yields_turns .start hr
  cases hlast with
  | stopped hstep => cases hkeeps
  | failed hstep => cases hkeeps
  | converged hstep now => exact Or.inr ⟨k + l, R, _, _, _, _, hgoing.reached hP, Or.inr hstep, rfl⟩
  | late hstep now hlate =>
    exact Or.inr ⟨k + l, R, _, _, _, _, hgoing.reached hP, Or.inl hstep, rfl⟩
  | spent =>
    cases hgoing with
    | start => exact Or.inl ⟨by omega, rfl⟩
    | step h hstep now hintime =>
      exact Or.inr ⟨_, _, _, _, _, _, h.reached hP, Or.inl hstep, rfl⟩

section Finite

variable [LastingOverflow α]

theorem allFinite_replicate_zero (k : ℕ) : Vec.allFinite (List.replicate k (0 : α)) = true := by
  refine List.all_eq_true.mpr fun v hv => ?_
  rw [List.eq_of_mem_replicate hv]
  exact LastingOverflow.isFinite_zero

theorem isFinite_of_run (hw : w.Sized n m) (hpoint : point.Sized n m) (hzero : point.iteration = 0)
    (hmax : a.options.maxIterations ≠ 0) (hr : (a.run w point).Yields (some sol)) :
    Vec.allFinite sol.primal = true ∧ Vec.allFinite sol.slack = true ∧
      (sol.objectiveValue = 0 ∨
        ∃ r ∈ sol.stats.history.toList, r.objective = sol.objectiveValue) := by
  obtain ⟨first, ended, time, hended, hsol⟩ := run_yields hr
  obtain ⟨⟨status, Q⟩, rfl, hreport⟩ := Option.bind_eq_some_iff.mp hsol.symm
  dsimp only at hreport
  cases hkeeps : keepsIterate status with
  | false =>
    obtain ⟨hprimal, hslack, hobjective⟩ := terminated_of_report? hkeeps hreport
    rw [hprimal, hslack]
    exact ⟨allFinite_replicate_zero _, allFinite_replicate_zero _, Or.inl hobjective⟩
  | true =>
    rcases iterate_yields_kept .start hkeeps hended with ⟨hnone, -⟩ | hlast
    · exact absurd hnone hmax
    obtain ⟨l, P, last, record, effort, elapsed, hP, hstep, rfl⟩ := hlast
    obtain ⟨hsized, -, hfinite, hobjective⟩ := hstep.sized hw (hP.sized hw hpoint hzero).1
    obtain ⟨sol', hsol', hhistory, hvalues⟩ :=
      exists_report? (P := P.advanced last record elapsed effort) hw hsized status time
    rw [hreport, Option.some.injEq] at hsol'
    subst hsol'
    obtain ⟨hprimal, hslack, hvalue⟩ := hvalues hkeeps
    have hall := List.all_eq_true.mp hfinite
    refine ⟨?_, ?_, Or.inr ⟨{ record with elapsed := elapsed }, ?_, ?_⟩⟩
    · rw [hprimal]
      exact List.all_eq_true.mpr fun v hv => hall v (List.mem_of_mem_take hv)
    · rw [hslack]
      exact List.all_eq_true.mpr fun v hv => hall v (List.mem_of_mem_drop hv)
    · rw [hhistory]
      simp [Progress.advanced]
    · exact Option.some.inj (hobjective.symm.trans hvalue)

theorem isFinite_of_solve (hr : (a.solve p start).Yields (.ok sol)) :
    Vec.allFinite sol.primal = true ∧ Vec.allFinite sol.slack = true ∧
      (sol.objectiveValue = 0 ∨
        ∃ r ∈ sol.stats.history.toList, r.objective = sol.objectiveValue) := by
  rcases solve_yields hr with
    ⟨w, point, hbegin, s, hs, hsol⟩ | ⟨status, -, hsol⟩ | ⟨e, -, hsol⟩ | ⟨-, hsol⟩
  · obtain ⟨-, ho, -⟩ := begin_eq_at_iff.mp hbegin
    obtain ⟨-, -, -, -, -, -, hmax⟩ := Options.validate_eq_ok_iff.mp ho
    obtain ⟨hw, hpoint, hzero⟩ := sized_of_begin hbegin
    rcases s with _ | s
    · cases hsol
    · cases hsol
      exact isFinite_of_run hw hpoint hzero hmax hs
  · obtain ⟨-, rfl⟩ := Solution.terminated?_eq_some_iff.mp (Outcome.ofOption_eq_ok.mp hsol.symm)
    exact ⟨allFinite_replicate_zero _, allFinite_replicate_zero _, Or.inl rfl⟩
  · cases hsol
  · cases hsol

end Finite

end AffineScaling

namespace Simplex

variable {o : Options α} {p : Problem α} {sol : Solution α}

theorem records_of_solve (hr : (solve o p).Yields (.ok sol)) :
    (∀ r ∈ sol.stats.history.toList, r.stepNorm = none ∧ r.minReducedCost = none) ∧
      (sol.status ≠ .optimal → sol.objectiveValue = 0) := by
  obtain ⟨-, T₀, T, hT, hrun⟩ := solve_yields_ok hr
  obtain ⟨hv, -, hroom, rfl⟩ := Tableau.of_eq_ok_iff.mp hT
  obtain ⟨status, Q, time, ⟨-, hQ⟩, -, hsome⟩ := run_yields
    (I := fun P => P.tableau.Shaped p.nvars p.ncons ∧
      ∀ r ∈ P.stats.history.toList, r.stepNorm = none ∧ r.minReducedCost = none)
    (fun P hP => by
      obtain ⟨a, T', hstep⟩ := exists_step?_eq_some hP.1 o.zeroTolerance
      refine ⟨a, T', hstep, ?_⟩
      rintro row column rfl elapsed
      refine ⟨shaped_of_step? hP.1 hstep, fun r hr => ?_⟩
      simp only [Progress.pivoted, Stats.push, Array.toList_push, List.mem_append,
        List.mem_singleton] at hr
      rcases hr with hr | rfl
      · exact hP.2 r hr
      · exact ⟨rfl, rfl⟩)
    ⟨Tableau.initial_shaped hv hroom.1, by simp⟩ hrun
  obtain ⟨sol', hreport, heq⟩ := Option.map_eq_some_iff.mp hsome.symm
  cases heq
  obtain ⟨hstatus, -, -, hhistory⟩ := stats_of_report? hreport
  refine ⟨fun r hr => hQ r (hhistory ▸ hr), fun hne => ?_⟩
  rw [report?, if_neg (hstatus ▸ hne), Option.bind_eq_bind, Option.bind_eq_some_iff] at hreport
  obtain ⟨_, hzeros, hreport⟩ := hreport
  obtain ⟨-, rfl⟩ := Solution.terminated?_eq_some_iff.mp hzeros
  cases hreport
  rfl

theorem isFinite_of_solve [LastingOverflow α] (hr : (solve o p).Yields (.ok sol))
    (hrecord : ∀ r ∈ sol.stats.history.toList, Scalar.isFinite r.objective = true) :
    Scalar.isFinite sol.objectiveValue = true := by
  by_cases hopt : sol.status = .optimal
  · obtain ⟨-, -, hshaped, made, T, hread⟩ := exists_readOff hr hopt
    exact (hread.isFinite_objective_iff hshaped).mpr hrecord
  · rw [(records_of_solve hr).2 hopt]
    exact LastingOverflow.isFinite_zero

end Simplex

end LinProg
