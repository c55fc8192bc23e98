import LinProg.Proofs.Simplex.Pivots
import LinProg.Proofs.Tableau.Certificates

/-!
# The verdicts of the simplex method with a tolerance

A positive tolerance leaves entries of the wrong sign unseen: an optimal tableau may have negative
ones in its objective row, and the ratio test may pass over rows, so that basic values turn
negative. What remains of the verdicts in exact arithmetic does not need the basic point
(`tolerant_verdicts_sound`): an optimal value is missed by at most the tolerance times the sum of a
point's variables and slacks, and an unbounded column gives a direction that gains more than the
tolerance and has no coordinate below its negative.
-/

open scoped Matrix

namespace LinProg

/-- The variables and slacks of a solution. -/
def Solution.point {K : Type} [Zero K] (sol : Solution K) (p : Problem K) :
    Fin (p.nvars + p.ncons) → K :=
  Fin.append (Vec.coords p.nvars sol.primal) (Vec.coords p.ncons sol.slack)

namespace Simplex

variable {K : Type} [Field K] [LinearOrder K] [Exact K] {p : Problem K} {T T' : Tableau K} {t : K}

theorem step?_represents (h : T.Represents p) (ht : 0 ≤ t) :
    ∃ a T', step? t T = some (a, T') ∧
      ∀ row column, a = .pivoted row column → T'.Represents p := by
  obtain ⟨a, T', hstep⟩ := exists_step?_eq_some h.shaped t
  refine ⟨a, T', hstep, ?_⟩
  rintro row column rfl
  exact represents_of_step? h ht hstep

theorem run_represents {o : Options K} (ht : 0 ≤ o.zeroTolerance) (hT : Tableau.of p = .ok T)
    {r : Option (Solution K × Tableau K)} (hr : (run o T).Yields r) :
    ∃ sol T', r = some (sol, T') ∧ T'.Represents p ∧ Ended o.zeroTolerance T' sol.status ∧
      (sol.status = .optimal → T'.primal? o.zeroTolerance = some sol.primal ∧
        T'.slack? o.zeroTolerance = some sol.slack ∧ sol.objectiveValue = T'.objective) := by
  obtain ⟨hv, -, hroom, rfl⟩ := Tableau.of_eq_ok_iff.mp hT
  obtain ⟨status, Q, time, hQ, hend, rfl⟩ :=
    run_yields (I := fun P => P.tableau.Represents p)
      (fun P hP => by
        obtain ⟨a, T', hstep, hnext⟩ := step?_represents hP ht
        exact ⟨a, T', hstep, fun row column ha _ => hnext row column ha⟩)
      (Tableau.represents_initial hv hroom.1) hr
  obtain ⟨sol, hsol, rfl, hvalues⟩ := report?_eq_some hQ.shaped (Exact.stores _) (Exact.stores _)
    o.zeroTolerance status time
  exact ⟨sol, Q.tableau, by rw [hsol]; rfl, hQ, hend, hvalues⟩

/-- What the status of a solution says about the problem when the tolerance is `t`, with the last
tableau of the run. -/
structure VerdictWithin (p : Problem K) (t : K) (sol : Solution K) (T : Tableau K) : Prop where
  status : sol.status = .optimal ∨ sol.status = .unbounded ∨ sol.status = .maxIterations
  optimal : sol.status = .optimal → ∀ y, p.Feasible y →
    p.costs ⬝ᵥ y ≤ sol.objectiveValue + t * (∑ j, y j + ∑ i, (p.bounds - p.coeffs *ᵥ y) i)
  /-- The last step finds a column, and along its direction the objective grows. -/
  unbounded : sol.status = .unbounded → ∃ q : Fin (p.nvars + p.ncons),
    step? t T = some (.unbounded q, T) ∧ ∃ d : Fin (p.nvars + p.ncons) → K,
      d q = 1 ∧
      (∀ (i : ℕ) (c : Fin (p.nvars + p.ncons)), T.basis[i]? = some c.val →
        T.get? i q = some (-d c)) ∧
      (∀ j, j ≠ q → j.val ∉ T.basis → d j = 0) ∧
      p.augmented *ᵥ d = 0 ∧
      t < p.costs ⬝ᵥ (fun j => d (Fin.castAdd p.ncons j)) ∧
      ∀ j, -t ≤ d j

theorem solve_represents {o : Options K} {sol : Solution K} (hr : (solve o p).Yields (.ok sol)) :
    ∃ T, T.Represents p ∧ Ended o.zeroTolerance T sol.status ∧
      (sol.status = .optimal → T.primal? o.zeroTolerance = some sol.primal ∧
        T.slack? o.zeroTolerance = some sol.slack ∧ sol.objectiveValue = T.objective) := by
  obtain ⟨ho, T, T', hT, hrun⟩ := solve_yields_ok hr
  obtain ⟨-, -, ⟨ht, -⟩, -⟩ := Options.validate_eq_ok_iff.mp ho
  obtain ⟨_, _, hsome, hrep, hend, hvalues⟩ := run_represents ht hT hrun
  cases hsome
  exact ⟨T', hrep, hend, hvalues⟩

variable [IsStrictOrderedRing K]

theorem value_le_of_optimal {o : Options K} {sol : Solution K}
    (hr : (solve o p).Yields (.ok sol)) (hopt : sol.status = .optimal)
    {z : Fin (p.nvars + p.ncons) → K} (hz : p.augmented *ᵥ z = p.bounds) (hnonneg : ∀ j, 0 ≤ z j) :
    p.augmentedCosts ⬝ᵥ z ≤ sol.objectiveValue + o.zeroTolerance * ∑ j, z j := by
  obtain ⟨T, hrep, hend, hvalues⟩ := solve_represents hr
  obtain ⟨-, -, hobjective⟩ := hvalues hopt
  rw [hopt] at hend
  rw [hobjective]
  exact hrep.value_le_of_solves (hrep.shaped.entering_eq_none_iff.mp hend) hz hnonneg

theorem point_of_optimal {o : Options K} {sol : Solution K} (hr : (solve o p).Yields (.ok sol))
    (hopt : sol.status = .optimal) (htol : o.zeroTolerance < 1) :
    p.augmented *ᵥ sol.point p = p.bounds ∧
      p.augmentedCosts ⬝ᵥ sol.point p = sol.objectiveValue := by
  obtain ⟨ho, -⟩ := solve_yields_ok hr
  obtain ⟨-, -, ⟨ht, -⟩, -⟩ := Options.validate_eq_ok_iff.mp ho
  obtain ⟨T, hrep, -, hvalues⟩ := solve_represents hr
  obtain ⟨hx, hs, hobjective⟩ := hvalues hopt
  rw [hrep.primal?_eq ht htol, Option.some.injEq] at hx
  rw [hrep.slack?_eq ht htol, Option.some.injEq] at hs
  have hpoint : sol.point p = T.basicPoint p.nvars p.ncons := by
    rw [Solution.point, ← hx, ← hs, Vec.coords_ofFn, Vec.coords_ofFn, Fin.append_castAdd_natAdd]
  rw [hpoint, hobjective]
  exact ⟨hrep.augmented_basicPoint, hrep.value_basicPoint⟩

theorem verdictWithin_of_ended {sol : Solution K} (h : T.Represents p) (ht : 0 ≤ t)
    (hend : Ended t T sol.status)
    (hobjective : sol.status = .optimal → sol.objectiveValue = T.objective) :
    VerdictWithin p t sol T where
  status := hend.status_cases
  optimal := by
    intro hopt y hy
    rw [hopt] at hend
    rw [hobjective hopt]
    exact h.value_le_add (h.shaped.entering_eq_none_iff.mp hend) hy
  unbounded := by
    intro hunb
    rw [hunb] at hend
    obtain ⟨column, hq, hl⟩ := hend
    obtain ⟨hc, hcost⟩ := h.shaped.entering_eq_some hq
    have hnot := h.unitBasis.notMem_basis_of_entering ht hq
    let q : Fin (p.nvars + p.ncons) := ⟨column, hc⟩
    refine ⟨q, step?_of_leaving_eq_none hq hl, T.direction p.nvars p.ncons q,
      h.direction_self hnot, fun i c hi => ?_, fun j hne hj => h.direction_of_notMem hne hj,
      h.augmented_direction q, ?_, ?_⟩
    · obtain ⟨him, hd⟩ := h.direction_of_basis (q := q) hnot hi
      rw [hd, neg_neg, h.shaped.get?_eq him.le hc.le]
    · rw [← Problem.augmentedCosts_dotProduct, h.value_direction]
      exact lt_neg.mpr hcost
    · exact h.neg_le_direction ht hnot ((h.shaped.leaving?_eq_none_iff hc.le).mp hl)

/-- **The verdicts within a tolerance.** In exact arithmetic, every run on the tableau of a valid
problem without negative bounds ends with a solution and its last tableau. With `t` the zero
tolerance:

* an optimal solution is exceeded at no feasible point `y` by more than `t` times the sum of `y` and
  `b - A y`;
* if the problem counts as unbounded, the last step has found a column, and the direction with a one
  there, the negated entries of the column at the basic columns and zeros elsewhere keeps
  `[A | I] z = b`, costs more than `t` and has no coordinate below `-t`.

Only a size that does not fit in a word keeps a problem from having a tableau. -/
theorem tolerant_verdicts_sound {o : Options K} (hvalid : p.validate = .ok ())
    (hrhs : ∀ b ∈ p.rhs, 0 ≤ b) (ho : o.validate = .ok ()) :
    (2 ^ 64 ≤ (p.ncons + 1) * (p.nvars + p.ncons + 1) ∧ Tableau.of p = .fault) ∨
      ∃ T₀, Tableau.of p = .ok T₀ ∧ ∀ r, (run o T₀).Yields r →
        ∃ sol T, r = some (sol, T) ∧ VerdictWithin p o.zeroTolerance sol T := by
  obtain ⟨-, -, ⟨ht, -⟩, -⟩ := Options.validate_eq_ok_iff.mp ho
  rcases Tableau.of_eq_fault_or_ok_of_exact hvalid hrhs with hfault | ⟨-, hT⟩
  · exact Or.inl hfault
  · right
    refine ⟨_, hT, fun r hr => ?_⟩
    obtain ⟨sol, T, rfl, hrep, hend, hvalues⟩ := run_represents ht hT hr
    exact ⟨sol, T, rfl, verdictWithin_of_ended hrep ht hend fun hopt => (hvalues hopt).2.2⟩

/-- Options with a tolerance of one half. -/
def halfTolerance : Options ℚ := { Options.default with zeroTolerance := 1 / 2 }

/-- Maximise `x / 4` subject to `x ≤ 1`: with that tolerance, zero counts as optimal. -/
def quarterCost : Problem ℚ := ⟨[1 / 4], ⟨1, 1, [1]⟩, [1]⟩

/-- Maximise `x` subject to `x / 4 ≤ 1`: with that tolerance, the objective counts as unbounded. -/
def quarterRow : Problem ℚ := ⟨[1], ⟨1, 1, [1 / 4]⟩, [1]⟩

theorem quarters_verdicts :
    (∃ sol T, (run halfTolerance (Tableau.initial quarterCost)).Yields (some (sol, T)) ∧
      sol.status = .optimal ∧ ∀ y, quarterCost.Feasible y → quarterCost.costs ⬝ᵥ y ≤
        sol.objectiveValue + 1 / 2 *
          (∑ j, y j + ∑ i, (quarterCost.bounds - quarterCost.coeffs *ᵥ y) i)) ∧
    ∃ sol T, (run halfTolerance (Tableau.initial quarterRow)).Yields (some (sol, T)) ∧
      sol.status = .unbounded ∧ ∃ d, quarterRow.augmented *ᵥ d = 0 ∧
        1 / 2 < quarterRow.costs ⬝ᵥ (fun j => d (Fin.castAdd quarterRow.ncons j)) ∧
        ∀ j, -(1 / 2) ≤ d j := by
  have hoptions : halfTolerance.validate = .ok () :=
    Options.validate_eq_ok_iff.mpr (by decide +kernel)
  constructor
  · obtain ⟨sol, T, hyields, hopt⟩ := exists_yields_of_status (o := halfTolerance)
      (T := Tableau.initial quarterCost) (show _ = some .optimal by decide +kernel)
    rcases tolerant_verdicts_sound (p := quarterCost) rfl (by decide +kernel) hoptions with
      ⟨hfit, -⟩ | ⟨T₀, hT₀, h⟩
    · exact absurd hfit (by decide)
    · obtain ⟨-, -, -, rfl⟩ := Tableau.of_eq_ok_iff.mp hT₀
      obtain ⟨_, _, hsome, hverdict⟩ := h _ hyields
      cases hsome
      exact ⟨sol, T, hyields, hopt, hverdict.optimal hopt⟩
  · obtain ⟨sol, T, hyields, hunb⟩ := exists_yields_of_status (o := halfTolerance)
      (T := Tableau.initial quarterRow) (show _ = some .unbounded by decide +kernel)
    rcases tolerant_verdicts_sound (p := quarterRow) rfl (by decide +kernel) hoptions with
      ⟨hfit, -⟩ | ⟨T₀, hT₀, h⟩
    · exact absurd hfit (by decide)
    · obtain ⟨-, -, -, rfl⟩ := Tableau.of_eq_ok_iff.mp hT₀
      obtain ⟨_, _, hsome, hverdict⟩ := h _ hyields
      cases hsome
      obtain ⟨q, -, d, -, -, -, hkernel, hgain, hbelow⟩ := hverdict.unbounded hunb
      exact ⟨sol, T, hyields, hunb, d, hkernel, hgain, hbelow⟩

end Simplex

end LinProg
