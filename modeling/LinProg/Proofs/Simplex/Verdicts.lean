import LinProg.Proofs.Simplex.Runs
import LinProg.Proofs.Tableau.Certificates

/-!
# The verdicts of the simplex method

In exact arithmetic with no tolerance, a solve of a valid problem without negative bounds ends with
an optimal point, with the proof that there is none, or with its pivots used up
(`verdicts_sound`).
-/

open scoped Matrix

namespace LinProg.Simplex

variable {K : Type} [Field K] [LinearOrder K] [IsStrictOrderedRing K] [Exact K]
variable {p : Problem K}

theorem step?_primalFeasible {T : Tableau K} (h : T.PrimalFeasible p) :
    ∃ a T', step? 0 T = some (a, T') ∧
      ∀ row column, a = .pivoted row column → T'.PrimalFeasible p := by
  have hshaped := h.represents.shaped
  obtain ⟨a, T', hstep⟩ := exists_step?_eq_some hshaped 0
  refine ⟨a, T', hstep, ?_⟩
  rintro row column rfl
  obtain ⟨hq, hl, hp⟩ := pivoted_of_step? hstep
  exact h.pivot (hshaped.entering_eq_some hq).1 hl hp

/-- What the status of a solution says about the problem. -/
structure VerdictHolds (p : Problem K) (sol : Solution K) : Prop where
  status : sol.status = .optimal ∨ sol.status = .unbounded ∨ sol.status = .maxIterations
  optimal : sol.status = .optimal →
    sol.primal.length = p.nvars ∧ sol.slack.length = p.ncons ∧
    (∀ v ∈ sol.primal, 0 ≤ v) ∧ (∀ v ∈ sol.slack, 0 ≤ v) ∧
    p.coeffs *ᵥ Vec.coords p.nvars sol.primal + Vec.coords p.ncons sol.slack = p.bounds ∧
    sol.objectiveValue = p.costs ⬝ᵥ Vec.coords p.nvars sol.primal ∧
    ∀ y, p.Feasible y → p.costs ⬝ᵥ y ≤ sol.objectiveValue
  unbounded : sol.status = .unbounded → ∀ B, ∃ y, p.Feasible y ∧ B < p.costs ⬝ᵥ y

theorem report?_verdictHolds {Q : Progress K} {status : Status}
    (h : Q.tableau.PrimalFeasible p) (hend : Ended 0 Q.tableau status) (time : Duration) :
    ∃ sol, report? 0 status Q time = some sol ∧ VerdictHolds p sol := by
  have hshaped := h.represents.shaped
  obtain ⟨sol, hsol, hstatus, hvalues⟩ := report?_eq_some hshaped (Exact.stores _)
    (Exact.stores _) 0 status time
  refine ⟨sol, hsol, hstatus ▸ hend.status_cases, fun hopt => ?_, fun hunb B => ?_⟩
  · obtain rfl : status = .optimal := hstatus.symm.trans hopt
    obtain ⟨hx, hs, hobjective⟩ := hvalues rfl
    rw [h.represents.primal?_eq (le_refl (0 : K)) zero_lt_one, Option.some.injEq] at hx
    rw [h.represents.slack?_eq (le_refl (0 : K)) zero_lt_one, Option.some.injEq] at hs
    rw [← hx, ← hs, hobjective]
    refine ⟨List.length_ofFn, List.length_ofFn, ?_, ?_, ?_, ?_, fun y hy => ?_⟩
    · exact (List.forall_mem_ofFn_iff).mpr fun j => h.basicPoint_nonneg _
    · exact (List.forall_mem_ofFn_iff).mpr fun i => h.basicPoint_nonneg _
    · rw [Vec.coords_ofFn, Vec.coords_ofFn, ← Problem.augmented_mulVec]
      exact h.represents.augmented_basicPoint
    · rw [Vec.coords_ofFn, ← Problem.augmentedCosts_dotProduct]
      exact h.represents.value_basicPoint.symm
    · refine h.represents.value_le (fun j hj => ?_) hy
      have hcost := hshaped.entering_eq_none_iff.mp hend j hj
      rwa [neg_zero] at hcost
  · obtain rfl : status = .unbounded := hstatus.symm.trans hunb
    obtain ⟨column, hq, hl⟩ := hend
    obtain ⟨hc, hcost⟩ := hshaped.entering_eq_some hq
    rw [neg_zero] at hcost
    exact h.exists_value_gt (q := ⟨column, hc⟩) hcost
      ((hshaped.leaving?_eq_none_iff hc.le).mp hl) B

/-- **The verdicts are sound.** In exact arithmetic with no tolerance, every solve of a valid
problem without negative bounds ends with a solution whose status tells the truth; only a size
that does not fit in a word stops it. -/
theorem verdicts_sound {o : Options K} (hvalid : p.validate = .ok ())
    (hrhs : ∀ b ∈ p.rhs, 0 ≤ b) (ho : o.validate = .ok ()) (htol : o.zeroTolerance = 0)
    {r : Outcome (InputError K) (Solution K)} (hr : (solve o p).Yields r) :
    (2 ^ 64 ≤ (p.ncons + 1) * (p.nvars + p.ncons + 1) ∧ r = .fault) ∨
      ∃ sol, r = .ok sol ∧ VerdictHolds p sol := by
  rcases Tableau.of_eq_fault_or_ok_of_exact hvalid hrhs with ⟨hfit, hT⟩ | ⟨hfit, hT⟩
  · left
    exact ⟨hfit, solve_yields_fault ho hT hr⟩
  · right
    obtain ⟨s, hs, rfl⟩ := solve_yields ho hT hr
    obtain ⟨status, Q, time, hQ, hend, rfl⟩ :=
      run_yields (I := fun P => P.tableau.PrimalFeasible p)
        (fun P hP => by
          rw [htol]
          obtain ⟨a, T', hstep, hnext⟩ := step?_primalFeasible hP
          exact ⟨a, T', hstep, fun row column ha _ => hnext row column ha⟩)
        (Tableau.primalFeasible_initial hvalid hfit hrhs) hs
    rw [htol] at hend ⊢
    obtain ⟨sol, hsol, hholds⟩ := report?_verdictHolds hQ hend time
    exact ⟨sol, by rw [hsol]; rfl, hholds⟩

/-- Options without a zero tolerance. -/
def exactOptions : Options ℚ := { Options.default with zeroTolerance := 0 }

theorem twoByTwo_verdict : ∃ sol, (solve exactOptions Problem.twoByTwo).Yields (.ok sol) ∧
    sol.status = .optimal ∧
    ∀ y, Problem.twoByTwo.Feasible y → Problem.twoByTwo.costs ⬝ᵥ y ≤ sol.objectiveValue := by
  obtain ⟨sol, hyields, hstatus⟩ := Timed.exists_yields_ok
    (x := solve exactOptions Problem.twoByTwo) (P := fun sol => sol.status = .optimal)
    (by decide +kernel)
  have hoptions : exactOptions.validate = .ok () :=
    Options.validate_eq_ok_iff.mpr (by decide +kernel)
  rcases verdicts_sound rfl (by decide) hoptions rfl hyields with ⟨hfit, -⟩ | ⟨_, hsol, hholds⟩
  · exact absurd hfit (by decide)
  · cases hsol
    obtain ⟨-, -, -, -, -, -, hbest⟩ := hholds.optimal hstatus
    exact ⟨sol, hyields, hstatus, hbest⟩

end LinProg.Simplex
