import LinProg.Proofs.Simplex.Tolerances
import LinProg.Proofs.Simplex.Verdicts
import LinProg.Proofs.Tableau.Determined

/-!
# Progress and termination

In exact arithmetic with no tolerance a pivot does not lower the objective, and it raises it if the
right-hand side of the leaving row is positive (`objective_le_of_step?`, `objective_lt_of_step?`).
The objective is a function of the basis as a set, so as long as all pivots raise it, no set of
columns is the basis twice. There are `(n + m).choose m` such sets: a run whose pivots are not
degenerate ends for a better reason than its budget (`nondegenerate_runs_end`).

With a degenerate pivot the objective may stay as it is, and this says nothing.
-/

namespace LinProg.Simplex

variable {K : Type} [Field K] [LinearOrder K] [Exact K] {p : Problem K}
variable {T₀ T T' : Tableau K} {made : List (Pivot K)}

/-- All pivots have a positive right-hand side in the leaving row. -/
def Nondegenerate (made : List (Pivot K)) : Prop :=
  ∀ V ∈ made, ∃ v, V.before.rhs? V.row = some v ∧ 0 < v

section Objective

variable [IsStrictOrderedRing K] {n m row column : ℕ}

theorem objective_of_step? (h : T.Shaped n m)
    (hstep : step? 0 T = some (.pivoted row column, T')) :
    T'.objective = T.objective +
      -T.entry m column * (T.entry row (n + m) / T.entry row column) := by
  have hchosen := chosen_of_step? h hstep
  have hlt := hchosen.row_lt
  rw [h.objective_eq, hchosen.pivoted.shaped.objective_eq,
    hchosen.rhs_other le_rfl le_rfl (by omega)]
  ring

theorem objective_le_of_step? (h : T.PrimalFeasible p)
    (hstep : step? 0 T = some (.pivoted row column, T')) : T.objective ≤ T'.objective := by
  have hchosen := chosen_of_step? h.represents.shaped hstep
  have hcost := hchosen.cost_lt
  rw [objective_of_step? h.represents.shaped hstep]
  have hratio := div_nonneg (h.rhs_nonneg row hchosen.row_lt) (hchosen.entry_pos le_rfl).le
  exact le_add_of_nonneg_right (mul_nonneg (by linarith) hratio)

theorem objective_lt_of_step? (h : T.Shaped n m)
    (hstep : step? 0 T = some (.pivoted row column, T')) (hrhs : 0 < T.entry row (n + m)) :
    T.objective < T'.objective := by
  have hchosen := chosen_of_step? h hstep
  have hcost := hchosen.cost_lt
  rw [objective_of_step? h hstep]
  have hratio := div_pos hrhs (hchosen.entry_pos le_rfl)
  exact lt_add_of_pos_right _ (mul_pos (by linarith) hratio)

end Objective

variable [IsStrictOrderedRing K]

theorem Steps.primalFeasible (h : Steps 0 T₀ made T) (hT₀ : T₀.PrimalFeasible p) :
    T.PrimalFeasible p := by
  refine h.invariant (I := fun _ T => T.PrimalFeasible p) hT₀
    fun _ T row column T' _ hT hstep => ?_
  obtain ⟨hq, hl, hp⟩ := pivoted_of_step? hstep
  exact hT.pivot (hT.represents.shaped.entering_eq_some hq).1 hl hp

section Visited

variable (h : Steps 0 T₀ made T) (hT₀ : T₀.PrimalFeasible p)
include h hT₀

omit [IsStrictOrderedRing K] in
theorem Steps.represents_of_mem_visited {U : Tableau K} (hU : U ∈ visited T₀ made) :
    U.Represents p := by
  rcases List.mem_cons.mp hU with rfl | hU
  · exact hT₀.represents
  · obtain ⟨V, hV, rfl⟩ := List.mem_map.mp hU
    obtain ⟨⟨earlier, hsteps⟩, hstep⟩ := h.of_mem V hV
    exact (hsteps.pivoted hstep).represents hT₀.represents le_rfl

theorem Steps.objective_le_of_mem {V : Pivot K} (hV : V ∈ made) :
    V.before.objective ≤ V.after.objective := by
  obtain ⟨⟨earlier, hsteps⟩, hstep⟩ := h.of_mem V hV
  exact objective_le_of_step? (hsteps.primalFeasible hT₀) hstep

theorem Steps.objective_lt_of_mem {V : Pivot K} (hV : V ∈ made) {v : K}
    (hv : V.before.rhs? V.row = some v) (hpos : 0 < v) :
    V.before.objective < V.after.objective := by
  obtain ⟨⟨earlier, hsteps⟩, hstep⟩ := h.of_mem V hV
  have hshaped := (hsteps.represents hT₀.represents le_rfl).shaped
  have hrow := (chosen_of_step? hshaped hstep).row_lt
  rw [hshaped.rhs?_eq hrow.le, Option.some.injEq] at hv
  exact objective_lt_of_step? hshaped hstep (hv ▸ hpos)

theorem Steps.pairwise_objective_le :
    ((visited T₀ made).map (·.objective)).Pairwise (· ≤ ·) := by
  apply List.IsChain.pairwise
  rw [List.isChain_map]
  exact h.isChain_visited fun V hV => h.objective_le_of_mem hT₀ hV

/-- **No set of columns is the basis twice** as long as no pivot is degenerate. -/
theorem Steps.nodup_bases (hnondegenerate : Nondegenerate made) :
    ((visited T₀ made).map fun U => U.basis.toFinset).Nodup := by
  have hincreasing : ((visited T₀ made).map (·.objective)).Pairwise (· < ·) := by
    apply List.IsChain.pairwise
    rw [List.isChain_map]
    refine h.isChain_visited fun V hV => ?_
    obtain ⟨v, hv, hpos⟩ := hnondegenerate V hV
    exact h.objective_lt_of_mem hT₀ hV hv hpos
  rw [List.pairwise_map] at hincreasing
  rw [List.Nodup, List.pairwise_map]
  refine hincreasing.imp_of_mem fun {U W} hU hW hlt heq => ?_
  have hbasis : ∀ c, c ∈ U.basis ↔ c ∈ W.basis := by
    intro c
    rw [← List.mem_toFinset, heq, List.mem_toFinset]
  have hUrep := h.represents_of_mem_visited hT₀ hU
  have hWrep := h.represents_of_mem_visited hT₀ hW
  exact absurd (hUrep.objective_eq_of_basis hWrep hbasis) hlt.ne'

theorem Steps.length_lt_choose (hnondegenerate : Nondegenerate made) :
    made.length < (p.nvars + p.ncons).choose p.ncons := by
  have hnodup := h.nodup_bases hT₀ hnondegenerate
  have hsub : ((visited T₀ made).map fun U => U.basis.toFinset).toFinset ⊆
      Finset.powersetCard p.ncons (Finset.range (p.nvars + p.ncons)) := by
    intro B hB
    obtain ⟨U, hU, rfl⟩ := List.mem_map.mp (List.mem_toFinset.mp hB)
    have hunits := (h.represents_of_mem_visited hT₀ hU).unitBasis
    refine Finset.mem_powersetCard.mpr ⟨fun c hc => ?_, ?_⟩
    · exact Finset.mem_range.mpr (hunits.lt_of_mem_basis (List.mem_toFinset.mp hc))
    · rw [List.toFinset_card_of_nodup hunits.nodup_basis, hunits.shaped.basis]
  have hcard := Finset.card_le_card hsub
  rw [List.toFinset_card_of_nodup hnodup, Finset.card_powersetCard, Finset.card_range,
    List.length_map, visited, List.length_cons, List.length_map] at hcard
  exact hcard

end Visited

/-- What the pivots `made` of a run do for its objective, and when they cannot use up its budget. -/
structure Climbs (p : Problem K) (o : Options K) (T₀ : Tableau K) (made : List (Pivot K))
    (sol : Solution K) : Prop where
  iterations : sol.iterations = made.length
  objectives : sol.stats.history.toList.map (·.objective) = made.map (·.after.objective)
  monotone : (T₀.objective :: sol.stats.history.toList.map (·.objective)).Pairwise (· ≤ ·)
  strict : ∀ V ∈ made, ∀ v, V.before.rhs? V.row = some v → 0 < v →
    V.before.objective < V.after.objective
  nodup_bases : Nondegenerate made → ((visited T₀ made).map fun U => U.basis.toFinset).Nodup
  iterations_lt : Nondegenerate made →
    sol.iterations < (p.nvars + p.ncons).choose p.ncons
  ends : Nondegenerate made → (p.nvars + p.ncons).choose p.ncons ≤ o.maxIterations →
    sol.status ≠ .maxIterations

/-- **Runs climb, and end if they do not degenerate.** In exact arithmetic with no tolerance, every
run on the tableau of a valid problem without negative bounds records objectives that never
decrease, and a pivot with a positive right-hand side in the leaving row increases it. If all pivots
are of this kind, no set of columns is the basis twice, so the run has fewer pivots than there are
such sets, and with a budget of that many it does not run out of pivots.

Only a size that does not fit in a word keeps a problem from having a tableau. -/
theorem nondegenerate_runs_end {o : Options K} (hvalid : p.validate = .ok ())
    (hrhs : ∀ b ∈ p.rhs, 0 ≤ b) (hzero : o.zeroTolerance = 0) :
    (2 ^ 64 ≤ (p.ncons + 1) * (p.nvars + p.ncons + 1) ∧ Tableau.of p = .fault) ∨
      ∃ T₀, Tableau.of p = .ok T₀ ∧ ∀ r, (run o T₀).Yields r →
        ∃ sol T made, r = some (sol, T) ∧ Steps 0 T₀ made T ∧ Climbs p o T₀ made sol := by
  rcases Tableau.of_eq_fault_or_ok_of_exact hvalid hrhs with hfault | ⟨hfit, hT⟩
  · exact Or.inl hfault
  · right
    have hT₀ := Tableau.primalFeasible_initial hvalid hfit hrhs
    refine ⟨_, hT, fun r hr => ?_⟩
    obtain ⟨sol, T, rfl, -⟩ := run_represents hzero.ge hT hr
    obtain ⟨made, hsteps, hiterations, hobjectives, -, -, hmax⟩ := run_made hr
    rw [hzero] at hsteps
    refine ⟨sol, T, made, rfl, hsteps, ?_⟩
    have hfewer := fun hnondegenerate => hsteps.length_lt_choose hT₀ hnondegenerate
    exact
      { iterations := hiterations
        objectives := hobjectives
        monotone := by
          have hpairwise := hsteps.pairwise_objective_le hT₀
          rwa [visited, List.map_cons, List.map_map, Function.comp_def, ← hobjectives] at hpairwise
        strict := fun V hV v hv hpos => hsteps.objective_lt_of_mem hT₀ hV hv hpos
        nodup_bases := hsteps.nodup_bases hT₀
        iterations_lt := by rwa [hiterations]
        ends := by
          intro hnondegenerate hbudget hstatus
          have hlt := hfewer hnondegenerate
          have hall := hmax hstatus
          omega }

theorem twoByTwo_nondegenerate {made : List (Pivot ℚ)} {T : Tableau ℚ}
    (h : Steps 0 (Tableau.initial Problem.twoByTwo) made T) : Nondegenerate made := by
  let first := Tableau.initial Problem.twoByTwo
  let second := Tableau.twoByTwoPivoted
  let third := Tableau.twoByTwoSolved
  have hfirst : step? 0 first = some (.pivoted 1 0, second) := by decide +kernel
  have hsecond : step? 0 second = some (.pivoted 0 1, third) := by decide +kernel
  have hthird : step? 0 third = some (.optimal, third) := by decide +kernel
  suffices hall : Nondegenerate made ∧ (T = first ∨ T = second ∨ T = third) from hall.1
  refine h.invariant
    (I := fun made T => Nondegenerate made ∧ (T = first ∨ T = second ∨ T = third))
    ⟨nofun, Or.inl rfl⟩ fun made T row column T' _ ih hstep => ?_
  have hadd : ∀ v, T.rhs? row = some v → 0 < v →
      Nondegenerate (made ++ [⟨T, row, column, T'⟩]) := by
    intro v hv hpos
    refine List.forall_mem_append.mpr ⟨ih.1, List.forall_mem_singleton.mpr ⟨v, hv, hpos⟩⟩
  rcases ih.2 with rfl | rfl | rfl
  · rw [hfirst] at hstep
    cases hstep
    exact ⟨hadd 6 rfl (by decide +kernel), Or.inr (Or.inl rfl)⟩
  · rw [hsecond] at hstep
    cases hstep
    exact ⟨hadd 2 rfl (by decide +kernel), Or.inr (Or.inr rfl)⟩
  · rw [hthird] at hstep
    cases hstep

/-- So there are fewer than six. -/
theorem twoByTwo_ends : ∃ sol T, (run exactOptions (Tableau.initial Problem.twoByTwo)).Yields
    (some (sol, T)) ∧ sol.iterations < 6 ∧ sol.status ≠ .maxIterations ∧
      (sol.stats.history.toList.map (·.objective)).Pairwise (· ≤ ·) := by
  obtain ⟨sol, T, hyields, -⟩ := exists_yields_of_status (o := exactOptions)
    (T := Tableau.initial Problem.twoByTwo) (show _ = some .optimal by decide +kernel)
  rcases nondegenerate_runs_end (p := Problem.twoByTwo) (o := exactOptions) rfl (by decide) rfl with
    ⟨hfit, -⟩ | ⟨T₀, hT₀, hruns⟩
  · exact absurd hfit (by decide)
  · obtain ⟨-, -, -, rfl⟩ := Tableau.of_eq_ok_iff.mp hT₀
    obtain ⟨_, _, made, hsome, hsteps, hclimbs⟩ := hruns _ hyields
    cases hsome
    have hnondegenerate := twoByTwo_nondegenerate hsteps
    exact ⟨sol, T, hyields, hclimbs.iterations_lt hnondegenerate,
      hclimbs.ends hnondegenerate (by decide), hclimbs.monotone.of_cons⟩

end LinProg.Simplex
