import LinProg.Proofs.Simplex.Budgets

/-!
# What a solution tells about the pivots

The record of a run lists the places of its pivots. They can be made again: each was the choice of a
step on the tableau that the ones before it lead to (`Steps.take`), and all of them lead to the last
tableau (`Steps.replay_eq`). The status says which of three cases that tableau and the number of
pivots are (`finalStatus_cases`). `solution_tells_the_pivots` puts this together for any tableau; if
it has the shape of a problem, a run on it has a solution exactly if storage holds its values.
-/

namespace LinProg.Simplex

variable {α : Type} [Scalar α] {tolerance : α} {T₀ T T' F : Tableau α} {made : List (Pivot α)}
  {row column : ℕ}

/-! ### Pivots made again -/

/-- The tableau that pivots at the given places lead to. -/
def replay (T : Tableau α) (places : List (ℕ × ℕ)) : Option (Tableau α) :=
  places.foldlM (fun U place => U.pivot? place.1 place.2) T

def Pivot.place (V : Pivot α) : ℕ × ℕ := (V.row, V.column)

theorem replay_concat (T : Tableau α) (places : List (ℕ × ℕ)) (place : ℕ × ℕ) :
    replay T (places ++ [place]) = (replay T places).bind fun U => U.pivot? place.1 place.2 := by
  rw [replay, List.foldlM_append, Option.bind_eq_bind]
  refine congrArg _ (funext fun U => ?_)
  exact bind_pure _

theorem Steps.replay_eq (h : Steps tolerance T₀ made T) :
    replay T₀ (made.map Pivot.place) = some T := by
  refine h.invariant (I := fun made T => replay T₀ (made.map Pivot.place) = some T) rfl ?_
  intro made T row column T' _ ih hstep
  rw [List.map_append, List.map_singleton, replay_concat, ih]
  exact (pivoted_of_step? hstep).2.2

theorem lengths_of_report? {status : Status} {Q : Progress α} {time : Duration} {sol : Solution α}
    (h : report? tolerance status Q time = some sol) :
    sol.primal.length = Q.tableau.nvars ∧ sol.slack.length = Q.tableau.ncons := by
  rw [report?_eq, Option.map_eq_some_iff] at h
  obtain ⟨v, hv, rfl⟩ := h
  rw [reported?] at hv
  split at hv
  · simp only [Tableau.primal?, Tableau.slack?, Tableau.values?_eq_some_iff, Option.bind_eq_bind,
      Option.bind_eq_some_iff, Option.pure_def, Option.some.injEq] at hv
    obtain ⟨x, ⟨-, hx⟩, s, ⟨-, hs⟩, rfl⟩ := hv
    have hxlen := length_of_mapM_eq_some hx
    have hslen := length_of_mapM_eq_some hs
    rw [List.length_range] at hxlen
    rw [List.length_map, List.length_range] at hslen
    exact ⟨hxlen, hslen⟩
  · simp only [Option.bind_eq_bind, Option.bind_eq_some_iff, Option.pure_def,
      Option.some.injEq] at hv
    obtain ⟨_, -, _, -, rfl⟩ := hv
    exact ⟨List.length_replicate, List.length_replicate⟩

/-! ### The verdict -/

/-- **The status of a run** is that of its last tableau, unless its budget has ended on a tableau
that is not optimal. -/
theorem finalStatus_cases {status : Status} {k budget : ℕ} (hend : Ended tolerance T status)
    (hmax : status = .maxIterations ↔ k = budget) :
    (T.entering tolerance = none ∧ finalStatus tolerance status T = .optimal) ∨
    (∃ column, T.entering tolerance = some column ∧ T.leaving? column tolerance = some none ∧
      k ≠ budget ∧ finalStatus tolerance status T = .unbounded) ∨
    ∃ column, T.entering tolerance = some column ∧ k = budget ∧
      finalStatus tolerance status T = .maxIterations := by
  rcases hend.status_cases with rfl | rfl | rfl
  · exact Or.inl ⟨hend, if_neg fun h => nomatch h.1⟩
  · obtain ⟨column, hq, hl⟩ := hend
    right
    left
    refine ⟨column, hq, hl, fun hk => ?_, if_neg fun h => nomatch h.1⟩
    cases hmax.mpr hk
  · rcases hq : T.entering tolerance with _ | column
    · exact Or.inl ⟨rfl, if_pos ⟨rfl, Option.isNone_iff_eq_none.mpr hq⟩⟩
    · right
      right
      refine ⟨column, rfl, hmax.mp rfl, if_neg fun h => ?_⟩
      rw [hq] at h
      cases h.2

/-! ### The solution -/

/-- The places that a solution has recorded. -/
def places (sol : Solution α) : List (ℕ × ℕ) := sol.stats.history.toList.filterMap (·.pivot)

/-- What a solution tells about the run from `T` that it comes from and the tableau `F` where the
run has ended. -/
structure TellsTheRun (o : Options α) (T F : Tableau α) (sol : Solution α) : Prop where
  le_max : sol.iterations ≤ o.maxIterations
  pivots : sol.stats.pivots = sol.iterations
  history : sol.stats.history.size = sol.iterations
  optimal_iff : sol.status = .optimal ↔ F.entering o.zeroTolerance = none
  unbounded_iff : sol.status = .unbounded ↔ sol.iterations < o.maxIterations ∧
    ∃ column, F.entering o.zeroTolerance = some column ∧
      F.leaving? column o.zeroTolerance = some none
  maxIterations_iff : sol.status = .maxIterations ↔
    F.entering o.zeroTolerance ≠ none ∧ sol.iterations = o.maxIterations
  /-- Each record is that of the step from the tableau that the pivots before it lead to. -/
  record : ∀ i r, sol.stats.history[i]? = some r → r.iteration = i + 1 ∧
    ∃ row column U U', r.pivot = some (row, column) ∧ r.objective = U'.objective ∧
      replay T ((places sol).take i) = some U ∧
      step? o.zeroTolerance U = some (.pivoted row column, U') ∧
      replay T ((places sol).take (i + 1)) = some U'
  replay_eq : replay T (places sol) = some F
  length_primal : sol.primal.length = T.nvars
  length_slack : sol.slack.length = T.ncons

section Record

variable {P : Progress α} (h : Recorded tolerance T₀ made P)
include h

theorem Recorded.size_history : P.stats.history.size = made.length := by
  have hlengths := congrArg List.length h.places
  rwa [List.length_map, List.length_map, Array.length_toList] at hlengths

theorem Recorded.filterMap_pivot :
    P.stats.history.toList.filterMap (·.pivot) = made.map Pivot.place := by
  have hid : P.stats.history.toList.filterMap (·.pivot) =
      (P.stats.history.toList.map (·.pivot)).filterMap id := by
    rw [List.filterMap_map]
    rfl
  rw [hid, h.places, List.filterMap_map]
  exact congrFun List.filterMap_eq_map made

theorem Recorded.of_getElem? {i : ℕ} {r : Record α} (hr : P.stats.history[i]? = some r) :
    ∃ V, made[i]? = some V ∧ r.iteration = i + 1 ∧ r.pivot = some V.place ∧
      r.objective = V.after.objective := by
  rw [← Array.getElem?_toList] at hr
  have hnumber := congrArg (·[i]?) h.numbers
  have hobjective := congrArg (·[i]?) h.objectives
  have hplace := congrArg (·[i]?) h.places
  simp only [List.getElem?_map, hr, Option.map_some] at hnumber hobjective hplace
  obtain ⟨V, hV, hpivot⟩ := Option.map_eq_some_iff.mp hplace.symm
  rw [hV] at hobjective
  have hlt := (List.getElem?_eq_some_iff.mp hV).1
  rw [List.getElem?_range' hlt, Option.some.injEq] at hnumber
  exact ⟨V, hV, by omega, hpivot.symm, Option.some.inj hobjective⟩

end Record

theorem run_tells {o : Options α} {sol : Solution α} (hr : (run o T).Yields (some (sol, F))) :
    TellsTheRun o T F sol := by
  obtain ⟨made, status, Q, time, hmade, rfl, hend, hle, hmax, hreport⟩ := run_recorded hr
  obtain ⟨hstatus, hiterations, hpivots, hhistory⟩ := stats_of_report? hreport
  obtain ⟨hprimal, hslack⟩ := lengths_of_report? hreport
  obtain ⟨hnvars, hncons⟩ := hmade.steps.sizes
  have hcount : sol.iterations = made.length := hiterations.trans hmade.pivots
  have hplaces : places sol = made.map Pivot.place := by
    rw [places, hhistory]
    exact hmade.filterMap_pivot
  have hverdict := finalStatus_cases hend hmax
  rw [← hstatus, ← hcount] at hverdict
  refine ⟨hcount.trans_le hle, ?_, ?_, ?_, ?_, ?_, ?_, ?_, hprimal.trans hnvars,
    hslack.trans hncons⟩
  · rw [hpivots, hiterations]
  · rw [hhistory, hcount]
    exact hmade.size_history
  · rcases hverdict with ⟨hq, hopt⟩ | ⟨column, hq, -, -, hunb⟩ | ⟨column, hq, -, hlimit⟩
    · exact iff_of_true hopt hq
    · rw [hunb, hq]
      exact iff_of_false nofun nofun
    · rw [hlimit, hq]
      exact iff_of_false nofun nofun
  · rcases hverdict with ⟨hq, hopt⟩ | ⟨column, hq, hl, hk, hunb⟩ | ⟨column, hq, hk, hlimit⟩
    · rw [hopt, hq]
      exact iff_of_false nofun fun h => nomatch h.2
    · refine iff_of_true hunb ⟨?_, column, hq, hl⟩
      exact lt_of_le_of_ne (hcount.trans_le hle) hk
    · rw [hlimit]
      exact iff_of_false nofun fun h => h.1.ne hk
  · rcases hverdict with ⟨hq, hopt⟩ | ⟨column, hq, hl, hk, hunb⟩ | ⟨column, hq, hk, hlimit⟩
    · rw [hopt]
      exact iff_of_false nofun fun h => h.1 hq
    · rw [hunb]
      exact iff_of_false nofun fun h => hk h.2
    · refine iff_of_true hlimit ⟨?_, hk⟩
      rw [hq]
      nofun
  · intro i r hr
    rw [hhistory] at hr
    obtain ⟨V, hV, hiteration, hpivot, hobjective⟩ := hmade.of_getElem? hr
    obtain ⟨hsteps, hstep⟩ := hmade.steps.take i V hV
    have hbefore : replay T ((places sol).take i) = some V.before := by
      rw [hplaces, ← List.map_take]
      exact hsteps.replay_eq
    refine ⟨hiteration, V.row, V.column, V.before, V.after, hpivot, hobjective, hbefore, hstep, ?_⟩
    have hplace : (places sol)[i]? = some V.place := by
      rw [hplaces, List.getElem?_map, hV, Option.map_some]
    rw [List.take_add_one, hplace, Option.toList_some, replay_concat, hbefore]
    exact (pivoted_of_step? hstep).2.2
  · rw [hplaces]
    exact hmade.steps.replay_eq

/-- **A solution tells the pivots.** In any arithmetic, from any tableau and with any options, the
solution of a run belongs to its pivots, at most the allowed number, and to the tableau `F` where
they end:

* it counts as many iterations as pivots and records, and each record has the number of its pivot,
  the place that the step chose, and the objective after it;
* the recorded pivots, made again from the first tableau, lead to `F`;
* it is optimal exactly if no column of `F` enters, unbounded exactly if a column enters from which
  no row leaves and pivots were left, and at the limit exactly if a column enters and none were;
* it has a value for each variable and slack, whatever the status.

A run on a tableau of the shape of a problem has a solution exactly if storage holds its values. -/
theorem solution_tells_the_pivots (o : Options α) (T : Tableau α) :
    (∀ sol F, (run o T).Yields (some (sol, F)) → TellsTheRun o T F sol) ∧
    ∀ n m, T.Shaped n m → ∀ r, (run o T).Yields r →
      ((∃ sol F, r = some (sol, F)) ↔ Scalar.Stores α n ∧ Scalar.Stores α m) := by
  refine ⟨fun sol F hr => run_tells hr, fun n m hT r hr => ⟨?_, fun ⟨hn, hm⟩ => ?_⟩⟩
  · rintro ⟨sol, F, rfl⟩
    have hstores := stores_of_run hr
    rwa [hT.nvars, hT.ncons_eq] at hstores
  · obtain ⟨sol, F, rfl, -⟩ := run_of_shaped hT hn hm hr
    exact ⟨sol, F, rfl⟩

/-- The two pivots of `Problem.twoByTwo`. -/
theorem twoByTwo_tells_the_pivots : ∃ sol F,
    (run Options.default (Tableau.initial Problem.twoByTwo)).Yields (some (sol, F)) ∧
    places sol = [(1, 0), (0, 1)] ∧ sol.iterations = 2 ∧
    replay (Tableau.initial Problem.twoByTwo) [(1, 0), (0, 1)] = some F ∧
    F.entering (Options.default : Options ℚ).zeroTolerance = none ∧ sol.primal.length = 2 := by
  obtain ⟨htells, htotal⟩ :=
    solution_tells_the_pivots Options.default (Tableau.initial Problem.twoByTwo)
  have hyields := Timed.yields_runFrom (fun _ => .zero) 0
    (run Options.default (Tableau.initial Problem.twoByTwo))
  have hshaped : (Tableau.initial Problem.twoByTwo).Shaped 2 2 :=
    Tableau.initial_shaped rfl (by decide)
  obtain ⟨sol, F, hsome⟩ :=
    (htotal 2 2 hshaped _ hyields).mpr ⟨Exact.stores 2, Exact.stores 2⟩
  have hcomputed : ((run Options.default (Tableau.initial Problem.twoByTwo)).runFrom
      (fun _ => .zero) 0).map (fun r => (r.1.status, places r.1, r.1.iterations)) =
        some (.optimal, [(1, 0), (0, 1)], 2) := by decide +kernel
  rw [hsome] at hyields hcomputed
  obtain ⟨hstatus, hplaces, hcount⟩ : sol.status = .optimal ∧ places sol = [(1, 0), (0, 1)] ∧
      sol.iterations = 2 := by
    simpa using hcomputed
  have hrun := htells sol F hyields
  exact ⟨sol, F, hyields, hplaces, hcount, hplaces ▸ hrun.replay_eq, hrun.optimal_iff.mp hstatus,
    hrun.length_primal⟩

end LinProg.Simplex
