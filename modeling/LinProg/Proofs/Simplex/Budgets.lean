import LinProg.Proofs.Simplex.Pivots

/-!
# Splitting the budget of a run

`trace` is a run without its clock: the pivots that a budget allows, why they stop, and where. A
budget `a + b` with `0 < b` gives the trace of `a` followed by the trace of `b` from where that one
stopped (`trace_add`), however the first one stopped: at an optimal or an unbounded tableau the
second one stops at once, for the same reason. What a run reports is read off its trace
(`run_traced`), so the runs split in the same way (`runs_split_at_any_budget`). Nothing here depends
on the arithmetic or on how the tableau was come by.
-/

namespace LinProg.Simplex

variable {α : Type} [Scalar α] {tolerance : α} {T T' : Tableau α}

/-- Why a run stops before its report, the pivots it has made, and the tableau it stops at. -/
structure Trace (α : Type) where
  status : Status
  made : List (Pivot α)
  last : Tableau α

/-- One trace after another. -/
def Trace.append (t t' : Trace α) : Trace α := ⟨t'.status, t.made ++ t'.made, t'.last⟩

/-- The pivots that a budget allows. -/
def trace (tolerance : α) : ℕ → Tableau α → Option (Trace α)
  | 0, T => some ⟨.maxIterations, [], T⟩
  | budget + 1, T =>
    match step? tolerance T with
    | none => none
    | some (.optimal, _) => some ⟨.optimal, [], T⟩
    | some (.unbounded _, _) => some ⟨.unbounded, [], T⟩
    | some (.pivoted row column, T') =>
      (trace tolerance budget T').map (Trace.append ⟨.maxIterations, [⟨T, row, column, T'⟩], T'⟩)

/-! ### Traces -/

theorem ended_of_optimal (h : step? tolerance T = some (.optimal, T')) :
    Ended tolerance T .optimal := by
  rcases step?_cases h with ⟨-, -, hq⟩ | ⟨c, hc, -⟩ | ⟨r, c, hc, -⟩
  · exact hq
  · cases hc
  · cases hc

theorem ended_of_unbounded {column : ℕ} (h : step? tolerance T = some (.unbounded column, T')) :
    Ended tolerance T .unbounded := by
  rcases step?_cases h with ⟨hc, -⟩ | ⟨c, -, -, hq, hl⟩ | ⟨r, c, hc, -⟩
  · cases hc
  · exact ⟨c, hq, hl⟩
  · cases hc

theorem trace_ended {budget : ℕ} {t : Trace α} (h : trace tolerance budget T = some t) :
    Ended tolerance t.last t.status := by
  induction budget generalizing T t with
  | zero =>
    obtain rfl := Option.some.inj h
    trivial
  | succ budget ih =>
    unfold trace at h
    split at h
    · cases h
    · rename_i hstep
      obtain rfl := Option.some.inj h
      exact ended_of_optimal hstep
    · rename_i hstep
      obtain rfl := Option.some.inj h
      exact ended_of_unbounded hstep
    · obtain ⟨t', ht', rfl⟩ := Option.map_eq_some_iff.mp h
      have hend := ih ht'
      exact hend

theorem trace_of_ended {budget : ℕ} (hb : 0 < budget) {status : Status}
    (hend : Ended tolerance T status) (hne : status ≠ .maxIterations) :
    trace tolerance budget T = some ⟨status, [], T⟩ := by
  obtain ⟨budget, rfl⟩ := Nat.exists_eq_add_one_of_ne_zero hb.ne'
  unfold trace
  rcases hend.status_cases with rfl | rfl | rfl
  · rw [step?_of_entering_eq_none hend]
  · obtain ⟨column, hq, hl⟩ := hend
    rw [step?_of_leaving_eq_none hq hl]
  · exact absurd rfl hne

/-- **Traces split at any budget.** -/
theorem trace_add (a : ℕ) {b : ℕ} (hb : 0 < b) (T : Tableau α) :
    trace tolerance (a + b) T = (trace tolerance a T).bind fun t =>
      (trace tolerance b t.last).map t.append := by
  induction a generalizing T with
  | zero =>
    rw [Nat.zero_add]
    show _ = (trace tolerance b T).map _
    cases trace tolerance b T <;> rfl
  | succ a ih =>
    rw [Nat.succ_add]
    rcases hstep : step? tolerance T with _ | ⟨outcome, T'⟩
    · simp only [trace, hstep, Option.bind_none]
    · cases outcome with
      | optimal =>
        simp only [trace, hstep, Option.bind_some,
          trace_of_ended hb (ended_of_optimal hstep) nofun]
        rfl
      | unbounded column =>
        simp only [trace, hstep, Option.bind_some,
          trace_of_ended hb (ended_of_unbounded hstep) nofun]
        rfl
      | pivoted row column =>
        simp only [trace, hstep, ih T']
        cases trace tolerance a T' with
        | none => rfl
        | some t =>
          simp only [Option.bind_some, Option.map_some, Option.map_map]
          rfl

theorem sizes_of_trace {budget : ℕ} {t : Trace α} (h : trace tolerance budget T = some t) :
    t.last.nvars = T.nvars ∧ t.last.ncons = T.ncons := by
  induction budget generalizing T t with
  | zero =>
    obtain rfl := Option.some.inj h
    exact ⟨rfl, rfl⟩
  | succ budget ih =>
    unfold trace at h
    split at h
    · cases h
    · obtain rfl := Option.some.inj h
      exact ⟨rfl, rfl⟩
    · obtain rfl := Option.some.inj h
      exact ⟨rfl, rfl⟩
    · rename_i hstep
      obtain ⟨t', ht', rfl⟩ := Option.map_eq_some_iff.mp h
      obtain ⟨hnvars, hncons⟩ := sizes_of_pivot? (pivoted_of_step? hstep).2.2
      obtain ⟨hlast, hlast'⟩ := ih ht'
      exact ⟨hlast.trans hnvars, hlast'.trans hncons⟩

/-! ### What a run reports of its trace -/

/-- The status that a run reports: the budget may have ended on an optimal tableau. -/
def Trace.finalStatus (t : Trace α) (tolerance : α) : Status :=
  Simplex.finalStatus tolerance t.status t.last

def Trace.values? (t : Trace α) (tolerance : α) : Option (List α × List α × α) :=
  reported? tolerance (t.finalStatus tolerance) t.last

/-- A solution tells a trace. -/
structure Tells (tolerance : α) (t : Trace α) (sol : Solution α) : Prop where
  status : sol.status = t.finalStatus tolerance
  values : t.values? tolerance = some (sol.primal, sol.slack, sol.objectiveValue)
  iterations : sol.iterations = t.made.length
  pivots : sol.stats.pivots = t.made.length
  objectives : sol.stats.history.toList.map (·.objective) = t.made.map (·.after.objective)
  places : sol.stats.history.toList.map (·.pivot) = t.made.map fun V => some (V.row, V.column)

theorem pivots_traced {T₀ : Tableau α} {made : List (Pivot α)} {P : Progress α}
    (hP : Recorded tolerance T₀ made P) {start : Duration} {budget : ℕ}
    {r : Option (Status × Progress α)} (hr : (pivots tolerance start budget P).Yields r) :
    (r = none ∧ trace tolerance budget P.tableau = none) ∨
      ∃ t Q, trace tolerance budget P.tableau = some t ∧ r = some (t.status, Q) ∧
        Q.tableau = t.last ∧ Recorded tolerance T₀ (made ++ t.made) Q := by
  induction budget generalizing P made with
  | zero =>
    right
    refine ⟨⟨.maxIterations, [], P.tableau⟩, P, rfl, hr.symm, rfl, ?_⟩
    rwa [List.append_nil]
  | succ budget ih =>
    unfold pivots at hr
    unfold trace
    rcases hstep : step? tolerance P.tableau with _ | ⟨outcome, T⟩
    · rw [hstep] at hr
      exact Or.inl ⟨hr.symm, rfl⟩
    · rw [hstep] at hr
      cases outcome with
      | optimal =>
        right
        refine ⟨⟨.optimal, [], P.tableau⟩, P, rfl, hr.symm, rfl, ?_⟩
        rwa [List.append_nil]
      | unbounded column =>
        right
        refine ⟨⟨.unbounded, [], P.tableau⟩, P, rfl, hr.symm, rfl, ?_⟩
        rwa [List.append_nil]
      | pivoted row column =>
        obtain ⟨now, hr⟩ := hr
        have hnext := hP.pivoted hstep (start.since now)
        rcases ih hnext hr with ⟨rfl, hnone⟩ | ⟨t, Q, ht, rfl, hlast, hQ⟩
        · left
          refine ⟨rfl, ?_⟩
          show (trace tolerance budget T).map _ = none
          rw [Option.map_eq_none_iff]
          exact hnone
        · right
          refine ⟨_, Q, congrArg (Option.map _) ht, rfl, hlast, ?_⟩
          rw [List.append_assoc] at hQ
          exact hQ

/-- **A run tells its trace**, or breaks down with it. -/
theorem run_traced {o : Options α} {r : Option (Solution α × Tableau α)}
    (hr : (run o T).Yields r) :
    (r = none ∧
      (trace o.zeroTolerance o.maxIterations T).bind (·.values? o.zeroTolerance) = none) ∨
    ∃ t sol, trace o.zeroTolerance o.maxIterations T = some t ∧ r = some (sol, t.last) ∧
      Tells o.zeroTolerance t sol := by
  simp only [run, Timed.yields_bind, Timed.pure_eq, Timed.Yields] at hr
  obtain ⟨start, -, ended, hended, now, -, rfl⟩ := hr
  rcases pivots_traced (recorded_start T) hended with
    ⟨rfl, hnone⟩ | ⟨t, Q, ht, rfl, hlast, hQ⟩
  · left
    rw [hnone]
    exact ⟨rfl, rfl⟩
  · have hreport : report? o.zeroTolerance (Simplex.finalStatus o.zeroTolerance t.status Q.tableau)
        Q (start.since now) = (t.values? o.zeroTolerance).map fun v =>
          ⟨v.1, v.2.1, t.finalStatus o.zeroTolerance, v.2.2, Q.stats.pivots,
            { Q.stats with solveTime := start.since now }⟩ := by
      rw [report?_eq, hlast]
      rfl
    rw [Option.bind_eq_bind, Option.bind_some, Option.bind_eq_bind]
    dsimp only
    rw [hreport, ht, Option.bind_some]
    rcases hvalues : t.values? o.zeroTolerance with _ | ⟨x, s, v⟩
    · exact Or.inl ⟨rfl, rfl⟩
    · right
      rw [hlast]
      exact ⟨t, _, rfl, rfl, rfl, hvalues, hQ.pivots, hQ.pivots, hQ.objectives, hQ.places⟩

section Run

variable {o : Options α} {r : Option (Solution α × Tableau α)} (hr : (run o T).Yields r)
include hr

theorem eq_none_of_run
    (h : (trace o.zeroTolerance o.maxIterations T).bind (·.values? o.zeroTolerance) = none) :
    r = none := by
  rcases run_traced hr with ⟨hnone, -⟩ | ⟨t, sol, ht, -, htells⟩
  · exact hnone
  · rw [ht, Option.bind_some, htells.values] at h
    cases h

theorem exists_tells_of_run {t : Trace α} (ht : trace o.zeroTolerance o.maxIterations T = some t)
    {v : List α × List α × α} (hv : t.values? o.zeroTolerance = some v) :
    ∃ sol, r = some (sol, t.last) ∧ Tells o.zeroTolerance t sol := by
  rcases run_traced hr with ⟨-, hnone⟩ | ⟨u, sol, hu, hsome, htells⟩
  · rw [ht, Option.bind_some, hv] at hnone
    cases hnone
  · rw [ht] at hu
    obtain rfl := Option.some.inj hu
    exact ⟨sol, hsome, htells⟩

end Run

/-! ### Two runs in succession -/

/-- A run has found what the second of two runs has found, with the pivots of both. -/
structure Joined (first second whole : Solution α) : Prop where
  status : whole.status = second.status
  primal : whole.primal = second.primal
  slack : whole.slack = second.slack
  objective : whole.objectiveValue = second.objectiveValue
  iterations : whole.iterations = first.iterations + second.iterations
  pivots : whole.stats.pivots = first.stats.pivots + second.stats.pivots
  objectives : whole.stats.history.toList.map (·.objective) =
    first.stats.history.toList.map (·.objective) ++ second.stats.history.toList.map (·.objective)
  places : whole.stats.history.toList.map (·.pivot) =
    first.stats.history.toList.map (·.pivot) ++ second.stats.history.toList.map (·.pivot)

theorem Tells.joined {t t' : Trace α} {first second whole : Solution α}
    (h : Tells tolerance t first) (h' : Tells tolerance t' second)
    (hwhole : Tells tolerance (t.append t') whole) : Joined first second whole := by
  have hvalues : some (whole.primal, whole.slack, whole.objectiveValue) =
      some (second.primal, second.slack, second.objectiveValue) :=
    hwhole.values.symm.trans h'.values
  simp only [Option.some.injEq, Prod.mk.injEq] at hvalues
  obtain ⟨hprimal, hslack, hobjective⟩ := hvalues
  refine ⟨hwhole.status.trans h'.status.symm, hprimal, hslack, hobjective, ?_, ?_, ?_, ?_⟩
  · rw [hwhole.iterations, h.iterations, h'.iterations]
    exact List.length_append
  · rw [hwhole.pivots, h.pivots, h'.pivots]
    exact List.length_append
  · rw [hwhole.objectives, h.objectives, h'.objectives]
    exact List.map_append
  · rw [hwhole.places, h.places, h'.places]
    exact List.map_append

theorem trace_of_optimal {t : Trace α} (hend : Ended tolerance t.last t.status)
    (hopt : t.finalStatus tolerance = .optimal) (budget : ℕ) :
    ∃ t', trace tolerance budget t.last = some t' ∧ t'.made = [] ∧ t'.last = t.last ∧
      t'.finalStatus tolerance = .optimal ∧ t'.values? tolerance = t.values? tolerance := by
  have hq : Ended tolerance t.last (t.finalStatus tolerance) := ended_finalStatus hend
  rw [hopt] at hq
  have hvalues : ∀ t' : Trace α, t'.last = t.last → t'.finalStatus tolerance = .optimal →
      t'.values? tolerance = t.values? tolerance := by
    intro t' hlast hfinal
    unfold Trace.values?
    rw [hopt, hfinal, hlast]
  rcases Nat.eq_zero_or_pos budget with rfl | hpos
  · have hfinal : Simplex.finalStatus tolerance .maxIterations t.last = .optimal :=
      if_pos ⟨rfl, Option.isNone_iff_eq_none.mpr hq⟩
    exact ⟨⟨.maxIterations, [], t.last⟩, rfl, rfl, rfl, hfinal, hvalues _ rfl hfinal⟩
  · have hfinal : Simplex.finalStatus tolerance .optimal t.last = .optimal :=
      if_neg fun h => nomatch h.1
    exact ⟨_, trace_of_ended hpos hq nofun, rfl, rfl, hfinal, hvalues _ rfl hfinal⟩

theorem of_values?_eq_none {t : Trace α} (h : t.values? tolerance = none) :
    t.finalStatus tolerance = .optimal ∨
      ¬(Scalar.Stores α t.last.nvars ∧ Scalar.Stores α t.last.ncons) := by
  by_contra hne
  obtain ⟨hopt, hn, hm⟩ := not_or.mp hne |>.imp_right not_not.mp
  rw [Trace.values?, reported?, if_neg hopt, Scalar.entries?_eq hn, Scalar.entries?_eq hm] at h
  cases h

theorem trace_add_eq_none {a b : ℕ} (hb : 0 < b)
    (h : (trace tolerance a T).bind (·.values? tolerance) = none) :
    (trace tolerance (a + b) T).bind (·.values? tolerance) = none := by
  rw [trace_add a hb]
  rcases ht : trace tolerance a T with _ | t
  · rfl
  · rw [ht, Option.bind_some] at h
    rw [Option.bind_some]
    rcases of_values?_eq_none h with hopt | hlacks
    · obtain ⟨t', ht', -, -, -, hvalues⟩ := trace_of_optimal (trace_ended ht) hopt b
      rw [ht', Option.map_some, Option.bind_some]
      exact hvalues.trans h
    · rcases ht' : trace tolerance b t.last with _ | t'
      · rfl
      · obtain ⟨hnvars, hncons⟩ := sizes_of_trace ht'
        rw [Option.map_some, Option.bind_some, Option.eq_none_iff_forall_ne_some]
        intro v hv
        have hstores : Scalar.Stores α t'.last.nvars ∧ Scalar.Stores α t'.last.ncons :=
          stores_of_reported? hv
        rw [hnvars, hncons] at hstores
        exact hlacks hstores

theorem shaped_of_step? {n m row column : ℕ} (h : T.Shaped n m)
    (hstep : step? tolerance T = some (.pivoted row column, T')) : T'.Shaped n m := by
  obtain ⟨hq, hl, hp⟩ := pivoted_of_step? hstep
  have hc := (h.not_le_of_entering hq).1
  have hr := (h.not_le_of_leaving hc.le hl).1
  exact (h.pivoted hr hc.le hp).shaped

section Succession

variable {o : Options α}

theorem joined_runs {a b : ℕ} (hb : 0 < b) {first whole : Option (Solution α × Tableau α)}
    (hfirst : (run { o with maxIterations := a } T).Yields first)
    (hwhole : (run { o with maxIterations := a + b } T).Yields whole) :
    (first = none ∧ whole = none) ∨
      ∃ sol₁ T₁, first = some (sol₁, T₁) ∧
        ∀ second, (run { o with maxIterations := b } T₁).Yields second →
          (second = none ∧ whole = none) ∨
          ∃ sol₂ T₂ sol, second = some (sol₂, T₂) ∧ whole = some (sol, T₂) ∧
            Joined sol₁ sol₂ sol := by
  rcases run_traced hfirst with ⟨rfl, hnone⟩ | ⟨t, sol₁, ht, rfl, htells⟩
  · exact Or.inl ⟨rfl, eq_none_of_run hwhole (trace_add_eq_none hb hnone)⟩
  · right
    refine ⟨sol₁, t.last, rfl, fun second hsecond => ?_⟩
    have hsplit : trace o.zeroTolerance (a + b) T =
        (trace o.zeroTolerance b t.last).map t.append := by
      rw [trace_add a hb, ht, Option.bind_some]
    rcases run_traced hsecond with ⟨rfl, hnone⟩ | ⟨t', sol₂, ht', rfl, htells'⟩
    · left
      refine ⟨rfl, eq_none_of_run hwhole ?_⟩
      rw [hsplit, Option.bind_map]
      exact hnone
    · right
      rw [ht', Option.map_some] at hsplit
      obtain ⟨sol, rfl, hboth⟩ := exists_tells_of_run hwhole hsplit htells'.values
      exact ⟨sol₂, t'.last, sol, rfl, rfl, htells.joined htells' hboth⟩

theorem rerun_of_optimal {a : ℕ} {sol₁ : Solution α} {T₁ : Tableau α}
    (hrun : (run { o with maxIterations := a } T).Yields (some (sol₁, T₁)))
    (hopt : sol₁.status = .optimal) {c : ℕ} {again : Option (Solution α × Tableau α)}
    (hagain : (run { o with maxIterations := c } T₁).Yields again) :
    ∃ sol₂, again = some (sol₂, T₁) ∧ sol₂.status = .optimal ∧ sol₂.primal = sol₁.primal ∧
      sol₂.slack = sol₁.slack ∧ sol₂.objectiveValue = sol₁.objectiveValue ∧
      sol₂.iterations = 0 ∧ sol₂.stats.pivots = 0 ∧ sol₂.stats.history = #[] := by
  rcases run_traced hrun with ⟨hnone, -⟩ | ⟨t, sol, ht, hsome, htells⟩
  · cases hnone
  · cases hsome
    obtain ⟨t', ht', hmade, hlast, hfinal, hvalues⟩ :=
      trace_of_optimal (trace_ended ht) (htells.status.symm.trans hopt) c
    obtain ⟨sol₂, rfl, htells'⟩ :=
      exists_tells_of_run hagain ht' (hvalues.trans htells.values)
    have hsame := htells'.values.symm.trans (hvalues.trans htells.values)
    simp only [Option.some.injEq, Prod.mk.injEq] at hsame
    obtain ⟨hprimal, hslack, hobjective⟩ := hsame
    have hplaces := htells'.places
    rw [hmade, List.map_nil, List.map_eq_nil_iff, Array.toList_eq_nil_iff] at hplaces
    have hlength : t'.made.length = 0 := congrArg List.length hmade
    exact ⟨sol₂, by rw [hlast], htells'.status.trans hfinal, hprimal, hslack, hobjective,
      htells'.iterations.trans hlength, htells'.pivots.trans hlength, hplaces⟩

theorem run_of_shaped {n m : ℕ} (hT : T.Shaped n m) (hn : Scalar.Stores α n)
    (hm : Scalar.Stores α m) {whole : Option (Solution α × Tableau α)}
    (hwhole : (run o T).Yields whole) : ∃ sol T', whole = some (sol, T') ∧ T'.Shaped n m := by
  obtain ⟨status, Q, time, hQ, -, rfl⟩ := run_yields (I := fun P => P.tableau.Shaped n m)
    (fun P hP => by
      obtain ⟨outcome, T', hstep⟩ := exists_step?_eq_some hP o.zeroTolerance
      refine ⟨outcome, T', hstep, ?_⟩
      rintro row column rfl elapsed
      exact shaped_of_step? hP hstep)
    hT hwhole
  obtain ⟨sol, hsol, -⟩ := report?_eq_some hQ hn hm o.zeroTolerance status time
  exact ⟨sol, Q.tableau, congrArg (Option.map _) hsol, hQ⟩

theorem stores_of_run {sol : Solution α} (hrun : (run o T).Yields (some (sol, T'))) :
    Scalar.Stores α T.nvars ∧ Scalar.Stores α T.ncons := by
  rcases run_traced hrun with ⟨hnone, -⟩ | ⟨t, sol', ht, -, htells⟩
  · cases hnone
  · obtain ⟨hnvars, hncons⟩ := sizes_of_trace ht
    have hstores := stores_of_reported? htells.values
    rwa [hnvars, hncons] at hstores

end Succession

/-- **Runs split at any budget.** In any arithmetic, from any tableau and with any options, let a
run have the budget `a`, and a second one the budget `b`, not zero, from the tableau where the first
has stopped. Then one run with the budget `a + b` leaves the tableau that the second one leaves,
with its status, point and objective, and its record is that of the first followed by that of the
second. It breaks down if one of the two does. In particular a run from a tableau that was reported
optimal makes no pivot and reports the same. A run on a tableau of the shape of a problem breaks
down only if storage does not hold the values of its solution. -/
theorem runs_split_at_any_budget (o : Options α) (T : Tableau α) :
    (∀ a b, 0 < b →
      ∀ first, (run { o with maxIterations := a } T).Yields first →
      ∀ whole, (run { o with maxIterations := a + b } T).Yields whole →
        (first = none ∧ whole = none) ∨
        ∃ sol₁ T₁, first = some (sol₁, T₁) ∧
          ∀ second, (run { o with maxIterations := b } T₁).Yields second →
            (second = none ∧ whole = none) ∨
            ∃ sol₂ T₂ sol, second = some (sol₂, T₂) ∧ whole = some (sol, T₂) ∧
              Joined sol₁ sol₂ sol) ∧
    (∀ a sol₁ T₁, (run { o with maxIterations := a } T).Yields (some (sol₁, T₁)) →
      sol₁.status = .optimal →
      ∀ c again, (run { o with maxIterations := c } T₁).Yields again →
        ∃ sol₂, again = some (sol₂, T₁) ∧ sol₂.status = .optimal ∧ sol₂.primal = sol₁.primal ∧
          sol₂.slack = sol₁.slack ∧ sol₂.objectiveValue = sol₁.objectiveValue ∧
          sol₂.iterations = 0 ∧ sol₂.stats.pivots = 0 ∧ sol₂.stats.history = #[]) ∧
    ∀ n m, T.Shaped n m → ∀ a whole, (run { o with maxIterations := a } T).Yields whole →
      ((∃ sol T', whole = some (sol, T') ∧ T'.Shaped n m) ↔
        Scalar.Stores α n ∧ Scalar.Stores α m) := by
  refine ⟨?_, ?_, ?_⟩
  · intro a b hb first hfirst whole hwhole
    exact joined_runs hb hfirst hwhole
  · intro a sol₁ T₁ hrun hopt c again hagain
    exact rerun_of_optimal hrun hopt hagain
  · intro n m hT a whole hwhole
    constructor
    · rintro ⟨sol, T', rfl, -⟩
      have hstores := stores_of_run hwhole
      rwa [hT.nvars, hT.ncons_eq] at hstores
    · rintro ⟨hn, hm⟩
      exact run_of_shaped hT hn hm hwhole

/-- On `Problem.twoByTwo` the first pivot and the last one may be left to two runs. -/
theorem twoByTwo_split : ∃ sol₁ T₁ sol₂ T₂ sol,
    (run { Options.default with maxIterations := 1 } (Tableau.initial Problem.twoByTwo)).Yields
      (some (sol₁, T₁)) ∧ sol₁.status = .maxIterations ∧
    (run { Options.default with maxIterations := 1 } T₁).Yields (some (sol₂, T₂)) ∧
    (run { Options.default with maxIterations := 2 } (Tableau.initial Problem.twoByTwo)).Yields
      (some (sol, T₂)) ∧ sol.status = .optimal ∧ Joined sol₁ sol₂ sol := by
  obtain ⟨sol₁, T₁, hfirst, hmax⟩ := exists_yields_of_status
    (o := { Options.default with maxIterations := 1 }) (T := Tableau.initial Problem.twoByTwo)
    (show _ = some .maxIterations by decide +kernel)
  obtain ⟨sol, T₂, hwhole, hopt⟩ := exists_yields_of_status
    (o := { Options.default with maxIterations := 2 }) (T := Tableau.initial Problem.twoByTwo)
    (show _ = some .optimal by decide +kernel)
  have hsecond := Timed.yields_runFrom (fun _ => .zero) 0
    (run { Options.default with maxIterations := 1 } T₁)
  obtain ⟨hsplit, -, -⟩ :=
    runs_split_at_any_budget Options.default (Tableau.initial Problem.twoByTwo)
  rcases hsplit 1 1 Nat.one_pos _ hfirst _ hwhole with ⟨hnone, -⟩ | ⟨_, _, hsome, hrest⟩
  · cases hnone
  · cases hsome
    rcases hrest _ hsecond with ⟨-, hnone⟩ | ⟨sol₂, _, _, hsome, hwhole', hjoined⟩
    · cases hnone
    · cases hwhole'
      rw [hsome] at hsecond
      exact ⟨sol₁, T₁, sol₂, T₂, sol, hfirst, hmax, hsecond, hwhole, hopt, hjoined⟩

end LinProg.Simplex
