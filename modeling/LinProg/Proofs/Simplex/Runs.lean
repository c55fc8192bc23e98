import LinProg.Proofs.Tableau.Extraction
import LinProg.Proofs.Tableau.Scans
import LinProg.Simplex

/-!
# Runs of the simplex method

What every run keeps and how it ends, in any arithmetic.

* `pivots_invariant`: what each pivot keeps, the last tableau has; and the status says why the run
  ended there (`Ended`).
* `run_yields`, `solve_yields`: a run reports its last tableau, and a solve is a run.
* `report?_eq`, `report?_eq_some`: what a report holds.
-/

namespace LinProg.Simplex

variable {α : Type} [Scalar α] {tolerance : α}

/-- Why a run ends at a tableau. -/
def Ended (tolerance : α) (T : Tableau α) : Status → Prop
  | .optimal => T.entering tolerance = none
  | .unbounded => ∃ column, T.entering tolerance = some column ∧
      T.leaving? column tolerance = some none
  | .maxIterations => True
  | _ => False

section Steps

variable {T T' : Tableau α} {row column : ℕ}

theorem step?_of_entering_eq_none (h : T.entering tolerance = none) :
    step? tolerance T = some (.optimal, T) := by
  rw [step?, h]

theorem step?_of_leaving_eq_none (h : T.entering tolerance = some column)
    (hl : T.leaving? column tolerance = some none) :
    step? tolerance T = some (.unbounded column, T) := by
  rw [step?, h]
  dsimp only
  rw [hl]
  rfl

theorem step?_of_pivot (h : T.entering tolerance = some column)
    (hl : T.leaving? column tolerance = some (some row)) (hp : T.pivot? row column = some T') :
    step? tolerance T = some (.pivoted row column, T') := by
  rw [step?, h]
  dsimp only
  rw [hl, Option.bind_eq_bind, Option.bind_some]
  dsimp only
  rw [hp]
  rfl

theorem step?_cases {a : PivotOutcome} (h : step? tolerance T = some (a, T')) :
    (a = .optimal ∧ T' = T ∧ T.entering tolerance = none) ∨
    (∃ c, a = .unbounded c ∧ T' = T ∧ T.entering tolerance = some c ∧
      T.leaving? c tolerance = some none) ∨
    ∃ r c, a = .pivoted r c ∧ T.entering tolerance = some c ∧
      T.leaving? c tolerance = some (some r) ∧ T.pivot? r c = some T' := by
  rcases hq : T.entering tolerance with _ | c
  · rw [step?_of_entering_eq_none hq] at h
    cases h
    exact Or.inl ⟨rfl, rfl, rfl⟩
  · right
    rcases hl : T.leaving? c tolerance with _ | _ | r
    · simp [step?, hq, hl] at h
    · rw [step?_of_leaving_eq_none hq hl] at h
      cases h
      exact Or.inl ⟨c, rfl, rfl, rfl, hl⟩
    · right
      rcases hp : T.pivot? r c with _ | U
      · simp [step?, hq, hl, hp] at h
      · rw [step?_of_pivot hq hl hp] at h
        cases h
        exact ⟨r, c, rfl, rfl, hl, hp⟩

theorem pivoted_of_step? (h : step? tolerance T = some (.pivoted row column, T')) :
    T.entering tolerance = some column ∧ T.leaving? column tolerance = some (some row) ∧
      T.pivot? row column = some T' := by
  rcases step?_cases h with ⟨hpivoted, -⟩ | ⟨c, hpivoted, -⟩ | ⟨r, c, hpivoted, hpivot⟩
  · cases hpivoted
  · cases hpivoted
  · cases hpivoted
    exact hpivot

theorem exists_step?_eq_some {n m : ℕ} (h : T.Shaped n m) (tolerance : α) :
    ∃ a T', step? tolerance T = some (a, T') := by
  rcases hq : T.entering tolerance with _ | column
  · exact ⟨_, T, step?_of_entering_eq_none hq⟩
  · have hc := (h.not_le_of_entering hq).1
    rcases hl : T.leaving? column tolerance with _ | _ | row
    · rw [h.leaving?_eq hc.le] at hl
      cases hl
    · exact ⟨_, T, step?_of_leaving_eq_none hq hl⟩
    · have hr := (h.not_le_of_leaving hc.le hl).1
      exact ⟨_, _, step?_of_pivot hq hl (h.pivot?_eq_some hr hc.le)⟩

end Steps

/-- **A run keeps what its pivots keep**, and its status says why it ended. -/
theorem pivots_invariant {I : Progress α → Prop}
    (hstep : ∀ P, I P → ∃ a T, step? tolerance P.tableau = some (a, T) ∧
      ∀ row column, a = .pivoted row column → ∀ elapsed, I (P.pivoted T row column elapsed))
    {start : Duration} {budget : ℕ} {P : Progress α} (hP : I P)
    {r : Option (Status × Progress α)} (hr : (pivots tolerance start budget P).Yields r) :
    ∃ status Q, r = some (status, Q) ∧ I Q ∧ Ended tolerance Q.tableau status := by
  -- the invariant rules out that a step breaks down, so every step stops the run or pivots
  induction budget generalizing P with
  | zero =>
    rw [pivots, Timed.Yields] at hr
    exact ⟨_, _, hr.symm, hP, trivial⟩
  | succ budget ih =>
    obtain ⟨a, T, hT, hnext⟩ := hstep P hP
    rw [pivots, hT] at hr
    rcases step?_cases hT with ⟨rfl, -, hq⟩ | ⟨c, rfl, -, hq, hl⟩ | ⟨row, column, rfl, -⟩
    · rw [Timed.Yields] at hr
      exact ⟨_, _, hr.symm, hP, hq⟩
    · rw [Timed.Yields] at hr
      exact ⟨_, _, hr.symm, hP, c, hq, hl⟩
    · obtain ⟨now, hr⟩ := hr
      exact ih (hnext row column rfl _) hr

theorem ended_finalStatus {T : Tableau α} {status : Status} (h : Ended tolerance T status) :
    Ended tolerance T (finalStatus tolerance status T) := by
  rw [finalStatus]
  split
  · rename_i hmax
    exact Option.isNone_iff_eq_none.mp hmax.2
  · exact h

theorem Ended.status_cases {T : Tableau α} {status : Status} (h : Ended tolerance T status) :
    status = .optimal ∨ status = .unbounded ∨ status = .maxIterations := by
  cases status with
  | optimal => exact Or.inl rfl
  | unbounded => exact Or.inr (Or.inl rfl)
  | maxIterations => exact Or.inr (Or.inr rfl)
  | noSolution => exact h.elim
  | notApplicable why => exact h.elim
  | maxTime => exact h.elim
  | numericalFailure => exact h.elim

/-- The point and the objective that are reported: those of the tableau if it is optimal, and zeros
otherwise. -/
def reported? (tolerance : α) (status : Status) (T : Tableau α) :
    Option (List α × List α × α) := do
  if status = .optimal then
    return (← T.primal? tolerance, ← T.slack? tolerance, T.objective)
  else
    let _ ← Scalar.entries? α T.nvars
    let _ ← Scalar.entries? α T.ncons
    return (List.replicate T.nvars 0, List.replicate T.ncons 0, 0)

theorem stores_of_reported? {status : Status} {T : Tableau α} {v : List α × List α × α}
    (h : reported? tolerance status T = some v) :
    Scalar.Stores α T.nvars ∧ Scalar.Stores α T.ncons := by
  unfold reported? at h
  split at h
  · simp only [Tableau.primal?, Tableau.slack?, Option.bind_eq_bind, Option.bind_eq_some_iff,
      Tableau.values?_eq_some_iff, List.length_map, List.length_range] at h
    obtain ⟨x, ⟨hn, -⟩, s, ⟨hm, -⟩, -⟩ := h
    exact ⟨hn, hm⟩
  · simp only [Option.bind_eq_bind, Option.bind_eq_some_iff, Scalar.entries?_eq_some_iff] at h
    obtain ⟨_, ⟨hn, -⟩, _, ⟨hm, -⟩, -⟩ := h
    exact ⟨hn, hm⟩

theorem report?_eq (tolerance : α) (status : Status) (P : Progress α) (time : Duration) :
    report? tolerance status P time = (reported? tolerance status P.tableau).map fun v =>
      ⟨v.1, v.2.1, status, v.2.2, P.stats.pivots, { P.stats with solveTime := time }⟩ := by
  unfold report? reported?
  by_cases hopt : status = .optimal
  · rw [if_pos hopt, if_pos hopt]
    cases P.tableau.primal? tolerance with
    | none => rfl
    | some x =>
      cases P.tableau.slack? tolerance with
      | none => rfl
      | some s => rfl
  · rw [if_neg hopt, if_neg hopt, Solution.terminated?]
    cases Scalar.entries? α P.tableau.nvars with
    | none => rfl
    | some n =>
      cases Scalar.entries? α P.tableau.ncons with
      | none => rfl
      | some m => rfl

theorem report?_eq_some {Q : Progress α} {n m : ℕ} (h : Q.tableau.Shaped n m)
    (hn : Scalar.Stores α n) (hm : Scalar.Stores α m) (tolerance : α) (status : Status)
    (time : Duration) :
    ∃ sol, report? tolerance status Q time = some sol ∧ sol.status = status ∧
      (status = .optimal → Q.tableau.primal? tolerance = some sol.primal ∧
        Q.tableau.slack? tolerance = some sol.slack ∧
        sol.objectiveValue = Q.tableau.objective) := by
  rw [report?_eq, reported?]
  by_cases hopt : status = .optimal
  · obtain ⟨x, s, hx, hs, -⟩ := h.exists_primal?_slack? hn hm tolerance
    rw [if_pos hopt, hx, hs]
    exact ⟨_, rfl, rfl, fun _ => ⟨rfl, rfl, rfl⟩⟩
  · rw [if_neg hopt, h.nvars, h.ncons_eq, Scalar.entries?_eq hn, Scalar.entries?_eq hm]
    exact ⟨_, rfl, rfl, fun heq => absurd heq hopt⟩

theorem run_yields {I : Progress α → Prop} {o : Options α}
    (hstep : ∀ P, I P → ∃ a T, step? o.zeroTolerance P.tableau = some (a, T) ∧
      ∀ row column, a = .pivoted row column → ∀ elapsed, I (P.pivoted T row column elapsed))
    {T : Tableau α} (hT : I ⟨T, {}⟩) {r : Option (Solution α × Tableau α)}
    (hr : (run o T).Yields r) :
    ∃ status Q time, I Q ∧ Ended o.zeroTolerance Q.tableau status ∧
      r = (report? o.zeroTolerance status Q time).map fun sol => (sol, Q.tableau) := by
  simp only [run, Timed.yields_bind] at hr
  obtain ⟨start, -, ended, hended, now, -, hr⟩ := hr
  obtain ⟨status, Q, rfl, hQ, hend⟩ := pivots_invariant hstep hT hended
  refine ⟨_, Q, start.since now, hQ, ended_finalStatus hend, ?_⟩
  rw [← hr, Option.map_eq_bind]
  rfl

theorem exists_yields_of_status {o : Options α} {T : Tableau α} {status : Status}
    (h : ((run o T).runFrom (fun _ => .zero) 0).map (fun r => r.1.status) = some status) :
    ∃ sol T', (run o T).Yields (some (sol, T')) ∧ sol.status = status := by
  obtain ⟨⟨sol, T'⟩, hr, hstatus⟩ := Option.map_eq_some_iff.mp h
  have hyields := Timed.yields_runFrom (fun _ => .zero) 0 (run o T)
  rw [hr] at hyields
  exact ⟨sol, T', hyields, hstatus⟩

theorem solve_yields {o : Options α} {p : Problem α} {T : Tableau α} (ho : o.validate = .ok ())
    (hT : Tableau.of p = .ok T) {r : Outcome (InputError α) (Solution α)}
    (hr : (solve o p).Yields r) :
    ∃ s, (run o T).Yields s ∧ r = (Outcome.ofOption s).bind fun s => .ok s.1 := by
  have hof : (Outcome.ofExcept o.validate >>= fun _ => Tableau.of p) = .ok T := by
    rw [ho, ← hT]
    rfl
  rw [solve, hof] at hr
  obtain ⟨s, hs, hr⟩ := Timed.yields_bind.mp hr
  exact ⟨s, hs, hr.symm⟩

theorem solve_yields_ok {o : Options α} {p : Problem α} {sol : Solution α}
    (hr : (solve o p).Yields (.ok sol)) :
    o.validate = .ok () ∧ ∃ T T', Tableau.of p = .ok T ∧ (run o T).Yields (some (sol, T')) := by
  have hsolve := hr
  rw [solve] at hr
  split at hr
  · cases hr
  · cases hr
  · rename_i T hof
    obtain ⟨⟨⟩, ho, hT⟩ := Outcome.bind_eq_ok.mp hof
    rw [Outcome.ofExcept_eq_ok] at ho
    obtain ⟨s, hs, hok⟩ := solve_yields ho hT hsolve
    cases s with
    | none => cases hok
    | some s =>
      obtain ⟨sol', T'⟩ := s
      cases hok
      exact ⟨ho, T, T', hT, hs⟩

theorem solve_yields_fault {o : Options α} {p : Problem α} (ho : o.validate = .ok ())
    (hT : Tableau.of p = .fault) {r : Outcome (InputError α) (Solution α)}
    (hr : (solve o p).Yields r) : r = .fault := by
  have hof : (Outcome.ofExcept o.validate >>= fun _ => Tableau.of p) = .fault := by
    rw [ho, ← hT]
    rfl
  rw [solve, hof] at hr
  exact hr.symm

end LinProg.Simplex
