import LinProg.Proofs.Simplex.Runs
import LinProg.Proofs.Tableau.Selection
import LinProg.Proofs.Tableau.System

/-!
# The pivots of a run

`Steps tolerance T₀ made T` says that steps lead from `T₀` to `T`, and lists the pivots they make
on the way, each with the tableaux before and after it. These tableaux are a chain
(`Steps.isChain_visited`), so what relates them over one pivot orders all that are `visited`. A run
is such a sequence of steps, and its record is the list of its pivots (`run_made`); it is out of
pivots only if it has made as many as it may.

In exact arithmetic a step pivots where the two scans say (`Chosen`), and all values change by
multiples of the ratio of the leaving row.
-/

namespace LinProg.Simplex

/-- A pivot: the tableau it is made on, its place, and the tableau it leads to. -/
structure Pivot (α : Type) where
  before : Tableau α
  row : ℕ
  column : ℕ
  after : Tableau α

variable {α : Type} [Scalar α] {tolerance : α}

/-- The tableaux that steps lead to, with the pivots made on the way. -/
inductive Steps (tolerance : α) (T₀ : Tableau α) : List (Pivot α) → Tableau α → Prop where
  | start : Steps tolerance T₀ [] T₀
  | pivoted {made : List (Pivot α)} {T T' : Tableau α} {row column : ℕ}
      (h : Steps tolerance T₀ made T) (hstep : step? tolerance T = some (.pivoted row column, T')) :
      Steps tolerance T₀ (made ++ [⟨T, row, column, T'⟩]) T'
  | stopped {made : List (Pivot α)} {T T' : Tableau α} {a : PivotOutcome}
      (h : Steps tolerance T₀ made T) (hstep : step? tolerance T = some (a, T'))
      (hstop : ∀ row column, a ≠ .pivoted row column) : Steps tolerance T₀ made T'

/-- **Steps keep what their pivots keep**, whatever the pivots before them. -/
theorem Steps.invariant {T₀ T : Tableau α} {made : List (Pivot α)}
    {I : List (Pivot α) → Tableau α → Prop} (hstart : I [] T₀)
    (hstep : ∀ made T row column T', Steps tolerance T₀ made T → I made T →
      step? tolerance T = some (.pivoted row column, T') → I (made ++ [⟨T, row, column, T'⟩]) T')
    (h : Steps tolerance T₀ made T) : I made T := by
  induction h with
  | start => exact hstart
  | pivoted h hpivot ih => exact hstep _ _ _ _ _ h ih hpivot
  | stopped h hstopped hstop ih =>
    rcases step?_cases hstopped with ⟨-, rfl, -⟩ | ⟨c, -, rfl, -⟩ | ⟨row, column, rfl, -⟩
    · exact ih
    · exact ih
    · exact absurd rfl (hstop row column)

theorem sizes_of_pivot? {T T' : Tableau α} {row column : ℕ} (h : T.pivot? row column = some T') :
    T'.nvars = T.nvars ∧ T'.ncons = T.ncons := by
  unfold Tableau.pivot? at h
  split at h
  · cases h
  · simp only [Option.bind_eq_bind, Option.bind_eq_some_iff] at h
    obtain ⟨r, -, entry, -, h⟩ := h
    cases h
    refine ⟨rfl, ?_⟩
    rw [Tableau.ncons, List.length_map, List.length_zipIdx]
    rfl

theorem Steps.sizes {T₀ T : Tableau α} {made : List (Pivot α)} (h : Steps tolerance T₀ made T) :
    T.nvars = T₀.nvars ∧ T.ncons = T₀.ncons := by
  refine h.invariant (I := fun _ T => T.nvars = T₀.nvars ∧ T.ncons = T₀.ncons) ⟨rfl, rfl⟩ ?_
  intro made T row column T' _ ih hstep
  obtain ⟨hnvars, hncons⟩ := sizes_of_pivot? (pivoted_of_step? hstep).2.2
  exact ⟨hnvars.trans ih.1, hncons.trans ih.2⟩

theorem Steps.take {T₀ T : Tableau α} {made : List (Pivot α)} (h : Steps tolerance T₀ made T) :
    ∀ (i : ℕ) V, made[i]? = some V →
    Steps tolerance T₀ (made.take i) V.before ∧
      step? tolerance V.before = some (.pivoted V.row V.column, V.after) := by
  refine h.invariant (I := fun made _ => ∀ (i : ℕ) V, made[i]? = some V →
    Steps tolerance T₀ (made.take i) V.before ∧
      step? tolerance V.before = some (.pivoted V.row V.column, V.after)) nofun ?_
  intro made T row column T' hsteps ih hstep i V hV
  rw [List.getElem?_append] at hV
  split at hV
  · rename_i hi
    rw [List.take_append_of_le_length hi.le]
    exact ih i V hV
  · rename_i hi
    obtain ⟨hlt, rfl⟩ := List.getElem?_eq_some_iff.mp hV
    rw [List.length_singleton] at hlt
    obtain rfl : i = made.length := by omega
    rw [List.take_left]
    simpa using ⟨hsteps, hstep⟩

theorem Steps.of_mem {T₀ T : Tableau α} {made : List (Pivot α)} (h : Steps tolerance T₀ made T) :
    ∀ V ∈ made, (∃ earlier, Steps tolerance T₀ earlier V.before) ∧
      step? tolerance V.before = some (.pivoted V.row V.column, V.after) := by
  intro V hV
  obtain ⟨i, hi⟩ := List.mem_iff_getElem?.mp hV
  obtain ⟨hsteps, hstep⟩ := h.take i V hi
  exact ⟨⟨_, hsteps⟩, hstep⟩

/-- The tableaux that pivots go through, the first one included. -/
def visited (T₀ : Tableau α) (made : List (Pivot α)) : List (Tableau α) :=
  T₀ :: made.map (·.after)

omit [Scalar α] in
theorem visited_append (T₀ : Tableau α) (made : List (Pivot α)) (V : Pivot α) :
    visited T₀ (made ++ [V]) = visited T₀ made ++ [V.after] := by
  simp [visited]

theorem Steps.getLast?_visited {T₀ T : Tableau α} {made : List (Pivot α)}
    (h : Steps tolerance T₀ made T) : (visited T₀ made).getLast? = some T := by
  refine h.invariant (I := fun made T => (visited T₀ made).getLast? = some T) rfl ?_
  intro made T row column T' _ _ _
  rw [visited_append]
  exact List.getLast?_concat

theorem Steps.isChain_visited {T₀ T : Tableau α} {made : List (Pivot α)}
    {R : Tableau α → Tableau α → Prop} (h : Steps tolerance T₀ made T)
    (hmade : ∀ V ∈ made, R V.before V.after) :
    (visited T₀ made).IsChain R := by
  revert hmade
  refine h.invariant (I := fun made _ => (∀ V ∈ made, R V.before V.after) →
    (visited T₀ made).IsChain R) (fun _ => List.isChain_singleton T₀) ?_
  intro made T row column T' hsteps ih _ hmade
  have hchain := ih fun V hV => hmade V (List.mem_append_left _ hV)
  have hnew := hmade _ (List.mem_append_right _ (List.mem_singleton_self _))
  rw [visited_append]
  refine hchain.append (List.isChain_singleton T') ?_
  intro U hU W hW
  rw [hsteps.getLast?_visited, Option.mem_some_iff] at hU
  obtain rfl := hU
  obtain rfl := Option.mem_some_iff.mp hW
  exact hnew

/-- The record `P` of a run is that of the pivots `made`. -/
structure Recorded (tolerance : α) (T₀ : Tableau α) (made : List (Pivot α)) (P : Progress α) :
    Prop where
  steps : Steps tolerance T₀ made P.tableau
  pivots : P.stats.pivots = made.length
  numbers : P.stats.history.toList.map (·.iteration) = List.range' 1 made.length
  objectives : P.stats.history.toList.map (·.objective) = made.map (·.after.objective)
  places : P.stats.history.toList.map (·.pivot) = made.map fun V => some (V.row, V.column)

section Record

variable {T₀ : Tableau α} {made : List (Pivot α)} {P : Progress α}

theorem recorded_start (T₀ : Tableau α) : Recorded tolerance T₀ [] ⟨T₀, {}⟩ :=
  ⟨.start, rfl, rfl, rfl, rfl⟩

theorem Recorded.pivoted (h : Recorded tolerance T₀ made P) {T : Tableau α} {row column : ℕ}
    (hstep : step? tolerance P.tableau = some (.pivoted row column, T)) (elapsed : Duration) :
    Recorded tolerance T₀ (made ++ [⟨P.tableau, row, column, T⟩])
      (P.pivoted T row column elapsed) where
  steps := h.steps.pivoted hstep
  pivots := by simp [Progress.pivoted, h.pivots]
  numbers := by
    rw [List.length_append, List.length_singleton, List.range'_1_concat, ← h.numbers]
    simp [Progress.pivoted, Stats.push, Record.pivoted, h.pivots, Nat.add_comm]
  objectives := by simp [Progress.pivoted, Stats.push, Record.pivoted, h.objectives]
  places := by simp [Progress.pivoted, Stats.push, Record.pivoted, h.places]

theorem pivots_recorded (h : Recorded tolerance T₀ made P) {start : Duration} {budget : ℕ}
    {status : Status} {Q : Progress α}
    (hr : (pivots tolerance start budget P).Yields (some (status, Q))) :
    ∃ made', Recorded tolerance T₀ made' Q ∧ Ended tolerance Q.tableau status ∧
      made'.length ≤ made.length + budget ∧
      (status = .maxIterations ↔ made'.length = made.length + budget) := by
  induction budget generalizing P made with
  | zero =>
    rw [pivots, Timed.Yields, Option.some.injEq, Prod.mk.injEq] at hr
    obtain ⟨rfl, rfl⟩ := hr
    exact ⟨made, h, trivial, le_rfl, iff_of_true rfl rfl⟩
  | succ budget ih =>
    rw [pivots] at hr
    rcases hstep : step? tolerance P.tableau with _ | ⟨a, T⟩
    · rw [hstep] at hr
      cases hr
    · rw [hstep] at hr
      rcases step?_cases hstep with ⟨rfl, -, hq⟩ | ⟨c, rfl, -, hq, hl⟩ | ⟨row, column, rfl, -⟩
      · cases hr
        exact ⟨made, h, hq, Nat.le_add_right _ _, iff_of_false (by decide) (by omega)⟩
      · cases hr
        exact ⟨made, h, ⟨c, hq, hl⟩, Nat.le_add_right _ _, iff_of_false (by decide) (by omega)⟩
      · obtain ⟨now, hr⟩ := hr
        have hnext := h.pivoted hstep (start.since now)
        obtain ⟨made', hmade, hend, hle, hmax⟩ := ih hnext hr
        rw [List.length_append, List.length_singleton, Nat.add_assoc, Nat.add_comm 1] at hle hmax
        exact ⟨made', hmade, hend, hle, hmax⟩

end Record

theorem stats_of_report? {status : Status} {Q : Progress α} {time : Duration} {sol : Solution α}
    (h : report? tolerance status Q time = some sol) :
    sol.status = status ∧ sol.iterations = Q.stats.pivots ∧
      sol.stats.pivots = Q.stats.pivots ∧ sol.stats.history = Q.stats.history := by
  rw [report?_eq, Option.map_eq_some_iff] at h
  obtain ⟨v, -, rfl⟩ := h
  exact ⟨rfl, rfl, rfl, rfl⟩

theorem run_recorded {o : Options α} {T₀ T : Tableau α} {sol : Solution α}
    (hr : (run o T₀).Yields (some (sol, T))) :
    ∃ made status Q time, Recorded o.zeroTolerance T₀ made Q ∧ Q.tableau = T ∧
      Ended o.zeroTolerance T status ∧ made.length ≤ o.maxIterations ∧
      (status = .maxIterations ↔ made.length = o.maxIterations) ∧
      report? o.zeroTolerance (finalStatus o.zeroTolerance status T) Q time = some sol := by
  simp only [run, Timed.yields_bind, Timed.pure_eq, Timed.Yields] at hr
  obtain ⟨start, -, ended, hended, now, -, hr⟩ := hr
  simp only [Option.bind_eq_bind, Option.bind_eq_some_iff, Option.pure_def, Option.some.injEq,
    Prod.mk.injEq] at hr
  obtain ⟨⟨status, Q⟩, rfl, sol', hreport, rfl, rfl⟩ := hr
  obtain ⟨made, hmade, hend, hle, hmax⟩ := pivots_recorded (recorded_start T₀) hended
  rw [List.length_nil, Nat.zero_add] at hle hmax
  exact ⟨made, status, Q, start.since now, hmade, rfl, hend, hle, hmax, hreport⟩

/-- **A run is a sequence of steps**, and its record lists their pivots. -/
theorem run_made {o : Options α} {T₀ T : Tableau α} {sol : Solution α}
    (hr : (run o T₀).Yields (some (sol, T))) :
    ∃ made, Steps o.zeroTolerance T₀ made T ∧ sol.iterations = made.length ∧
      sol.stats.history.toList.map (·.objective) = made.map (·.after.objective) ∧
      sol.stats.history.toList.map (·.pivot) = (made.map fun V => some (V.row, V.column)) ∧
      made.length ≤ o.maxIterations ∧
      (sol.status = .maxIterations → made.length = o.maxIterations) := by
  obtain ⟨made, status, Q, time, hmade, rfl, -, hle, hmax, hreport⟩ := run_recorded hr
  obtain ⟨hstatus, hiterations, -, hhistory⟩ := stats_of_report? hreport
  refine ⟨made, hmade.steps, hiterations.trans hmade.pivots, ?_, ?_, hle, fun hlast => ?_⟩
  · rw [hhistory]
    exact hmade.objectives
  · rw [hhistory]
    exact hmade.places
  · apply hmax.mp
    rw [hlast, finalStatus] at hstatus
    split at hstatus
    · cases hstatus
    · exact hstatus.symm

section Exact

variable {K : Type} [Field K] [LinearOrder K] [Exact K]

/-- A step with the tolerance `t` pivots on this row and column. -/
structure Chosen (T T' : Tableau K) (n m : ℕ) (t : K) (row column : ℕ) : Prop where
  column_lt : column < n + m
  cost_lt : T.entry m column < -t
  row_lt : row < m
  lt_entry : t < T.entry row column
  /-- No row with an entry above the tolerance has a smaller ratio. -/
  ratio_le : ∀ i < m, t < T.entry i column →
    T.entry row (n + m) / T.entry row column ≤ T.entry i (n + m) / T.entry i column
  pivoted : T.Pivoted T' n m row column

variable {T₀ T T' : Tableau K} {n m row column : ℕ} {t : K}

theorem chosen_of_step? (h : T.Shaped n m)
    (hstep : step? t T = some (.pivoted row column, T')) : Chosen T T' n m t row column := by
  obtain ⟨hq, hl, hp⟩ := pivoted_of_step? hstep
  obtain ⟨hc, hcost⟩ := h.entering_eq_some hq
  obtain ⟨hr, hentry, hmin⟩ := h.leaving?_eq_some hc.le hl
  exact ⟨hc, hcost, hr, hentry, hmin, h.pivoted hr hc.le hp⟩

namespace Chosen

variable (h : Chosen T T' n m t row column) (ht : 0 ≤ t)
include h ht

theorem entry_pos : 0 < T.entry row column := ht.trans_lt h.lt_entry

theorem rhs_row : T'.entry row (n + m) = T.entry row (n + m) / T.entry row column :=
  h.pivoted.row_eq (h.entry_pos ht).ne' le_rfl

theorem rhs_other {i : ℕ} (hi : i ≤ m) (hne : i ≠ row) : T'.entry i (n + m) =
    T.entry i (n + m) - T.entry i column * (T.entry row (n + m) / T.entry row column) :=
  h.pivoted.other_eq (h.entry_pos ht).ne' hi hne le_rfl

end Chosen

variable {p : Problem K} {made : List (Pivot K)}

theorem represents_of_step? (h : T.Represents p) (ht : 0 ≤ t)
    (hstep : step? t T = some (.pivoted row column, T')) : T'.Represents p := by
  have hchosen := chosen_of_step? h.shaped hstep
  obtain ⟨-, -, hp⟩ := pivoted_of_step? hstep
  exact h.pivot hchosen.row_lt hchosen.column_lt (hchosen.entry_pos ht).ne' hp

theorem Steps.represents (h : Steps t T₀ made T) (hT₀ : T₀.Represents p) (ht : 0 ≤ t) :
    T.Represents p :=
  h.invariant (I := fun _ T => T.Represents p) hT₀
    fun _ _ _ _ _ _ hT hstep => represents_of_step? hT ht hstep

end Exact

end LinProg.Simplex
