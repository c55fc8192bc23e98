import LinProg.Proofs.Simplex.Pivots
import LinProg.Proofs.Simplex.Tolerances

/-!
# How far basic values fall below zero

The ratio test passes over rows with an entry up to the tolerance, and nothing bounds the ratio by
which such a row is then reduced: basic values do turn negative, by more than the tolerance
(`steep_row_turns_negative`). What they fall by is known, though. Each pivot has its `Pivot.loss`,
the most that it takes off a row it has passed over, or the value it leaves in its own row if that
is negative; and no basic value is below the negated sum of the losses so far
(`basic_values_ge_neg_losses`).
-/

open scoped Matrix

namespace LinProg.Simplex

variable {K : Type} [Field K] [LinearOrder K] [Exact K]

namespace Pivot

/-- The value with which the column enters. -/
def ratio (V : Pivot K) : K :=
  V.before.entry V.row (V.before.nvars + V.before.ncons) / V.before.entry V.row V.column

/-- The rows that the ratio test passes over. -/
def passedOver (t : K) (V : Pivot K) : List ℕ :=
  (List.range V.before.ncons).filter fun i => V.before.entry i V.column ≤ t

/-- The most that a pivot may take a basic value below zero. -/
def loss (t : K) (V : Pivot K) : K :=
  ((V.passedOver t).map fun i => V.before.entry i V.column * V.ratio).foldl Scalar.max
    (Scalar.max 0 (-V.ratio))

variable {t : K} {V : Pivot K}

omit [Exact K] in
theorem mem_passedOver {i : ℕ} :
    i ∈ V.passedOver t ↔ i < V.before.ncons ∧ V.before.entry i V.column ≤ t := by
  simp [passedOver]

theorem loss_le_iff {c : K} : V.loss t ≤ c ↔ 0 ≤ c ∧ -V.ratio ≤ c ∧
    ∀ i ∈ V.passedOver t, V.before.entry i V.column * V.ratio ≤ c := by
  rw [loss, Vec.foldl_max_le_iff, Exact.max_eq, max_le_iff, List.forall_mem_map, and_assoc]

theorem loss_nonneg (t : K) (V : Pivot K) : 0 ≤ V.loss t := (loss_le_iff.mp le_rfl).1

theorem neg_ratio_le_loss (t : K) (V : Pivot K) : -V.ratio ≤ V.loss t := (loss_le_iff.mp le_rfl).2.1

theorem mul_ratio_le_loss {i : ℕ} (hi : i ∈ V.passedOver t) :
    V.before.entry i V.column * V.ratio ≤ V.loss t :=
  (loss_le_iff.mp le_rfl).2.2 i hi

variable [IsStrictOrderedRing K]

theorem loss_le_mul_ratio (ht : 0 ≤ t) (hratio : 0 ≤ V.ratio) : V.loss t ≤ t * V.ratio := by
  have hpart : 0 ≤ t * V.ratio := mul_nonneg ht hratio
  refine loss_le_iff.mpr ⟨hpart, (neg_nonpos.mpr hratio).trans hpart, fun i hi => ?_⟩
  exact mul_le_mul_of_nonneg_right (mem_passedOver.mp hi).2 hratio

theorem loss_eq_zero (hratio : 0 ≤ V.ratio)
    (hpassed : ∀ i ∈ V.passedOver t, V.before.entry i V.column ≤ 0) : V.loss t = 0 := by
  apply le_antisymm _ (loss_nonneg t V)
  refine loss_le_iff.mpr ⟨le_rfl, neg_nonpos.mpr hratio, fun i hi => ?_⟩
  exact mul_nonpos_of_nonpos_of_nonneg (hpassed i hi) hratio

end Pivot

def losses (t : K) (made : List (Pivot K)) : K := (made.map (Pivot.loss t)).sum

section Runs

variable {p : Problem K} {T₀ T T' : Tableau K} {made : List (Pivot K)} {t : K} {n m : ℕ}

theorem losses_append_singleton (t : K) (made : List (Pivot K)) (V : Pivot K) :
    losses t (made ++ [V]) = losses t made + V.loss t := by
  simp [losses]

variable [IsStrictOrderedRing K]

theorem losses_nonneg (t : K) (made : List (Pivot K)) : 0 ≤ losses t made := by
  apply List.sum_nonneg
  intro c hc
  obtain ⟨V, -, rfl⟩ := List.mem_map.mp hc
  exact Pivot.loss_nonneg t V

/-- **One pivot.** No basic value falls by more than the loss below a bound that all of them had. -/
theorem neg_le_rhs_of_step? (h : T.Shaped n m) (ht : 0 ≤ t) {row column : ℕ}
    (hstep : step? t T = some (.pivoted row column, T')) {c : K} (hc : 0 ≤ c)
    (hrhs : ∀ i < m, -c ≤ T.entry i (n + m)) :
    ∀ i < m, -(c + Pivot.loss t ⟨T, row, column, T'⟩) ≤ T'.entry i (n + m) := by
  intro i hi
  have hchosen := chosen_of_step? h hstep
  let V : Pivot K := ⟨T, row, column, T'⟩
  have hloss := Pivot.loss_nonneg t V
  have hratio : V.ratio = T.entry row (n + m) / T.entry row column := by
    rw [Pivot.ratio, h.nvars, h.ncons_eq]
  by_cases hir : i = row
  · have hrow := Pivot.neg_ratio_le_loss t V
    rw [hir, hchosen.rhs_row ht, ← hratio]
    linarith
  · rw [hchosen.rhs_other ht hi.le hir, ← hratio]
    rcases le_or_gt (T.entry i column) t with hle | hgt
    · have hpassed : i ∈ V.passedOver t :=
        Pivot.mem_passedOver.mpr ⟨by rw [h.ncons_eq]; exact hi, hle⟩
      have hmul : T.entry i column * V.ratio ≤ V.loss t := Pivot.mul_ratio_le_loss hpassed
      have hold := hrhs i hi
      linarith
    · -- a row that takes part in the ratio test keeps a value that is not negative
      have hmin := hchosen.ratio_le i hi hgt
      rw [← hratio, le_div_iff₀ (ht.trans_lt hgt), mul_comm] at hmin
      linarith

theorem Steps.neg_losses_le (h : Steps t T₀ made T) (hT₀ : T₀.PrimalFeasible p) (ht : 0 ≤ t) :
    ∀ i < p.ncons, -losses t made ≤ T.entry i (p.nvars + p.ncons) := by
  refine h.invariant
    (I := fun made T => ∀ i < p.ncons, -losses t made ≤ T.entry i (p.nvars + p.ncons))
    (fun i hi => ?_) fun made T row column T' hsteps hrhs hstep => ?_
  · rw [losses, List.map_nil, List.sum_nil, neg_zero]
    exact hT₀.rhs_nonneg i hi
  · have hshaped := (hsteps.represents hT₀.represents ht).shaped
    rw [losses_append_singleton]
    exact neg_le_rhs_of_step? hshaped ht hstep (losses_nonneg t made) hrhs

theorem Steps.losses_eq_zero (h : Steps t T₀ made T) (hT₀ : T₀.PrimalFeasible p) (ht : 0 ≤ t)
    (hpassed : ∀ V ∈ made, ∀ i ∈ V.passedOver t, V.before.entry i V.column ≤ 0) :
    losses t made = 0 := by
  revert hpassed
  refine h.invariant
    (I := fun made _ => (∀ V ∈ made, ∀ i ∈ V.passedOver t, V.before.entry i V.column ≤ 0) →
      losses t made = 0)
    (fun _ => rfl) fun made T row column T' hsteps ih hstep hpassed => ?_
  have hrep := hsteps.represents hT₀.represents ht
  have hzero := ih fun V hV => hpassed V (List.mem_append_left _ hV)
  have hchosen := chosen_of_step? hrep.shaped hstep
  have hrhs := hsteps.neg_losses_le hT₀ ht row hchosen.row_lt
  rw [hzero, neg_zero] at hrhs
  rw [losses_append_singleton, hzero, zero_add]
  refine Pivot.loss_eq_zero ?_ (hpassed _ (List.mem_append_right _ (List.mem_singleton_self _)))
  rw [Pivot.ratio, hrep.shaped.nvars, hrep.shaped.ncons_eq]
  exact div_nonneg hrhs (hchosen.entry_pos ht).le

/-- The values of a point and its slacks are at least `-c`, and no constraint is violated by more
than `c`. -/
structure MissesAtMost (p : Problem K) (c : K) (x s : List K) : Prop where
  length_primal : x.length = p.nvars
  length_slack : s.length = p.ncons
  primal : ∀ v ∈ x, -c ≤ v
  slack : ∀ v ∈ s, -c ≤ v
  row : ∀ i, (p.coeffs *ᵥ Vec.coords p.nvars x) i ≤ p.bounds i + c

/-- The slacks that are read off make up for what the rows leave; where no column counts as basic,
zero is read off, which is feasible. -/
theorem row_le_of_primal? (h : T.Represents p) (hbounds : ∀ b ∈ p.rhs, 0 ≤ b) (ht : 0 ≤ t) {c : K}
    (hc : 0 ≤ c) (hrhs : ∀ i < p.ncons, -c ≤ T.entry i (p.nvars + p.ncons)) {x : List K}
    (hx : T.primal? t = some x) (i : Fin p.ncons) :
    (p.coeffs *ᵥ Vec.coords p.nvars x) i ≤ p.bounds i + c := by
  rcases lt_or_ge t 1 with h1 | h1
  · have hpoint := congrFun h.augmented_basicPoint i
    have hslack : -c ≤ T.basicPoint p.nvars p.ncons (Fin.natAdd p.nvars i) := by
      rw [← h.basicValue_eq, Tableau.basicValue]
      split
      · rename_i k hk
        obtain ⟨hlt, -⟩ := List.idxOf?_eq_some_iff.mp hk
        exact hrhs k (by rw [← h.shaped.basis]; exact hlt)
      · exact neg_nonpos.mpr hc
    rw [h.primal?_eq ht h1, Option.some.injEq] at hx
    rw [Problem.augmented_mulVec, Pi.add_apply] at hpoint
    rw [← hx, Vec.coords_ofFn]
    linarith
  · have hlen : p.rhs.length = p.ncons := rfl
    have hbound : 0 ≤ p.bounds i := by
      rw [Problem.bounds, Vec.coords_eq_get hlen]
      exact hbounds _ (List.get_mem _ _)
    rw [h.primal?_of_one_le h1, Option.some.injEq] at hx
    rw [← hx, Vec.coords_replicate_zero, Matrix.mulVec_zero, Pi.zero_apply]
    linarith

theorem missesAtMost_of_represents (h : T.Represents p) (hbounds : ∀ b ∈ p.rhs, 0 ≤ b)
    (ht : 0 ≤ t) {c : K} (hc : 0 ≤ c)
    (hrhs : ∀ i < p.ncons, -c ≤ T.entry i (p.nvars + p.ncons)) :
    ∃ x s, T.primal? t = some x ∧ T.slack? t = some s ∧ MissesAtMost p c x s := by
  obtain ⟨x, s, hx, hs, hxlen, hslen, hvalues⟩ :=
    h.shaped.exists_primal?_slack? (Exact.stores _) (Exact.stores _) t
  obtain ⟨hprimal, hslack⟩ := hvalues (fun v => -c ≤ v) (neg_nonpos.mpr hc) hrhs
  exact ⟨x, s, hx, hs, hxlen, hslen, hprimal, hslack,
    fun i => row_le_of_primal? h hbounds ht hc hrhs hx i⟩

/-- The negated losses bound what is in the tableau, and are bounded themselves. -/
structure KeepsWithinLosses (p : Problem K) (t : K) (made : List (Pivot K)) (T : Tableau K) :
    Prop where
  step : ∃ a T', step? t T = some (a, T')
  rhs : ∀ i < p.ncons, ∃ v, T.rhs? i = some v ∧ -losses t made ≤ v
  /-- No value that is read off is below them either, and the constraints are missed by no more. -/
  values : ∃ x s, T.primal? t = some x ∧ T.slack? t = some s ∧ MissesAtMost p (losses t made) x s
  part : ∀ V ∈ made, 0 ≤ V.ratio → V.loss t ≤ t * V.ratio
  /-- Nothing is lost as long as no row with a positive entry is passed over. -/
  exact : (∀ V ∈ made, ∀ i ∈ V.passedOver t, V.before.entry i V.column ≤ 0) → losses t made = 0

theorem Steps.keepsWithinLosses (h : Steps t T₀ made T) (hT₀ : T₀.PrimalFeasible p)
    (hbounds : ∀ b ∈ p.rhs, 0 ≤ b) (ht : 0 ≤ t) : KeepsWithinLosses p t made T := by
  have hrep := h.represents hT₀.represents ht
  have hrhs := h.neg_losses_le hT₀ ht
  exact
    { step := exists_step?_eq_some hrep.shaped t
      rhs := fun i hi => ⟨_, hrep.shaped.rhs?_eq hi.le, hrhs i hi⟩
      values := missesAtMost_of_represents hrep hbounds ht (losses_nonneg t made) hrhs
      part := fun V _ hratio => Pivot.loss_le_mul_ratio ht hratio
      exact := h.losses_eq_zero hT₀ ht }

/-- **Basic values fall by no more than the losses.** In exact arithmetic, take the tableaux that
steps lead to from that of a valid problem without negative bounds. Their basic values, and with
them the values and slacks that are read off, are at least the negated sum of the losses of the
pivots on the way, and an optimal solution violates no constraint by more than that sum.

Only a size that does not fit in a word keeps a problem from having a tableau. -/
theorem basic_values_ge_neg_losses {o : Options K} (hvalid : p.validate = .ok ())
    (hrhs : ∀ b ∈ p.rhs, 0 ≤ b) (ho : o.validate = .ok ()) :
    (2 ^ 64 ≤ (p.ncons + 1) * (p.nvars + p.ncons + 1) ∧ Tableau.of p = .fault) ∨
      ∃ T₀, Tableau.of p = .ok T₀ ∧
        (∀ made T, Steps o.zeroTolerance T₀ made T →
          KeepsWithinLosses p o.zeroTolerance made T) ∧
        ∀ sol, (solve o p).Yields (.ok sol) → sol.status = .optimal →
          ∃ made T, Steps o.zeroTolerance T₀ made T ∧
            sol.stats.history.toList.map (·.pivot) = (made.map fun V => some (V.row, V.column)) ∧
            MissesAtMost p (losses o.zeroTolerance made) sol.primal sol.slack := by
  obtain ⟨-, -, ⟨ht, -⟩, -⟩ := Options.validate_eq_ok_iff.mp ho
  rcases Tableau.of_eq_fault_or_ok_of_exact hvalid hrhs with hfault | ⟨hfit, hT⟩
  · exact Or.inl hfault
  · right
    have hfeasible := Tableau.primalFeasible_initial hvalid hfit hrhs
    refine ⟨_, hT, fun made T hsteps => hsteps.keepsWithinLosses hfeasible hrhs ht,
      fun sol hsol hopt => ?_⟩
    obtain ⟨-, T₀, T, hT₀, hrun⟩ := solve_yields_ok hsol
    obtain rfl : Tableau.initial p = T₀ := by
      rw [hT] at hT₀
      exact Outcome.ok.inj hT₀
    obtain ⟨made, hsteps, -, -, hplaces, -⟩ := run_made hrun
    obtain ⟨_, _, hsome, -, -, hvalues⟩ := run_represents ht hT hrun
    cases hsome
    obtain ⟨hx, hs, -⟩ := hvalues hopt
    obtain ⟨x, s, hx', hs', hmisses⟩ := (hsteps.keepsWithinLosses hfeasible hrhs ht).values
    rw [hx, Option.some.injEq] at hx'
    rw [hs, Option.some.injEq] at hs'
    subst hx' hs'
    exact ⟨made, T, hsteps, hplaces, hmisses⟩

/-- Maximise `x` subject to `x / 2 ^ 31 ≤ 1` and `x ≤ 2 ^ 32`: the ratio test does not see the
first row. -/
def steepRow : Problem ℚ := ⟨[1], ⟨2, 1, [1 / 2 ^ 31, 1]⟩, [1, 2 ^ 32]⟩

/-- The tableau of the problem after its one pivot, in the second row. -/
def steepRowPivoted : Tableau ℚ where
  nvars := 1
  body := [[0, 1, -1 / 2 ^ 31, -1], [1, 0, 1, 2 ^ 32]]
  objectiveRow := [0, 0, 1, 2 ^ 32]
  basis := [1, 0]

def steepRowPivot : Pivot ℚ := ⟨Tableau.initial steepRow, 1, 0, steepRowPivoted⟩

def defaults : Options ℚ := Options.default

theorem defaults_validate : defaults.validate = .ok () :=
  Options.validate_eq_ok_iff.mpr (by decide +kernel)

theorem steepRow_step :
    step? defaults.zeroTolerance (Tableau.initial steepRow) =
      some (.pivoted 1 0, steepRowPivoted) := by
  decide +kernel

/-- Basic values do not stay above the negated tolerance: the first row falls to minus one, and the
optimal solution violates its constraint by as much. -/
theorem steep_row_turns_negative :
    steepRow.validate = .ok () ∧ (∀ b ∈ steepRow.rhs, 0 ≤ b) ∧ defaults.validate = .ok () ∧
      Tableau.of steepRow = .ok (Tableau.initial steepRow) ∧
      step? defaults.zeroTolerance (Tableau.initial steepRow) =
        some (.pivoted 1 0, steepRowPivoted) ∧
      (∃ v, steepRowPivoted.rhs? 0 = some v ∧ v < -defaults.zeroTolerance) ∧
      (∃ s, steepRowPivoted.slack? defaults.zeroTolerance = some s ∧
        ∃ v ∈ s, v < -defaults.zeroTolerance) ∧
      ∃ sol, (solve defaults steepRow).Yields (.ok sol) ∧ sol.status = .optimal ∧
        ∃ i, steepRow.bounds i + defaults.zeroTolerance <
          (steepRow.coeffs *ᵥ Vec.coords steepRow.nvars sol.primal) i := by
  refine ⟨rfl, by decide +kernel, defaults_validate, rfl, steepRow_step, ⟨-1, rfl, ?_⟩,
    ⟨[-1, 0], by decide +kernel, -1, List.mem_cons_self, ?_⟩, Timed.exists_yields_ok ?_⟩
  · decide +kernel
  · decide +kernel
  · decide +kernel

/-- But it does not fall by more than the pivot loses, which is two. -/
theorem steepRow_ge_neg_two :
    losses defaults.zeroTolerance [steepRowPivot] = 2 ∧
      (∀ i < 2, ∃ v, steepRowPivoted.rhs? i = some v ∧ -2 ≤ v) ∧
      ∃ sol, (solve defaults steepRow).Yields (.ok sol) ∧ sol.status = .optimal ∧
        ∃ made T, Steps defaults.zeroTolerance (Tableau.initial steepRow) made T ∧
          MissesAtMost steepRow (losses defaults.zeroTolerance made) sol.primal sol.slack := by
  have hloss : losses defaults.zeroTolerance [steepRowPivot] = 2 := by decide +kernel
  rcases basic_values_ge_neg_losses (p := steepRow) rfl (by decide +kernel) defaults_validate with
    ⟨hfit, -⟩ | ⟨T₀, hT₀, hkeeps, hoptimal⟩
  · exact absurd hfit (by decide)
  · obtain ⟨-, -, -, rfl⟩ := Tableau.of_eq_ok_iff.mp hT₀
    have hrhs := (hkeeps [steepRowPivot] steepRowPivoted (Steps.start.pivoted steepRow_step)).rhs
    rw [hloss] at hrhs
    obtain ⟨sol, hsol, hopt⟩ : ∃ sol, (solve defaults steepRow).Yields (.ok sol) ∧
        sol.status = .optimal := Timed.exists_yields_ok (by decide +kernel)
    obtain ⟨made, T, hsteps, -, hmisses⟩ := hoptimal sol hsol hopt
    exact ⟨hloss, hrhs, sol, hsol, hopt, made, T, hsteps, hmisses⟩

end Runs

end LinProg.Simplex
