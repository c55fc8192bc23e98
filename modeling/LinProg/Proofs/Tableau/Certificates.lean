import LinProg.Proofs.Tableau.BasicPoint
import LinProg.Proofs.Tableau.Selection

/-!
# What the last tableau of a run proves

* `Represents.value_le_of_solves`: with no entry of the objective row below `-t`, no solution
  without negative entries does better than the tableau by more than `t` times its sum.
* `Represents.augmented_direction`, `Represents.value_direction`: the direction that a column enters
  in keeps the equations, and its cost is the entry of the objective row, negated.
* `PrimalFeasible`: the tableau represents the problem and no right-hand side is negative. The
  ratio test keeps it (`PrimalFeasible.pivot`), and the basic point is then feasible.
* `PrimalFeasible.exists_value_gt`: along a column without positive entries and with a negative
  one in the objective row (`rayPoint`), the objective grows without bound.
-/

open scoped Matrix

namespace LinProg.Tableau

variable {K : Type} [Field K]

/-- The direction in which a column enters: its value grows, and the basic columns make up for
it. -/
def direction (T : Tableau K) (n m : ℕ) (q : Fin (n + m)) : Fin (n + m) → K :=
  T.spread n m (fun i => -T.entry i q) + Pi.single q 1

/-- The point that a column reaches when its value goes from zero to `t` and the basic columns
make up for it. -/
def rayPoint (T : Tableau K) (n m : ℕ) (q : Fin (n + m)) (t : K) : Fin (n + m) → K :=
  T.spread n m (fun i => T.entry i (n + m) - t * T.entry i q) + Pi.single q t

theorem rayPoint_eq (T : Tableau K) (n m : ℕ) (q : Fin (n + m)) (t : K) :
    T.rayPoint n m q t = T.basicPoint n m + t • T.direction n m q := by
  have hspread : T.spread n m (fun i => T.entry i (n + m) - t * T.entry i q) =
      T.basicPoint n m + t • T.spread n m (fun i => -T.entry i q) := by
    funext j
    simp only [basicPoint, spread, Pi.add_apply, Pi.smul_apply, smul_eq_mul, Finset.mul_sum,
      ← Finset.sum_add_distrib, rhsColumn]
    refine Finset.sum_congr rfl fun k _ => ?_
    split
    · ring
    · ring
  rw [rayPoint, hspread, direction, smul_add, add_assoc, ← Pi.single_smul, smul_eq_mul, mul_one]

/-- A tableau of the problem whose basic point is feasible. -/
structure PrimalFeasible [LinearOrder K] (T : Tableau K) (p : Problem K) : Prop where
  /-- The tableau represents the problem. -/
  represents : T.Represents p
  /-- No right-hand side is negative. -/
  rhs_nonneg : ∀ i < p.ncons, 0 ≤ T.entry i (p.nvars + p.ncons)

section System

variable {T : Tableau K} {p : Problem K}

theorem Represents.augmented_direction (h : T.Represents p) (q : Fin (p.nvars + p.ncons)) :
    p.augmented *ᵥ T.direction p.nvars p.ncons q = 0 := by
  rw [← h.mulVec_eq_zero_iff, direction, Matrix.mulVec_add, h.mulVec_spread, Matrix.mulVec_single]
  funext i
  simp only [Pi.add_apply, Pi.smul_apply, Matrix.col_apply, constraintRows, Matrix.of_apply,
    MulOpposite.smul_eq_mul_unop, MulOpposite.unop_op, mul_one, Pi.zero_apply, neg_add_cancel]

theorem Represents.value_direction (h : T.Represents p) (q : Fin (p.nvars + p.ncons)) :
    p.augmentedCosts ⬝ᵥ T.direction p.nvars p.ncons q = -T.entry p.ncons q := by
  rw [h.value_eq_neg_reducedCosts (h.augmented_direction q), direction, dotProduct_add,
    h.dotProduct_spread, zero_add, dotProduct_single, mul_one]
  rfl

theorem Represents.direction_self (h : T.Represents p) {q : Fin (p.nvars + p.ncons)}
    (hq : q.val ∉ T.basis) : T.direction p.nvars p.ncons q q = 1 := by
  rw [direction, Pi.add_apply, h.spread_of_notMem hq, Pi.single_eq_same, zero_add]

theorem Represents.direction_of_basis (h : T.Represents p) {q j : Fin (p.nvars + p.ncons)}
    (hq : q.val ∉ T.basis) {i : ℕ} (hi : T.basis[i]? = some j.val) :
    i < p.ncons ∧ T.direction p.nvars p.ncons q j = -T.entry i q := by
  have him : i < p.ncons := by
    rw [← h.shaped.basis]
    exact (List.getElem?_eq_some_iff.mp hi).1
  have hj : j = ⟨T.basisAt i, h.basisAt_lt him⟩ := by
    rw [h.getElem?_basis him, Option.some.injEq] at hi
    exact Fin.ext hi.symm
  have hne : j ≠ q := by
    rintro rfl
    exact hq (List.mem_of_getElem? hi)
  refine ⟨him, ?_⟩
  rw [direction, Pi.add_apply, Pi.single_eq_of_ne hne, add_zero, hj, h.spread_basisAt him]

theorem Represents.direction_of_notMem (h : T.Represents p) {q j : Fin (p.nvars + p.ncons)}
    (hne : j ≠ q) (hj : j.val ∉ T.basis) : T.direction p.nvars p.ncons q j = 0 := by
  rw [direction, Pi.add_apply, h.spread_of_notMem hj, Pi.single_eq_of_ne hne, zero_add]

theorem Represents.augmented_rayPoint (h : T.Represents p) (q : Fin (p.nvars + p.ncons)) (t : K) :
    p.augmented *ᵥ T.rayPoint p.nvars p.ncons q t = p.bounds := by
  rw [rayPoint_eq, Matrix.mulVec_add, Matrix.mulVec_smul, h.augmented_basicPoint,
    h.augmented_direction, smul_zero, add_zero]

variable [LinearOrder K] [Exact K]

theorem Represents.value_rayPoint (h : T.Represents p) (q : Fin (p.nvars + p.ncons)) (t : K) :
    p.augmentedCosts ⬝ᵥ T.rayPoint p.nvars p.ncons q t = T.objective - T.entry p.ncons q * t := by
  rw [rayPoint_eq, dotProduct_add, dotProduct_smul, h.value_basicPoint, h.value_direction,
    smul_eq_mul]
  ring

theorem primalFeasible_initial (hv : p.validate = .ok ())
    (hfit : (p.ncons + 1) * (p.nvars + p.ncons + 1) < 2 ^ 64) (hb : ∀ b ∈ p.rhs, 0 ≤ b) :
    (initial p).PrimalFeasible p where
  represents := represents_initial hv hfit
  rhs_nonneg := by
    intro i hi
    have hi' : i < p.rhs.length := hi
    rw [initial_entry_rhs hv hi, List.getD_eq_getElem _ _ hi']
    exact hb _ (List.getElem_mem hi')

end System

variable [LinearOrder K] [IsStrictOrderedRing K] {T T' : Tableau K} {p : Problem K}

theorem spread_nonneg {n m : ℕ} {w : Fin m → K} (hw : ∀ i, 0 ≤ w i) (j : Fin (n + m)) :
    0 ≤ T.spread n m w j := by
  apply Finset.sum_nonneg
  intro k _
  split
  · exact hw k
  · exact le_rfl

theorem PrimalFeasible.basicPoint_nonneg (h : T.PrimalFeasible p) (j : Fin (p.nvars + p.ncons)) :
    0 ≤ T.basicPoint p.nvars p.ncons j :=
  spread_nonneg (fun i => h.rhs_nonneg i i.isLt) j

theorem PrimalFeasible.rayPoint_nonneg (h : T.PrimalFeasible p) {q : Fin (p.nvars + p.ncons)}
    (hq : ∀ i < p.ncons, T.entry i q ≤ 0) {t : K} (ht : 0 ≤ t) (j : Fin (p.nvars + p.ncons)) :
    0 ≤ T.rayPoint p.nvars p.ncons q t j := by
  rw [rayPoint, Pi.add_apply]
  apply add_nonneg
  · refine spread_nonneg (fun i => ?_) j
    have hrhs := h.rhs_nonneg i i.isLt
    have hcol := mul_nonpos_of_nonneg_of_nonpos ht (hq i i.isLt)
    linarith
  · rw [Pi.single_apply]
    split
    · exact ht
    · exact le_rfl

theorem Represents.neg_le_direction (h : T.Represents p) {t : K} (ht : 0 ≤ t)
    {q : Fin (p.nvars + p.ncons)} (hq : q.val ∉ T.basis)
    (hcol : ∀ i < p.ncons, T.entry i q ≤ t) (j : Fin (p.nvars + p.ncons)) :
    -t ≤ T.direction p.nvars p.ncons q j := by
  by_cases hj : j.val ∈ T.basis
  · obtain ⟨i, hi⟩ := List.mem_iff_getElem?.mp hj
    obtain ⟨him, hd⟩ := h.direction_of_basis hq hi
    rw [hd]
    exact neg_le_neg (hcol i him)
  · by_cases hne : j = q
    · rw [hne, h.direction_self hq]
      exact (neg_nonpos.mpr ht).trans zero_le_one
    · rw [h.direction_of_notMem hne hj]
      exact neg_nonpos.mpr ht

variable [Exact K]

/-- **The ratio test keeps the basic point feasible.** -/
theorem PrimalFeasible.pivot {row column : ℕ} (h : T.PrimalFeasible p)
    (hc : column < p.nvars + p.ncons) (hl : T.leaving? column 0 = some (some row))
    (hp : T.pivot? row column = some T') : T'.PrimalFeasible p := by
  have hshaped := h.represents.shaped
  obtain ⟨hr, hpos, hmin⟩ := hshaped.leaving?_eq_some hc.le hl
  have hpiv := hshaped.pivoted hr hc.le hp
  refine ⟨h.represents.pivot hr hc hpos.ne' hp, fun i hi => ?_⟩
  have hratio := div_nonneg (h.rhs_nonneg row hr) hpos.le
  by_cases hir : i = row
  · rw [hir, hpiv.row_eq hpos.ne' le_rfl]
    exact hratio
  · rw [hpiv.other_eq hpos.ne' hi.le hir le_rfl, sub_nonneg]
    -- An entry that is not positive only adds to the right-hand side.
    rcases le_or_gt (T.entry i column) 0 with hle | hgt
    · exact (mul_nonpos_of_nonpos_of_nonneg hle hratio).trans (h.rhs_nonneg i hi)
    · have hle := hmin i hi hgt
      rwa [le_div_iff₀ hgt, mul_comm] at hle

theorem Represents.value_le_of_solves (h : T.Represents p) {t : K}
    (hcosts : ∀ j < p.nvars + p.ncons, -t ≤ T.entry p.ncons j) {z : Fin (p.nvars + p.ncons) → K}
    (hz : p.augmented *ᵥ z = p.bounds) (hnonneg : ∀ j, 0 ≤ z j) :
    p.augmentedCosts ⬝ᵥ z ≤ T.objective + t * ∑ j, z j := by
  have hvalue := h.value_add_reducedCosts hz
  have hrow : -t * ∑ j, z j ≤ T.objectiveEntries p.ncons (p.nvars + p.ncons) ⬝ᵥ z := by
    rw [Finset.mul_sum]
    exact Finset.sum_le_sum fun j _ => mul_le_mul_of_nonneg_right (hcosts j j.isLt) (hnonneg j)
  linarith

theorem Represents.value_le_add (h : T.Represents p) {t : K}
    (hcosts : ∀ j < p.nvars + p.ncons, -t ≤ T.entry p.ncons j) {y : Fin p.nvars → K}
    (hy : p.Feasible y) : p.costs ⬝ᵥ y ≤
      T.objective + t * (∑ j, y j + ∑ i, (p.bounds - p.coeffs *ᵥ y) i) := by
  obtain ⟨hz, hnonneg⟩ := Problem.augmented_of_feasible hy
  have hle := h.value_le_of_solves hcosts hz hnonneg
  rw [Problem.augmentedCosts_dotProduct, Fin.sum_univ_add] at hle
  simpa only [Fin.append_left, Fin.append_right] using hle

theorem Represents.value_le (h : T.Represents p)
    (hcosts : ∀ j < p.nvars + p.ncons, 0 ≤ T.entry p.ncons j) {y : Fin p.nvars → K}
    (hy : p.Feasible y) : p.costs ⬝ᵥ y ≤ T.objective := by
  have hle := h.value_le_add (t := 0) (fun j hj => by rw [neg_zero]; exact hcosts j hj) hy
  rwa [zero_mul, add_zero] at hle

theorem PrimalFeasible.exists_value_gt (h : T.PrimalFeasible p) {q : Fin (p.nvars + p.ncons)}
    (hcost : T.entry p.ncons q < 0) (hq : ∀ i < p.ncons, T.entry i q ≤ 0) (B : K) :
    ∃ y, p.Feasible y ∧ B < p.costs ⬝ᵥ y := by
  refine Problem.exists_value_gt_of_gain (v := T.objective) (neg_pos.mpr hcost) (fun t ht => ?_) B
  refine ⟨_, h.represents.augmented_rayPoint q t, h.rayPoint_nonneg hq ht, ?_⟩
  rw [h.represents.value_rayPoint]
  ring

end LinProg.Tableau
