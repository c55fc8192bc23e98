import LinProg.Proofs.Tableau.UnitBasis

/-!
# What a tableau says about its problem

`Tableau.Represents T p` holds of every tableau that pivots on nonzero entries lead to from the
tableau of `p`, whatever the pivots are (`Tableau.Reachable.represents`):

* each row is the combination of the rows of `[A | I | b]` whose weights it shows in its own slack
  columns (`Tableau.Spanned`), the objective row up to `[c | 0 | 0]`;
* each basic column is a unit column, with its one in the row it is basic in and a zero in the
  objective row.

In exact arithmetic elimination takes multiples of one row off the others and divides that row
(`Tableau.Pivoted.row_eq`, `Tableau.Pivoted.other_eq`); the entries that `pivot?` overwrites are
those it would compute anyway.
-/

namespace LinProg.Tableau

/-- The tableaux that finite sequences of pivots on nonzero entries lead to. -/
inductive Reachable {α : Type} [Scalar α] (p : Problem α) : Tableau α → Prop where
  /-- The tableau of the problem. -/
  | start {T : Tableau α} (h : Tableau.of p = .ok T) : Reachable p T
  /-- One more pivot, on a nonzero entry of a constraint row, left of the right-hand side. -/
  | pivot {T T' : Tableau α} {row column : ℕ} {v : α} (h : Reachable p T) (hrow : row < T.ncons)
      (hcolumn : column < T.nvars + T.ncons) (hget : T.get? row column = some v)
      (hv : (v == 0) = false) (hpivot : T.pivot? row column = some T') : Reachable p T'

variable {K : Type} [Field K]

section Columns

variable {p : Problem K}

theorem system_variable (k : Fin p.ncons) (j : Fin p.nvars) :
    p.system k (Fin.castAdd 1 (Fin.castAdd p.ncons j)) = p.coeffs k j := by
  rw [Problem.system, Matrix.of_apply, Fin.append_left, Problem.augmented, Matrix.of_apply,
    Fin.append_left]

theorem system_slack (k j : Fin p.ncons) :
    p.system k (Fin.castAdd 1 (Fin.natAdd p.nvars j)) = if j = k then 1 else 0 := by
  rw [Problem.system, Matrix.of_apply, Fin.append_left, Problem.augmented, Matrix.of_apply,
    Fin.append_right, Pi.single_apply]

theorem system_rhs (k : Fin p.ncons) :
    p.system k (Fin.natAdd (p.nvars + p.ncons) 0) = p.bounds k := by
  rw [Problem.system, Matrix.of_apply, Fin.append_right]

end Columns

/-- A row is the combination of the rows of `[A | I | b]` with its own slack entries as weights. -/
def Spanned (p : Problem K) (r : ℕ → K) : Prop :=
  ∀ j : Fin (p.nvars + p.ncons + 1), r j = ∑ k : Fin p.ncons, r (p.nvars + k) * p.system k j

namespace Spanned

variable {p : Problem K} {r s : ℕ → K}

theorem congr (h : Spanned p r) (heq : ∀ j ≤ p.nvars + p.ncons, s j = r j) : Spanned p s := by
  intro j
  rw [heq j (by omega), h j]
  refine Finset.sum_congr rfl fun k _ => ?_
  rw [heq _ (by omega)]

theorem sub_mul (hr : Spanned p r) (hs : Spanned p s) (f : K) :
    Spanned p fun j => r j - f * s j := by
  intro j
  dsimp only
  rw [hr j, hs j, Finset.mul_sum, ← Finset.sum_sub_distrib]
  refine Finset.sum_congr rfl fun k _ => ?_
  ring

theorem div (hr : Spanned p r) (v : K) : Spanned p fun j => r j / v := by
  intro j
  dsimp only
  rw [hr j, Finset.sum_div]
  refine Finset.sum_congr rfl fun k _ => ?_
  ring

end Spanned

variable [LinearOrder K] [Exact K]

section Elimination

variable {T T' : Tableau K} {n m row column i j : ℕ}

theorem Pivoted.row_eq (h : Pivoted T T' n m row column) (hv : T.entry row column ≠ 0)
    (hj : j ≤ n + m) : T'.entry row j = T.entry row j / T.entry row column := by
  rw [h.pivotRow j hj]
  split
  · rename_i hjc
    rw [hjc, div_self hv]
  · rfl

theorem Pivoted.other_eq (h : Pivoted T T' n m row column) (hv : T.entry row column ≠ 0)
    (hi : i ≤ m) (hne : i ≠ row) (hj : j ≤ n + m) :
    T'.entry i j = T.entry i j - T.entry i column * (T.entry row j / T.entry row column) := by
  rw [h.others i hi hne j hj, h.row_eq hv hj]
  split
  · rename_i hzero
    rw [beq_iff_eq.mp hzero, zero_mul, sub_zero]
  · split
    · rename_i hjc
      rw [hjc, div_self hv, mul_one, sub_self]
    · rfl

end Elimination

/-- The rows of a tableau are those of the problem's system in the terms of its basis. -/
structure Represents (T : Tableau K) (p : Problem K) : Prop where
  /-- The tableau has the shape that the problem asks for. -/
  shaped : T.Shaped p.nvars p.ncons
  /-- The constraint rows are combinations of the rows of the system. -/
  constraint : ∀ i < p.ncons, Spanned p (T.entry i)
  /-- So is the objective row once the cost has been added. -/
  objective : Spanned p fun j => T.entry p.ncons j + p.cost.getD j 0
  /-- The basic columns are unit columns. -/
  basic : ∀ k < p.ncons, ∃ c < p.nvars + p.ncons, T.basis[k]? = some c ∧
    ∀ i ≤ p.ncons, T.entry i c = if i = k then 1 else 0

theorem UnitBasis.basic_exact {T : Tableau K} {n m : ℕ} (h : T.UnitBasis n m) :
    ∀ k < m, ∃ c < n + m, T.basis[k]? = some c ∧
      ∀ i ≤ m, T.entry i c = if i = k then 1 else 0 := by
  intro k hk
  obtain ⟨c, hc, hb, hone, hzeros⟩ := h.basic k hk
  refine ⟨c, hc, hb, fun i hi => ?_⟩
  split
  · rename_i hik
    rw [hik]
    exact hone
  · rename_i hik
    exact beq_iff_eq.mp (hzeros i hi hik)

theorem Represents.unitBasis {T : Tableau K} {p : Problem K} (h : T.Represents p) :
    T.UnitBasis p.nvars p.ncons where
  shaped := h.shaped
  basic := by
    intro k hk
    obtain ⟨c, hc, hb, hunit⟩ := h.basic k hk
    refine ⟨c, hc, hb, by rw [hunit k hk.le, if_pos rfl], fun i hi hne => ?_⟩
    rw [hunit i hi, if_neg hne]
    exact beq_self_eq_true _

section System

variable {p : Problem K}

theorem initial_entry_eq_system (hv : p.validate = .ok ()) (k : Fin p.ncons)
    (j : Fin (p.nvars + p.ncons + 1)) : (initial p).entry k j = p.system k j := by
  refine Fin.addCases (fun j => ?_) (fun j => ?_) j
  · refine Fin.addCases (fun j => ?_) (fun j => ?_) j
    · rw [system_variable, Problem.coeffs,
        (Problem.hasRows hv).entries_eq (Problem.nrows_eq hv) (Problem.ncols_eq hv)]
      exact initial_entry_variable hv k.isLt j.isLt
    · rw [system_slack, Fin.val_castAdd, Fin.val_natAdd, initial_entry_slack hv k.isLt j.isLt]
      simp only [Fin.ext_iff]
  · obtain rfl : j = 0 := Subsingleton.elim _ _
    rw [system_rhs, Fin.val_natAdd, Fin.val_zero, Nat.add_zero, initial_entry_rhs hv k.isLt]
    rfl

theorem represents_initial (hv : p.validate = .ok ())
    (hfit : (p.ncons + 1) * (p.nvars + p.ncons + 1) < 2 ^ 64) : (initial p).Represents p where
  shaped := initial_shaped hv hfit
  constraint := by
    intro i hi j
    rw [Finset.sum_eq_single ⟨i, hi⟩]
    · rw [initial_entry_slack hv hi hi, if_pos rfl, one_mul]
      exact initial_entry_eq_system hv ⟨i, hi⟩ j
    · intro k _ hk
      rw [initial_entry_slack hv hi k.isLt, if_neg fun h => hk (Fin.ext h), zero_mul]
    · exact fun h => absurd (Finset.mem_univ _) h
  objective := by
    have hzero : ∀ j, (initial p).entry p.ncons j + p.cost.getD j 0 = 0 := by
      intro j
      rcases Nat.lt_or_ge j p.nvars with hj | hj
      · rw [initial_entry_cost hv hfit hj]
        exact neg_add_cancel _
      · have hcost : p.cost.getD j 0 = 0 := List.getD_eq_default _ _ hj
        rw [initial_entry_zero hv hfit hj, hcost]
        exact add_zero _
    intro j
    simp only [hzero, zero_mul, Finset.sum_const_zero]
  basic := (unitBasis_initial hv hfit).basic_exact

/-- **Elimination keeps what a tableau says.** -/
theorem Represents.pivot {T T' : Tableau K} {row column : ℕ} (h : T.Represents p)
    (hr : row < p.ncons) (hc : column < p.nvars + p.ncons) (hv : T.entry row column ≠ 0)
    (hp : T.pivot? row column = some T') : T'.Represents p := by
  have hpiv := h.shaped.pivoted hr hc.le hp
  have hunits := h.unitBasis.pivot (Vec.allFinite_eq_true _) hr hc (beq_eq_false_iff_ne.mpr hv) hp
  have hother : ∀ i ≤ p.ncons, i ≠ row → ∀ j ≤ p.nvars + p.ncons, T'.entry i j =
      T.entry i j - T.entry i column * (T.entry row j / T.entry row column) :=
    fun i hi hne j hj => hpiv.other_eq hv hi hne hj
  refine ⟨hpiv.shaped, fun i hi => ?_, ?_, hunits.basic_exact⟩
  · by_cases hir : i = row
    · subst hir
      exact ((h.constraint i hi).div _).congr fun j hj => hpiv.row_eq hv hj
    · exact ((h.constraint i hi).sub_mul ((h.constraint row hr).div _) _).congr
        fun j hj => hother i hi.le hir j hj
  · refine (h.objective.sub_mul ((h.constraint row hr).div (T.entry row column))
      (T.entry p.ncons column)).congr fun j hj => ?_
    rw [hother p.ncons le_rfl (by omega) j hj]
    ring

theorem Reachable.represents {T : Tableau K} (h : Reachable p T) : T.Represents p := by
  induction h with
  | start hT =>
    obtain ⟨hv, -, hroom, rfl⟩ := of_eq_ok_iff.mp hT
    exact represents_initial hv hroom.1
  | pivot _ hrow hcolumn hget hv hpivot ih =>
    rw [ih.shaped.ncons_eq] at hrow hcolumn
    rw [ih.shaped.nvars] at hcolumn
    rw [ih.shaped.get?_eq hrow.le hcolumn.le, Option.some.injEq] at hget
    refine ih.pivot hrow hcolumn ?_ hpivot
    rw [hget]
    exact beq_eq_false_iff_ne.mp hv

end System

end LinProg.Tableau
