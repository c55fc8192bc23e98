import LinProg.Proofs.Tableau.Extraction
import LinProg.Proofs.Tableau.System

/-!
# Solutions of a tableau

The rows of a tableau that represents a problem, read as equations.

* `Represents.constraintRows_eq`, `Represents.objectiveEntries_eq`: the rows are `M [A | I | b]` and
  `y [A | I | b] - [c | 0 | 0]`, where `M` and `y` are their own slack columns.
* `Represents.isUnit_slackBlock`: `M` is invertible, because the basic columns are unit columns.
* `Represents.satisfies_iff`: so the rows have the solutions of `[A | I] z = b`.
* `Represents.value_add_reducedCosts`: on them `c z` and the objective row add up to the objective.
* `Represents.mulVec_spread`: values at the basic columns alone pass through the rows unchanged.
-/

open scoped Matrix

namespace LinProg.Tableau

variable {K : Type} [Field K]

/-- The first `w` columns of the constraint rows. -/
def constraintRows (T : Tableau K) (m w : ℕ) : Mat m w K := .of fun i j => T.entry i j

/-- The first `w` entries of the objective row. -/
def objectiveEntries (T : Tableau K) (m w : ℕ) : Fin w → K := fun j => T.entry m j

/-- The slack columns of the constraint rows. -/
def slackBlock (T : Tableau K) (n m : ℕ) : Mat m m K := .of fun i k => T.entry i (n + k)

/-- The slack columns of the objective row. -/
def slackPrices (T : Tableau K) (n m : ℕ) : Fin m → K := fun k => T.entry m (n + k)

/-- The right-hand sides of the constraint rows. -/
def rhsColumn (T : Tableau K) (n m : ℕ) : Fin m → K := fun i => T.entry i (n + m)

/-- The basic column of a row. -/
def basisAt (T : Tableau K) (k : ℕ) : ℕ := T.basis.getD k 0

/-- The vector with given values at the basic columns and zeros elsewhere. -/
def spread (T : Tableau K) (n m : ℕ) (w : Fin m → K) : Fin (n + m) → K :=
  fun j => ∑ k : Fin m, if T.basisAt k = j then w k else 0

variable {T : Tableau K} {p : Problem K}

namespace Represents

section Basis

variable (h : T.Represents p) {k l : ℕ}
include h

theorem basisAt_lt (hk : k < p.ncons) : T.basisAt k < p.nvars + p.ncons := by
  obtain ⟨c, hc, hb, -⟩ := h.basic k hk
  rwa [basisAt, List.getD_eq_getElem?_getD, hb, Option.getD_some]

theorem getElem?_basis (hk : k < p.ncons) : T.basis[k]? = some (T.basisAt k) := by
  obtain ⟨c, -, hb, -⟩ := h.basic k hk
  rw [basisAt, List.getD_eq_getElem?_getD, hb, Option.getD_some]

theorem entry_basisAt (hk : k < p.ncons) {i : ℕ} (hi : i ≤ p.ncons) :
    T.entry i (T.basisAt k) = if i = k then 1 else 0 := by
  obtain ⟨c, -, hb, hunit⟩ := h.basic k hk
  rw [basisAt, List.getD_eq_getElem?_getD, hb, Option.getD_some]
  exact hunit i hi

theorem basisAt_injective (hk : k < p.ncons) (hl : l < p.ncons)
    (heq : T.basisAt k = T.basisAt l) : k = l := by
  by_contra hne
  have hone := h.entry_basisAt hk hk.le
  rw [heq, h.entry_basisAt hl hk.le, if_neg hne, if_pos rfl] at hone
  exact zero_ne_one hone

end Basis

section Rows

variable (h : T.Represents p)
include h

theorem constraintRows_eq : T.constraintRows p.ncons (p.nvars + p.ncons + 1) =
    T.slackBlock p.nvars p.ncons * p.system := by
  ext i j
  exact h.constraint i i.isLt j

theorem objectiveEntries_eq : T.objectiveEntries p.ncons (p.nvars + p.ncons + 1) =
    T.slackPrices p.nvars p.ncons ᵥ* p.system - Fin.append p.augmentedCosts 0 := by
  have hcost : ∀ j : Fin (p.nvars + p.ncons + 1),
      (Fin.append p.augmentedCosts 0 : Fin (p.nvars + p.ncons + 1) → K) j = p.cost.getD j 0 := by
    refine Fin.addCases (fun j => ?_) (fun j => ?_)
    · rw [Fin.append_left]
      refine Fin.addCases (fun j => ?_) (fun j => ?_) j
      · rw [Problem.augmentedCosts, Fin.append_left]
        rfl
      · rw [Problem.augmentedCosts, Fin.append_right]
        exact (List.getD_eq_default _ _ (by simp [Problem.nvars])).symm
    · rw [Fin.append_right]
      exact (List.getD_eq_default _ _ (by simp [Problem.nvars])).symm
  funext j
  have hslack : ∀ k : Fin p.ncons, p.cost.getD (p.nvars + k) 0 = 0 :=
    fun k => List.getD_eq_default _ _ (by simp [Problem.nvars])
  have hj := h.objective j
  simp only [hslack, add_zero] at hj
  rw [Pi.sub_apply, hcost, eq_sub_iff_add_eq]
  exact hj

theorem constraintRows_augmented : T.constraintRows p.ncons (p.nvars + p.ncons) =
    T.slackBlock p.nvars p.ncons * p.augmented := by
  ext i j
  have := congrFun (congrFun h.constraintRows_eq i) (Fin.castAdd 1 j)
  simpa only [constraintRows, Matrix.of_apply, Fin.val_castAdd, Matrix.mul_apply, Problem.system,
    Fin.append_left] using this

theorem rhsColumn_eq : T.rhsColumn p.nvars p.ncons = T.slackBlock p.nvars p.ncons *ᵥ p.bounds := by
  funext i
  have := congrFun (congrFun h.constraintRows_eq i) (Fin.natAdd (p.nvars + p.ncons) 0)
  simpa only [rhsColumn, constraintRows, Matrix.of_apply, Fin.val_natAdd, Fin.val_zero, add_zero,
    Matrix.mul_apply, Matrix.mulVec, dotProduct, system_rhs] using this

theorem objectiveEntries_augmented : T.objectiveEntries p.ncons (p.nvars + p.ncons) =
    T.slackPrices p.nvars p.ncons ᵥ* p.augmented - p.augmentedCosts := by
  funext j
  have := congrFun h.objectiveEntries_eq (Fin.castAdd 1 j)
  simpa only [objectiveEntries, Fin.val_castAdd, Pi.sub_apply, Matrix.vecMul, dotProduct,
    Problem.system, Matrix.of_apply, Fin.append_left] using this

theorem objective_eq_prices [LinearOrder K] [Exact K] :
    T.objective = T.slackPrices p.nvars p.ncons ⬝ᵥ p.bounds := by
  have := congrFun h.objectiveEntries_eq (Fin.natAdd (p.nvars + p.ncons) 0)
  rw [h.shaped.objective_eq]
  simpa only [objectiveEntries, Fin.val_natAdd, Fin.val_zero, add_zero, Pi.sub_apply,
    Matrix.vecMul, dotProduct, system_rhs, Fin.append_right, Pi.zero_apply, sub_zero] using this

theorem isUnit_slackBlock : IsUnit (T.slackBlock p.nvars p.ncons) := by
  let B : Mat p.ncons p.ncons K :=
    .of fun k l => p.augmented k ⟨T.basisAt l, h.basisAt_lt l.isLt⟩
  have hB : T.slackBlock p.nvars p.ncons * B = 1 := by
    ext i l
    have hil := congrFun (congrFun h.constraintRows_augmented i) ⟨T.basisAt l, h.basisAt_lt l.isLt⟩
    have hunit := h.entry_basisAt l.isLt i.isLt.le
    rw [constraintRows, Matrix.of_apply, hunit, Matrix.mul_apply] at hil
    rw [Matrix.mul_apply, Matrix.one_apply]
    simp only [Fin.ext_iff]
    exact hil.symm
  exact IsUnit.of_mul_eq_one B hB

theorem satisfies_iff (z : Fin (p.nvars + p.ncons) → K) :
    T.constraintRows p.ncons (p.nvars + p.ncons) *ᵥ z = T.rhsColumn p.nvars p.ncons ↔
      p.augmented *ᵥ z = p.bounds := by
  rw [h.constraintRows_augmented, h.rhsColumn_eq, ← Matrix.mulVec_mulVec]
  exact (Matrix.mulVec_injective_of_isUnit h.isUnit_slackBlock).eq_iff

theorem mulVec_eq_zero_iff (d : Fin (p.nvars + p.ncons) → K) :
    T.constraintRows p.ncons (p.nvars + p.ncons) *ᵥ d = 0 ↔ p.augmented *ᵥ d = 0 := by
  have hzero := Matrix.mulVec_zero (T.slackBlock p.nvars p.ncons)
  rw [h.constraintRows_augmented, ← Matrix.mulVec_mulVec]
  conv_lhs => rw [← hzero]
  exact (Matrix.mulVec_injective_of_isUnit h.isUnit_slackBlock).eq_iff

theorem value_add_reducedCosts [LinearOrder K] [Exact K] {z : Fin (p.nvars + p.ncons) → K}
    (hz : p.augmented *ᵥ z = p.bounds) :
    p.augmentedCosts ⬝ᵥ z + T.objectiveEntries p.ncons (p.nvars + p.ncons) ⬝ᵥ z =
      T.objective := by
  rw [h.objectiveEntries_augmented, sub_dotProduct, ← Matrix.dotProduct_mulVec, hz,
    h.objective_eq_prices]
  ring

theorem value_eq_neg_reducedCosts {d : Fin (p.nvars + p.ncons) → K} (hd : p.augmented *ᵥ d = 0) :
    p.augmentedCosts ⬝ᵥ d = -(T.objectiveEntries p.ncons (p.nvars + p.ncons) ⬝ᵥ d) := by
  rw [h.objectiveEntries_augmented, sub_dotProduct, ← Matrix.dotProduct_mulVec, hd,
    dotProduct_zero, zero_sub, neg_neg]

end Rows

section Spread

variable (h : T.Represents p)
include h

theorem sum_mul_spread (f : ℕ → K) (w : Fin p.ncons → K) :
    ∑ j : Fin (p.nvars + p.ncons), f j * T.spread p.nvars p.ncons w j =
      ∑ k : Fin p.ncons, f (T.basisAt k) * w k := by
  simp only [spread, Finset.mul_sum]
  rw [Finset.sum_comm]
  refine Finset.sum_congr rfl fun k _ => ?_
  rw [Finset.sum_eq_single ⟨T.basisAt k, h.basisAt_lt k.isLt⟩]
  · rw [if_pos rfl]
  · intro j _ hj
    rw [if_neg fun heq => hj (Fin.ext heq.symm), mul_zero]
  · exact fun hmem => absurd (Finset.mem_univ _) hmem

theorem mulVec_spread (w : Fin p.ncons → K) :
    T.constraintRows p.ncons (p.nvars + p.ncons) *ᵥ T.spread p.nvars p.ncons w = w := by
  funext i
  rw [Matrix.mulVec, dotProduct]
  simp only [constraintRows, Matrix.of_apply]
  rw [h.sum_mul_spread (T.entry i) w, Finset.sum_eq_single i]
  · rw [h.entry_basisAt i.isLt i.isLt.le, if_pos rfl, one_mul]
  · intro k _ hk
    rw [h.entry_basisAt k.isLt i.isLt.le, if_neg fun heq => hk (Fin.ext heq.symm), zero_mul]
  · exact fun hmem => absurd (Finset.mem_univ _) hmem

theorem dotProduct_spread (w : Fin p.ncons → K) :
    T.objectiveEntries p.ncons (p.nvars + p.ncons) ⬝ᵥ T.spread p.nvars p.ncons w = 0 := by
  rw [dotProduct]
  simp only [objectiveEntries]
  rw [h.sum_mul_spread (T.entry p.ncons) w]
  refine Finset.sum_eq_zero fun k _ => ?_
  rw [h.entry_basisAt k.isLt le_rfl, if_neg (by omega), zero_mul]

end Spread

end Represents

end LinProg.Tableau
