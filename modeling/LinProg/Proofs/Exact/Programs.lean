import LinProg.Proofs.Exact.Vectors
import LinProg.Proofs.Rows
import LinProg.Options
import LinProg.Problem

/-!
# Linear programs in exact arithmetic

What a problem says about points: its parts as a matrix and two vectors, and the feasible points
among all points of the right length.

* `Problem.validate_eq_ok_iff`: which problems are valid, in any arithmetic.
* `Matrix.identityBlock_mulVec`, `Matrix.vecMul_identityBlock`: how `[X | I]` acts.
* `Problem.coeffs`, `Problem.costs`, `Problem.bounds`: `A`, `c` and `b`.
* `Problem.augmented`, `Problem.system`: `[A | I]` and `[A | I | b]`.
* `Options.validate_eq_ok_iff`: which settings are valid, in any arithmetic.
* `Problem.Feasible`, `Problem.Bounded`: the points `y ≥ 0` with `A y ≤ b`, and a bound on `c y`
  over them.
-/

open scoped Matrix

namespace LinProg

namespace Matrix

section Room

variable {K : Type} [Field K] [LinearOrder K] [Exact K] {m n : ℕ}

theorem room_iff_lt : Room K m n ↔ m * n < 2 ^ 64 := by simp [room_iff]

theorem room?_eq_of_lt (h : m * n < 2 ^ 64) : room? K m n = some (m * n) :=
  room?_eq (room_iff_lt.mpr h)

end Room

variable {K : Type} [Zero K]

/-- The first `m` rows and `n` columns of a row-major matrix. -/
def entries (M : Matrix K) (m n : ℕ) : Mat m n K := .of fun i j => M.data.getD (i * M.ncols + j) 0

/-- The first `m` rows and `n` columns of a list of rows. -/
def rowEntries (m n : ℕ) (rs : List (List K)) : Mat m n K := .of fun i j => entryAt rs i j

theorem HasRows.entries_eq {M : Matrix K} {rs : List (List K)} (h : M.HasRows rs) {m n : ℕ}
    (hm : M.nrows = m) (hn : M.ncols = n) : M.entries m n = rowEntries m n rs := by
  ext i j
  have hi : i.val < rs.length := by rw [h.count]; omega
  have hj : j.val < rs[i.val].length := by rw [h.width _ (List.getElem_mem hi)]; omega
  rw [entries, rowEntries, Matrix.of_apply, Matrix.of_apply, List.getD_eq_getElem?_getD, h.data,
    getElem?_flatten h.width (by omega), List.getElem?_eq_getElem hi, Option.bind_some,
    List.getElem?_eq_getElem hj, entryAt_eq_getElem hi hj, Option.getD_some]

section IdentityBlock

variable {K : Type} [Field K] {m n : ℕ}

theorem identityBlock_mulVec (X : Mat m n K) (z : Fin (n + m) → K) :
    (.of fun i => Fin.append (X i) (Pi.single i 1) : Mat m (n + m) K) *ᵥ z =
      X *ᵥ (fun j => z (Fin.castAdd m j)) + fun i => z (Fin.natAdd n i) := by
  funext i
  simp only [Matrix.mulVec, dotProduct, Fin.sum_univ_add, Pi.add_apply, Matrix.of_apply,
    Fin.append_left, Fin.append_right, Pi.single_apply, ite_mul, one_mul, zero_mul,
    Finset.sum_ite_eq', Finset.mem_univ, if_true]

theorem vecMul_identityBlock (X : Mat m n K) (w : Fin m → K) :
    w ᵥ* (.of fun i => Fin.append (X i) (Pi.single i 1) : Mat m (n + m) K) =
      Fin.append (w ᵥ* X) w := by
  funext j
  refine Fin.addCases (fun j => ?_) (fun i => ?_) j
  · simp only [Matrix.vecMul, dotProduct, Matrix.of_apply, Fin.append_left]
  · simp only [Matrix.vecMul, dotProduct, Matrix.of_apply, Fin.append_right, Pi.single_apply,
      mul_ite, mul_one, mul_zero, Finset.sum_ite_eq, Finset.mem_univ, if_true]

end IdentityBlock

end Matrix

namespace Options

variable {α : Type} [Scalar α]

theorem bind_eq_ok_iff {ε : Type} {x : Except ε Unit} {f : Unit → Except ε Unit} :
    (x >>= f) = .ok () ↔ x = .ok () ∧ f () = .ok () := by
  cases x with
  | error e =>
    constructor
    · intro h
      cases h
    · intro h
      cases h.1
  | ok u => exact (and_iff_right rfl).symm

theorem unless_eq_ok_iff {ε : Type} {e : ε} {c : Prop} [Decidable c] :
    (if c then pure () else throw e : Except ε Unit) = .ok () ↔ c := by
  by_cases hc : c
  · rw [if_pos hc]
    exact iff_of_true rfl hc
  · rw [if_neg hc]
    exact iff_of_false nofun hc

theorem unless_then_eq_ok_iff {ε : Type} {e : ε} {c : Prop} [Decidable c] {x : Except ε Unit}
    {f : PUnit → Except ε Unit} :
    (if c then x else throw e >>= f) = .ok () ↔ c ∧ x = .ok () := by
  by_cases hc : c
  · rw [if_pos hc]
    exact (and_iff_right hc).symm
  · rw [if_neg hc]
    exact iff_of_false nofun fun h => hc h.1

theorem checkTolerance_eq_ok_iff {name : ToleranceName} {v : α} :
    checkTolerance name v = .ok () ↔ 0 ≤ v ∧ Scalar.isFinite v := by
  rw [checkTolerance]
  split
  · rename_i h
    exact iff_of_true rfl h
  · rename_i h
    exact iff_of_false nofun h

theorem validate_eq_ok_iff {o : Options α} : o.validate = .ok () ↔
    (0 < o.affineStep ∧ o.affineStep < 1) ∧ 0 < o.tolerance ∧
      (0 ≤ o.zeroTolerance ∧ Scalar.isFinite o.zeroTolerance) ∧
      (0 ≤ o.feasibilityTolerance ∧ Scalar.isFinite o.feasibilityTolerance) ∧
      (0 ≤ o.singularTolerance ∧ Scalar.isFinite o.singularTolerance) ∧
      Scalar.isFinite o.reducedCostThreshold ∧ o.maxIterations ≠ 0 := by
  simp only [validate, bind_eq_ok_iff, checkTolerance_eq_ok_iff, unless_eq_ok_iff,
    unless_then_eq_ok_iff]

end Options

namespace Problem

section Validity

variable {α : Type} [Scalar α] {p : Problem α}

theorem validate_eq_ok_iff : p.validate = .ok () ↔
    p.nvars ≠ 0 ∧ (p.constraints.nrows * p.constraints.ncols < 2 ^ 64 ∧ p.constraints.Consistent) ∧
      p.constraints.ncols = p.nvars ∧ p.constraints.nrows = p.ncons ∧
      Vec.allFinite p.cost ∧ Vec.allFinite p.constraints.data ∧ Vec.allFinite p.rhs := by
  simp only [validate, Outcome.bind_eq_ok, Outcome.check_eq_ok, exists_const,
    Matrix.validate_eq_ok_iff]

/-- The constraint rows. -/
def rowList (p : Problem α) : List (List α) :=
  Matrix.pieces p.constraints.ncols p.constraints.nrows p.constraints.data

theorem hasRows (h : p.validate = .ok ()) : p.constraints.HasRows p.rowList :=
  (validate_eq_ok_iff.mp h).2.1.2.hasRows

theorem nvars_pos (h : p.validate = .ok ()) : 0 < p.nvars :=
  Nat.pos_of_ne_zero (validate_eq_ok_iff.mp h).1

theorem ncols_eq (h : p.validate = .ok ()) : p.constraints.ncols = p.nvars :=
  (validate_eq_ok_iff.mp h).2.2.1

theorem nrows_eq (h : p.validate = .ok ()) : p.constraints.nrows = p.ncons :=
  (validate_eq_ok_iff.mp h).2.2.2.1

theorem fits (h : p.validate = .ok ()) : p.constraints.nrows * p.constraints.ncols < 2 ^ 64 :=
  (validate_eq_ok_iff.mp h).2.1.1

theorem allRows?_eq (h : p.validate = .ok ()) : p.constraints.allRows? = some p.rowList :=
  (hasRows h).allRows?_eq (fits h)

theorem length_rowList (h : p.validate = .ok ()) : p.rowList.length = p.ncons :=
  (hasRows h).count.trans (nrows_eq h)

theorem length_of_mem_rowList (h : p.validate = .ok ()) : ∀ r ∈ p.rowList, r.length = p.nvars := by
  intro r hr
  rw [(hasRows h).width r hr, ncols_eq h]

end Validity

variable {K : Type} [Field K]

/-- The coefficients of the constraints. -/
def coeffs (p : Problem K) : Mat p.ncons p.nvars K := p.constraints.entries p.ncons p.nvars

/-- The objective. -/
def costs (p : Problem K) : Fin p.nvars → K := Vec.coords p.nvars p.cost

/-- The bounds of the constraints. -/
def bounds (p : Problem K) : Fin p.ncons → K := Vec.coords p.ncons p.rhs

/-- `[A | I]`. -/
def augmented (p : Problem K) : Mat p.ncons (p.nvars + p.ncons) K :=
  .of fun i => Fin.append (p.coeffs i) (Pi.single i 1)

/-- `[A | I | b]`. -/
def system (p : Problem K) : Mat p.ncons (p.nvars + p.ncons + 1) K :=
  .of fun i => Fin.append (p.augmented i) fun _ => p.bounds i

/-- `[c | 0]`. -/
def augmentedCosts (p : Problem K) : Fin (p.nvars + p.ncons) → K := Fin.append p.costs 0

theorem augmented_mulVec (p : Problem K) (z : Fin (p.nvars + p.ncons) → K) :
    p.augmented *ᵥ z = p.coeffs *ᵥ (fun j => z (Fin.castAdd p.ncons j)) +
      fun i => z (Fin.natAdd p.nvars i) :=
  LinProg.Matrix.identityBlock_mulVec p.coeffs z

theorem augmentedCosts_dotProduct (p : Problem K) (z : Fin (p.nvars + p.ncons) → K) :
    p.augmentedCosts ⬝ᵥ z = p.costs ⬝ᵥ fun j => z (Fin.castAdd p.ncons j) := by
  simp only [dotProduct, Fin.sum_univ_add, augmentedCosts, Fin.append_left, Fin.append_right,
    Pi.zero_apply, zero_mul, Finset.sum_const_zero, add_zero]

variable [LinearOrder K]

/-- The points `y ≥ 0` with `A y ≤ b`. -/
def Feasible (p : Problem K) (y : Fin p.nvars → K) : Prop :=
  (∀ j, 0 ≤ y j) ∧ ∀ i, (p.coeffs *ᵥ y) i ≤ p.bounds i

/-- No feasible point has an objective above some bound. -/
def Bounded (p : Problem K) : Prop := ∃ B, ∀ y, p.Feasible y → p.costs ⬝ᵥ y ≤ B

theorem feasible_of_augmented [IsStrictOrderedRing K] {p : Problem K}
    {z : Fin (p.nvars + p.ncons) → K} (hz : p.augmented *ᵥ z = p.bounds) (hnonneg : ∀ j, 0 ≤ z j) :
    p.Feasible fun j => z (Fin.castAdd p.ncons j) := by
  refine ⟨fun j => hnonneg _, fun i => ?_⟩
  have hi := congrFun (p.augmented_mulVec z) i
  rw [hz, Pi.add_apply] at hi
  rw [hi]
  exact le_add_of_nonneg_right (hnonneg _)

theorem augmented_of_feasible [IsStrictOrderedRing K] {p : Problem K} {y : Fin p.nvars → K}
    (hy : p.Feasible y) :
    p.augmented *ᵥ Fin.append y (p.bounds - p.coeffs *ᵥ y) = p.bounds ∧
      ∀ j, 0 ≤ Fin.append y (p.bounds - p.coeffs *ᵥ y) j := by
  constructor
  · rw [augmented_mulVec]
    simp only [Fin.append_left, Fin.append_right]
    exact add_sub_cancel _ _
  · refine Fin.addCases (fun j => ?_) (fun i => ?_)
    · rw [Fin.append_left]
      exact hy.1 j
    · rw [Fin.append_right, Pi.sub_apply, sub_nonneg]
      exact hy.2 i

theorem exists_value_gt_of_gain [IsStrictOrderedRing K] {p : Problem K} {v gain : K}
    (hgain : 0 < gain) (hpoint : ∀ t, 0 ≤ t → ∃ z, p.augmented *ᵥ z = p.bounds ∧ (∀ j, 0 ≤ z j) ∧
      p.augmentedCosts ⬝ᵥ z = v + t * gain) (B : K) :
    ∃ y, p.Feasible y ∧ B < p.costs ⬝ᵥ y := by
  let t := max 0 ((B - v) / gain + 1)
  have hfar : B - v < t * gain := by
    rw [← div_lt_iff₀ hgain]
    exact (lt_add_one _).trans_le (le_max_right _ _)
  obtain ⟨z, hz, hnonneg, hvalue⟩ := hpoint t (le_max_left _ _)
  refine ⟨_, feasible_of_augmented hz hnonneg, ?_⟩
  rw [← augmentedCosts_dotProduct, hvalue]
  exact sub_lt_iff_lt_add'.mp hfar

theorem exists_value_gt [IsStrictOrderedRing K] {p : Problem K}
    {z d : Fin (p.nvars + p.ncons) → K} (hz : p.augmented *ᵥ z = p.bounds) (hnonneg : ∀ j, 0 ≤ z j)
    (hd : ∀ j, 0 ≤ d j) (hker : p.augmented *ᵥ d = 0) (hgain : 0 < p.augmentedCosts ⬝ᵥ d) (B : K) :
    ∃ y, p.Feasible y ∧ B < p.costs ⬝ᵥ y := by
  refine exists_value_gt_of_gain (v := p.augmentedCosts ⬝ᵥ z) hgain (fun t ht => ?_) B
  refine ⟨z + t • d, ?_, ?_, ?_⟩
  · rw [Matrix.mulVec_add, Matrix.mulVec_smul, hker, smul_zero, add_zero, hz]
  · exact fun j => add_nonneg (hnonneg j) (mul_nonneg ht (hd j))
  · rw [dotProduct_add, dotProduct_smul, smul_eq_mul]

/-- Maximise `x₀ + x₁` subject to `x₀ + 2 x₁ ≤ 4` and `3 x₀ + x₁ ≤ 6`. -/
def twoByTwo : Problem ℚ := ⟨[1, 1], ⟨2, 2, [1, 2, 3, 1]⟩, [4, 6]⟩

end Problem

end LinProg
