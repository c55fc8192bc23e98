import LinProg.Proofs.Exact.Matrices
import LinProg.Proofs.Ldl.Solving

/-!
# Definite matrices and the solver

A pivot is the value of the quadratic form of a leading block at a point whose last coordinate is
one (`Stage.exists_form_eq_pivot`), so a matrix whose form is large enough there is never singular
(`factor_ok_of_form_le`). A solver that has factored a symmetric matrix solves its systems
(`LdlSolver.Solves`).
-/

open scoped Matrix

namespace LinProg

namespace Ldl

variable {K : Type} [Field K]

section Triangular

variable {n : ℕ} {R : ℕ → List K} (hR : ∀ i < n, (R i).length ≤ i)
include hR

theorem unitLower_self (i : Fin n) : unitLower n R i i = 1 := by
  rw [unitLower, Matrix.add_apply, Matrix.one_apply_eq, strictLower_eq_zero hR le_rfl, add_zero]

theorem unitLower_of_lt {i k : Fin n} (h : i < k) : unitLower n R i k = 0 := by
  rw [unitLower, Matrix.add_apply, Matrix.one_apply_ne h.ne, strictLower_eq_zero hR h.le, add_zero]

theorem det_unitLower : (unitLower n R).det = 1 := by
  have hlower : (unitLower n R).IsLowerTriangular := fun i k hik => unitLower_of_lt hR hik
  rw [Matrix.det_of_isLowerTriangular _ hlower, Finset.prod_eq_one fun i _ => unitLower_self hR i]

theorem isUnit_unitLower : IsUnit (unitLower n R) := by
  rw [Matrix.isUnit_iff_isUnit_det, det_unitLower hR]
  exact isUnit_one

end Triangular

variable [LinearOrder K] [Exact K]
variable {S : ℕ → ℕ → K} {n j : ℕ} {R : ℕ → List K} {d : List K}

theorem Stage.exists_form_eq_lastPivot (h : Stage S n (j + 1) R d)
    (hd : ∀ k < j, d.getD k 0 ≠ 0) :
    ∃ u : Fin (j + 1) → K, u (Fin.last j) = 1 ∧
      u ⬝ᵥ symmetric (j + 1) S *ᵥ u = d.getD j 0 := by
  have hR : ∀ i < j + 1, (R i).length ≤ i := fun i hi => (h.length_row_of_lt hi).le
  -- `u` with `uᵀ L = (0, …, 0, 1)` makes all pivots but the last one vanish from the form
  obtain ⟨u, hu⟩ := Matrix.vecMul_surjective_iff_isUnit.mpr (isUnit_unitLower hR)
    (Pi.single (Fin.last j) (1 : K))
  dsimp only at hu
  refine ⟨u, ?_, ?_⟩
  · have hlast := congrFun hu (Fin.last j)
    rw [Matrix.vecMul, dotProduct, Finset.sum_eq_single (Fin.last j), unitLower_self hR, mul_one,
      Pi.single_eq_same] at hlast
    · exact hlast
    · intro k _ hk
      rw [unitLower_of_lt hR (Fin.lt_last_iff_ne_last.mpr hk), mul_zero]
    · exact fun hmem => absurd (Finset.mem_univ _) hmem
  · rw [← h.product_eq fun k hk => hd k (Nat.lt_of_succ_lt_succ hk), Matrix.mul_assoc,
      ← Matrix.mulVec_mulVec, Matrix.dotProduct_mulVec, hu, ← Matrix.mulVec_mulVec,
      Matrix.mulVec_transpose, hu, single_dotProduct, one_mul, pivots, Matrix.mulVec_diagonal,
      Pi.single_eq_same, mul_one]
    rfl

theorem Stage.exists_form_eq_pivot (h : Stage S n j R d) {k : ℕ} (hk : k < j)
    (hd : ∀ i < k, d.getD i 0 ≠ 0) :
    ∃ u : Fin (k + 1) → K, u (Fin.last k) = 1 ∧
      u ⬝ᵥ symmetric (k + 1) S *ᵥ u = d.getD k 0 := by
  rw [← getD_take d (Nat.lt_succ_self k)]
  refine (h.earlier (Nat.succ_le_of_lt hk)).exists_form_eq_lastPivot fun i hi => ?_
  rw [getD_take d (by omega)]
  exact hd i hi

theorem Stage.le_pivot (h : Stage S n j R d) {k : ℕ} (hk : k < j) (hd : ∀ i < k, d.getD i 0 ≠ 0)
    {c : K} (hform : ∀ u : Fin (k + 1) → K, u (Fin.last k) = 1 →
      c ≤ u ⬝ᵥ symmetric (k + 1) S *ᵥ u) :
    c ≤ d.getD k 0 := by
  obtain ⟨u, hlast, hu⟩ := h.exists_form_eq_pivot hk hd
  exact (hform u hlast).trans hu.le

variable [IsStrictOrderedRing K] {tolerance : K}

theorem Regular.ne_zero (h : Regular S tolerance j d) (htol : 0 ≤ tolerance) :
    ∀ k < j, d.getD k 0 ≠ 0 := by
  intro k hk hzero
  have hlt := h k hk
  rw [hzero, Exact.abs_eq, Exact.abs_eq, abs_zero] at hlt
  exact absurd hlt (not_lt.mpr (mul_nonneg htol (abs_nonneg _)))

theorem Regular.ne_zero_next (hd : Regular S tolerance j d) (htol : 0 ≤ tolerance)
    (h : Stage S n j R d) : ∀ k < j, (d ++ [nextPivot S R d j]).getD k 0 ≠ 0 := by
  intro k hk
  rw [h.getD_nextDiagonal hk]
  exact hd.ne_zero htol k hk

theorem Regular.lt_abs_nextPivot (hd : Regular S tolerance j d) (htol : 0 ≤ tolerance)
    (h : Stage S n j R d) (hj : j < n) {c : K} (hc : tolerance * |S j j| < c)
    (hform : ∀ u : Fin (j + 1) → K, u (Fin.last j) = 1 → c ≤ u ⬝ᵥ symmetric (j + 1) S *ᵥ u) :
    tolerance * |S j j| < |nextPivot S R d j| := by
  have hpivot := (h.next hj).le_pivot (Nat.lt_succ_self j) (hd.ne_zero_next htol h) hform
  rw [h.getD_nextDiagonal_self] at hpivot
  exact hc.trans_le (hpivot.trans (le_abs_self _))

/-- **Definite matrices are factored.** No pivot is singular when the forms of the leading blocks
are above what the tolerance asks for. -/
theorem factor_ok_of_form_le {M : Matrix K} {c : Fin n → K} (htol : 0 ≤ tolerance)
    (hn : M.nrows = n) (hget : ∀ i < n, ∀ k < n, M.get? i k = some (S i k))
    (hc : ∀ k : Fin n, tolerance * |S k k| < c k)
    (hform : ∀ (k : Fin n) (u : Fin (k + 1) → K), u (Fin.last k) = 1 →
      c k ≤ u ⬝ᵥ symmetric (k + 1) S *ᵥ u) :
    ∃ R d, Stage S n n R d ∧ Regular S tolerance n d ∧
      factor M tolerance = .ok ⟨(List.range n).map R, d⟩ := by
  rcases Stage.factor_cases tolerance hn hget with
    hok | ⟨i, R, d, hi, h, hd, hsingular, -⟩
  · exact hok
  · exact absurd (hd.lt_abs_nextPivot htol h hi (hc ⟨i, hi⟩) (hform ⟨i, hi⟩)) hsingular

end Ldl

namespace LdlSolver

variable {K : Type} [Field K] {m : ℕ}

/-- The entries of a square matrix by index. -/
def lookup (X : Mat m m K) (i k : ℕ) : K := entryAt (Matrix.rowsOf X) i k

theorem lookup_apply (X : Mat m m K) (i k : Fin m) : lookup X i k = X i k := by
  have hi : i.val < (Matrix.rowsOf X).length := by rw [Matrix.length_rowsOf]; exact i.isLt
  have hk : k.val < (Matrix.rowsOf X)[i.val].length := by
    rw [Matrix.getElem_rowsOf, List.length_ofFn]
    exact k.isLt
  rw [lookup, entryAt_eq_getElem hi hk]
  simp only [Matrix.getElem_rowsOf, List.getElem_ofFn]

theorem get?_eq_lookup (X : Mat m m K) (hfit : m * m < 2 ^ 64) :
    ∀ i < m, ∀ k < m, (Matrix.ofMat X).get? i k = some (lookup X i k) := by
  intro i hi k hk
  rw [lookup_apply X ⟨i, hi⟩ ⟨k, hk⟩]
  exact Matrix.ofMat_get? hfit ⟨i, hi⟩ ⟨k, hk⟩

theorem symmetric_lookup {X : Mat m m K} (hX : X.IsSymm) {j : ℕ} (hj : j ≤ m) :
    Ldl.symmetric j (lookup X) = X.submatrix (Fin.castLE hj) (Fin.castLE hj) := by
  ext i k
  rw [Ldl.symmetric, Matrix.of_apply, Matrix.submatrix_apply]
  rcases le_total k.val i.val with hki | hik
  · rw [max_eq_left hki, min_eq_right hki]
    exact lookup_apply X (Fin.castLE hj i) (Fin.castLE hj k)
  · rw [max_eq_right hik, min_eq_left hik, ← hX.apply]
    exact lookup_apply X (Fin.castLE hj k) (Fin.castLE hj i)

variable [LinearOrder K] [Exact K]

/-- The solver solves the systems of a matrix. -/
def Solves (s : LdlSolver K) (X : Mat m m K) : Prop :=
  ∀ b : Fin m → K, ∃ w : Fin m → K, s.solve (List.ofFn b) = .ok (List.ofFn w) ∧ X *ᵥ w = b

variable {s : LdlSolver K} {X : Mat m m K}

theorem solves_of_stage (hX : X.IsSymm) {R : ℕ → List K} {d : List K}
    (h : Ldl.Stage (lookup X) m m R d) (hd : ∀ k < m, d.getD k 0 ≠ 0)
    (hs : s.stage = .factored m ⟨(List.range m).map R, d⟩) : s.Solves X := by
  intro b
  obtain ⟨x, hx, hlen, hsolves⟩ := h.solve_spec hd (List.length_ofFn (f := b))
  rw [symmetric_lookup hX le_rfl, Vec.coords_ofFn] at hsolves
  refine ⟨Vec.coords m x, ?_, hsolves⟩
  rw [solve, hs, Vec.ofFn_coords hlen]
  dsimp only
  rw [if_neg (by simp), hx]

theorem factor?_eq (hs : s.dimension? = some m) : s.factor? (Matrix.ofMat X) =
    match Ldl.factor (Matrix.ofMat X) s.tolerance with
    | .ok F =>
      some (.ok (), { s with stage := .factored m F, factorizations := s.factorizations + 1 })
    | .error e => some (.error e, s.resized m)
    | .fault => none := by
  rw [factor?, if_neg (by simp), ensureAnalysed?, hs]
  dsimp only
  rw [Option.bind_eq_bind, Option.bind_some]
  dsimp only
  exact if_neg (by simp)

omit [Exact K] [Field K] [LinearOrder K] in
theorem exists_sized_of_factor? [Scalar K] {M : Matrix K} {s' : LdlSolver K}
    (h : s.factor? M = some (.ok (), s')) : ∃ s₁ : LdlSolver K, s₁.tolerance = s.tolerance ∧
      s₁.dimension? = some M.nrows ∧ s₁.factor? M = some (.ok (), s') := by
  unfold factor? at h
  split at h
  · cases h
  · rename_i hsquare
    obtain ⟨⟨s₁, n⟩, hs₁, h⟩ := Option.bind_eq_some_iff.mp h
    dsimp only at h
    split at h
    · cases h
    · rename_i hn
      have hsized : s₁.tolerance = s.tolerance ∧ s₁.dimension? = some n := by
        unfold ensureAnalysed? at hs₁
        split at hs₁
        · rename_i hdim
          cases hs₁
          exact ⟨rfl, hdim⟩
        · obtain ⟨s₂, hs₂, heq⟩ := Option.map_eq_some_iff.mp hs₁
          cases heq
          obtain ⟨-, -, heq⟩ := Option.bind_eq_some_iff.mp hs₂
          cases heq
          exact ⟨rfl, rfl⟩
      obtain rfl := not_not.mp hn
      refine ⟨s₁, hsized.1, hsized.2, ?_⟩
      rw [factor?, if_neg hsquare, ensureAnalysed?, hsized.2, Option.bind_eq_bind,
        Option.bind_some]
      dsimp only
      rw [if_neg hn]
      exact h

variable [IsStrictOrderedRing K]

theorem factor?_cases (hX : X.IsSymm) (hfit : m * m < 2 ^ 64) (htol : 0 ≤ s.tolerance)
    (hs : s.dimension? = some m) :
    (∃ e, s.factor? (Matrix.ofMat X) = some (.error e, s.resized m)) ∨
      ∃ s', s.factor? (Matrix.ofMat X) = some (.ok (), s') ∧ s'.Solves X := by
  rw [factor?_eq hs]
  rcases Ldl.Stage.factor_cases s.tolerance Matrix.ofMat_nrows
    (get?_eq_lookup X hfit) with ⟨R, d, h, hd, hok⟩ | ⟨i, R, d, -, -, -, -, herror⟩
  · right
    rw [hok]
    exact ⟨_, rfl, solves_of_stage hX h (hd.ne_zero htol) rfl⟩
  · left
    rw [herror]
    exact ⟨_, rfl⟩

theorem solves_of_factor? (hX : X.IsSymm) (hfit : m * m < 2 ^ 64) (htol : 0 ≤ s.tolerance)
    {s' : LdlSolver K} (h : s.factor? (Matrix.ofMat X) = some (.ok (), s')) : s'.Solves X := by
  obtain ⟨s₁, htol₁, hdim, h₁⟩ := exists_sized_of_factor? h
  rw [Matrix.ofMat_nrows] at hdim
  rcases factor?_cases hX hfit (htol₁ ▸ htol) hdim with ⟨e, he⟩ | ⟨s₂, hs₂, hsolves⟩
  · rw [h₁] at he
    cases he
  · rw [h₁] at hs₂
    cases hs₂
    exact hsolves

theorem factor?_ok_of_form_le (hX : X.IsSymm) (hfit : m * m < 2 ^ 64) (htol : 0 ≤ s.tolerance)
    (hs : s.dimension? = some m) {c : Fin m → K} (hc : ∀ k, s.tolerance * |X k k| < c k)
    (hform : ∀ (k : Fin m) (u : Fin (k + 1) → K), u (Fin.last k) = 1 →
      c k ≤ u ⬝ᵥ X.submatrix (Fin.castLE k.isLt) (Fin.castLE k.isLt) *ᵥ u) :
    ∃ s', s.factor? (Matrix.ofMat X) = some (.ok (), s') ∧ s'.Solves X := by
  obtain ⟨R, d, h, hd, hok⟩ := Ldl.factor_ok_of_form_le htol Matrix.ofMat_nrows
    (get?_eq_lookup X hfit)
    (fun k => by
      rw [lookup_apply]
      exact hc k)
    (fun k u hlast => by
      rw [symmetric_lookup hX k.isLt]
      exact hform k u hlast)
  rw [factor?_eq hs, hok]
  exact ⟨_, rfl, solves_of_stage hX h (hd.ne_zero htol) rfl⟩

end LdlSolver

end LinProg
