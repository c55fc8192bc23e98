import LinProg.Affine.Workspace
import LinProg.Proofs.Ldl.Definite

/-!
# The projected cost in exact arithmetic

`IsProjection B v q` says that `q` is the part of `v` that the rows of `B` do not see. At a point
`x` the projected cost is this part of `D c` for `B = [A | I] D`, as soon as the normal system is
not singular (`Workspace.projectedCost?_cases`); at a point with positive slacks it never is when
the tolerance is zero (`Workspace.projectedCost?_interior`).
-/

open scoped Matrix

namespace LinProg

/-- `q` is the orthogonal projection of `v` onto the null space of `B`. -/
structure IsProjection {K : Type} [Field K] {m N : ℕ} (B : Mat m N K) (v q : Fin N → K) : Prop where
  /-- It lies in the null space. -/
  kernel : B *ᵥ q = 0
  /-- What is taken off lies in the row space. -/
  rowSpace : ∃ w, v - q = w ᵥ* B

namespace IsProjection

variable {K : Type} [Field K] {m N : ℕ} {B : Mat m N K} {v q : Fin N → K}

theorem dotProduct_of_kernel (h : IsProjection B v q) {d : Fin N → K} (hd : B *ᵥ d = 0) :
    v ⬝ᵥ d = q ⬝ᵥ d := by
  obtain ⟨w, hw⟩ := h.rowSpace
  have hsub : (v - q) ⬝ᵥ d = 0 := by
    rw [hw, ← Matrix.dotProduct_mulVec, hd, dotProduct_zero]
  rwa [sub_dotProduct, sub_eq_zero] at hsub

theorem dotProduct_eq (h : IsProjection B v q) : v ⬝ᵥ q = q ⬝ᵥ q := h.dotProduct_of_kernel h.kernel

theorem dotProduct_self_le [LinearOrder K] [IsStrictOrderedRing K] (h : IsProjection B v q) :
    q ⬝ᵥ q ≤ v ⬝ᵥ v := by
  have hnonneg : 0 ≤ (v - q) ⬝ᵥ (v - q) := Finset.sum_nonneg fun i _ => mul_self_nonneg _
  rw [sub_dotProduct, dotProduct_sub, dotProduct_sub, dotProduct_comm q v,
    h.dotProduct_eq] at hnonneg
  linarith

theorem unique [LinearOrder K] [IsStrictOrderedRing K] (h : IsProjection B v q) {q' : Fin N → K}
    (h' : IsProjection B v q') : q = q' := by
  have hkernel : B *ᵥ (q - q') = 0 := by
    rw [Matrix.mulVec_sub, h.kernel, h'.kernel, sub_zero]
  -- what they differ by is in the null space and in the row space
  have hzero : (q - q') ⬝ᵥ (q - q') = 0 := by
    rw [sub_dotProduct, ← h.dotProduct_of_kernel hkernel, ← h'.dotProduct_of_kernel hkernel,
      sub_self]
  exact sub_eq_zero.mp (dotProduct_self_eq_zero.mp hzero)

theorem of_kernel (h : B *ᵥ q = 0) : IsProjection B q q :=
  ⟨h, 0, by rw [sub_self, Matrix.zero_vecMul]⟩

end IsProjection

namespace Problem

variable {K : Type} [Field K]

/-- `[A | I] D`. -/
def scaled (p : Problem K) (x : Fin (p.nvars + p.ncons) → K) : Mat p.ncons (p.nvars + p.ncons) K :=
  p.augmented * Matrix.diagonal x

/-- `D c`. -/
def scaledCosts (p : Problem K) (x : Fin (p.nvars + p.ncons) → K) : Fin (p.nvars + p.ncons) → K :=
  p.augmentedCosts * x

theorem isSymm_normalMatrix (p : Problem K) (x : Fin (p.nvars + p.ncons) → K) :
    (p.scaled x * (p.scaled x)ᵀ).IsSymm := by
  rw [Matrix.IsSymm, Matrix.transpose_mul, Matrix.transpose_transpose]

end Problem

namespace Workspace

variable {K : Type} [Field K] [LinearOrder K] [Exact K] {p : Problem K}

/-- The form of a valid problem. -/
def form (p : Problem K) : Workspace K where
  augmented := Matrix.ofMat p.augmented
  cost := List.ofFn p.augmentedCosts
  rhs := List.ofFn p.bounds
  nvars := p.nvars

/-- The sizes that affine scaling works with fit in a word. -/
def Fits (p : Problem K) : Prop :=
  p.nvars + p.ncons < 2 ^ 64 ∧ p.ncons * (p.nvars + p.ncons) < 2 ^ 64

theorem of?_eq (hv : p.validate = .ok ()) (hfit : Fits p) : Workspace.of? p = some (form p) := by
  have hcosts : List.ofFn p.costs = p.cost := Vec.ofFn_coords rfl
  have hcost : p.cost ++ List.replicate p.ncons 0 = List.ofFn p.augmentedCosts := by
    rw [Problem.augmentedCosts, List.ofFn_fin_append, hcosts, Vec.replicate_zero_eq_ofFn]
  have hrhs : p.rhs = List.ofFn p.bounds := (Vec.ofFn_coords rfl).symm
  rw [Workspace.of?, Size.add?_eq hfit.1, Problem.constraints_eq_ofMat hv,
    Matrix.ofMat_withIdentityBlock? hfit.1 hfit.2, hcost, hrhs, Option.bind_eq_bind,
    Option.bind_some, Exact.entries?_eq]
  rfl

theorem fits_of_of?_eq_some (hv : p.validate = .ok ()) {w : Workspace K}
    (hw : Workspace.of? p = some w) : Fits p := by
  simp only [Workspace.of?, Matrix.withIdentityBlock?, Option.bind_eq_bind, Option.bind_eq_some_iff,
    Size.add?_eq_some_iff, Matrix.room?_eq_some_iff, Matrix.room_iff_lt, Problem.nrows_eq hv,
    Problem.ncols_eq hv] at hw
  obtain ⟨_, ⟨hadd, -⟩, _, -, _, ⟨_, ⟨-, rfl⟩, _, ⟨hmul, -⟩, -⟩, -⟩ := hw
  exact ⟨hadd, hmul⟩

theorem form_of_of?_eq_some (hv : p.validate = .ok ()) {w : Workspace K}
    (hw : Workspace.of? p = some w) : Fits p ∧ w = form p := by
  have hfit := fits_of_of?_eq_some hv hw
  rw [of?_eq hv hfit, Option.some.injEq] at hw
  exact ⟨hfit, hw.symm⟩

theorem projectOnce?_eq {m N : ℕ} {B : Mat m N K} (hN : 0 < N) {s : LdlSolver K}
    (hs : s.Solves (B * Bᵀ)) (v : Fin N → K) :
    ∃ q, projectOnce? (Matrix.ofMat B) s N (List.ofFn v) = some (.ok (List.ofFn q)) ∧
      IsProjection B v q := by
  obtain ⟨w, hw, hsolves⟩ := hs (B *ᵥ v)
  refine ⟨v - w ᵥ* B, ?_, ?_, w, sub_sub_cancel _ _⟩
  · rw [projectOnce?, Matrix.ofMat_product? hN, Option.bind_eq_bind, Option.bind_some, hw]
    dsimp only
    rw [Matrix.ofMat_transposeProductInto? hN _ List.length_replicate, Option.bind_some,
      Vec.zipWith_ofFn]
    rfl
  · rw [Matrix.mulVec_sub, ← Matrix.mulVec_transpose, Matrix.mulVec_mulVec, hsolves, sub_self]

variable {x : Fin (p.nvars + p.ncons) → K} {s : LdlSolver K}

theorem form_scaledCost : (form p).scaledCost (List.ofFn x) = List.ofFn (p.scaledCosts x) := by
  rw [scaledCost, form, Vec.zipWith_ofFn]
  rfl

omit [Field K] [LinearOrder K] [Exact K] in
theorem Fits.square_lt (hfit : Fits p) : p.ncons * p.ncons < 2 ^ 64 :=
  lt_of_le_of_lt (Nat.mul_le_mul_left _ (Nat.le_add_left _ _)) hfit.2

theorem form_normalMatrix (hfit : Fits p) :
    (form p).augmented.scaleColumns? (List.ofFn x) = some (Matrix.ofMat (p.scaled x)) ∧
      (Matrix.ofMat (p.scaled x)).gram? =
        some (Matrix.ofMat (p.scaled x * (p.scaled x)ᵀ)) :=
  ⟨Matrix.ofMat_scaleColumns? hfit.2 x, Matrix.ofMat_gram? hfit.2 hfit.square_lt⟩

theorem projectedCost?_error (hfit : Fits p) {e : LdlError K} {s' : LdlSolver K}
    (hs : s.factor? (Matrix.ofMat (p.scaled x * (p.scaled x)ᵀ)) = some (.error e, s'))
    (effort : Effort) :
    (form p).projectedCost? (List.ofFn x) s effort = some (.error e, effort) := by
  obtain ⟨hscale, hgram⟩ := form_normalMatrix (x := x) hfit
  rw [projectedCost?, hscale, Option.bind_eq_bind, Option.bind_some, hgram, Option.bind_some, hs]
  rfl

variable [IsStrictOrderedRing K]

theorem projectOnce?_of_projection {m N : ℕ} {B : Mat m N K} (hN : 0 < N) {s : LdlSolver K}
    (hs : s.Solves (B * Bᵀ)) {v q : Fin N → K} (h : IsProjection B v q) :
    projectOnce? (Matrix.ofMat B) s N (List.ofFn v) = some (.ok (List.ofFn q)) := by
  obtain ⟨q', hq', hproj⟩ := projectOnce?_eq hN hs v
  rw [hq', hproj.unique h]

theorem projectedCost?_eq (hv : p.validate = .ok ()) (hfit : Fits p) {s' : LdlSolver K}
    (hs : s.factor? (Matrix.ofMat (p.scaled x * (p.scaled x)ᵀ)) = some (.ok (), s'))
    (hsolves : s'.Solves (p.scaled x * (p.scaled x)ᵀ)) {q : Fin (p.nvars + p.ncons) → K}
    (h : IsProjection (p.scaled x) (p.scaledCosts x) q) (effort : Effort) :
    (form p).projectedCost? (List.ofFn x) s effort = some (.ok (List.ofFn q),
      ⟨effort.factorizations + 1, effort.linearSolves + 2⟩) := by
  have hN : 0 < p.nvars + p.ncons := Nat.add_pos_left (Problem.nvars_pos hv) _
  obtain ⟨hscale, hgram⟩ := form_normalMatrix (x := x) hfit
  rw [projectedCost?, hscale, Option.bind_eq_bind, Option.bind_some, hgram, Option.bind_some, hs]
  simp only [Option.bind_eq_bind, Option.bind_some, form_scaledCost, List.length_ofFn]
  rw [projectOnce?_of_projection hN hsolves h, Option.bind_some]
  dsimp only
  -- the second pass finds nothing to take off
  rw [projectOnce?_of_projection hN hsolves (.of_kernel h.kernel)]
  rfl

theorem projectedCost?_ok (hv : p.validate = .ok ()) (hfit : Fits p) {s' : LdlSolver K}
    (hs : s.factor? (Matrix.ofMat (p.scaled x * (p.scaled x)ᵀ)) = some (.ok (), s'))
    (hsolves : s'.Solves (p.scaled x * (p.scaled x)ᵀ)) (effort : Effort) :
    ∃ q effort', (form p).projectedCost? (List.ofFn x) s effort =
      some (.ok (List.ofFn q), effort') ∧ IsProjection (p.scaled x) (p.scaledCosts x) q := by
  have hN : 0 < p.nvars + p.ncons := Nat.add_pos_left (Problem.nvars_pos hv) _
  obtain ⟨q, -, hproj⟩ := projectOnce?_eq hN hsolves (p.scaledCosts x)
  exact ⟨q, _, projectedCost?_eq hv hfit hs hsolves hproj effort, hproj⟩

theorem projectedCost?_cases (hv : p.validate = .ok ()) (hfit : Fits p) (htol : 0 ≤ s.tolerance)
    (hs : s.dimension? = some p.ncons) (effort : Effort) :
    (∃ e, (form p).projectedCost? (List.ofFn x) s effort = some (.error e, effort)) ∨
      ∃ q effort', (form p).projectedCost? (List.ofFn x) s effort =
        some (.ok (List.ofFn q), effort') ∧ IsProjection (p.scaled x) (p.scaledCosts x) q := by
  have hsquare : p.ncons * p.ncons < 2 ^ 64 :=
    lt_of_le_of_lt (Nat.mul_le_mul_left _ (Nat.le_add_left _ _)) hfit.2
  rcases LdlSolver.factor?_cases (p.isSymm_normalMatrix x) hsquare htol hs with
    ⟨e, he⟩ | ⟨s', hs', hsolves⟩
  · exact Or.inl ⟨e, projectedCost?_error hfit he effort⟩
  · exact Or.inr (projectedCost?_ok hv hfit hs' hsolves effort)

omit [Exact K] in
/-- The slack column of a row alone makes the form of a leading block of the normal matrix at least
the square of the slack, where the coordinate of that row is one and comes last. -/
theorem sq_slack_le_form (k : Fin p.ncons) {u : Fin (k + 1) → K} (hu : u (Fin.last k) = 1) :
    x (Fin.natAdd p.nvars k) ^ 2 ≤ u ⬝ᵥ (p.scaled x * (p.scaled x)ᵀ).submatrix
      (Fin.castLE k.isLt) (Fin.castLE k.isLt) *ᵥ u := by
  let B : Mat (k + 1) (p.nvars + p.ncons) K := (p.scaled x).submatrix (Fin.castLE k.isLt) id
  have hform : u ⬝ᵥ (p.scaled x * (p.scaled x)ᵀ).submatrix (Fin.castLE k.isLt)
      (Fin.castLE k.isLt) *ᵥ u = ∑ t, (u ᵥ* B) t ^ 2 := by
    have hgram : (p.scaled x * (p.scaled x)ᵀ).submatrix (Fin.castLE k.isLt) (Fin.castLE k.isLt) =
        B * Bᵀ := rfl
    rw [hgram, ← Matrix.mulVec_mulVec, Matrix.dotProduct_mulVec, Matrix.mulVec_transpose,
      dotProduct]
    exact Finset.sum_congr rfl fun t _ => (sq _).symm
  have hslack : (u ᵥ* B) (Fin.natAdd p.nvars k) = x (Fin.natAdd p.nvars k) := by
    have hentry : ∀ i, B i (Fin.natAdd p.nvars k) =
        if i = Fin.last k then x (Fin.natAdd p.nvars k) else 0 := by
      intro i
      simp only [B, Matrix.submatrix_apply, id_eq, Problem.scaled, Matrix.mul_diagonal,
        Problem.augmented, Matrix.of_apply, Fin.append_right, Pi.single_apply, Fin.ext_iff,
        Fin.val_castLE, Fin.val_last, ite_mul, one_mul, zero_mul, eq_comm]
    simp only [Matrix.vecMul, dotProduct, hentry, mul_ite, mul_zero, Finset.sum_ite_eq',
      Finset.mem_univ, if_true, hu, one_mul]
  rw [hform, ← hslack]
  exact Finset.single_le_sum (f := fun t => (u ᵥ* B) t ^ 2) (fun t _ => sq_nonneg _)
    (Finset.mem_univ _)

/-- **At a point with positive slacks the projected cost exists**, as the normal matrix is
definite. -/
theorem projectedCost?_interior (hv : p.validate = .ok ()) (hfit : Fits p) (htol : s.tolerance = 0)
    (hs : s.dimension? = some p.ncons) (hx : ∀ k, x (Fin.natAdd p.nvars k) ≠ 0)
    (effort : Effort) :
    ∃ q effort', (form p).projectedCost? (List.ofFn x) s effort =
      some (.ok (List.ofFn q), effort') ∧ IsProjection (p.scaled x) (p.scaledCosts x) q := by
  have hsquare : p.ncons * p.ncons < 2 ^ 64 :=
    lt_of_le_of_lt (Nat.mul_le_mul_left _ (Nat.le_add_left _ _)) hfit.2
  obtain ⟨s', hs', hsolves⟩ := LdlSolver.factor?_ok_of_form_le (p.isSymm_normalMatrix x)
    hsquare htol.ge hs (c := fun k => x (Fin.natAdd p.nvars k) ^ 2)
    (fun k => by
      rw [htol, zero_mul]
      exact sq_pos_of_ne_zero (hx k))
    fun k u hlast => sq_slack_le_form k hlast
  exact projectedCost?_ok hv hfit hs' hsolves effort

end Workspace

end LinProg
