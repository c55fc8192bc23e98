import LinProg.Proofs.Exact.Matrices
import LinProg.Proofs.Sizes

/-!
# The algebra of stored operators

A consistent matrix is the stored form of a matrix of linear algebra (`Matrix.Consistent.eq_ofMat`),
also without rows or columns, so the products and the matrices that are made of it obey the laws of
linear algebra (`Matrix.operator_algebra`): the two products are adjoint, and `M Mᵀ`, `M diag d` and
`[M | I]` act as their names say. Making `M Mᵀ` or `[M | I]` breaks down where there is no room for
it, and only there.
-/

open scoped Matrix

namespace LinProg.Matrix

/-- A matrix of the given sizes with as many entries as they say. -/
structure OfShape {α : Type} (M : Matrix α) (m n : ℕ) : Prop where
  consistent : M.Consistent
  nrows : M.nrows = m
  ncols : M.ncols = n

theorem ofMat_consistent {α : Type} {m n : ℕ} {X : Mat m n α} : (ofMat X).Consistent :=
  hasRows_ofMat.length_data

theorem ofShape_ofMat {α : Type} {m n : ℕ} (X : Mat m n α) : (ofMat X).OfShape m n :=
  ⟨ofMat_consistent, ofMat_nrows, ofMat_ncols⟩

theorem Consistent.eq_ofMat {α : Type} [Zero α] {M : Matrix α} (h : M.Consistent) :
    M = ofMat (M.entries M.nrows M.ncols) := by
  rw [h.hasRows.entries_eq rfl rfl]
  exact h.hasRows.eq_ofMat rfl rfl

section Storage

variable {α : Type} [Scalar α] {M : Matrix α}

theorem gram?_eq_none (h : ¬Room α M.nrows M.nrows) : M.gram? = none := by
  rw [gram?, room?_eq_none h]
  rfl

theorem withIdentityBlock?_eq_none
    (h : 2 ^ 64 ≤ M.ncols + M.nrows ∨ ¬Room α M.nrows (M.ncols + M.nrows)) :
    M.withIdentityBlock? = none := by
  rw [withIdentityBlock?]
  rcases Nat.lt_or_ge (M.ncols + M.nrows) (2 ^ 64) with hadd | hadd
  · rw [Size.add?_eq hadd, Option.bind_eq_bind, Option.bind_some,
      room?_eq_none (h.resolve_left (not_le.mpr hadd))]
    rfl
  · rw [Size.add?_eq_none hadd]
    rfl

theorem Consistent.exists_gram?_iff (h : M.Consistent)
    (hfit : M.nrows * M.ncols < 2 ^ 64) : (∃ G, M.gram? = some G) ↔ Room α M.nrows M.nrows := by
  constructor
  · rintro ⟨G, hG⟩
    by_contra hroom
    rw [gram?_eq_none hroom] at hG
    cases hG
  · intro hroom
    obtain ⟨G, -, hG, -⟩ := h.hasRows.exists_gram? hfit hroom
    exact ⟨G, hG⟩

theorem Consistent.exists_withIdentityBlock?_iff (h : M.Consistent) :
    (∃ B, M.withIdentityBlock? = some B) ↔
      M.ncols + M.nrows < 2 ^ 64 ∧ Room α M.nrows (M.ncols + M.nrows) := by
  constructor
  · rintro ⟨B, hB⟩
    by_contra hroom
    rw [not_and_or, not_lt] at hroom
    rw [withIdentityBlock?_eq_none hroom] at hB
    cases hB
  · rintro ⟨hwidth, hroom⟩
    obtain ⟨B, -, hB, -⟩ := h.hasRows.exists_withIdentityBlock? hroom hwidth
    exact ⟨B, hB⟩

end Storage

variable {K : Type} [Field K] [LinearOrder K] [Exact K] {m n : ℕ} {X : Mat m n K}

/-! ### Products without columns -/

theorem product?_ofFn (v : Fin n → K) :
    (ofMat X).product? (List.ofFn v) = some (List.ofFn (X *ᵥ v)) := by
  rcases Nat.eq_zero_or_pos n with rfl | hn
  -- without columns there is no row to be multiplied, but the zeros are right as they stand
  · rw [Matrix.mulVec_empty, ← Vec.replicate_zero_eq_ofFn, product?, ofMat_nrows]
    exact ofMat_consistent.productInto?_eq_self rfl List.length_ofFn (by simp)
  · exact ofMat_product? hn v

theorem transposeProductInto?_ofFn (w : Fin m → K) {y : List K} (hy : y.length = n) :
    (ofMat X).transposeProductInto? (List.ofFn w) y = some (List.ofFn (w ᵥ* X)) := by
  rcases Nat.eq_zero_or_pos n with rfl | hn
  · obtain rfl := List.length_eq_zero_iff.mp hy
    rw [transposeProductInto?, if_pos (by simp), ofMat_consistent.rows_eq_nil rfl, List.ofFn_zero]
    rfl
  · exact ofMat_transposeProductInto? hn w hy

/-! ### The laws -/

theorem exists_scaleColumns?_product? (hfit : m * n < 2 ^ 64) (d u : Fin n → K) :
    ∃ S v, (ofMat X).scaleColumns? (List.ofFn d) = some S ∧ S.OfShape m n ∧
      S.product? (List.ofFn u) = some v ∧
      (ofMat X).product? ((List.ofFn d).zipWith (· * ·) (List.ofFn u)) = some v := by
  have hdiagonal : Matrix.diagonal d *ᵥ u = fun j => d j * u j :=
    funext fun j => Matrix.mulVec_diagonal d u j
  refine ⟨_, _, ofMat_scaleColumns? hfit d, ofShape_ofMat _, product?_ofFn u, ?_⟩
  rw [Vec.zipWith_ofFn, product?_ofFn, ← Matrix.mulVec_mulVec, hdiagonal]

theorem exists_gram?_product? (hfit : m * n < 2 ^ 64) (hsquare : m * m < 2 ^ 64) (w : Fin m → K) :
    ∃ G v, (ofMat X).gram? = some G ∧ G.OfShape m m ∧ G.product? (List.ofFn w) = some v ∧
      (ofMat X).product? (List.ofFn (w ᵥ* X)) = some v := by
  refine ⟨_, _, ofMat_gram? hfit hsquare, ofShape_ofMat _, product?_ofFn w, ?_⟩
  rw [product?_ofFn, ← Matrix.mulVec_mulVec, Matrix.mulVec_transpose]

theorem exists_withIdentityBlock?_products (hadd : n + m < 2 ^ 64) (hmul : m * (n + m) < 2 ^ 64)
    (u : Fin n → K) (v w : Fin m → K) :
    ∃ B, (ofMat X).withIdentityBlock? = some B ∧ B.OfShape m (n + m) ∧
      B.product? (List.ofFn u ++ List.ofFn v) =
        some ((List.ofFn (X *ᵥ u)).zipWith (· + ·) (List.ofFn v)) ∧
      B.transposeProductInto? (List.ofFn w) (List.replicate B.ncols 0) =
        some (List.ofFn (w ᵥ* X) ++ List.ofFn w) := by
  refine ⟨_, ofMat_withIdentityBlock? hadd hmul, ofShape_ofMat _, ?_, ?_⟩
  · rw [← List.ofFn_fin_append, product?_ofFn, identityBlock_mulVec, Vec.zipWith_ofFn]
    simp only [Fin.append_left, Fin.append_right]
    rfl
  · refine (transposeProductInto?_ofFn w List.length_replicate).trans ?_
    rw [vecMul_identityBlock, List.ofFn_fin_append]

/-- **The algebra of stored operators.** In exact arithmetic, for any matrix with as many entries as
its sizes say, no more than a word can count, and vectors that fit it, with products written over
zeros:

* `(M x) · w = x · (Mᵀ w)`;
* `(M diag d) x = M (d x)`;
* `(M Mᵀ) w = M (Mᵀ w)`;
* `[M | I] (x, s) = M x + s` and `[M | I]ᵀ w = (Mᵀ w, w)`.

The products have a result, and so have the three matrices, each of the shape that it should have,
unless the sizes of `M Mᵀ` or `[M | I]` do not fit in a word. That is for numbers that take no
storage; for any others `M Mᵀ` and `[M | I]` have a result exactly if there is room for it. -/
theorem operator_algebra {M : Matrix K} (hM : M.Consistent) (hfit : M.nrows * M.ncols < 2 ^ 64)
    {x d w s : List K} (hx : x.length = M.ncols) (hd : d.length = M.ncols)
    (hw : w.length = M.nrows) (hs : s.length = M.nrows) :
    ∃ Mx Mtw, (M.product? x = some Mx ∧ Mx.length = M.nrows) ∧
      (M.transposeProductInto? w (List.replicate M.ncols 0) = some Mtw ∧ Mtw.length = M.ncols) ∧
      (∃ c, Vec.dot? Mx w = some c ∧ Vec.dot? x Mtw = some c) ∧
      (∃ S v, M.scaleColumns? d = some S ∧ S.OfShape M.nrows M.ncols ∧ S.product? x = some v ∧
        M.product? (d.zipWith (· * ·) x) = some v) ∧
      (2 ^ 64 ≤ M.nrows * M.nrows ∧ M.gram? = none ∨
        ∃ G v, M.gram? = some G ∧ G.OfShape M.nrows M.nrows ∧ G.product? w = some v ∧
          M.product? Mtw = some v) ∧
      ((2 ^ 64 ≤ M.ncols + M.nrows ∨ 2 ^ 64 ≤ M.nrows * (M.ncols + M.nrows)) ∧
          M.withIdentityBlock? = none ∨
        ∃ B, M.withIdentityBlock? = some B ∧ B.OfShape M.nrows (M.ncols + M.nrows) ∧
          B.product? (x ++ s) = some (Mx.zipWith (· + ·) s) ∧
          B.transposeProductInto? w (List.replicate B.ncols 0) = some (Mtw ++ w)) ∧
      ∀ (α : Type) [Scalar α] (N : Matrix α), N.Consistent → N.nrows * N.ncols < 2 ^ 64 →
        ((∃ G, N.gram? = some G) ↔ Room α N.nrows N.nrows) ∧
        ((∃ B, N.withIdentityBlock? = some B) ↔
          N.ncols + N.nrows < 2 ^ 64 ∧ Room α N.nrows (N.ncols + N.nrows)) := by
  obtain ⟨m, n, X, rfl⟩ : ∃ (m n : ℕ) (X : Mat m n K), M = ofMat X := ⟨_, _, _, hM.eq_ofMat⟩
  rw [ofMat_nrows] at hfit hw hs
  rw [ofMat_ncols] at hfit hx hd
  obtain ⟨x, rfl⟩ : ∃ u : Fin n → K, List.ofFn u = x := ⟨_, Vec.ofFn_coords hx⟩
  obtain ⟨d, rfl⟩ : ∃ u : Fin n → K, List.ofFn u = d := ⟨_, Vec.ofFn_coords hd⟩
  obtain ⟨w, rfl⟩ : ∃ u : Fin m → K, List.ofFn u = w := ⟨_, Vec.ofFn_coords hw⟩
  obtain ⟨s, rfl⟩ : ∃ u : Fin m → K, List.ofFn u = s := ⟨_, Vec.ofFn_coords hs⟩
  simp only [ofMat_nrows, ofMat_ncols]
  refine ⟨_, _, ⟨product?_ofFn x, List.length_ofFn⟩,
    ⟨transposeProductInto?_ofFn w List.length_replicate, List.length_ofFn⟩,
    ⟨w ᵥ* X ⬝ᵥ x, ?_, ?_⟩, exists_scaleColumns?_product? hfit d x, ?_, ?_,
    fun α _ N hN hN' => ⟨hN.exists_gram?_iff hN', hN.exists_withIdentityBlock?_iff⟩⟩
  · rw [Vec.dot?_ofFn, dotProduct_comm, Matrix.dotProduct_mulVec]
  · rw [Vec.dot?_ofFn, dotProduct_comm]
  · rcases Nat.lt_or_ge (m * m) (2 ^ 64) with hsquare | hsquare
    · exact Or.inr (exists_gram?_product? hfit hsquare w)
    · refine Or.inl ⟨hsquare, gram?_eq_none ?_⟩
      rw [ofMat_nrows, room_iff_lt]
      omega
  · by_cases hblock : n + m < 2 ^ 64 ∧ m * (n + m) < 2 ^ 64
    · exact Or.inr (exists_withIdentityBlock?_products hblock.1 hblock.2 x s w)
    · rw [not_and_or, not_lt, not_lt] at hblock
      refine Or.inl ⟨hblock, withIdentityBlock?_eq_none ?_⟩
      rwa [ofMat_nrows, ofMat_ncols, room_iff_lt, not_lt]

/-- The laws for three rows without columns, and for a matrix that is not square. -/
theorem wideRows_operators :
    (∃ G v, Matrix.gram? (⟨3, 0, []⟩ : Matrix ℚ) = some G ∧ G.product? [1, 2, 3] = some v ∧
      Matrix.product? (⟨3, 0, []⟩ : Matrix ℚ) [] = some v) ∧
    ∃ B, Matrix.withIdentityBlock? (⟨2, 3, [1, -2, 0, 3, 1 / 2, 4]⟩ : Matrix ℚ) = some B ∧
      B.OfShape 2 5 ∧ B.product? [1, 1, 1, 5, -1] = some [4, 13 / 2] := by
  constructor
  · obtain ⟨-, Mtw, -, ⟨-, hlen⟩, -, -, hgram, -, -⟩ :=
      operator_algebra (M := (⟨3, 0, []⟩ : Matrix ℚ)) (x := []) (d := []) (w := [1, 2, 3])
        (s := [0, 0, 0]) rfl (by decide) rfl rfl rfl rfl
    obtain rfl := List.length_eq_zero_iff.mp hlen
    rcases hgram with ⟨hlarge, -⟩ | ⟨G, v, hG, -, hGw, hv⟩
    · exact absurd hlarge (by decide)
    · exact ⟨G, v, hG, hGw, hv⟩
  · obtain ⟨Mx, _, ⟨hMx, -⟩, -, -, -, -, hblock, -⟩ :=
      operator_algebra (M := (⟨2, 3, [1, -2, 0, 3, 1 / 2, 4]⟩ : Matrix ℚ)) (x := [1, 1, 1])
        (d := [1, 1, 1]) (w := [0, 0]) (s := [5, -1]) rfl (by decide) rfl rfl rfl rfl
    obtain rfl : Mx = [-1, 15 / 2] := by
      rw [← Option.some.injEq, ← hMx]
      decide +kernel
    rcases hblock with ⟨hlarge, -⟩ | ⟨B, hB, hshape, hBxs, -⟩
    · exact absurd hlarge (by decide)
    · refine ⟨B, hB, hshape, hBxs.trans ?_⟩
      decide +kernel

end LinProg.Matrix
