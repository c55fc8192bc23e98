import LinProg.Proofs.Exact.Programs

/-!
# Matrices in exact arithmetic

`Matrix.ofMat X` stores a matrix of linear algebra row after row, and the operations on stored
matrices are those of linear algebra, as long as the sizes fit in a word.

* `ofMat_product?`, `ofMat_transposeProductInto?`: `X *ᵥ x` and `Xᵀ *ᵥ w`.
* `ofMat_scaleColumns?`, `ofMat_gram?`, `ofMat_withIdentityBlock?`: `X diag(x)`, `X Xᵀ`, `[X | I]`.
* `Problem.constraints_eq_ofMat`: a valid problem stores its coefficients this way.
-/

open scoped Matrix

namespace LinProg

namespace Vec

section Lists

variable {α : Type} [Zero α] {n : ℕ}

theorem ofFn_coords {x : List α} (hx : x.length = n) : List.ofFn (coords n x) = x := by
  refine List.ext_getElem (by rw [List.length_ofFn, hx]) fun i hi hi' => ?_
  rw [List.getElem_ofFn, coords_eq_get hx]
  rfl

theorem zipWith_ofFn {β γ δ : Type} (f : β → γ → δ) (u : Fin n → β) (v : Fin n → γ) :
    List.zipWith f (List.ofFn u) (List.ofFn v) = List.ofFn fun i => f (u i) (v i) :=
  List.ext_getElem (by simp) (by simp)

omit [Zero α] in
theorem ofFn_eq_append {m : ℕ} (u : Fin (n + m) → α) : List.ofFn u =
    (List.ofFn fun j => u (Fin.castAdd m j)) ++ List.ofFn fun i => u (Fin.natAdd n i) := by
  rw [← List.ofFn_fin_append, Fin.append_castAdd_natAdd]

omit [Zero α] in
theorem take_ofFn {m : ℕ} (u : Fin (n + m) → α) :
    (List.ofFn u).take n = List.ofFn fun j => u (Fin.castAdd m j) := by
  rw [ofFn_eq_append, List.take_left' List.length_ofFn]

omit [Zero α] in
theorem drop_ofFn {m : ℕ} (u : Fin (n + m) → α) :
    (List.ofFn u).drop n = List.ofFn fun i => u (Fin.natAdd n i) := by
  rw [ofFn_eq_append, List.drop_left' List.length_ofFn]

theorem replicate_zero_eq_ofFn : List.replicate n (0 : α) = List.ofFn (0 : Fin n → α) :=
  List.ext_getElem (by simp) (by simp)

end Lists

variable {K : Type} [Field K] [LinearOrder K] [Exact K] {n : ℕ}

theorem dot_ofFn (u v : Fin n → K) : dot (List.ofFn u) (List.ofFn v) = u ⬝ᵥ v := by
  rw [dot_eq List.length_ofFn.le, coords_ofFn, coords_ofFn]

theorem dot?_ofFn (u v : Fin n → K) : dot? (List.ofFn u) (List.ofFn v) = some (u ⬝ᵥ v) := by
  rw [dot?_eq List.length_ofFn List.length_ofFn, coords_ofFn, coords_ofFn]

theorem distance2?_ofFn (u v : Fin n → K) :
    distance2? (List.ofFn u) (List.ofFn v) = some (Scalar.sqrt (∑ i, (u i - v i) ^ 2)) := by
  have hsum : squaredDistance (List.ofFn u) (List.ofFn v) = ∑ i, (u i - v i) ^ 2 := by
    have hzip : (List.ofFn u).zip (List.ofFn v) = List.ofFn fun i => (u i, v i) :=
      zipWith_ofFn Prod.mk _ _
    rw [squaredDistance, hzip, ← List.sum_ofFn, List.sum_eq_foldl, ← List.foldl_map]
    simp only [List.map_ofFn, Function.comp_def, sq]
  rw [distance2?, if_pos (by simp), hsum]

theorem axpy?_ofFn (a : K) (u v : Fin n → K) :
    axpy? a (List.ofFn u) (List.ofFn v) = some (List.ofFn (v + a • u)) := by
  rw [axpy?, if_pos (by simp), axpy, zipWith_ofFn]
  rfl

end Vec

namespace Matrix

/-- The rows of a matrix as lists. -/
def rowsOf {α : Type} {m n : ℕ} (X : Mat m n α) : List (List α) :=
  List.ofFn fun i => List.ofFn (X i)

/-- The stored form of a matrix. -/
def ofMat {α : Type} {m n : ℕ} (X : Mat m n α) : Matrix α := ofRowList n (rowsOf X)

section Storage

variable {α : Type} {m n : ℕ} {X : Mat m n α}

theorem length_rowsOf : (rowsOf X).length = m := List.length_ofFn

theorem getElem_rowsOf {i : ℕ} (hi : i < (rowsOf X).length) :
    (rowsOf X)[i] = List.ofFn (X ⟨i, by rwa [length_rowsOf] at hi⟩) := List.getElem_ofFn _

theorem hasRows_ofMat : (ofMat X).HasRows (rowsOf X) :=
  hasRows_ofRowList (List.forall_mem_ofFn_iff.mpr fun _ => List.length_ofFn)

@[simp] theorem ofMat_nrows : (ofMat X).nrows = m := length_rowsOf

@[simp] theorem ofMat_ncols : (ofMat X).ncols = n := rfl

theorem ofMat_allRows? (hfit : m * n < 2 ^ 64) : (ofMat X).allRows? = some (rowsOf X) :=
  hasRows_ofMat.allRows?_eq (by rw [ofMat_nrows]; exact hfit)

theorem ofMat_rows (hn : 0 < n) : (ofMat X).rows = rowsOf X := hasRows_ofMat.rows_eq hn

theorem ofMat_get? [Zero α] (hfit : m * n < 2 ^ 64) (i : Fin m) (j : Fin n) :
    (ofMat X).get? i j = some (X i j) := by
  have hi : i.val < (rowsOf X).length := by rw [length_rowsOf]; exact i.isLt
  have hj : j.val < (rowsOf X)[i.val].length := by
    rw [getElem_rowsOf, List.length_ofFn]
    exact j.isLt
  rw [hasRows_ofMat.get?_eq (by rw [ofMat_nrows]; exact hfit) (by rw [ofMat_nrows]; exact i.isLt)
    j.isLt, entryAt_eq_getElem hi hj]
  simp only [getElem_rowsOf, List.getElem_ofFn]

theorem HasRows.eq_ofMat [Zero α] {M : Matrix α} {rs : List (List α)} (h : M.HasRows rs)
    (hm : M.nrows = m) (hn : M.ncols = n) : M = ofMat (rowEntries m n rs) := by
  have hrows : rowsOf (rowEntries m n rs) = rs := by
    refine List.ext_getElem (by rw [length_rowsOf, h.count, hm]) fun i hi hi' => ?_
    rw [getElem_rowsOf]
    have hlen : rs[i].length = n := by rw [h.width _ (List.getElem_mem hi'), hn]
    refine List.ext_getElem (by rw [List.length_ofFn, hlen]) fun j hj hj' => ?_
    rw [List.getElem_ofFn]
    exact entryAt_eq_getElem hi' hj'
  rw [ofMat, hrows, ofRowList, h.count, ← hn, ← h.data]

theorem ofMat_entries [Zero α] : (ofMat X).entries m n = X := by
  rw [hasRows_ofMat.entries_eq ofMat_nrows ofMat_ncols]
  ext i j
  have hi : i.val < (rowsOf X).length := by rw [length_rowsOf]; exact i.isLt
  have hj : j.val < (rowsOf X)[i.val].length := by
    rw [getElem_rowsOf, List.length_ofFn]
    exact j.isLt
  rw [rowEntries, Matrix.of_apply, entryAt_eq_getElem hi hj]
  simp only [getElem_rowsOf, List.getElem_ofFn]

end Storage

variable {K : Type} [Field K] [LinearOrder K] [Exact K] {m n : ℕ} {X : Mat m n K}

theorem ofMat_product? (hn : 0 < n) (v : Fin n → K) :
    (ofMat X).product? (List.ofFn v) = some (List.ofFn (X *ᵥ v)) := by
  rw [product?, productInto?, if_pos (by simp), ofMat_rows hn, productRows?_eq]
  · rw [rowsOf, List.map_ofFn]
    congr 2
    funext i
    exact Vec.dot_ofFn _ _
  · exact List.forall_mem_ofFn_iff.mpr fun i => by simp
  · simp [length_rowsOf]

theorem foldlM_axpy?_ofFn {m : ℕ} (X : Fin m → Fin n → K) (w : Fin m → K) (s : Fin n → K) :
    (List.ofFn fun i => (List.ofFn (X i), w i)).foldlM (fun sum p => Vec.axpy? p.2 p.1 sum)
      (List.ofFn s) = some (List.ofFn (s + w ᵥ* Matrix.of X)) := by
  induction m generalizing s with
  | zero =>
    rw [List.ofFn_zero, List.foldlM_nil]
    congr 2
    funext j
    simp
  | succ m ih =>
    rw [List.ofFn_succ, List.foldlM_cons, Vec.axpy?_ofFn, Option.bind_eq_bind, Option.bind_some,
      ih fun i => X i.succ]
    congr 2
    funext j
    simp only [Pi.add_apply, Pi.smul_apply, smul_eq_mul, Matrix.vecMul, dotProduct,
      Fin.sum_univ_succ, Matrix.of_apply]
    ring

theorem ofMat_transposeProductInto? (hn : 0 < n) (w : Fin m → K) {y : List K} (hy : y.length = n) :
    (ofMat X).transposeProductInto? (List.ofFn w) y = some (List.ofFn (w ᵥ* X)) := by
  have hzero : (y.map fun _ => (0 : K)) = List.ofFn (0 : Fin n → K) := by
    rw [List.map_const', hy, Vec.replicate_zero_eq_ofFn]
  have hzip : (rowsOf X).zip (List.ofFn w) = List.ofFn fun i => (List.ofFn (X i), w i) :=
    Vec.zipWith_ofFn Prod.mk _ _
  have hfold := foldlM_axpy?_ofFn (fun i => X i) w 0
  rw [zero_add] at hfold
  rw [transposeProductInto?, if_pos (by simp [hy]), ofMat_rows hn, hzip, hzero]
  exact hfold

theorem ofMat_scaleColumns? (hfit : m * n < 2 ^ 64) (v : Fin n → K) :
    (ofMat X).scaleColumns? (List.ofFn v) = some (ofMat (X * Matrix.diagonal v)) := by
  have hrows : (rowsOf X).map (fun r => r.zipWith (· * ·) (List.ofFn v)) =
      rowsOf (X * Matrix.diagonal v) := by
    rw [rowsOf, List.map_ofFn, rowsOf]
    congr 1
    funext i
    rw [Function.comp_apply, Vec.zipWith_ofFn]
    congr 1
    funext j
    rw [Matrix.mul_diagonal]
  have hlen : (rowsOf (X * Matrix.diagonal v)).flatten.length = (ofMat X).data.length := by
    rw [hasRows_ofMat.length_data, ofMat_nrows, ofMat_ncols]
    have := (hasRows_ofMat (X := X * Matrix.diagonal v)).length_data
    rwa [ofMat_nrows, ofMat_ncols] at this
  rw [scaleColumns?, if_pos (by simp), ofMat_allRows? hfit, Option.bind_eq_bind, Option.bind_some]
  dsimp only
  rw [hrows, hlen, List.drop_length, List.append_nil]
  simp only [ofMat, ofRowList, length_rowsOf]

theorem ofMat_gram? (hfit : m * n < 2 ^ 64) (hsquare : m * m < 2 ^ 64) :
    (ofMat X).gram? = some (ofMat (X * Xᵀ)) := by
  rw [gram?, ofMat_nrows, room?_eq_of_lt hsquare, ofMat_allRows? hfit]
  refine congrArg (fun rs => some (ofRowList m rs)) ?_
  refine List.ext_getElem (by simp [length_rowsOf]) fun i hi hi' => ?_
  rw [List.getElem_map, getElem_rowsOf]
  refine List.ext_getElem (by simp [length_rowsOf]) fun j hj hj' => ?_
  have hprod : ∀ a b : Fin m, Vec.dot (List.ofFn (X a)) (List.ofFn (X b)) = (X * Xᵀ) a b :=
    fun a b => by rw [Vec.dot_ofFn, Matrix.mul_apply]; rfl
  simp only [List.getElem_map, List.getElem_zipIdx, getElem_rowsOf, List.getElem_ofFn, hprod]
  split
  · rfl
  · rw [← Matrix.transpose_apply (X * Xᵀ), Matrix.transpose_mul, Matrix.transpose_transpose]

theorem unitRow_eq_ofFn (i : Fin m) :
    unitRow m i = List.ofFn (Pi.single i (1 : K) : Fin m → K) := by
  refine List.ext_getElem (by simp [unitRow]) fun j hj hj' => ?_
  simp [unitRow, Pi.single_apply, Fin.ext_iff]

theorem ofMat_withIdentityBlock? (hadd : n + m < 2 ^ 64) (hmul : m * (n + m) < 2 ^ 64) :
    (ofMat X).withIdentityBlock? =
      some (ofMat (.of fun i => Fin.append (X i) (Pi.single i 1))) := by
  have hfit : m * n < 2 ^ 64 := lt_of_le_of_lt (Nat.mul_le_mul_left m (Nat.le_add_right n m)) hmul
  rw [withIdentityBlock?, ofMat_nrows, ofMat_ncols, Size.add?_eq hadd, Option.bind_eq_bind,
    Option.bind_some, room?_eq_of_lt hmul, ofMat_allRows? hfit]
  refine congrArg (fun rs => some (ofRowList (n + m) rs)) ?_
  refine List.ext_getElem (by simp [length_rowsOf]) fun i hi hi' => ?_
  rw [List.getElem_map, List.getElem_zipIdx, getElem_rowsOf, getElem_rowsOf, Nat.zero_add]
  rw [length_rowsOf] at hi'
  have hunit := unitRow_eq_ofFn (K := K) ⟨i, hi'⟩
  dsimp only at hunit ⊢
  rw [hunit, ← List.ofFn_fin_append]
  rfl

end Matrix

namespace Problem

variable {K : Type} [Field K] [LinearOrder K] [Exact K] {p : Problem K}

theorem constraints_eq_ofMat (hv : p.validate = .ok ()) :
    p.constraints = Matrix.ofMat p.coeffs := by
  rw [coeffs, (hasRows hv).entries_eq (nrows_eq hv) (ncols_eq hv)]
  exact (hasRows hv).eq_ofMat (nrows_eq hv) (ncols_eq hv)

end Problem

end LinProg
