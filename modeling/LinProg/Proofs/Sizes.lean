import LinProg.Proofs.Ldl.Columns
import LinProg.Proofs.Rows

/-!
# Sizes of stored matrices

An operation on a matrix and vectors has a result where their sizes fit together, and the sizes of
the result follow from theirs. Nothing here depends on the arithmetic, so it holds of entries that
are not numbers as well.

* `Matrix.HasRows.exists_product?`, `Matrix.HasRows.exists_transposeProductInto?`: vectors.
* `Matrix.HasRows.exists_scaleColumns?`, `Matrix.HasRows.exists_withIdentityBlock?`,
  `Matrix.HasRows.exists_gram?`: matrices.
* `LdlSolver.factor?_outcomes`: a matrix of the size that has been set is factored or singular, and
  its factors solve for vectors of that size.
-/

namespace LinProg

variable {α : Type} [Scalar α]

theorem Vec.length_axpy {a : α} {x y : List α} (h : x.length = y.length) :
    (axpy a x y).length = y.length := by
  rw [axpy, List.length_zipWith, h, Nat.min_self]

namespace Matrix

omit [Scalar α] in
theorem hasRows_sizes {w : ℕ} {rs : List (List α)} (h : ∀ r ∈ rs, r.length = w) :
    (ofRowList w rs).HasRows rs ∧ (ofRowList w rs).nrows = rs.length ∧
      (ofRowList w rs).ncols = w :=
  ⟨hasRows_ofRowList h, rfl, rfl⟩

theorem length_unitRow (n i : ℕ) : (unitRow n i : List α).length = n := by
  rw [unitRow, List.length_map, List.length_range]

theorem exists_productRows? {x : List α} {rs : List (List α)} (h : ∀ r ∈ rs, r.length = x.length)
    (y : List α) : ∃ v, productRows? x rs y = some v ∧ v.length = y.length := by
  induction rs generalizing y with
  | nil => exact ⟨y, rfl, rfl⟩
  | cons r rs ih =>
    obtain ⟨hr, hrs⟩ := List.forall_mem_cons.mp h
    cases y with
    | nil => exact ⟨[], rfl, rfl⟩
    | cons b y =>
      obtain ⟨v, hv, hlen⟩ := ih hrs y
      refine ⟨Vec.dot r x :: v, ?_, ?_⟩
      · rw [productRows?, Vec.dot?, if_pos hr, hv]
        rfl
      · rw [List.length_cons, List.length_cons, hlen]

theorem exists_foldlM_axpy? {w : ℕ} {l : List (List α × α)} (h : ∀ e ∈ l, e.1.length = w)
    {sum : List α} (hsum : sum.length = w) :
    ∃ v, l.foldlM (fun sum e => Vec.axpy? e.2 e.1 sum) sum = some v ∧ v.length = w := by
  induction l generalizing sum with
  | nil => exact ⟨sum, rfl, hsum⟩
  | cons e l ih =>
    obtain ⟨he, hl⟩ := List.forall_mem_cons.mp h
    have hlen : e.1.length = sum.length := he.trans hsum.symm
    obtain ⟨v, hv, hvlen⟩ := ih hl ((Vec.length_axpy (a := e.2) hlen).trans hsum)
    refine ⟨v, ?_, hvlen⟩
    rw [List.foldlM_cons, Vec.axpy?, if_pos hlen]
    exact hv

namespace HasRows

variable {M : Matrix α} {rs : List (List α)} (h : M.HasRows rs)
include h

theorem exists_productInto? (hw : 0 < M.ncols) {x y : List α} (hx : x.length = M.ncols)
    (hy : y.length = M.nrows) : ∃ v, M.productInto? x y = some v ∧ v.length = M.nrows := by
  have hrows : ∀ r ∈ rs, r.length = x.length := by
    intro r hr
    rw [h.width r hr, hx]
  obtain ⟨v, hv, hlen⟩ := exists_productRows? hrows y
  refine ⟨v, ?_, hlen.trans hy⟩
  rw [productInto?, if_pos ⟨hx, hy⟩, h.rows_eq hw, hv]

theorem exists_product? (hw : 0 < M.ncols) {x : List α} (hx : x.length = M.ncols) :
    ∃ v, M.product? x = some v ∧ v.length = M.nrows :=
  h.exists_productInto? hw hx List.length_replicate

theorem exists_transposeProductInto? (hw : 0 < M.ncols) {x y : List α} (hx : x.length = M.nrows)
    (hy : y.length = M.ncols) :
    ∃ v, M.transposeProductInto? x y = some v ∧ v.length = M.ncols := by
  rw [transposeProductInto?, if_pos ⟨hx, hy⟩, h.rows_eq hw]
  apply exists_foldlM_axpy?
  · intro e he
    exact h.width e.1 (List.of_mem_zip he).1
  · rw [List.length_map, hy]

theorem exists_scaleColumns? (hfit : M.nrows * M.ncols < 2 ^ 64) {x : List α}
    (hx : x.length = M.ncols) : ∃ M' rs', M.scaleColumns? x = some M' ∧ M'.HasRows rs' ∧
      M'.nrows = M.nrows ∧ M'.ncols = M.ncols := by
  have hwidth : ∀ r ∈ rs.map (List.zipWith (· * ·) · x), r.length = M.ncols := by
    intro r hr
    obtain ⟨s, hs, rfl⟩ := List.mem_map.mp hr
    rw [List.length_zipWith, h.width s hs, hx, Nat.min_self]
  obtain ⟨hrows, hcount, -⟩ := hasRows_sizes hwidth
  rw [List.length_map, h.count] at hcount
  -- all entries are scaled, so none are left over
  have hlen : (rs.map (List.zipWith (· * ·) · x)).flatten.length = M.data.length := by
    have hdata := hrows.length_data
    rw [hcount] at hdata
    exact hdata.trans h.length_data.symm
  refine ⟨_, _, ?_, hrows, hcount, rfl⟩
  rw [scaleColumns?, if_pos hx, h.allRows?_eq hfit, Option.bind_eq_bind, Option.bind_some]
  dsimp only
  rw [List.drop_of_length_le hlen.ge, List.append_nil, ofRowList, List.length_map, h.count]

theorem exists_withIdentityBlock? (hroom : Room α M.nrows (M.ncols + M.nrows))
    (hwidth : M.ncols + M.nrows < 2 ^ 64) : ∃ M' rs', M.withIdentityBlock? = some M' ∧
      M'.HasRows rs' ∧ M'.nrows = M.nrows ∧ M'.ncols = M.ncols + M.nrows := by
  have hdata : M.nrows * M.ncols < 2 ^ 64 :=
    (Nat.mul_le_mul_left _ (Nat.le_add_right _ _)).trans_lt hroom.1
  have hlen : ∀ r ∈ rs.zipIdx.map fun e => e.1 ++ unitRow M.nrows e.2,
      r.length = M.ncols + M.nrows := by
    intro r hr
    obtain ⟨e, he, rfl⟩ := List.mem_map.mp hr
    rw [List.length_append, length_unitRow, h.width e.1 (List.fst_mem_of_mem_zipIdx he)]
  obtain ⟨hrows, hcount, -⟩ := hasRows_sizes hlen
  rw [List.length_map, List.length_zipIdx, h.count] at hcount
  refine ⟨_, _, ?_, hrows, hcount, rfl⟩
  rw [withIdentityBlock?, Size.add?_eq hwidth, Option.bind_eq_bind, Option.bind_some,
    room?_eq hroom, Option.bind_some, h.allRows?_eq hdata]
  rfl

theorem exists_gram? (hfit : M.nrows * M.ncols < 2 ^ 64) (hsquare : Room α M.nrows M.nrows) :
    ∃ G rs', M.gram? = some G ∧ G.HasRows rs' ∧ G.nrows = M.nrows ∧ G.ncols = M.nrows := by
  have hwidth : ∀ entry : List α × ℕ → List α × ℕ → α,
      ∀ r ∈ rs.zipIdx.map fun r => rs.zipIdx.map (entry r), r.length = M.nrows := by
    intro entry r hr
    obtain ⟨e, -, rfl⟩ := List.mem_map.mp hr
    rw [List.length_map, List.length_zipIdx, h.count]
  obtain ⟨hrows, hcount, -⟩ := hasRows_sizes (hwidth _)
  rw [List.length_map, List.length_zipIdx, h.count] at hcount
  refine ⟨_, _, ?_, hrows, hcount, rfl⟩
  rw [gram?, room?_eq hsquare, Option.bind_eq_bind, Option.bind_some, h.allRows?_eq hfit]
  rfl

end HasRows

end Matrix

namespace Ldl.Factors

theorem length_forward {rs : List (List α)} {b : List α} (h : b.length = rs.length)
    (solved : List α) : (forward solved rs b).length = solved.length + b.length := by
  induction rs generalizing b solved with
  | nil =>
    obtain rfl := List.length_eq_zero_iff.mp h
    rfl
  | cons r rs ih =>
    obtain ⟨c, b, rfl⟩ := List.exists_cons_of_length_eq_add_one h
    rw [List.length_cons, List.length_cons, Nat.add_right_cancel_iff] at h
    rw [forward, ih h, List.length_append, List.length_singleton, List.length_cons]
    omega

theorem length_backward (F : Factors α) (z : List α) {i : ℕ} (h : i ≤ z.length)
    (solved : List α) : (backward F z i solved).length = i + solved.length := by
  induction i generalizing solved with
  | zero =>
    rw [Nat.zero_add]
    rfl
  | succ i ih =>
    have hlt : i < z.length := h
    rw [backward, List.getElem?_eq_getElem hlt]
    dsimp only
    rw [ih hlt.le, List.length_cons]
    omega

theorem length_solve {F : Factors α} {n : ℕ} (hlower : F.lower.length = n)
    (hdiagonal : F.diagonal.length = n) {b : List α} (hb : b.length = n) :
    (F.solve b).length = n := by
  have hforward := length_forward (hb.trans hlower.symm) []
  have hz : (List.zipWith (· / ·) (forward [] F.lower b) F.diagonal).length = n := by
    rw [List.length_zipWith, hforward, hdiagonal, List.length_nil, hb]
    omega
  rw [solve, length_backward F _ le_rfl, hz, List.length_nil, Nat.add_zero]

end Ldl.Factors

namespace LdlSolver

variable {s : LdlSolver α} {M : Matrix α} {rs : List (List α)} {n : ℕ}

/-- The factors solve for vectors of size `n`. -/
def SolvesSize (s : LdlSolver α) (n : ℕ) : Prop :=
  ∀ b : List α, b.length = n → ∃ v, s.solve b = .ok v ∧ v.length = n

theorem factor?_outcomes (hs : s.dimension? = some n) (hM : M.HasRows rs) (hrows : M.nrows = n)
    (hcols : M.ncols = n) (hfit : n * n < 2 ^ 64) :
    (∃ e s', s.factor? M = some (.error e, s')) ∨
      ∃ s', s.factor? M = some (.ok (), s') ∧ s'.SolvesSize n := by
  have hget : ∀ i < n, ∀ k < n, M.get? i k = some (entryAt rs i k) := by
    intro i hi k hk
    exact hM.get?_eq (by rw [hrows, hcols]; exact hfit) (hrows ▸ hi) (hcols ▸ hk)
  have hsize : s.ensureAnalysed? M.nrows = some (s, n) := by
    rw [ensureAnalysed?, hs]
  rw [factor?, if_neg (by rw [hrows, hcols]; exact not_not.mpr rfl), hsize, Option.bind_eq_bind,
    Option.bind_some]
  dsimp only
  rw [if_neg (not_not.mpr hrows)]
  rcases Ldl.Stage.factor_cases s.tolerance hrows hget with
    ⟨R, d, hstage, -, hfactor⟩ | ⟨i, R, d, -, -, -, -, hfactor⟩
  · right
    let F : Ldl.Factors α := ⟨(List.range n).map R, d⟩
    have hlower : F.lower.length = n := by rw [List.length_map, List.length_range]
    rw [hfactor]
    refine ⟨_, rfl, fun b hb => ⟨F.solve b, ?_, ?_⟩⟩
    · exact if_neg (not_not.mpr hb)
    · exact Ldl.Factors.length_solve hlower hstage.length_diagonal hb
  · left
    rw [hfactor]
    exact ⟨_, _, rfl⟩

end LdlSolver

end LinProg
