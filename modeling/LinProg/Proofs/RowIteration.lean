import LinProg.Precheck
import LinProg.Proofs.Rounded.Numbers
import LinProg.Proofs.Rows

/-!
# Rows by index and rows in turn

The rows of a matrix are read by their index, or cut off its entries one after another. Both give
the same rows (`Matrix.rows_eq_row?`), and all that is computed row after row, the product with a
vector and the test for positive coefficients, is computed of these rows.

There is one exception. A matrix without columns has an empty row at each index, but no entries to
cut rows off: in turn it has no rows at all (`Matrix.Consistent.rows_eq_nil`). Then a product leaves
what was in its place (`Matrix.Consistent.productInto?_eq_self`), and the test has nothing to
complain about (`Precheck.checkRows_of_no_columns`).
-/

namespace LinProg

variable {α : Type}

namespace Matrix

variable {M : Matrix α}

section Access

variable (h : M.Consistent) (hfit : M.nrows * M.ncols < 2 ^ 64)
include h

theorem rows_eq_pieces (hcols : 0 < M.ncols) : M.rows = pieces M.ncols M.nrows M.data :=
  h.hasRows.rows_eq hcols

include hfit

theorem rows_eq_row? (hcols : 0 < M.ncols) {i : ℕ} (hi : i < M.nrows) : M.rows[i]? = M.row? i := by
  rw [rows_eq_pieces h hcols, h.hasRows.row?_eq hfit hi]

theorem exists_row? {i : ℕ} (hi : i < M.nrows) : ∃ r, M.row? i = some r ∧ r.length = M.ncols := by
  have hlen : i < (pieces M.ncols M.nrows M.data).length := by
    rw [length_pieces]
    exact hi
  refine ⟨(pieces M.ncols M.nrows M.data)[i], ?_, length_of_mem_pieces h _ (List.getElem_mem hlen)⟩
  rw [h.hasRows.row?_eq hfit hi, List.getElem?_eq_getElem hlen]

end Access

theorem length_rows (h : M.Consistent) (hcols : 0 < M.ncols) : M.rows.length = M.nrows := by
  rw [rows_eq_pieces h hcols, length_pieces]

theorem productInto?_eq_map [Scalar α] (h : M.Consistent) (hcols : 0 < M.ncols) {x y : List α}
    (hx : x.length = M.ncols) (hy : y.length = M.nrows) :
    M.productInto? x y = some (M.rows.map fun r => Vec.dot r x) := by
  rw [productInto?, if_pos ⟨hx, hy⟩, productRows?_eq]
  · intro r hr
    rw [rows_eq_pieces h hcols] at hr
    rw [length_of_mem_pieces h r hr, hx]
  · rw [length_rows h hcols, hy]

/-- Row `i` has no entry above zero. -/
def RowNonpos [Scalar α] (M : Matrix α) (i : ℕ) : Prop := ∃ r, M.row? i = some r ∧ ∀ v ∈ r, v ≤ 0

end Matrix

namespace Precheck

variable [Scalar α] {M : Matrix α} (h : M.Consistent)
include h

theorem checkRows_of_no_columns (hcols : M.ncols = 0) : checkRows M = .ok () := by
  rw [checkRows, h.rows_eq_nil hcols]
  rfl

variable (hfit : M.nrows * M.ncols < 2 ^ 64) (hcols : 0 < M.ncols)
include hfit hcols

theorem rowNonpos_iff {k : ℕ} (hk : k < M.rows.length) :
    M.RowNonpos k ↔ (M.rows[k].all fun v => decide (v ≤ 0)) = true := by
  have hlt : k < M.nrows := by rwa [Matrix.length_rows h hcols] at hk
  rw [Matrix.RowNonpos, ← Matrix.rows_eq_row? h hfit hcols hlt, List.getElem?_eq_getElem hk,
    List.all_eq_true]
  simp only [Option.some.injEq, exists_eq_left', decide_eq_true_eq]

theorem checkRows_eq_error_iff {i : ℕ} : checkRows M = .error (.noSolution i) ↔
    i < M.nrows ∧ M.RowNonpos i ∧ ∀ k < i, ¬M.RowNonpos k := by
  have hlen := Matrix.length_rows h hcols
  constructor
  · intro herror
    unfold checkRows at herror
    split at herror
    · rename_i row hfound
      obtain rfl : row = i := by
        injection herror with herror
        injection herror
      obtain ⟨hlt, hall, hbefore⟩ := List.findIdx?_eq_some_iff_getElem.mp hfound
      refine ⟨hlen ▸ hlt, (rowNonpos_iff h hfit hcols hlt).mpr hall, fun k hk hflag => ?_⟩
      exact hbefore k hk ((rowNonpos_iff h hfit hcols (hk.trans hlt)).mp hflag)
    · cases herror
  · rintro ⟨hlt, hflag, hbefore⟩
    rw [← hlen] at hlt
    have hfound : M.rows.findIdx? (fun r => r.all fun v => decide (v ≤ 0)) = some i := by
      refine List.findIdx?_eq_some_iff_getElem.mpr
        ⟨hlt, (rowNonpos_iff h hfit hcols hlt).mp hflag, fun k hk hall => ?_⟩
      exact hbefore k hk ((rowNonpos_iff h hfit hcols (hk.trans hlt)).mpr hall)
    rw [checkRows, hfound]

theorem checkRows_eq_ok_iff : checkRows M = .ok () ↔ ∀ k < M.nrows, ¬M.RowNonpos k := by
  have hlen := Matrix.length_rows h hcols
  constructor
  · intro hok k hk hflag
    rw [← hlen] at hk
    unfold checkRows at hok
    split at hok
    · cases hok
    · rename_i hnone
      have hall := (rowNonpos_iff h hfit hcols hk).mp hflag
      rw [List.findIdx?_eq_none_iff] at hnone
      rw [hnone _ (List.getElem_mem hk)] at hall
      cases hall
  · intro hrows
    have hnone : M.rows.findIdx? (fun r => r.all fun v => decide (v ≤ 0)) = none := by
      refine List.findIdx?_eq_none_iff.mpr fun r hr => ?_
      obtain ⟨k, hk, rfl⟩ := List.getElem_of_mem hr
      rw [← Bool.not_eq_true, ← rowNonpos_iff h hfit hcols hk]
      exact hrows k (hlen ▸ hk)
    rw [checkRows, hnone]

end Precheck

theorem Matrix.rowNonpos_iff_of_numbers [Scalar α] [OrderedNumbers α] {M : Matrix α}
    (hdata : ∀ v ∈ M.data, Scalar.isNaN v = false) {i : ℕ} :
    M.RowNonpos i ↔ ∃ r, M.row? i = some r ∧ ¬∃ v ∈ r, 0 < v := by
  refine exists_congr fun r => and_congr_right fun hr => ?_
  -- a row is cut out of the entries, so its entries are numbers as well
  have hmem : ∀ v ∈ r, v ∈ M.data := by
    intro v hv
    obtain ⟨start, -, hstart⟩ := Option.bind_eq_some_iff.mp hr
    rw [← Option.some.inj hstart] at hv
    exact List.mem_of_mem_drop (List.mem_of_mem_take hv)
  push Not
  refine forall₂_congr fun v hv => ?_
  exact (OrderedNumbers.not_lt_iff OrderedNumbers.isNaN_zero (hdata v (hmem v hv))).symm

/-- **Rows by index and rows in turn.** For a matrix in any arithmetic that has as many entries as
its sizes say, and no more than a word can count:

* by index there are as many rows as the matrix says, each as wide as it says;
* with columns these are the rows in turn. A product with a vector has the product of each of them,
  whatever was in its place, and the test of the rows names the first of them without an entry above
  zero;
* without columns the rows by index are empty, and in turn there are none. A product leaves what was
  in its place, and the test names no row, although none has an entry above zero;
* of entries that are numbers, to be at most zero is not to be positive. -/
theorem rows_in_turn [Scalar α] {M : Matrix α} (h : M.Consistent)
    (hfit : M.nrows * M.ncols < 2 ^ 64) :
    (∀ i < M.nrows, ∃ r, M.row? i = some r ∧ r.length = M.ncols) ∧
    (0 < M.ncols →
      (M.rows.length = M.nrows ∧ ∀ i < M.nrows, M.rows[i]? = M.row? i) ∧
      (∀ x y : List α, x.length = M.ncols → y.length = M.nrows → ∃ v,
        M.productInto? x y = some v ∧ v.length = M.nrows ∧
        ∀ i < M.nrows, v[i]? = (M.row? i).map fun r => Vec.dot r x) ∧
      (∀ i, Precheck.checkRows M = .error (.noSolution i) ↔
        i < M.nrows ∧ M.RowNonpos i ∧ ∀ k < i, ¬M.RowNonpos k) ∧
      (Precheck.checkRows M = .ok () ↔ ∀ k < M.nrows, ¬M.RowNonpos k)) ∧
    (M.ncols = 0 →
      (M.rows = [] ∧ ∀ i < M.nrows, M.row? i = some [] ∧ M.RowNonpos i) ∧
      (∀ x y : List α, x.length = M.ncols → y.length = M.nrows →
        M.productInto? x y = some y) ∧
      Precheck.checkRows M = .ok ()) ∧
    ∀ [OrderedNumbers α], (∀ v ∈ M.data, Scalar.isNaN v = false) →
      ∀ i, M.RowNonpos i ↔ ∃ r, M.row? i = some r ∧ ¬∃ v ∈ r, 0 < v := by
  refine ⟨fun i hi => Matrix.exists_row? h hfit hi,
    fun hcols => ⟨⟨Matrix.length_rows h hcols, fun i hi => Matrix.rows_eq_row? h hfit hcols hi⟩,
      fun x y hx hy => ?_, fun i => Precheck.checkRows_eq_error_iff h hfit hcols,
      Precheck.checkRows_eq_ok_iff h hfit hcols⟩,
    fun hcols => ⟨⟨h.rows_eq_nil hcols, fun i hi => ?_⟩,
      fun x y hx hy => h.productInto?_eq_self hcols hx hy,
      Precheck.checkRows_of_no_columns h hcols⟩,
    fun hdata i => Matrix.rowNonpos_iff_of_numbers hdata⟩
  · refine ⟨_, Matrix.productInto?_eq_map h hcols hx hy, ?_, fun i hi => ?_⟩
    · rw [List.length_map, Matrix.length_rows h hcols]
    · rw [List.getElem?_map, Matrix.rows_eq_row? h hfit hcols hi]
  · obtain ⟨r, hr, hlen⟩ := Matrix.exists_row? h hfit hi
    obtain rfl : r = [] := List.length_eq_zero_iff.mp (hlen.trans hcols)
    exact ⟨hr, [], hr, nofun⟩

/-- The second row of `(1 2; -3 -1)` is the first that the test names. -/
theorem mixedSigns_rows :
    (⟨2, 2, [1, 2, -3, -1]⟩ : Matrix ℚ).rows.length = 2 ∧
    Precheck.checkRows (⟨2, 2, [1, 2, -3, -1]⟩ : Matrix ℚ) = .error (.noSolution 1) := by
  obtain ⟨-, hcolumns, -⟩ := rows_in_turn (M := (⟨2, 2, [1, 2, -3, -1]⟩ : Matrix ℚ)) rfl
    (by decide)
  obtain ⟨⟨hlen, -⟩, -, hnames, -⟩ := hcolumns (by decide)
  refine ⟨hlen, (hnames 1).mpr ⟨by decide, ⟨[-3, -1], rfl, by decide⟩, fun k hk => ?_⟩⟩
  obtain rfl := Nat.lt_one_iff.mp hk
  rintro ⟨r, hr, hall⟩
  obtain rfl : [1, 2] = r := Option.some.inj hr
  exact absurd (hall 1 (by decide)) (by decide)

/-- **Empty rows are passed over.** Two rows without columns are there by index, but not in turn:
the product with the empty vector stays what it was, although each row gives zero, and the test of
the rows passes. -/
theorem emptyRows_passed_over :
    (⟨2, 0, []⟩ : Matrix Float).Consistent ∧
    (⟨2, 0, []⟩ : Matrix Float).row? 0 = some [] ∧ (⟨2, 0, []⟩ : Matrix Float).row? 1 = some [] ∧
    (⟨2, 0, []⟩ : Matrix Float).rows = [] ∧
    (⟨2, 0, []⟩ : Matrix Float).productInto? [] [7, 7] = some [7, 7] ∧
    Vec.dot? [] [] = some (0 : Float) ∧ [(7 : Float), 7] ≠ [0, 0] ∧
    Precheck.checkRows (⟨2, 0, []⟩ : Matrix Float) = .ok () := by
  refine ⟨rfl, rfl, rfl, rfl, rfl, rfl, ?_, rfl⟩
  decide

end LinProg
