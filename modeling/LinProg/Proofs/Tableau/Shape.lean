import LinProg.Proofs.Rows
import LinProg.Tableau

/-!
# The shape of a tableau

`Tableau.Shaped T n m` says that the rows, the objective row and the basis of `T` are as long as
`n` variables and `m` constraints ask for, and that every entry has an address in a machine word.
Access by index then always gives an entry, `Tableau.entry`, and elimination is described entry by
entry. Nothing here depends on the arithmetic.

* `Tableau.Shaped.get?_eq`: access gives the entry.
* `Tableau.Shaped.pivot?_eq_some`: elimination on an entry of the tableau succeeds.
* `Tableau.Shaped.pivoted`: what it does (`Tableau.Pivoted`).
-/

namespace LinProg.Tableau

variable {α : Type}

/-- All rows, the objective row last. -/
def rows (T : Tableau α) : List (List α) := T.body ++ [T.objectiveRow]

/-- An entry of the tableau, zero outside of it. -/
def entry [Zero α] (T : Tableau α) (i j : ℕ) : α := entryAt T.rows i j

/-- The lists that make up a tableau have the lengths that `n` variables and `m` constraints ask
for. -/
structure Shaped (T : Tableau α) (n m : ℕ) : Prop where
  /-- The number of variables. -/
  nvars : T.nvars = n
  /-- There is a row for each constraint. -/
  body : T.body.length = m
  /-- Each row has an entry for each variable and each slack, and a right-hand side. -/
  rowLength : ∀ r ∈ T.body, r.length = n + m + 1
  /-- The objective row is as wide. -/
  objectiveRow : T.objectiveRow.length = n + m + 1
  /-- Each row has a basic column. -/
  basis : T.basis.length = m
  /-- Every entry has an address. -/
  fits : (m + 1) * (n + m + 1) < 2 ^ 64

theorem length_eliminate [Scalar α] {pivotRow r : List α} (h : pivotRow.length = r.length)
    (column : ℕ) : (eliminate pivotRow column r).length = r.length := by
  unfold eliminate
  split
  · split
    · rfl
    · rw [List.length_set, List.length_zipWith, h, Nat.min_self]
  · rfl

theorem getD_eliminate [Scalar α] {pivotRow r : List α} (h : pivotRow.length = r.length)
    {column j : ℕ} (hc : column < r.length) (hj : j < r.length) :
    (eliminate pivotRow column r).getD j 0 =
      if r.getD column 0 == 0 then r.getD j 0
      else if j = column then 0 else r.getD j 0 - r.getD column 0 * pivotRow.getD j 0 := by
  rw [eliminate, List.getElem?_eq_getElem hc, List.getD_eq_getElem (n := column) _ _ hc]
  dsimp only
  split
  · rfl
  · have hjp : j < pivotRow.length := by omega
    rw [List.getD_eq_getElem?_getD, List.getElem?_set]
    split
    · rename_i hcj
      rw [if_pos hcj.symm, if_pos (by simp; omega)]
      rfl
    · rename_i hcj
      rw [if_neg (Ne.symm hcj), List.getElem?_zipWith, List.getElem?_eq_getElem hj,
        List.getElem?_eq_getElem hjp, List.getD_eq_getElem?_getD, List.getD_eq_getElem?_getD,
        List.getElem?_eq_getElem hj, List.getElem?_eq_getElem hjp]
      rfl

/-- What elimination on the entry of a row and a column makes of a tableau. -/
structure Pivoted [Scalar α] (T T' : Tableau α) (n m row column : ℕ) : Prop where
  /-- The shape is kept. -/
  shaped : T'.Shaped n m
  /-- The column becomes basic in the row. -/
  basis : T'.basis = T.basis.set row column
  /-- The row is divided by the entry. -/
  pivotRow : ∀ j ≤ n + m,
    T'.entry row j = if j = column then 1 else T.entry row j / T.entry row column
  /-- Every other row, the objective row included, loses its multiple of the new row. -/
  others : ∀ i ≤ m, i ≠ row → ∀ j ≤ n + m,
    T'.entry i j = if T.entry i column == 0 then T.entry i j
      else if j = column then 0 else T.entry i j - T.entry i column * T'.entry row j

namespace Shaped

section Access

variable {T : Tableau α} {n m : ℕ}

theorem ncons_eq (h : T.Shaped n m) : T.ncons = m := h.body

theorem width_eq (h : T.Shaped n m) : T.width = n + m + 1 := by
  rw [Tableau.width, h.nvars, h.ncons_eq]

theorem length_rows (h : T.Shaped n m) : T.rows.length = m + 1 := by
  rw [rows, List.length_append, h.body, List.length_singleton]

theorem width_rows (h : T.Shaped n m) : ∀ r ∈ T.rows, r.length = n + m + 1 := by
  intro r hr
  rcases List.mem_append.mp hr with hr | hr
  · exact h.rowLength r hr
  · rw [List.mem_singleton.mp hr]
    exact h.objectiveRow

theorem hasRows (h : T.Shaped n m) : T.matrix.HasRows T.rows where
  count := by rw [h.length_rows, matrix, h.ncons_eq]
  width := by
    intro r hr
    rw [h.width_rows r hr, matrix, h.width_eq]
  data := by rw [matrix, rows, List.flatten_append, List.flatten_singleton]

theorem length_row (h : T.Shaped n m) {i : ℕ} (hi : i ≤ m) :
    (T.rows.getD i []).length = n + m + 1 := by
  have hi' : i < T.rows.length := by rw [h.length_rows]; omega
  rw [List.getD_eq_getElem _ _ hi']
  exact h.width_rows _ (List.getElem_mem hi')

theorem row_of_lt (h : T.Shaped n m) {i : ℕ} (hi : i < m) :
    T.body[i]? = some (T.rows.getD i []) := by
  have hi' : i < T.body.length := by rw [h.body]; exact hi
  rw [List.getElem?_eq_getElem hi', List.getD_eq_getElem?_getD, rows,
    List.getElem?_append_left hi', List.getElem?_eq_getElem hi', Option.getD_some]

theorem row_last (h : T.Shaped n m) : T.rows.getD m [] = T.objectiveRow := by
  rw [List.getD_eq_getElem?_getD, rows, List.getElem?_append_right h.body.le, h.body, Nat.sub_self]
  rfl

theorem get?_eq [Zero α] (h : T.Shaped n m) {i j : ℕ} (hi : i ≤ m) (hj : j ≤ n + m) :
    T.get? i j = some (T.entry i j) := by
  have hrows : T.matrix.nrows = m + 1 := by rw [matrix, h.ncons_eq]
  have hcols : T.matrix.ncols = n + m + 1 := by rw [matrix, h.width_eq]
  exact h.hasRows.get?_eq (by rw [hrows, hcols]; exact h.fits) (by omega) (by omega)

theorem entry_mem_data [Zero α] (h : T.Shaped n m) {i j : ℕ} (hi : i ≤ m) (hj : j ≤ n + m) :
    T.entry i j ∈ T.matrix.data := by
  have hget := h.get?_eq hi hj
  rw [get?, Matrix.get?, Option.bind_eq_bind, Option.bind_eq_some_iff] at hget
  obtain ⟨k, -, hk⟩ := hget
  exact List.mem_of_getElem? hk

theorem rhs?_eq [Zero α] (h : T.Shaped n m) {i : ℕ} (hi : i ≤ m) :
    T.rhs? i = some (T.entry i (n + m)) := by
  rw [rhs?, ncons, h.nvars, h.body, h.get?_eq hi le_rfl]

theorem objective_eq [Scalar α] (h : T.Shaped n m) : T.objective = T.entry m (n + m) := by
  rw [objective, entry, entryAt, h.row_last, List.getLastD_eq_getLast?, List.getLast?_eq_getElem?,
    h.objectiveRow, Nat.add_sub_cancel, List.getD_eq_getElem?_getD]

theorem length_reducedCosts [Scalar α] (h : T.Shaped n m) : T.reducedCosts.length = n + m := by
  rw [reducedCosts, ncons, h.nvars, h.body, List.length_take, h.objectiveRow]
  omega

theorem getElem?_reducedCosts [Scalar α] (h : T.Shaped n m) {j : ℕ} (hj : j < n + m) :
    T.reducedCosts[j]? = some (T.entry m j) := by
  have hj' : j < T.objectiveRow.length := by rw [h.objectiveRow]; omega
  rw [reducedCosts, ncons, h.nvars, h.body, List.getElem?_take_of_lt hj, entry, entryAt, h.row_last,
    List.getD_eq_getElem?_getD, List.getElem?_eq_getElem hj', Option.getD_some]

end Access

section Pivot

variable [Scalar α] {T T' : Tableau α} {n m row column : ℕ}

/-- The pivot row after it has been divided. -/
def scaledRow (r : List α) (column : ℕ) : List α := (r.map (· / r.getD column 0)).set column 1

theorem getD_scaledRow {r : List α} {j : ℕ} (hj : j < r.length) :
    (scaledRow r column).getD j 0 = if j = column then 1 else r.getD j 0 / r.getD column 0 := by
  rw [scaledRow, List.getD_eq_getElem?_getD, List.getElem?_set]
  split
  · rename_i hcj
    rw [if_pos hcj.symm, if_pos (by rw [List.length_map]; omega)]
    rfl
  · rename_i hcj
    rw [if_neg (Ne.symm hcj), List.getElem?_map, List.getD_eq_getElem?_getD (i := j),
      List.getElem?_eq_getElem hj]
    rfl

/-- The tableau after elimination on the entry of a row and a column. -/
def eliminated (T : Tableau α) (row column : ℕ) : Tableau α :=
  let pivotRow := scaledRow (T.rows.getD row []) column
  { T with
    body := T.body.zipIdx.map fun (s, i) =>
      if i = row then pivotRow else eliminate pivotRow column s
    objectiveRow := eliminate pivotRow column T.objectiveRow
    basis := T.basis.set row column }

theorem pivot?_eq_some (h : T.Shaped n m) (hr : row < m) (hc : column ≤ n + m) :
    T.pivot? row column = some (eliminated T row column) := by
  have hcol : column < (T.rows.getD row []).length := by rw [h.length_row hr.le]; omega
  have hcol' : (T.rows.getD row [])[column]? = some ((T.rows.getD row []).getD column 0) := by
    rw [List.getElem?_eq_getElem hcol, List.getD_eq_getElem (n := column) _ _ hcol]
  rw [pivot?, if_neg (by rw [h.width_eq]; omega), h.row_of_lt hr,
    Option.bind_eq_bind, Option.bind_some, hcol', Option.bind_eq_bind, Option.bind_some]
  rfl

theorem row_eliminated (h : T.Shaped n m) {i : ℕ} (hi : i ≤ m) (hr : row < m) :
    (eliminated T row column).rows.getD i [] =
      if i = row then scaledRow (T.rows.getD row []) column
      else eliminate (scaledRow (T.rows.getD row []) column) column (T.rows.getD i []) := by
  rw [rows, List.getD_eq_getElem?_getD]
  rcases Nat.lt_or_eq_of_le hi with hlt | rfl
  · rw [List.getElem?_append_left (by simp [eliminated, h.body, hlt]), eliminated,
      List.getElem?_map, List.getElem?_zipIdx, h.row_of_lt hlt]
    simp
  · rw [List.getElem?_append_right (by simp [eliminated, h.body]), if_neg (by omega), h.row_last]
    simp [eliminated, h.body]

theorem pivoted (h : T.Shaped n m) (hr : row < m) (hc : column ≤ n + m)
    (hp : T.pivot? row column = some T') : Pivoted T T' n m row column := by
  rw [h.pivot?_eq_some hr hc, Option.some.injEq] at hp
  subst hp
  have hrlen : (T.rows.getD row []).length = n + m + 1 := h.length_row hr.le
  have hslen : (scaledRow (T.rows.getD row []) column).length = n + m + 1 := by
    rw [scaledRow, List.length_set, List.length_map, hrlen]
  have hshaped : (eliminated T row column).Shaped n m := by
    refine ⟨h.nvars, by simp [eliminated, h.body], ?_, ?_, by simp [eliminated, h.basis], h.fits⟩
    · intro s hs
      obtain ⟨⟨s, i⟩, hmem, rfl⟩ := List.mem_map.mp hs
      have hlen := h.rowLength s (List.mem_of_getElem? (List.mk_mem_zipIdx_iff_getElem?.mp hmem))
      dsimp only
      split
      · exact hslen
      · rw [length_eliminate (by rw [hslen, hlen]), hlen]
    · rw [eliminated, length_eliminate (by rw [hslen, h.objectiveRow]), h.objectiveRow]
  refine ⟨hshaped, rfl, ?_, ?_⟩
  · intro j hj
    rw [entry, entryAt, h.row_eliminated hr.le hr, if_pos rfl, getD_scaledRow (by omega)]
    rfl
  · intro i hi hne j hj
    have hilen := h.length_row hi
    have hrow : (eliminated T row column).entry row j =
        (scaledRow (T.rows.getD row []) column).getD j 0 := by
      rw [entry, entryAt, h.row_eliminated hr.le hr, if_pos rfl]
    rw [hrow, entry, entryAt, h.row_eliminated hi hr, if_neg hne,
      getD_eliminate (by rw [hslen, hilen]) (by omega) (by omega)]
    rfl

end Pivot

end Shaped

end LinProg.Tableau
