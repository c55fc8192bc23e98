import LinProg.Proofs.Rounded.Zeros
import LinProg.Proofs.Tableau.Extraction
import LinProg.Proofs.Tableau.Initial
import LinProg.Proofs.Tableau.Scans

/-!
# The basic columns in rounded arithmetic

`Tableau.UnitBasis` says that each basic column has a one in the row it is basic in, and zeros
elsewhere, up to their signs. Pivots keep it however the arithmetic rounds (`UnitBasis.pivot`): the
column of the pivot is overwritten with the constants, and every other basic column has a zero in
the pivot row, so what elimination takes off it is a zero. Only finite entries are multiplied and
divided, which is why the tableau before the pivot has to be finite; the one after it need not be.

The basic columns are then distinct, none of them enters next, and the values read off are those of
their rows.
-/

namespace LinProg.Tableau

variable {α : Type} [Scalar α]

/-- No entry is infinite or without a value. -/
def Finite (T : Tableau α) : Prop := Vec.allFinite T.matrix.data = true

instance (T : Tableau α) : Decidable T.Finite := inferInstanceAs (Decidable (_ = _))

theorem Shaped.isFinite_entry {T : Tableau α} {n m i j : ℕ} (h : T.Shaped n m) (hfin : T.Finite)
    (hi : i ≤ m) (hj : j ≤ n + m) : Scalar.isFinite (T.entry i j) = true :=
  List.all_eq_true.mp hfin _ (h.entry_mem_data hi hj)

/-- The basic columns are unit columns, but for the signs of their zeros. -/
structure UnitBasis (T : Tableau α) (n m : ℕ) : Prop where
  /-- The tableau has the shape for `n` variables and `m` constraints. -/
  shaped : T.Shaped n m
  /-- Each row has a basic column, with its one in that row. -/
  basic : ∀ k < m, ∃ c < n + m, T.basis[k]? = some c ∧ T.entry k c = 1 ∧
    ∀ i ≤ m, i ≠ k → (T.entry i c == 0) = true

section Zeros

variable [ExactZeros α]

theorem unitBasis_initial {p : Problem α} (hv : p.validate = .ok ())
    (hfit : (p.ncons + 1) * (p.nvars + p.ncons + 1) < 2 ^ 64) :
    (initial p).UnitBasis p.nvars p.ncons where
  shaped := initial_shaped hv hfit
  basic := by
    intro k hk
    refine ⟨p.nvars + k, by omega, initial_basis hk, ?_, fun i hi hne => ?_⟩
    · rw [initial_entry_slack hv hk hk, if_pos rfl]
    · rcases Nat.lt_or_eq_of_le hi with hlt | rfl
      · rw [initial_entry_slack hv hlt hk, if_neg (Ne.symm hne)]
        exact ExactZeros.zero_isZero
      · rw [initial_entry_zero hv hfit (by omega)]
        exact ExactZeros.zero_isZero

variable {T T' : Tableau α} {n m row column i j : ℕ}

theorem Pivoted.other_of_isZero (hpiv : Pivoted T T' n m row column) (hT : T.Shaped n m)
    (hfin : T.Finite) (hc : column ≤ n + m) (hi : i ≤ m) (hne : i ≠ row) (hj : j ≤ n + m)
    (hjc : j ≠ column) (hzero : (T'.entry row j == 0) = true) :
    T'.entry i j = T.entry i j ∨ (T.entry i j == 0) = true ∧ (T'.entry i j == 0) = true := by
  rw [hpiv.others i hi hne j hj, if_neg hjc]
  split
  · exact Or.inl rfl
  · exact ExactZeros.sub_isZero (hT.isFinite_entry hfin hi hj)
      (ExactZeros.mul_isZero (hT.isFinite_entry hfin hi hc) hzero)

/-- **A pivot keeps the unit columns**, whatever it is made on. -/
theorem UnitBasis.pivot (h : T.UnitBasis n m) (hfin : T.Finite) (hr : row < m)
    (hc : column < n + m) (hv : (T.entry row column == 0) = false)
    (hp : T.pivot? row column = some T') : T'.UnitBasis n m := by
  have hpiv := h.shaped.pivoted hr hc.le hp
  refine ⟨hpiv.shaped, fun k hk => ?_⟩
  rw [hpiv.basis]
  by_cases hkr : k = row
  · -- the column of the pivot holds the constants
    subst hkr
    refine ⟨column, hc, by rw [List.getElem?_set_self (by rw [h.shaped.basis]; exact hk)], ?_,
      fun i hi hne => ?_⟩
    · rw [hpiv.pivotRow column hc.le, if_pos rfl]
    · rw [hpiv.others i hi hne column hc.le, if_pos rfl]
      split
      · assumption
      · exact ExactZeros.zero_isZero
  · -- any other basic column has a zero in the pivot row, before the pivot and after it
    obtain ⟨c, hcn, hck, hone, hzeros⟩ := h.basic k hk
    have hrow := hzeros row hr.le (Ne.symm hkr)
    have hcc : c ≠ column := by
      rintro rfl
      rw [hrow] at hv
      cases hv
    have hrow' : (T'.entry row c == 0) = true := by
      rw [hpiv.pivotRow c hcn.le, if_neg hcc]
      exact ExactZeros.div_isZero hrow (h.shaped.isFinite_entry hfin hr.le hc.le) hv
    have hother : ∀ i ≤ m, i ≠ row → T'.entry i c = T.entry i c ∨
        (T.entry i c == 0) = true ∧ (T'.entry i c == 0) = true :=
      fun i hi hne => hpiv.other_of_isZero h.shaped hfin hc.le hi hne hcn.le hcc hrow'
    refine ⟨c, hcn, by rw [List.getElem?_set_ne (Ne.symm hkr), hck], ?_, fun i hi hne => ?_⟩
    · rcases hother k hk.le hkr with hkeep | ⟨hzero, -⟩
      · rw [hkeep, hone]
      · rw [hone, ExactZeros.one_notZero] at hzero
        cases hzero
    · by_cases hir : i = row
      · rw [hir]
        exact hrow'
      · rcases hother i hi hir with hkeep | ⟨-, hzero⟩
        · rw [hkeep]
          exact hzeros i hi hne
        · exact hzero

end Zeros

namespace UnitBasis

section Columns

variable {T : Tableau α} {n m k l c : ℕ} (h : T.UnitBasis n m)
include h

theorem of_getElem? (hb : T.basis[k]? = some c) : k < m ∧ c < n + m ∧ T.entry k c = 1 ∧
    ∀ i ≤ m, i ≠ k → (T.entry i c == 0) = true := by
  have hk : k < m := by
    rw [← h.shaped.basis]
    exact (List.getElem?_eq_some_iff.mp hb).1
  obtain ⟨c', hc', hb', hunit⟩ := h.basic k hk
  rw [hb, Option.some.injEq] at hb'
  subst hb'
  exact ⟨hk, hc', hunit⟩

theorem row_unique [ExactZeros α] (hk : T.basis[k]? = some c) (hl : T.basis[l]? = some c) :
    k = l := by
  by_contra hne
  obtain ⟨hkm, -, hone, -⟩ := h.of_getElem? hk
  obtain ⟨-, -, -, hzeros⟩ := h.of_getElem? hl
  have hzero := hzeros k hkm.le hne
  rw [hone, ExactZeros.one_notZero] at hzero
  cases hzero

theorem nodup_basis [ExactZeros α] : T.basis.Nodup := by
  rw [List.nodup_iff_injective_get]
  intro k l hkl
  have hk : T.basis[k.val]? = some (T.basis.get k) := List.getElem?_eq_getElem k.isLt
  have hl : T.basis[l.val]? = some (T.basis.get l) := List.getElem?_eq_getElem l.isLt
  rw [← hkl] at hl
  exact Fin.ext (h.row_unique hk hl)

theorem lt_of_mem_basis (hc : c ∈ T.basis) : c < n + m := by
  obtain ⟨k, hk⟩ := List.mem_iff_getElem?.mp hc
  exact (h.of_getElem? hk).2.1

theorem basicValue_of_basic [ExactZeros α] (hb : T.basis[k]? = some c) :
    T.basicValue n m c = T.entry k (n + m) := by
  rw [basicValue]
  split
  · rename_i l hl
    obtain ⟨hlt, hget, -⟩ := List.idxOf?_eq_some_iff.mp hl
    have hlc : T.basis[l]? = some c := by rw [List.getElem?_eq_getElem hlt, hget]
    rw [h.row_unique hb hlc]
  · rename_i hnone
    exact absurd (List.mem_of_getElem? hb) (List.idxOf?_eq_none_iff.mp hnone)

end Columns

section Tolerance

variable [OrderedZeros α] {T : Tableau α} {n m k c : ℕ} {tolerance : α} (h : T.UnitBasis n m)
include h

theorem notMem_basis_of_entering (ht : 0 ≤ tolerance) (hq : T.entering tolerance = some c) :
    c ∉ T.basis := by
  intro hc
  obtain ⟨k, hk⟩ := List.mem_iff_getElem?.mp hc
  obtain ⟨hkm, -, -, hzeros⟩ := h.of_getElem? hk
  exact (h.shaped.not_le_of_entering hq).2
    (OrderedZeros.neg_le_isZero (hzeros m le_rfl (by omega)) ht)

theorem unitColumn (h0 : 0 ≤ tolerance) (h1 : tolerance < 1) (hb : T.basis[k]? = some c) :
    T.UnitColumn m c k tolerance := by
  obtain ⟨-, -, hone, hzeros⟩ := h.of_getElem? hb
  refine ⟨?_, fun i hi hne => ⟨?_, fun hlt => ?_⟩⟩
  · rw [hone, OrderedZeros.abs_one_sub_one]
    exact h0
  · rw [OrderedZeros.abs_isZero_sub_one (hzeros i hi hne)]
    exact OrderedZeros.not_le_of_lt h1
  · rw [OrderedZeros.abs_isZero (hzeros i hi hne)] at hlt
    exact OrderedZeros.not_le_of_lt hlt h0

theorem values?_eq (h0 : 0 ≤ tolerance) (h1 : tolerance < 1) {columns : List ℕ}
    (hstores : Scalar.Stores α columns.length) (hcolumns : ∀ c ∈ columns, c ≤ n + m) :
    T.values? columns tolerance = some (columns.map (T.basicValue n m)) :=
  h.shaped.values?_eq hstores (fun _ _ _ hb => h.unitColumn h0 h1 hb) hcolumns

theorem basicRow?_of_basic (h0 : 0 ≤ tolerance) (h1 : tolerance < 1)
    (hb : T.basis[k]? = some c) : T.basicRow? c tolerance = some (some k) := by
  obtain ⟨hk, hc, -⟩ := h.of_getElem? hb
  exact h.shaped.basicRow?_of_basic hc.le hk (h.unitColumn h0 h1 hb) hb

end Tolerance

end UnitBasis

theorem basicValue_of_notMem {T : Tableau α} {n m c : ℕ} (hc : c ∉ T.basis) :
    T.basicValue n m c = 0 := by
  rw [basicValue, List.idxOf?_eq_none_iff.mpr hc]

end LinProg.Tableau
