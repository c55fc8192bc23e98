import LinProg.Proofs.Exact.Programs
import LinProg.Proofs.Tableau.Shape

/-!
# The tableau of a problem

`Tableau.initial p` is the tableau that a problem with bounds that are not negative begins with:
`[A | I | b]` over `[-c | 0 | 0]`, with the slacks as basis. `Tableau.of` gives it for the valid
ones among these problems for whose tableau there is room, and for no others.
-/

namespace LinProg.Tableau

variable {α : Type} [Scalar α]

/-- The tableau that a problem begins with. -/
def initial (p : Problem α) : Tableau α where
  nvars := p.nvars
  body := (p.rowList.zip p.rhs).zipIdx.map fun (r, i) => r.1 ++ Matrix.unitRow p.ncons i ++ [r.2]
  objectiveRow := p.cost.map (fun c => -c) ++ List.replicate (p.ncons + 1) 0
  basis := (List.range p.ncons).map (p.nvars + ·)

theorem negative_iff (b : α) (_ : ℕ) : decide (b < 0) = true ↔ ¬¬b < 0 := by
  rw [decide_eq_true_eq, not_not]

theorem of_eq_ok_iff {p : Problem α} {T : Tableau α} :
    Tableau.of p = .ok T ↔ p.validate = .ok () ∧ (∀ b ∈ p.rhs, ¬b < 0) ∧
      Matrix.Room α (p.ncons + 1) (p.nvars + p.ncons + 1) ∧ T = initial p := by
  rw [Tableau.of, Outcome.bind_eq_ok]
  constructor
  · rintro ⟨⟨⟩, hv, hT⟩
    split at hT
    · cases hT
    · rename_i hnone
      rw [Problem.allRows?_eq hv] at hT
      simp only [Outcome.bind_eq_ok, Outcome.ofOption_eq_ok, Matrix.room?_eq_some_iff,
        Option.some.injEq, Outcome.pure_eq, Outcome.ok.injEq] at hT
      obtain ⟨-, ⟨hroom, -⟩, -, rfl, rfl⟩ := hT
      exact ⟨hv, (find?_zipIdx_eq_none_iff negative_iff).mp hnone, hroom, rfl⟩
  · rintro ⟨hv, hnonneg, hroom, rfl⟩
    refine ⟨(), hv, ?_⟩
    rw [(find?_zipIdx_eq_none_iff negative_iff).mpr hnonneg]
    dsimp only
    rw [Problem.allRows?_eq hv, Matrix.room?_eq hroom]
    rfl

theorem of_eq_fault_or_ok {p : Problem α} (hv : p.validate = .ok ()) (hrhs : ∀ b ∈ p.rhs, ¬b < 0) :
    (¬Matrix.Room α (p.ncons + 1) (p.nvars + p.ncons + 1) ∧ Tableau.of p = .fault) ∨
    (Matrix.Room α (p.ncons + 1) (p.nvars + p.ncons + 1) ∧ Tableau.of p = .ok (initial p)) := by
  by_cases hroom : Matrix.Room α (p.ncons + 1) (p.nvars + p.ncons + 1)
  · right
    exact ⟨hroom, of_eq_ok_iff.mpr ⟨hv, hrhs, hroom, rfl⟩⟩
  · left
    rw [Tableau.of, hv, Outcome.ok_bind, (find?_zipIdx_eq_none_iff negative_iff).mpr hrhs]
    dsimp only
    rw [Matrix.room?_eq_none hroom]
    exact ⟨hroom, rfl⟩

theorem of_eq_fault_iff {p : Problem α} (hv : p.validate = .ok ()) :
    Tableau.of p = .fault ↔ (∀ b ∈ p.rhs, ¬b < 0) ∧
      ¬Matrix.Room α (p.ncons + 1) (p.nvars + p.ncons + 1) := by
  constructor
  · intro h
    have hnonneg : ∀ b ∈ p.rhs, ¬b < 0 := by
      rw [Tableau.of, hv, Outcome.ok_bind] at h
      split at h
      · cases h
      · rename_i hnone
        exact (find?_zipIdx_eq_none_iff negative_iff).mp hnone
    rcases of_eq_fault_or_ok hv hnonneg with ⟨hlacks, -⟩ | ⟨-, hok⟩
    · exact ⟨hnonneg, hlacks⟩
    · rw [h] at hok
      cases hok
  · rintro ⟨hnonneg, hlacks⟩
    exact (of_eq_fault_or_ok hv hnonneg).elim (·.2) fun h => absurd h.1 hlacks

theorem of_eq_fault_or_ok_of_exact {K : Type} [Field K] [LinearOrder K] [Exact K] {p : Problem K}
    (hv : p.validate = .ok ()) (hrhs : ∀ b ∈ p.rhs, 0 ≤ b) :
    (2 ^ 64 ≤ (p.ncons + 1) * (p.nvars + p.ncons + 1) ∧ Tableau.of p = .fault) ∨
    ((p.ncons + 1) * (p.nvars + p.ncons + 1) < 2 ^ 64 ∧ Tableau.of p = .ok (initial p)) := by
  have h := of_eq_fault_or_ok hv fun b hb => not_lt.mpr (hrhs b hb)
  rwa [Matrix.room_iff_lt, not_lt] at h

theorem stores_of_room {n m : ℕ} (h : Matrix.Room α (m + 1) (n + m + 1)) :
    Scalar.Stores α n ∧ Scalar.Stores α m :=
  ⟨h.2.mono (by nlinarith), h.2.mono (by nlinarith)⟩

section Entries

variable {p : Problem α} (hv : p.validate = .ok ())
include hv

theorem initial_body_getElem? {i : ℕ} (hi : i < p.ncons) :
    (initial p).body[i]? =
      some (p.rowList.getD i [] ++ Matrix.unitRow p.ncons i ++ [p.rhs.getD i 0]) := by
  have hi' : i < p.rowList.length := by rw [Problem.length_rowList hv]; exact hi
  have hi'' : i < p.rhs.length := hi
  have hzip : (p.rowList.zip p.rhs)[i]? = some (p.rowList.getD i [], p.rhs.getD i 0) := by
    rw [List.getElem?_zip_eq_some, List.getD_eq_getElem _ _ hi', List.getD_eq_getElem _ _ hi'']
    exact ⟨List.getElem?_eq_getElem hi', List.getElem?_eq_getElem hi''⟩
  rw [initial, List.getElem?_map, List.getElem?_zipIdx, hzip]
  simp

theorem initial_shaped (hfit : (p.ncons + 1) * (p.nvars + p.ncons + 1) < 2 ^ 64) :
    (initial p).Shaped p.nvars p.ncons where
  nvars := rfl
  body := by
    rw [initial, List.length_map, List.length_zipIdx, List.length_zip, Problem.length_rowList hv]
    exact Nat.min_self _
  rowLength := by
    intro r hr
    obtain ⟨⟨⟨s, b⟩, i⟩, hmem, rfl⟩ := List.mem_map.mp hr
    have hs : s ∈ p.rowList := (List.of_mem_zip (List.fst_mem_of_mem_zipIdx hmem)).1
    simp [Problem.length_of_mem_rowList hv s hs, Matrix.unitRow]
    omega
  objectiveRow := by
    simp only [initial, List.length_append, List.length_map, List.length_replicate]
    rw [Problem.nvars]
    omega
  basis := by rw [initial, List.length_map, List.length_range]
  fits := hfit

theorem initial_row_of_lt {i : ℕ} (hi : i < p.ncons) :
    (initial p).rows.getD i [] =
      p.rowList.getD i [] ++ Matrix.unitRow p.ncons i ++ [p.rhs.getD i 0] := by
  have hi' : i < (initial p).body.length := by
    rw [initial, List.length_map, List.length_zipIdx, List.length_zip, Problem.length_rowList hv]
    exact lt_min hi hi
  rw [rows, List.getD_eq_getElem?_getD, List.getElem?_append_left hi', initial_body_getElem? hv hi,
    Option.getD_some]

theorem length_rowList_getD {i : ℕ} (hi : i < p.ncons) :
    (p.rowList.getD i []).length = p.nvars := by
  have hi' : i < p.rowList.length := by rw [Problem.length_rowList hv]; exact hi
  rw [List.getD_eq_getElem _ _ hi']
  exact Problem.length_of_mem_rowList hv _ (List.getElem_mem hi')

theorem initial_entry_variable {i j : ℕ} (hi : i < p.ncons) (hj : j < p.nvars) :
    (initial p).entry i j = entryAt p.rowList i j := by
  have hlen := length_rowList_getD hv hi
  rw [entry, entryAt, initial_row_of_lt hv hi, List.append_assoc,
    List.getD_append _ _ _ _ (by omega)]
  rfl

theorem initial_entry_slack {i k : ℕ} (hi : i < p.ncons) (hk : k < p.ncons) :
    (initial p).entry i (p.nvars + k) = if k = i then 1 else 0 := by
  have hlen := length_rowList_getD hv hi
  rw [entry, entryAt, initial_row_of_lt hv hi, List.append_assoc,
    List.getD_append_right _ _ _ _ (by omega), hlen, Nat.add_sub_cancel_left,
    List.getD_append _ _ _ _ (by simpa [Matrix.unitRow] using hk)]
  simp [Matrix.unitRow, List.getD_eq_getElem?_getD, hk]

theorem initial_entry_rhs {i : ℕ} (hi : i < p.ncons) :
    (initial p).entry i (p.nvars + p.ncons) = p.rhs.getD i 0 := by
  have hlen : (p.rowList.getD i [] ++ Matrix.unitRow p.ncons i).length = p.nvars + p.ncons := by
    rw [List.length_append, length_rowList_getD hv hi, Matrix.unitRow, List.length_map,
      List.length_range]
  rw [entry, entryAt, initial_row_of_lt hv hi, List.getD_append_right _ _ _ _ hlen.le, hlen,
    Nat.sub_self]
  rfl

theorem initial_entry_cost (hfit : (p.ncons + 1) * (p.nvars + p.ncons + 1) < 2 ^ 64) {j : ℕ}
    (hj : j < p.nvars) : (initial p).entry p.ncons j = -p.cost.getD j 0 := by
  have hj' : j < p.cost.length := hj
  rw [entry, entryAt, (initial_shaped hv hfit).row_last, initial,
    List.getD_append _ _ _ _ (by rw [List.length_map]; exact hj'), List.getD_eq_getElem _ _ hj',
    List.getD_eq_getElem _ _ (by rw [List.length_map]; exact hj'), List.getElem_map]

theorem initial_entry_zero (hfit : (p.ncons + 1) * (p.nvars + p.ncons + 1) < 2 ^ 64) {j : ℕ}
    (hj : p.nvars ≤ j) : (initial p).entry p.ncons j = 0 := by
  rw [entry, entryAt, (initial_shaped hv hfit).row_last, initial,
    List.getD_append_right _ _ _ _ (by rw [List.length_map]; exact hj), List.getD_eq_getElem?_getD,
    List.getElem?_replicate]
  split <;> rfl

end Entries

theorem initial_basis {p : Problem α} {k : ℕ} (hk : k < p.ncons) :
    (initial p).basis[k]? = some (p.nvars + k) := by
  rw [initial, List.getElem?_map, List.getElem?_range hk]
  rfl

end LinProg.Tableau
