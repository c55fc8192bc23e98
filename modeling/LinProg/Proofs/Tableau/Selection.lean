import LinProg.Proofs.Exact.Arithmetic
import LinProg.Proofs.Tableau.Scans

/-!
# The choice of a pivot

Where the entries of a tableau are numbers, and the ratios that are compared, the first of the most
negative entries enters and the first of the smallest ratios leaves.

* `Shaped.entering_lowestIndexWins`: the choice of a column.
* `Shaped.leaving?_lowestIndexWins`: the choice of a row.
* `Shaped.entering_eq_some`, `Shaped.leaving?_eq_some`: in exact arithmetic, where all are numbers,
  the column that enters has an entry below `-tolerance` in the objective row, and no other row with
  an entry above the tolerance has a smaller ratio than the row that leaves.
-/

namespace LinProg.Tableau.Shaped

section Numbers

variable {α : Type} [Scalar α] [OrderedNumbers α] {tolerance : α}
  {T : Tableau α} {n m column : ℕ} (h : T.Shaped n m)
include h

theorem entering_lowestIndexWins (ht : Scalar.isNaN (-tolerance) = false)
    (hnumber : ∀ j < n + m, Scalar.isNaN (T.entry m j) = false) :
    LowestIndexWins (fun j => j < n + m ∧ T.entry m j < -tolerance) (T.entry m)
      (T.entering tolerance) := by
  rw [entering]
  refine (enteringFrom_isScan tolerance).lowestIndexWins (fun _ _ => Iff.rfl)
    (fun j hj => hnumber j hj.1) (fun j hj => ?_) fun j v hv => ?_
  · rw [h.length_reducedCosts]
    exact hj.1
  · have hj : j < T.reducedCosts.length := (List.getElem?_eq_some_iff.mp hv).1
    rw [h.length_reducedCosts] at hj
    rw [h.getElem?_reducedCosts hj, Option.some.injEq] at hv
    subst hv
    rw [and_iff_right hj, ← OrderedNumbers.not_lt_iff (hnumber j hj) ht, not_not]
    exact ⟨Iff.rfl, rfl⟩

theorem leaving?_lowestIndexWins (hc : column ≤ n + m) (ht : Scalar.isNaN tolerance = false)
    (hnumber : ∀ i < m, Scalar.isNaN (T.entry i column) = false)
    (hratio : ∀ i < m, tolerance < T.entry i column →
      Scalar.isNaN (T.entry i (n + m) / T.entry i column) = false) :
    ∃ choice, T.leaving? column tolerance = some choice ∧
      LowestIndexWins (fun i => i < m ∧ tolerance < T.entry i column)
        (fun i => T.entry i (n + m) / T.entry i column) choice := by
  refine ⟨_, h.leaving?_eq hc, ?_⟩
  refine (leavingFrom_isScan tolerance).lowestIndexWins (fun _ _ => Iff.rfl)
    (fun i hi => hratio i hi.1 hi.2) (fun i hi => ?_) fun i e he => ?_
  · rw [List.length_map, List.length_range]
    exact hi.1
  · rw [List.getElem?_map, Option.map_eq_some_iff] at he
    obtain ⟨i', hi', rfl⟩ := he
    obtain ⟨hi, rfl⟩ := List.getElem?_eq_some_iff.mp hi'
    rw [List.length_range] at hi
    rw [List.getElem_range]
    dsimp only
    rw [and_iff_right hi, ← OrderedNumbers.not_lt_iff ht (hnumber i hi), not_not]
    exact ⟨Iff.rfl, rfl⟩

end Numbers

section Exact

variable {K : Type} [Field K] [LinearOrder K] [Exact K] {tolerance : K}
  {T : Tableau K} {n m column row : ℕ} (h : T.Shaped n m)
include h

theorem entering_eq_some (hq : T.entering tolerance = some column) :
    column < n + m ∧ T.entry m column < -tolerance := by
  have ht : Scalar.isNaN (-tolerance) = false := Exact.isNaN_eq_false _
  have hwins := h.entering_lowestIndexWins ht fun _ _ => Exact.isNaN_eq_false _
  exact ((hwins.some_iff column).mp hq).mem

theorem leaving?_eq_some (hc : column ≤ n + m)
    (hr : T.leaving? column tolerance = some (some row)) :
    row < m ∧ tolerance < T.entry row column ∧
      ∀ i < m, tolerance < T.entry i column →
        T.entry row (n + m) / T.entry row column ≤ T.entry i (n + m) / T.entry i column := by
  have ht : Scalar.isNaN tolerance = false := Exact.isNaN_eq_false _
  obtain ⟨choice, hchoice, hwins⟩ := h.leaving?_lowestIndexWins hc ht
    (fun _ _ => Exact.isNaN_eq_false _) fun _ _ _ => Exact.isNaN_eq_false _
  rw [hr, Option.some.injEq] at hchoice
  obtain ⟨⟨hrm, hentry⟩, hle, -⟩ := (hwins.some_iff row).mp hchoice.symm
  exact ⟨hrm, hentry, fun i hi hpos => hle i ⟨hi, hpos⟩⟩

end Exact

end LinProg.Tableau.Shaped
