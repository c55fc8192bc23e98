import LinProg.Proofs.Tableau.Initial
import LinProg.Proofs.Tableau.Selection

/-!
# The lowest index wins

`scans_take_lowest_index`: in the machine formats, the place of a smallest entry, the column that
enters and the row that leaves are chosen by one rule, least value first and then lowest index.

A vector may hold anything, and its entries that are not numbers do not count. The entries of a
tableau have to be numbers, and so do the ratios of the rows that can leave; infinities and zeros of
either sign are numbers.
-/

namespace LinProg

variable {α : Type} [Scalar α] [Packed α] [PacksNumbers α]

namespace Tableau.Shaped

variable {T : Tableau α} {n m column : ℕ} {tolerance : α} (h : T.Shaped n m)
  (hdata : ∀ v ∈ T.matrix.data, Scalar.isNaN v = false) (ht : 0 ≤ tolerance)
include h hdata ht

theorem entering_lowestIndexWins_of_numbers :
    LowestIndexWins (fun j => j < n + m ∧ T.entry m j < -tolerance) (T.entry m)
      (T.entering tolerance) :=
  h.entering_lowestIndexWins (Packed.isNaN_of_nonneg ht).2
    fun _ hj => hdata _ (h.entry_mem_data le_rfl hj.le)

theorem firstLeast_of_entering (hq : T.entering tolerance = some column) :
    FirstLeast (· < n + m) (T.entry m) column := by
  have hwins := h.entering_lowestIndexWins_of_numbers hdata ht
  exact FirstLeast.of_lt (Packed.isNaN_of_nonneg ht).2
    (fun _ hj => hdata _ (h.entry_mem_data le_rfl hj.le)) ((hwins.some_iff column).mp hq)

end Tableau.Shaped

/-- **The lowest index wins**, in a vector and in both choices of a pivot. -/
theorem scans_take_lowest_index :
    (∀ x : List α,
      (∀ i v, Vec.argmin x = some (i, v) ↔ x[i]? = some v ∧
        FirstLeast (fun j => j < x.length ∧ Scalar.isNaN (x.getD j 0) = false) (x.getD · 0) i) ∧
      (Vec.argmin x = none ↔ ∀ v ∈ x, Scalar.isNaN v = true)) ∧
    ∀ (T : Tableau α) (n m : ℕ) (tolerance : α), T.Shaped n m →
      (∀ v ∈ T.matrix.data, Scalar.isNaN v = false) → 0 ≤ tolerance →
      LowestIndexWins (fun j => j < n + m ∧ T.entry m j < -tolerance) (T.entry m)
        (T.entering tolerance) ∧
      (∀ c, T.entering tolerance = some c → FirstLeast (· < n + m) (T.entry m) c) ∧
      ∀ column ≤ n + m,
        (∀ i < m, tolerance < T.entry i column →
          Scalar.isNaN (T.entry i (n + m) / T.entry i column) = false) →
        ∃ choice, T.leaving? column tolerance = some choice ∧
          LowestIndexWins (fun i => i < m ∧ tolerance < T.entry i column)
            (fun i => T.entry i (n + m) / T.entry i column) choice := by
  refine ⟨fun x => ⟨fun i v => Vec.argmin_eq_some_iff, Vec.argmin_eq_none_iff⟩, ?_⟩
  intro T n m tolerance h hdata ht
  refine ⟨h.entering_lowestIndexWins_of_numbers hdata ht,
    fun c hq => h.firstLeast_of_entering hdata ht hq, fun column hc hratio => ?_⟩
  exact h.leaving?_lowestIndexWins hc (Packed.isNaN_of_nonneg ht).1
    (fun i hi => hdata _ (h.entry_mem_data hi.le hc)) hratio

/-- Maximise `x₀ + x₁` subject to `x₀ + 2 x₁ ≤ 2` and `2 x₀ + x₁ ≤ 4`, in binary64. The costs are
equal, and so are the ratios of the first column. -/
def tiedRows : Problem Float := ⟨[1, 1], ⟨2, 2, [1, 2, 2, 1]⟩, [2, 4]⟩

/-- Zeros of either sign between what is not a number and an infinity. -/
def mixedEntries : List Float := [0.0 / 0.0, 0.0, -0.0, 1.0 / 0.0]

/-- Of the two zeros the first is the smallest entry. Of the tied columns the first enters, and of
the tied rows the first leaves. -/
theorem tiedRows_lowest_index :
    Vec.argmin mixedEntries = some (1, 0.0) ∧
    (Tableau.initial tiedRows).Shaped 2 2 ∧
    (∀ v ∈ (Tableau.initial tiedRows).matrix.data, Scalar.isNaN v = false) ∧
    (0 : Float) ≤ 1e-9 ∧
    (Tableau.initial tiedRows).entering 1e-9 = some 0 ∧
    (Tableau.initial tiedRows).leaving? 0 1e-9 = some (some 0) := by
  have hshaped : (Tableau.initial tiedRows).Shaped 2 2 :=
    Tableau.initial_shaped (p := tiedRows) rfl (by decide)
  have hdata : ∀ v ∈ (Tableau.initial tiedRows).matrix.data, Scalar.isNaN v = false := by
    decide +kernel
  have ht : (0 : Float) ≤ 1e-9 := by decide +kernel
  obtain ⟨hvectors, htableaux⟩ := scans_take_lowest_index (α := Float)
  obtain ⟨hentering, -, hleaving⟩ := htableaux _ 2 2 1e-9 hshaped hdata ht
  obtain ⟨choice, hchoice, hrows⟩ := hleaving 0 (by decide) (by decide +kernel)
  refine ⟨((hvectors mixedEntries).1 1 0.0).mpr ⟨rfl, ?_⟩, hshaped, hdata, ht,
    (hentering.some_iff 0).mpr ?_, ?_⟩
  · exact (firstLeast_iff fun j hj => hj.1).mpr (by decide +kernel)
  · exact (firstLeast_iff fun j hj => hj.1).mpr (by decide +kernel)
  · rw [hchoice, (hrows.some_iff 0).mpr]
    exact (firstLeast_iff fun i hi => hi.1).mpr (by decide +kernel)

end LinProg
