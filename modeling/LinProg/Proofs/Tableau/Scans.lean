import LinProg.Proofs.Scans
import LinProg.Proofs.Tableau.Shape

/-!
# What the scans for a pivot find

In any arithmetic, the scan for an entering column finds an entry of the objective row that is not
at least `-tolerance`, and the scan for a leaving row one of the column that is not at most
`tolerance`; they find nothing where there is no such entry. That the entries found are also the
most negative one and the one with the smallest ratio needs an order, and is left to
`LinProg.Proofs.Tableau.Selection`.
-/

namespace LinProg.Tableau

variable {α : Type} [Scalar α] {tolerance : α}

theorem enteringFrom_isScan (tolerance : α) :
    IsScan (-tolerance ≤ ·) (fun v => v) (· ≤ ·) (enteringFrom tolerance) where
  nil _ _ := rfl
  skip j best v vs hv := by simp [enteringFrom, hv]
  keep j k b v vs hb := by simp [enteringFrom, hb]
  take j best v vs hv hb := by
    rcases best with _ | ⟨k, b⟩
    · simp [enteringFrom, hv]
    · simp [enteringFrom, hv, hb k b rfl]

theorem leavingFrom_isScan (tolerance : α) :
    IsScan (fun e => e.1 ≤ tolerance) (fun e => e.2 / e.1) (· ≤ ·) (leavingFrom tolerance) where
  nil _ _ := rfl
  skip i best e es he := by simp [leavingFrom, he]
  keep i k b e es hb := by simp [leavingFrom, hb]
  take i best e es he hb := by
    rcases best with _ | ⟨k, b⟩
    · simp [leavingFrom, he]
    · simp [leavingFrom, he, hb k b rfl]

namespace Shaped

variable {T : Tableau α} {n m column row : ℕ} (h : T.Shaped n m)
include h

theorem entering_eq_none_iff :
    T.entering tolerance = none ↔ ∀ j < n + m, -tolerance ≤ T.entry m j := by
  rw [entering, Option.map_eq_none_iff, (enteringFrom_isScan tolerance).eq_none_iff,
    and_iff_right rfl]
  constructor
  · intro hall j hj
    exact hall _ (List.mem_of_getElem? (h.getElem?_reducedCosts hj))
  · intro hall v hv
    obtain ⟨j, hj⟩ := List.mem_iff_getElem?.mp hv
    have hlt : j < T.reducedCosts.length := (List.getElem?_eq_some_iff.mp hj).1
    rw [h.length_reducedCosts] at hlt
    rw [h.getElem?_reducedCosts hlt, Option.some.injEq] at hj
    rw [← hj]
    exact hall j hlt

theorem not_le_of_entering (hq : T.entering tolerance = some column) :
    column < n + m ∧ ¬-tolerance ≤ T.entry m column := by
  rw [entering, Option.map_eq_some_iff] at hq
  obtain ⟨⟨k, b⟩, hscan, rfl⟩ := hq
  rcases (enteringFrom_isScan tolerance).eq_some hscan with hnone | ⟨-, v, hget, hv, rfl⟩
  · cases hnone
  · rw [Nat.sub_zero] at hget
    have hlt : k < T.reducedCosts.length := (List.getElem?_eq_some_iff.mp hget).1
    rw [h.length_reducedCosts] at hlt
    rw [h.getElem?_reducedCosts hlt, Option.some.injEq] at hget
    rw [hget]
    exact ⟨hlt, hv⟩

theorem leaving?_eq (hc : column ≤ n + m) : T.leaving? column tolerance =
    some ((leavingFrom tolerance 0 none
      ((List.range m).map fun i => (T.entry i column, T.entry i (n + m)))).map (·.1)) := by
  have hpairs : ((List.range T.ncons).mapM fun row => do
      return (← T.get? row column, ← T.rhs? row)) =
      some ((List.range m).map fun i => (T.entry i column, T.entry i (n + m))) := by
    rw [h.ncons_eq]
    refine mapM_eq_some_map fun i hi => ?_
    have him : i ≤ m := (List.mem_range.mp hi).le
    rw [h.get?_eq him hc, h.rhs?_eq him]
    rfl
  rw [leaving?, hpairs]
  rfl

theorem leaving?_eq_none_iff (hc : column ≤ n + m) :
    T.leaving? column tolerance = some none ↔ ∀ i < m, T.entry i column ≤ tolerance := by
  rw [h.leaving?_eq hc, Option.some.injEq, Option.map_eq_none_iff,
    (leavingFrom_isScan tolerance).eq_none_iff, and_iff_right rfl, List.forall_mem_map]
  simp only [List.mem_range]

theorem not_le_of_leaving (hc : column ≤ n + m)
    (hr : T.leaving? column tolerance = some (some row)) :
    row < m ∧ ¬T.entry row column ≤ tolerance := by
  rw [h.leaving?_eq hc, Option.some.injEq, Option.map_eq_some_iff] at hr
  obtain ⟨⟨k, q⟩, hscan, rfl⟩ := hr
  rcases (leavingFrom_isScan tolerance).eq_some hscan with hnone | ⟨-, e, hget, he, -⟩
  · cases hnone
  · rw [Nat.sub_zero, List.getElem?_map, Option.map_eq_some_iff] at hget
    obtain ⟨k', hk, rfl⟩ := hget
    obtain ⟨hkm, rfl⟩ := List.getElem?_eq_some_iff.mp hk
    rw [List.length_range] at hkm
    rw [List.getElem_range] at he
    exact ⟨hkm, he⟩

end Shaped

end LinProg.Tableau
