import LinProg.Proofs.Tableau.Shape

/-!
# The values of the basic columns

`basicRow?` looks for a unit column and compares with the basis. Where the basic columns are unit
columns up to the tolerance (`Tableau.UnitColumn`), it finds exactly these: a column that is not
basic may look like a unit column, but the basis speaks against it. The extracted values are then
the right-hand sides of the basic columns, and zero for all others (`Tableau.Shaped.values?_eq`).
-/

namespace LinProg.Tableau

variable {α : Type} [Scalar α]

/-- A column is about one in the row `k` and about zero in all others. -/
structure UnitColumn (T : Tableau α) (m column k : ℕ) (tolerance : α) : Prop where
  one : Scalar.abs (T.entry k column - 1) ≤ tolerance
  others : ∀ i ≤ m, i ≠ k →
    ¬Scalar.abs (T.entry i column - 1) ≤ tolerance ∧ ¬Scalar.abs (T.entry i column) > tolerance

/-- The right-hand side of the row in which a column is basic, zero for other columns. -/
def basicValue (T : Tableau α) (n m column : ℕ) : α :=
  match T.basis.idxOf? column with
  | some k => T.entry k (n + m)
  | none => 0

theorem values?_eq_some_iff {T : Tableau α} {columns : List ℕ} {tolerance : α} {x : List α} :
    T.values? columns tolerance = some x ↔ Scalar.Stores α columns.length ∧
      columns.mapM (fun c => T.value? c tolerance) = some x := by
  simp [values?, Option.bind_eq_some_iff, Scalar.entries?_eq_some_iff]

namespace Shaped

variable {T : Tableau α} {n m column k : ℕ} {tolerance : α}

theorem unitRow?_isSome (h : T.Shaped n m) (hc : column ≤ n + m) {rows : List ℕ}
    (hrows : ∀ i ∈ rows, i ≤ m) (unit : Option ℕ) :
    ∃ u, T.unitRow? column tolerance unit rows = some u := by
  induction rows generalizing unit with
  | nil => exact ⟨unit, rfl⟩
  | cons i rows ih =>
    obtain ⟨hi, hrest⟩ := List.forall_mem_cons.mp hrows
    rw [unitRow?, h.get?_eq hi hc, Option.bind_eq_bind, Option.bind_some]
    split
    · split
      · exact ⟨none, rfl⟩
      · exact ih hrest _
    · split
      · exact ⟨none, rfl⟩
      · exact ih hrest _

theorem unitRow?_of_notMem (h : T.Shaped n m) (hc : column ≤ n + m)
    (hu : T.UnitColumn m column k tolerance) {rows : List ℕ} (hrows : ∀ i ∈ rows, i ≤ m)
    (hk : k ∉ rows) (unit : Option ℕ) :
    T.unitRow? column tolerance unit rows = some unit := by
  induction rows with
  | nil => rfl
  | cons i rows ih =>
    obtain ⟨hi, hrest⟩ := List.forall_mem_cons.mp hrows
    rw [List.mem_cons, not_or] at hk
    obtain ⟨hne, hzero⟩ := hu.others i hi (Ne.symm hk.1)
    rw [unitRow?, h.get?_eq hi hc, Option.bind_eq_bind, Option.bind_some, if_neg hne, if_neg hzero,
      ih hrest hk.2]

theorem unitRow?_of_mem (h : T.Shaped n m) (hc : column ≤ n + m)
    (hu : T.UnitColumn m column k tolerance) {rows : List ℕ} (hrows : ∀ i ∈ rows, i ≤ m)
    (hnodup : rows.Nodup) (hk : k ∈ rows) :
    T.unitRow? column tolerance none rows = some (some k) := by
  induction rows with
  | nil => cases hk
  | cons i rows ih =>
    obtain ⟨hi, hrest⟩ := List.forall_mem_cons.mp hrows
    obtain ⟨hmem, hnodup⟩ := List.nodup_cons.mp hnodup
    rw [unitRow?, h.get?_eq hi hc, Option.bind_eq_bind, Option.bind_some]
    by_cases hik : i = k
    · subst hik
      rw [if_pos hu.one, if_neg (by simp), h.unitRow?_of_notMem hc hu hrest hmem]
    · obtain ⟨hne, hzero⟩ := hu.others i hi hik
      rw [if_neg hne, if_neg hzero]
      exact ih hrest hnodup (List.mem_of_ne_of_mem (Ne.symm hik) hk)

theorem basicRow?_of_basic (h : T.Shaped n m) (hc : column ≤ n + m) (hk : k < m)
    (hu : T.UnitColumn m column k tolerance) (hb : T.basis[k]? = some column) :
    T.basicRow? column tolerance = some (some k) := by
  have hrows : ∀ i ∈ List.range (m + 1), i ≤ m :=
    fun i hi => Nat.lt_succ_iff.mp (List.mem_range.mp hi)
  have hrow := h.unitRow?_of_mem hc hu hrows List.nodup_range (List.mem_range.mpr (by omega))
  rw [basicRow?, h.ncons_eq, hrow, Option.bind_eq_bind, Option.bind_some, Option.filter_some,
    if_pos (by simp [hk, hb]), Option.pure_def]

theorem exists_basicRow?_eq_some (h : T.Shaped n m) (hc : column ≤ n + m) (tolerance : α) :
    ∃ r, T.basicRow? column tolerance = some r ∧
      ∀ row, r = some row → row < m ∧ T.basis[row]? = some column := by
  have hrows : ∀ i ∈ List.range (m + 1), i ≤ m :=
    fun i hi => Nat.lt_succ_iff.mp (List.mem_range.mp hi)
  obtain ⟨u, hu⟩ : ∃ u, T.unitRow? column tolerance none (List.range (m + 1)) = some u :=
    h.unitRow?_isSome hc hrows none
  rw [basicRow?, h.ncons_eq, hu, Option.bind_eq_bind, Option.bind_some, Option.pure_def]
  refine ⟨_, rfl, fun row hrow => ?_⟩
  obtain ⟨-, hfound⟩ := Option.filter_eq_some_iff.mp hrow
  simpa only [Bool.and_eq_true, decide_eq_true_eq, beq_iff_eq] using hfound

theorem basicRow?_of_not_basic (h : T.Shaped n m) (hc : column ≤ n + m)
    (hb : ∀ k < m, T.basis[k]? ≠ some column) : T.basicRow? column tolerance = some none := by
  obtain ⟨r, hr, hbasic⟩ := h.exists_basicRow?_eq_some hc tolerance
  cases r with
  | none => exact hr
  | some row =>
    obtain ⟨hrow, hget⟩ := hbasic row rfl
    exact absurd hget (hb row hrow)

theorem exists_values?_eq_some (h : T.Shaped n m) {columns : List ℕ}
    (hstores : Scalar.Stores α columns.length) (hcolumns : ∀ c ∈ columns, c ≤ n + m)
    (tolerance : α) : ∃ x, T.values? columns tolerance = some x := by
  simp only [values?_eq_some_iff, hstores, true_and]
  refine exists_mapM_eq_some fun c hc => ?_
  obtain ⟨r, hr, hbasic⟩ := h.exists_basicRow?_eq_some (hcolumns c hc) tolerance
  rw [value?, hr, Option.bind_eq_bind, Option.bind_some]
  cases r with
  | none => exact ⟨0, rfl⟩
  | some row => exact ⟨_, h.rhs?_eq (hbasic row rfl).1.le⟩

omit [Scalar α] in
theorem variable_le (h : T.Shaped n m) : ∀ c ∈ List.range T.nvars, c ≤ n + m := by
  intro c hc
  rw [h.nvars, List.mem_range] at hc
  omega

omit [Scalar α] in
theorem slack_le (h : T.Shaped n m) : ∀ c ∈ (List.range T.ncons).map (T.nvars + ·), c ≤ n + m := by
  intro c hc
  rw [h.nvars, h.ncons_eq] at hc
  obtain ⟨i, hi, rfl⟩ := List.mem_map.mp hc
  have := List.mem_range.mp hi
  omega

theorem forall_mem_values? (h : T.Shaped n m) {columns : List ℕ}
    (hcolumns : ∀ c ∈ columns, c ≤ n + m) {P : α → Prop} (hzero : P 0)
    (hrhs : ∀ i < m, P (T.entry i (n + m))) {x : List α}
    (hx : T.values? columns tolerance = some x) : ∀ v ∈ x, P v := by
  intro v hv
  obtain ⟨c, hc, hvalue⟩ := exists_of_mem_of_mapM_eq_some (values?_eq_some_iff.mp hx).2 v hv
  obtain ⟨r, hr, hbasic⟩ := h.exists_basicRow?_eq_some (hcolumns c hc) tolerance
  rw [value?, hr, Option.bind_eq_bind, Option.bind_some] at hvalue
  cases r with
  | none =>
    cases hvalue
    exact hzero
  | some row =>
    have hrow := (hbasic row rfl).1
    have hget : T.rhs? row = some v := hvalue
    rw [h.rhs?_eq hrow.le, Option.some.injEq] at hget
    rw [← hget]
    exact hrhs row hrow

theorem exists_primal?_slack? (h : T.Shaped n m) (hn : Scalar.Stores α n) (hm : Scalar.Stores α m)
    (tolerance : α) :
    ∃ x s, T.primal? tolerance = some x ∧ T.slack? tolerance = some s ∧
      x.length = n ∧ s.length = m ∧
      ∀ P : α → Prop, P 0 → (∀ i < m, P (T.entry i (n + m))) → (∀ v ∈ x, P v) ∧ ∀ v ∈ s, P v := by
  have hvariables : (List.range T.nvars).length = n := by rw [List.length_range, h.nvars]
  have hslacks : ((List.range T.ncons).map (T.nvars + ·)).length = m := by
    rw [List.length_map, List.length_range, h.ncons_eq]
  obtain ⟨x, hx⟩ := h.exists_values?_eq_some (by rwa [hvariables]) h.variable_le tolerance
  obtain ⟨s, hs⟩ := h.exists_values?_eq_some (by rwa [hslacks]) h.slack_le tolerance
  have hxlen := (length_of_mapM_eq_some (values?_eq_some_iff.mp hx).2).trans hvariables
  have hslen := (length_of_mapM_eq_some (values?_eq_some_iff.mp hs).2).trans hslacks
  refine ⟨x, s, hx, hs, hxlen, hslen, fun P hzero hrhs => ⟨?_, ?_⟩⟩
  · exact h.forall_mem_values? h.variable_le hzero hrhs hx
  · exact h.forall_mem_values? h.slack_le hzero hrhs hs

theorem values?_eq (h : T.Shaped n m) {columns : List ℕ}
    (hstores : Scalar.Stores α columns.length)
    (hunit : ∀ k < m, ∀ c, T.basis[k]? = some c → T.UnitColumn m c k tolerance)
    (hcolumns : ∀ c ∈ columns, c ≤ n + m) :
    T.values? columns tolerance = some (columns.map (T.basicValue n m)) := by
  refine values?_eq_some_iff.mpr ⟨hstores, mapM_eq_some_map fun c hc => ?_⟩
  have hcn := hcolumns c hc
  rw [value?, basicValue]
  split
  · rename_i k hk
    obtain ⟨hlt, hget, -⟩ := List.idxOf?_eq_some_iff.mp hk
    have hkm : k < m := by rw [← h.basis]; exact hlt
    have hb : T.basis[k]? = some c := by rw [List.getElem?_eq_getElem hlt, hget]
    rw [h.basicRow?_of_basic hcn hkm (hunit k hkm c hb) hb, Option.bind_eq_bind, Option.bind_some]
    exact h.rhs?_eq hkm.le
  · rename_i hk
    rw [h.basicRow?_of_not_basic hcn, Option.bind_eq_bind, Option.bind_some]
    · rfl
    · intro k hkm hb
      exact List.idxOf?_eq_none_iff.mp hk (List.mem_of_getElem? hb)

end Shaped

end LinProg.Tableau
