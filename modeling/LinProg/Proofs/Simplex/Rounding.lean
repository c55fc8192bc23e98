import LinProg.Proofs.Rounded.Formats
import LinProg.Proofs.Simplex.Runs
import LinProg.Proofs.Tableau.UnitBasis

/-!
# The basis in rounded arithmetic

The basic columns of a tableau stay exact unit columns, however the arithmetic rounds, along pivots
on nonzero entries and along steps of the simplex method (`unit_columns_survive_rounding`). A step
with a tolerance that is not negative never pivots on a zero, so it is such a pivot or none
(`unitBasis_of_step?`).
-/

namespace LinProg

namespace Simplex

variable {α : Type} [Scalar α] [OrderedZeros α] {T T' : Tableau α} {n m : ℕ} {tolerance : α}

theorem unitBasis_of_step? (h : T.UnitBasis n m) (hfin : T.Finite) (ht : 0 ≤ tolerance)
    {a : PivotOutcome} (hstep : step? tolerance T = some (a, T')) : T'.UnitBasis n m := by
  rcases step?_cases hstep with ⟨-, rfl, -⟩ | ⟨c, -, rfl, -⟩ | ⟨row, column, -, hq, hl, hp⟩
  · exact h
  · exact h
  · have hc := (h.shaped.not_le_of_entering hq).1
    obtain ⟨hr, hentry⟩ := h.shaped.not_le_of_leaving hc.le hl
    refine h.pivot hfin hr hc ?_ hp
    rw [Bool.eq_false_iff]
    exact fun hzero => hentry (OrderedZeros.isZero_le hzero ht)

/-- The tableaux that pivots on nonzero entries and steps lead to, in any order, as long as all
entries are finite. -/
inductive ReachedFinite (p : Problem α) : Tableau α → Prop where
  /-- The tableau of the problem. -/
  | start {T : Tableau α} (h : Tableau.of p = .ok T) : ReachedFinite p T
  /-- One more pivot, on a nonzero entry of a constraint row, left of the right-hand side. -/
  | pivot {T T' : Tableau α} {row column : ℕ} {v : α} (h : ReachedFinite p T) (hfin : T.Finite)
      (hrow : row < T.ncons) (hcolumn : column < T.nvars + T.ncons)
      (hget : T.get? row column = some v) (hv : (v == 0) = false)
      (hpivot : T.pivot? row column = some T') : ReachedFinite p T'
  /-- One more step, with any tolerance that is not negative. -/
  | step {T T' : Tableau α} {tolerance : α} {a : PivotOutcome} (h : ReachedFinite p T)
      (hfin : T.Finite) (ht : 0 ≤ tolerance) (hstep : step? tolerance T = some (a, T')) :
      ReachedFinite p T'

omit [OrderedZeros α] in
theorem ReachedFinite.room {p : Problem α} (h : ReachedFinite p T) :
    Matrix.Room α (p.ncons + 1) (p.nvars + p.ncons + 1) := by
  induction h with
  | start hT => exact (Tableau.of_eq_ok_iff.mp hT).2.2.1
  | pivot _ _ _ _ _ _ _ ih => exact ih
  | step _ _ _ _ ih => exact ih

theorem ReachedFinite.unitBasis {p : Problem α} (h : ReachedFinite p T) :
    T.UnitBasis p.nvars p.ncons := by
  induction h with
  | start hT =>
    obtain ⟨hv, -, hroom, rfl⟩ := Tableau.of_eq_ok_iff.mp hT
    exact Tableau.unitBasis_initial hv hroom.1
  | pivot _ hfin hrow hcolumn hget hv hpivot ih =>
    rw [ih.shaped.ncons_eq] at hrow hcolumn
    rw [ih.shaped.nvars] at hcolumn
    rw [ih.shaped.get?_eq hrow.le hcolumn.le, Option.some.injEq] at hget
    exact ih.pivot hfin hrow hcolumn (by rw [hget]; exact hv) hpivot
  | step _ hfin ht hstep ih => exact unitBasis_of_step? ih hfin ht hstep

theorem exists_values (h : T.UnitBasis n m) (hn : Scalar.Stores α n) (hm : Scalar.Stores α m)
    (h0 : 0 ≤ tolerance) (h1 : tolerance < 1) :
    ∃ x s, T.primal? tolerance = some x ∧ T.slack? tolerance = some s ∧
      x.length = n ∧ s.length = m ∧ x ++ s = (List.range (n + m)).map (T.basicValue n m) := by
  have hx : T.primal? tolerance = some ((List.range n).map (T.basicValue n m)) := by
    rw [Tableau.primal?, h.shaped.nvars]
    refine h.values?_eq h0 h1 (by rwa [List.length_range]) fun c hc => ?_
    have := List.mem_range.mp hc
    omega
  have hs : T.slack? tolerance =
      some (((List.range m).map (n + ·)).map (T.basicValue n m)) := by
    rw [Tableau.slack?, h.shaped.nvars, h.shaped.ncons_eq]
    refine h.values?_eq h0 h1 (by rwa [List.length_map, List.length_range]) fun c hc => ?_
    obtain ⟨k, hk, rfl⟩ := List.mem_map.mp hc
    have := List.mem_range.mp hk
    omega
  exact ⟨_, _, hx, hs, by simp, by simp, by rw [← List.map_append, ← List.range_add]⟩

/-- **Unit columns survive rounding.** For a valid problem without negative bounds, in an arithmetic
of which nothing is known but what it does with zeros: along pivots on nonzero entries and steps
with tolerances that are not negative, as long as the entries are finite,

* the basis holds one column for each row, and these columns are distinct;
* each is exactly one in its row and a zero, of either sign, in every other row and in the objective
  row;
* no basic column enters next;
* with a tolerance below one, each basic column is found in its row and no other column in any, and
  the values read off are the right-hand sides at the basic columns and zero elsewhere.

The first tableau exists unless there is no room for it, and neither pivots nor steps fail. -/
theorem unit_columns_survive_rounding {p : Problem α} (hvalid : p.validate = .ok ())
    (hrhs : ∀ b ∈ p.rhs, 0 ≤ b) :
    ((¬Matrix.Room α (p.ncons + 1) (p.nvars + p.ncons + 1) ∧ Tableau.of p = .fault) ∨
      ∃ T, Tableau.of p = .ok T) ∧
    ∀ T, ReachedFinite p T →
      (∀ row < p.ncons, ∀ column < p.nvars + p.ncons, ∃ T', T.pivot? row column = some T') ∧
      (∀ t, ∃ a T', step? t T = some (a, T')) ∧
      T.basis.length = p.ncons ∧ T.basis.Nodup ∧ (∀ c ∈ T.basis, c < p.nvars + p.ncons) ∧
      (∀ i c, T.basis[i]? = some c → T.get? i c = some 1 ∧
        ∀ r ≤ p.ncons, r ≠ i → ∃ z, T.get? r c = some z ∧ (z == 0) = true) ∧
      (∀ t c, 0 ≤ t → T.entering t = some c → c ∉ T.basis) ∧
      ∀ t, 0 ≤ t → t < 1 →
        (∀ i c, T.basis[i]? = some c → T.basicRow? c t = some (some i)) ∧
        (∀ c < p.nvars + p.ncons, c ∉ T.basis → T.basicRow? c t = some none) ∧
        ∃ x s, T.primal? t = some x ∧ T.slack? t = some s ∧
          x.length = p.nvars ∧ s.length = p.ncons ∧
          (∀ i c, T.basis[i]? = some c → (x ++ s)[c]? = T.rhs? i) ∧
          ∀ c < p.nvars + p.ncons, c ∉ T.basis → (x ++ s)[c]? = some 0 := by
  refine ⟨?_, fun T hT => ?_⟩
  · have hnot : ∀ b ∈ p.rhs, ¬b < 0 :=
      fun b hb hlt => OrderedZeros.not_le_of_lt hlt (hrhs b hb)
    exact (Tableau.of_eq_fault_or_ok hvalid hnot).imp_right fun hok => ⟨_, hok.2⟩
  have h := hT.unitBasis
  obtain ⟨hn, hm⟩ := Tableau.stores_of_room hT.room
  refine ⟨fun row hr column hc => ⟨_, h.shaped.pivot?_eq_some hr hc.le⟩,
    fun t => exists_step?_eq_some h.shaped t, h.shaped.basis, h.nodup_basis,
    fun c hc => h.lt_of_mem_basis hc, fun i c hb => ?_,
    fun t c ht hq => h.notMem_basis_of_entering ht hq, fun t h0 h1 => ?_⟩
  · obtain ⟨hi, hc, hone, hzeros⟩ := h.of_getElem? hb
    refine ⟨by rw [h.shaped.get?_eq hi.le hc.le, hone], fun r hr hne => ?_⟩
    exact ⟨_, h.shaped.get?_eq hr hc.le, hzeros r hr hne⟩
  · obtain ⟨x, s, hx, hs, hxlen, hslen, hvalues⟩ := exists_values h hn hm h0 h1
    have hget : ∀ c < p.nvars + p.ncons, (x ++ s)[c]? =
        some (T.basicValue p.nvars p.ncons c) := by
      intro c hc
      rw [hvalues, List.getElem?_map, List.getElem?_range hc]
      rfl
    refine ⟨fun i c hb => h.basicRow?_of_basic h0 h1 hb, fun c hc hnot => ?_,
      x, s, hx, hs, hxlen, hslen, fun i c hb => ?_, fun c hc hnot => ?_⟩
    · exact h.shaped.basicRow?_of_not_basic hc.le fun k _ hk => hnot (List.mem_of_getElem? hk)
    · obtain ⟨hi, hc, -⟩ := h.of_getElem? hb
      rw [hget c hc, h.basicValue_of_basic hb, h.shaped.rhs?_eq hi.le]
    · rw [hget c hc, Tableau.basicValue_of_notMem hnot]

/-- `Problem.twoByTwo` in binary64. -/
def roundedTwoByTwo : Problem Float := ⟨[1, 1], ⟨2, 2, [1, 2, 3, 1]⟩, [4, 6]⟩

/-- Its tableau after the pivot on the coefficient 3, which rounds. -/
def roundedPivot : Tableau Float :=
  Tableau.Shaped.eliminated (Tableau.initial roundedTwoByTwo) 1 0

theorem roundedPivot_reached : ReachedFinite roundedTwoByTwo roundedPivot := by
  have hstart : ReachedFinite roundedTwoByTwo (Tableau.initial roundedTwoByTwo) :=
    .start (Tableau.of_eq_ok_iff.mpr ⟨rfl, by decide +kernel, by decide, rfl⟩)
  have hrow : 1 < (Tableau.initial roundedTwoByTwo).ncons := by decide
  have hpivot : (Tableau.initial roundedTwoByTwo).pivot? 1 0 = some roundedPivot := rfl
  exact hstart.pivot (by decide +kernel) hrow (by decide) (v := 3) rfl rfl hpivot

/-- The step after that pivot rounds again. -/
theorem roundedTwoByTwo_unit_columns : ∃ T, ReachedFinite roundedTwoByTwo T ∧ T.basis = [1, 0] ∧
    T.basis.Nodup ∧ (∀ i c, T.basis[i]? = some c → T.get? i c = some 1) ∧
    ∃ x s, T.primal? 0.5 = some x ∧ T.slack? 0.5 = some s ∧
      ∀ i c, T.basis[i]? = some c → (x ++ s)[c]? = T.rhs? i := by
  obtain ⟨-, h⟩ := unit_columns_survive_rounding (p := roundedTwoByTwo) rfl (by decide +kernel)
  obtain ⟨-, hsteps, -⟩ := h _ roundedPivot_reached
  obtain ⟨a, T, hT⟩ := hsteps 0
  have hbasis : (step? 0 roundedPivot).map (fun r => r.2.basis) = some [1, 0] := by decide +kernel
  rw [hT, Option.map_some, Option.some.injEq] at hbasis
  have hreached := roundedPivot_reached.step (by decide +kernel) (by decide +kernel) hT
  obtain ⟨-, -, -, hnodup, -, hunit, -, hvalues⟩ := h _ hreached
  obtain ⟨-, -, x, s, hx, hs, -, -, hxs, -⟩ := hvalues 0.5 (by decide +kernel) (by decide +kernel)
  exact ⟨T, hreached, hbasis, hnodup, fun i c hb => (hunit i c hb).1, x, s, hx, hs, hxs⟩

end Simplex

end LinProg
