import LinProg.Proofs.Tableau.Solutions

/-!
# The basic point of a tableau

`Tableau.basicPoint` puts the right-hand sides at the basic columns. For a tolerance below one this
is what `primal?` and `slack?` read off (`Represents.primal?_eq`, `Represents.slack?_eq`), and it
solves `[A | I] z = b` with the objective of the tableau.

Pivots on nonzero entries keep all of it, whatever the pivots are
(`pivots_preserve_linear_system`).
-/

open scoped Matrix

namespace LinProg.Tableau

variable {K : Type} [Field K]

/-- The right-hand sides at the basic columns, zeros elsewhere. -/
def basicPoint (T : Tableau K) (n m : ℕ) : Fin (n + m) → K := T.spread n m (T.rhsColumn n m)

namespace Represents

variable {T : Tableau K} {p : Problem K} (h : T.Represents p)
include h

theorem spread_basisAt {k : ℕ} (hk : k < p.ncons) (w : Fin p.ncons → K) :
    T.spread p.nvars p.ncons w ⟨T.basisAt k, h.basisAt_lt hk⟩ = w ⟨k, hk⟩ := by
  rw [spread, Finset.sum_eq_single ⟨k, hk⟩]
  · rw [if_pos rfl]
  · intro l _ hl
    rw [if_neg fun heq => hl (Fin.ext (h.basisAt_injective l.isLt hk heq))]
  · exact fun hmem => absurd (Finset.mem_univ _) hmem

theorem spread_of_notMem {j : Fin (p.nvars + p.ncons)} (hj : j.val ∉ T.basis)
    (w : Fin p.ncons → K) : T.spread p.nvars p.ncons w j = 0 := by
  rw [spread]
  apply Finset.sum_eq_zero
  intro k _
  rw [if_neg]
  intro hkj
  have hmem := List.mem_of_getElem? (h.getElem?_basis k.isLt)
  rw [hkj] at hmem
  exact hj hmem

theorem augmented_basicPoint : p.augmented *ᵥ T.basicPoint p.nvars p.ncons = p.bounds :=
  (h.satisfies_iff _).mp (h.mulVec_spread _)

variable [LinearOrder K] [Exact K]

theorem value_basicPoint : p.augmentedCosts ⬝ᵥ T.basicPoint p.nvars p.ncons = T.objective := by
  have hvalue := h.value_add_reducedCosts h.augmented_basicPoint
  have hzero := h.dotProduct_spread (T.rhsColumn p.nvars p.ncons)
  rwa [basicPoint, hzero, add_zero] at hvalue

theorem basicValue_eq (j : Fin (p.nvars + p.ncons)) :
    T.basicValue p.nvars p.ncons j = T.basicPoint p.nvars p.ncons j := by
  rw [basicValue]
  split
  · rename_i k hk
    obtain ⟨hlt, hget, -⟩ := List.idxOf?_eq_some_iff.mp hk
    have hkm : k < p.ncons := by rw [← h.shaped.basis]; exact hlt
    have hkj : T.basisAt k = j := by rw [basisAt, List.getD_eq_getElem _ _ hlt, hget]
    have hj : j = ⟨T.basisAt k, h.basisAt_lt hkm⟩ := Fin.ext hkj.symm
    rw [hj, basicPoint, h.spread_basisAt hkm]
    rfl
  · rename_i hk
    exact (h.spread_of_notMem (List.idxOf?_eq_none_iff.mp hk) _).symm

variable [IsStrictOrderedRing K] {t : K}

theorem values?_eq_basicPoint (h0 : 0 ≤ t) (h1 : t < 1) {l : ℕ}
    (f : Fin l → Fin (p.nvars + p.ncons)) {columns : List ℕ}
    (hcolumns : columns = List.ofFn fun i => (f i).val) :
    T.values? columns t = some (List.ofFn fun i => T.basicPoint p.nvars p.ncons (f i)) := by
  subst hcolumns
  rw [h.unitBasis.values?_eq h0 h1 (Exact.stores _), List.map_ofFn]
  · congr 2
    funext i
    exact h.basicValue_eq (f i)
  · intro c hc
    obtain ⟨i, rfl⟩ := List.mem_ofFn.mp hc
    exact (f i).isLt.le

theorem primal?_eq (h0 : 0 ≤ t) (h1 : t < 1) : T.primal? t =
    some (List.ofFn fun j => T.basicPoint p.nvars p.ncons (Fin.castAdd p.ncons j)) := by
  rw [primal?, h.shaped.nvars]
  refine h.values?_eq_basicPoint h0 h1 (Fin.castAdd p.ncons) ?_
  exact List.ext_getElem (by simp) (by simp)

theorem slack?_eq (h0 : 0 ≤ t) (h1 : t < 1) : T.slack? t =
    some (List.ofFn fun i => T.basicPoint p.nvars p.ncons (Fin.natAdd p.nvars i)) := by
  rw [slack?, h.shaped.nvars, h.shaped.ncons_eq]
  refine h.values?_eq_basicPoint h0 h1 (Fin.natAdd p.nvars) ?_
  exact List.ext_getElem (by simp) (by simp)

/-- With a tolerance of one or more, zeros pass for ones as well, and no column is taken for a unit
column. -/
theorem basicRow?_of_one_le (h1 : 1 ≤ t) {c : ℕ} (hc : c ≤ p.nvars + p.ncons) :
    T.basicRow? c t = some none := by
  by_cases hb : ∀ k < p.ncons, T.basis[k]? ≠ some c
  · exact h.shaped.basicRow?_of_not_basic hc hb
  · push Not at hb
    obtain ⟨k, hk, hkc⟩ := hb
    have hone : ∀ i ≤ p.ncons, Scalar.abs (T.entry i c - 1) ≤ t := by
      intro i hi
      have hunit := h.entry_basisAt hk hi
      rw [h.getElem?_basis hk, Option.some.injEq] at hkc
      rw [← hkc, hunit, Exact.abs_eq]
      split
      · rw [sub_self, abs_zero]
        exact zero_le_one.trans h1
      · rw [zero_sub, abs_neg, abs_one]
        exact h1
    -- the first two rows both look like the row of the one
    obtain ⟨l, hl⟩ : ∃ l, List.range (p.ncons + 1) = 0 :: 1 :: l := by
      obtain ⟨m, hm⟩ : ∃ m, p.ncons = m + 1 := ⟨p.ncons - 1, by omega⟩
      rw [hm, List.range_succ_eq_map, List.range_succ_eq_map]
      exact ⟨_, rfl⟩
    have hnone : T.unitRow? c t none (0 :: 1 :: l) = some none := by
      have hzero := h.shaped.get?_eq (Nat.zero_le _) hc
      have hfirst := h.shaped.get?_eq (i := 1) (by omega) hc
      rw [unitRow?, hzero, Option.bind_eq_bind, Option.bind_some, if_pos (hone 0 (Nat.zero_le _)),
        if_neg (by simp), unitRow?, hfirst, Option.bind_eq_bind, Option.bind_some,
        if_pos (hone 1 (by omega)), if_pos Option.isSome_some]
      rfl
    rw [basicRow?, h.shaped.ncons_eq, hl, hnone]
    rfl

theorem values?_of_one_le (h1 : 1 ≤ t) {columns : List ℕ}
    (hcolumns : ∀ c ∈ columns, c ≤ p.nvars + p.ncons) :
    T.values? columns t = some (List.replicate columns.length 0) := by
  rw [values?_eq_some_iff, ← List.map_const']
  refine ⟨Exact.stores _, mapM_eq_some_map fun c hc => ?_⟩
  rw [value?, h.basicRow?_of_one_le h1 (hcolumns c hc)]
  rfl

theorem primal?_of_one_le (h1 : 1 ≤ t) : T.primal? t = some (List.replicate p.nvars 0) := by
  rw [primal?, h.values?_of_one_le h1 h.shaped.variable_le, List.length_range, h.shaped.nvars]

theorem slack?_of_one_le (h1 : 1 ≤ t) : T.slack? t = some (List.replicate p.ncons 0) := by
  rw [slack?, h.values?_of_one_le h1 h.shaped.slack_le, List.length_map, List.length_range,
    h.shaped.ncons_eq]

end Represents

/-- **Pivots keep the linear system.** In exact arithmetic, whatever entries of a valid problem's
tableau the pivots are made on:

* the constraint rows are `M [A | I | b]` and the objective row is `y [A | I | b] - [c | 0 | 0]`,
  for the slack columns `M` and `y`, and `M` is invertible;
* so the rows have the solutions of `[A | I] z = b`, and on these the cost and the objective row
  add up to the objective;
* the values read off with a tolerance below one solve the system and have that objective.

The first tableau exists unless its size does not fit in a word, and no pivot fails. -/
theorem pivots_preserve_linear_system [LinearOrder K] [Exact K] [IsStrictOrderedRing K]
    {p : Problem K} (hvalid : p.validate = .ok ()) (hrhs : ∀ b ∈ p.rhs, 0 ≤ b) :
    ((2 ^ 64 ≤ (p.ncons + 1) * (p.nvars + p.ncons + 1) ∧ Tableau.of p = .fault) ∨
      ∃ T, Tableau.of p = .ok T) ∧
    ∀ T, Reachable p T →
      T.Shaped p.nvars p.ncons ∧
      (∀ i ≤ p.ncons, ∀ j ≤ p.nvars + p.ncons, T.get? i j = some (T.entry i j)) ∧
      (∀ row < p.ncons, ∀ column < p.nvars + p.ncons, ∃ T', T.pivot? row column = some T') ∧
      T.constraintRows p.ncons (p.nvars + p.ncons + 1) =
        T.slackBlock p.nvars p.ncons * p.system ∧
      IsUnit (T.slackBlock p.nvars p.ncons) ∧
      T.objectiveEntries p.ncons (p.nvars + p.ncons + 1) =
        T.slackPrices p.nvars p.ncons ᵥ* p.system - Fin.append p.augmentedCosts 0 ∧
      (∀ z, T.constraintRows p.ncons (p.nvars + p.ncons) *ᵥ z = T.rhsColumn p.nvars p.ncons ↔
        p.augmented *ᵥ z = p.bounds) ∧
      (∀ z, p.augmented *ᵥ z = p.bounds →
        p.costs ⬝ᵥ (fun j => z (Fin.castAdd p.ncons j)) +
          T.objectiveEntries p.ncons (p.nvars + p.ncons) ⬝ᵥ z = T.objective) ∧
      ∀ t : K, 0 ≤ t → t < 1 → ∃ x s, T.primal? t = some x ∧ T.slack? t = some s ∧
        x.length = p.nvars ∧ s.length = p.ncons ∧
        p.coeffs *ᵥ Vec.coords p.nvars x + Vec.coords p.ncons s = p.bounds ∧
        p.costs ⬝ᵥ Vec.coords p.nvars x = T.objective := by
  refine ⟨?_, fun T hT => ?_⟩
  · exact (of_eq_fault_or_ok_of_exact hvalid hrhs).imp_right fun hok => ⟨initial p, hok.2⟩
  · have h := hT.represents
    refine ⟨h.shaped, fun i hi j hj => h.shaped.get?_eq hi hj, fun row hr column hc => ?_,
      h.constraintRows_eq, h.isUnit_slackBlock, h.objectiveEntries_eq, h.satisfies_iff,
      fun z hz => ?_, fun t h0 h1 => ?_⟩
    · exact ⟨_, h.shaped.pivot?_eq_some hr hc.le⟩
    · rw [← Problem.augmentedCosts_dotProduct]
      exact h.value_add_reducedCosts hz
    · refine ⟨_, _, h.primal?_eq h0 h1, h.slack?_eq h0 h1, List.length_ofFn, List.length_ofFn,
        ?_, ?_⟩
      · rw [Vec.coords_ofFn, Vec.coords_ofFn, ← Problem.augmented_mulVec]
        exact h.augmented_basicPoint
      · rw [Vec.coords_ofFn, ← Problem.augmentedCosts_dotProduct]
        exact h.value_basicPoint

/-- The tableau of `Problem.twoByTwo` after the pivot on the coefficient 3. -/
def twoByTwoPivoted : Tableau ℚ where
  nvars := 2
  body := [[0, 5 / 3, 1, -1 / 3, 2], [1, 1 / 3, 0, 1 / 3, 2]]
  objectiveRow := [0, -2 / 3, 0, 1 / 3, 2]
  basis := [2, 0]

deriving instance DecidableEq for Tableau

theorem twoByTwoPivoted_reachable : Reachable Problem.twoByTwo twoByTwoPivoted := by
  have hpivot : (initial Problem.twoByTwo).pivot? 1 0 = some twoByTwoPivoted := by decide +kernel
  exact .pivot (.start rfl) (by decide) (by decide) (v := 3) rfl rfl hpivot

theorem twoByTwoPivoted_linear_system :
    IsUnit (twoByTwoPivoted.slackBlock 2 2) ∧
    ∃ x s, twoByTwoPivoted.primal? (1 / 2) = some x ∧ twoByTwoPivoted.slack? (1 / 2) = some s ∧
      Problem.twoByTwo.coeffs *ᵥ Vec.coords _ x + Vec.coords _ s = Problem.twoByTwo.bounds ∧
      Problem.twoByTwo.costs ⬝ᵥ Vec.coords _ x = twoByTwoPivoted.objective := by
  obtain ⟨-, h⟩ := pivots_preserve_linear_system (p := Problem.twoByTwo) rfl (by decide)
  obtain ⟨-, -, -, -, hunit, -, -, -, hvalues⟩ := h _ twoByTwoPivoted_reachable
  obtain ⟨x, s, hx, hs, -, -, hrow, hvalue⟩ := hvalues (1 / 2) (by norm_num) (by norm_num)
  exact ⟨hunit, x, s, hx, hs, hrow, hvalue⟩

end LinProg.Tableau
