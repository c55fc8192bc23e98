import LinProg.Proofs.Tableau.BasicPoint

/-!
# The basis determines the tableau

A combination of the rows of `[A | I | b]` is one of the rows of any tableau of the problem, and its
weights there are its own entries at the basic columns (`Represents.eq_sum_basis`). So two
combinations that agree at the basic columns of one tableau agree everywhere.

The rows of another tableau with the same basic columns are such combinations: they are the same
rows, in the order of its basis. How the pivots got there, and how many they were, does not matter
(`basis_determines_tableau`).
-/

open scoped Matrix

namespace LinProg.Tableau

section Shape

variable {α : Type} [Zero α] {T T' : Tableau α} {n m i k : ℕ}

theorem Shaped.row_congr (h : T.Shaped n m) (h' : T'.Shaped n m) (hi : i ≤ m) (hk : k ≤ m)
    (heq : ∀ j ≤ n + m, T'.entry k j = T.entry i j) :
    T'.rows.getD k [] = T.rows.getD i [] := by
  have hlen := h.length_row hi
  have hlen' := h'.length_row hk
  apply List.ext_getElem
  · rw [hlen, hlen']
  · intro j hj' hj
    have hentry := heq j (by omega)
    rwa [entry, entry, entryAt, entryAt, List.getD_eq_getElem _ _ hj,
      List.getD_eq_getElem _ _ hj'] at hentry

end Shape

variable {K : Type} [Field K] {T T' : Tableau K} {p : Problem K}

namespace Represents

section Rows

variable (h : T.Represents p)
include h

/-- **A combination of the rows of the system is one of the rows of the tableau**, with its entries
at the basic columns as weights. -/
theorem eq_sum_basis {r : ℕ → K} (hr : Spanned p r) (j : Fin (p.nvars + p.ncons + 1)) :
    r j = ∑ i : Fin p.ncons, r (T.basisAt i) * T.entry i j := by
  obtain ⟨B, hB⟩ := h.isUnit_slackBlock.exists_left_inv
  let R := T.constraintRows p.ncons (p.nvars + p.ncons + 1)
  let w : Fin p.ncons → K := (fun k : Fin p.ncons => r (p.nvars + k)) ᵥ* B
  have hsystem : p.system = B * R := by
    simp only [R]
    rw [h.constraintRows_eq, ← Matrix.mul_assoc, hB, Matrix.one_mul]
  have hrow : ∀ j : Fin (p.nvars + p.ncons + 1), r j = ∑ i, w i * T.entry i j := by
    intro j
    have hcombination : ((fun k : Fin p.ncons => r (p.nvars + k)) ᵥ* p.system) j = (w ᵥ* R) j := by
      rw [hsystem, ← Matrix.vecMul_vecMul]
    rw [hr j]
    exact hcombination
  -- the basic columns show the weights
  have hweight : ∀ i : Fin p.ncons, r (T.basisAt i) = w i := by
    intro i
    have hi := hrow ⟨T.basisAt i, by have := h.basisAt_lt i.isLt; omega⟩
    rw [hi, Finset.sum_eq_single i]
    · rw [h.entry_basisAt i.isLt i.isLt.le, if_pos rfl, mul_one]
    · intro k _ hk
      rw [h.entry_basisAt i.isLt k.isLt.le, if_neg fun heq => hk (Fin.ext heq), mul_zero]
    · exact fun hmem => absurd (Finset.mem_univ _) hmem
  rw [hrow j]
  exact Finset.sum_congr rfl fun i _ => by rw [hweight i]

theorem spanned_congr {r s : ℕ → K} (hr : Spanned p r) (hs : Spanned p s)
    (heq : ∀ k < p.ncons, r (T.basisAt k) = s (T.basisAt k)) {j : ℕ}
    (hj : j ≤ p.nvars + p.ncons) : r j = s j := by
  have hrow := h.eq_sum_basis hr ⟨j, by omega⟩
  have hrow' := h.eq_sum_basis hs ⟨j, by omega⟩
  rw [hrow, hrow']
  exact Finset.sum_congr rfl fun i _ => by rw [heq i i.isLt]

theorem mem_basis_iff {c : ℕ} : c ∈ T.basis ↔ ∃ k < p.ncons, T.basisAt k = c := by
  constructor
  · intro hc
    obtain ⟨k, hk⟩ := List.mem_iff_getElem?.mp hc
    have hkm : k < p.ncons := by
      rw [← h.shaped.basis]
      exact (List.getElem?_eq_some_iff.mp hk).1
    rw [h.getElem?_basis hkm, Option.some.injEq] at hk
    exact ⟨k, hkm, hk⟩
  · rintro ⟨k, hk, rfl⟩
    exact List.mem_of_getElem? (h.getElem?_basis hk)

end Rows

section Bases

variable (h : T.Represents p) (h' : T'.Represents p) (hbasis : ∀ c, c ∈ T.basis ↔ c ∈ T'.basis)
include h h' hbasis

theorem exists_basisAt_eq {k : ℕ} (hk : k < p.ncons) :
    ∃ l < p.ncons, T'.basisAt l = T.basisAt k :=
  h'.mem_basis_iff.mp ((hbasis _).mp (h.mem_basis_iff.mpr ⟨k, hk, rfl⟩))

theorem entry_eq_of_basisAt_eq {i k : ℕ} (hi : i < p.ncons) (hk : k < p.ncons)
    (heq : T'.basisAt k = T.basisAt i) {j : ℕ} (hj : j ≤ p.nvars + p.ncons) :
    T'.entry k j = T.entry i j := by
  refine h.spanned_congr (h'.constraint k hk) (h.constraint i hi) (fun l hl => ?_) hj
  obtain ⟨l', hl', hll⟩ := h.exists_basisAt_eq h' hbasis hl
  rw [h.entry_basisAt hl hi.le, ← hll, h'.entry_basisAt hl' hk.le]
  refine if_congr ⟨?_, ?_⟩ rfl rfl
  · rintro rfl
    exact h.basisAt_injective hi hl (heq.symm.trans hll)
  · rintro rfl
    exact h'.basisAt_injective hk hl' (heq.trans hll.symm)

theorem objective_entry_eq {j : ℕ} (hj : j ≤ p.nvars + p.ncons) :
    T'.entry p.ncons j = T.entry p.ncons j := by
  refine add_right_cancel (h.spanned_congr h'.objective h.objective (fun l hl => ?_) hj)
  obtain ⟨l', hl', hll⟩ := h.exists_basisAt_eq h' hbasis hl
  rw [h.entry_basisAt hl le_rfl, ← hll, h'.entry_basisAt hl' le_rfl, if_neg (by omega),
    if_neg (by omega)]

theorem objectiveRow_eq : T'.objectiveRow = T.objectiveRow := by
  have hrow := h.shaped.row_congr h'.shaped le_rfl le_rfl
    fun j hj => h.objective_entry_eq h' hbasis hj
  rwa [h.shaped.row_last, h'.shaped.row_last] at hrow

theorem objective_eq_of_basis [LinearOrder K] [Exact K] : T'.objective = T.objective := by
  rw [Tableau.objective, Tableau.objective, h.objectiveRow_eq h' hbasis]

theorem exists_perm : ∃ σ : Equiv.Perm (Fin p.ncons), ∀ i : Fin p.ncons,
    T'.basisAt (σ i) = T.basisAt i ∧
      ∀ j ≤ p.nvars + p.ncons, T'.entry (σ i) j = T.entry i j := by
  have hmatch : ∀ i : Fin p.ncons, ∃ k : Fin p.ncons, T'.basisAt k = T.basisAt i := by
    intro i
    obtain ⟨k, hk, heq⟩ := h.exists_basisAt_eq h' hbasis i.isLt
    exact ⟨⟨k, hk⟩, heq⟩
  choose σ hσ using hmatch
  have hinjective : Function.Injective σ := by
    intro i k hik
    have hbasis : T'.basisAt (σ i) = T'.basisAt (σ k) := by rw [hik]
    have heq := (hσ i).symm.trans (hbasis.trans (hσ k))
    exact Fin.ext (h.basisAt_injective i.isLt k.isLt heq)
  let e := Equiv.ofBijective σ (Finite.injective_iff_bijective.mp hinjective)
  exact ⟨e, fun i => ⟨hσ i, fun j hj =>
    h.entry_eq_of_basisAt_eq h' hbasis i.isLt (σ i).isLt (hσ i) hj⟩⟩

theorem basicPoint_eq : T'.basicPoint p.nvars p.ncons = T.basicPoint p.nvars p.ncons := by
  obtain ⟨σ, hσ⟩ := h.exists_perm h' hbasis
  funext j
  simp only [basicPoint, spread]
  rw [← Equiv.sum_comp σ]
  refine Finset.sum_congr rfl fun i _ => ?_
  rw [(hσ i).1, rhsColumn, rhsColumn, (hσ i).2 _ le_rfl]

end Bases

theorem eq_of_basis_eq (h : T.Represents p) (h' : T'.Represents p) (heq : T.basis = T'.basis) :
    T = T' := by
  have hbasis : ∀ c, c ∈ T.basis ↔ c ∈ T'.basis := fun c => by rw [heq]
  have hbody : T.body = T'.body := by
    apply List.ext_getElem?
    intro i
    rcases Nat.lt_or_ge i p.ncons with hi | hi
    · have hcolumn : T'.basisAt i = T.basisAt i := by rw [basisAt, basisAt, heq]
      rw [h.shaped.row_of_lt hi, h'.shaped.row_of_lt hi, h.shaped.row_congr h'.shaped hi.le hi.le
        fun j hj => h.entry_eq_of_basisAt_eq h' hbasis hi hi hcolumn hj]
    · rw [List.getElem?_eq_none (h.shaped.body.trans_le hi),
        List.getElem?_eq_none (h'.shaped.body.trans_le hi)]
  have hnvars : T.nvars = T'.nvars := h.shaped.nvars.trans h'.shaped.nvars.symm
  have hobjective := (h.objectiveRow_eq h' hbasis).symm
  cases T
  cases T'
  rw [Tableau.mk.injEq]
  exact ⟨hnvars, hbody, hobjective, heq⟩

end Represents

variable [LinearOrder K] [Exact K]

/-- Two tableaux of a problem agree up to the order of their constraint rows. -/
structure Rearranged (p : Problem K) (T T' : Tableau K) : Prop where
  /-- Rows with the same basic column are the same. -/
  rows : ∃ σ : Equiv.Perm (Fin p.ncons), ∀ i : Fin p.ncons, ∃ c r,
    T.basis[i.val]? = some c ∧ T'.basis[(σ i).val]? = some c ∧
    T.body[i.val]? = some r ∧ T'.body[(σ i).val]? = some r
  objectiveRow : T.objectiveRow = T'.objectiveRow
  values : ∀ t, 0 ≤ t → t < 1 → ∃ x s, T.primal? t = some x ∧ T'.primal? t = some x ∧
    T.slack? t = some s ∧ T'.slack? t = some s
  objective : T.objective = T'.objective

theorem Represents.rearranged [IsStrictOrderedRing K] (h : T.Represents p) (h' : T'.Represents p)
    (hbasis : ∀ c, c ∈ T.basis ↔ c ∈ T'.basis) : Rearranged p T T' where
  rows := by
    obtain ⟨σ, hσ⟩ := h.exists_perm h' hbasis
    refine ⟨σ, fun i => ⟨T.basisAt i, T.rows.getD i [], h.getElem?_basis i.isLt, ?_,
      h.shaped.row_of_lt i.isLt, ?_⟩⟩
    · rw [h'.getElem?_basis (σ i).isLt, (hσ i).1]
    · rw [h'.shaped.row_of_lt (σ i).isLt,
        h.shaped.row_congr h'.shaped i.isLt.le (σ i).isLt.le (hσ i).2]
  objectiveRow := (h.objectiveRow_eq h' hbasis).symm
  values := by
    intro t h0 h1
    have hpoint := h.basicPoint_eq h' hbasis
    refine ⟨_, _, h.primal?_eq h0 h1, ?_, h.slack?_eq h0 h1, ?_⟩
    · rw [h'.primal?_eq h0 h1, hpoint]
    · rw [h'.slack?_eq h0 h1, hpoint]
  objective := (h.objective_eq_of_basis h' hbasis).symm

/-- **The basis determines the tableau.** In exact arithmetic, take two tableaux that sequences of
pivots on nonzero entries lead to from that of a valid problem without negative bounds. If their
bases are equal, the tableaux are; if they hold the same columns, the tableaux agree up to the order
of the constraint rows.

Only a size that does not fit in a word keeps a problem from having a tableau. -/
theorem basis_determines_tableau [IsStrictOrderedRing K] (hvalid : p.validate = .ok ())
    (hrhs : ∀ b ∈ p.rhs, 0 ≤ b) :
    (2 ^ 64 ≤ (p.ncons + 1) * (p.nvars + p.ncons + 1) ∧ Tableau.of p = .fault) ∨
      (∃ T₀, Tableau.of p = .ok T₀) ∧ ∀ T T', Reachable p T → Reachable p T' →
        (T.basis = T'.basis → T = T') ∧
          ((∀ c, c ∈ T.basis ↔ c ∈ T'.basis) → Rearranged p T T') := by
  rcases of_eq_fault_or_ok_of_exact hvalid hrhs with hfault | ⟨-, hok⟩
  · exact Or.inl hfault
  · right
    refine ⟨⟨_, hok⟩, fun T T' hT hT' => ?_⟩
    have h := hT.represents
    have h' := hT'.represents
    exact ⟨h.eq_of_basis_eq h', h.rearranged h'⟩

/-- The tableau of `Problem.twoByTwo` in which both variables are basic, the second one first. -/
def twoByTwoSolved : Tableau ℚ where
  nvars := 2
  body := [[0, 1, 3 / 5, -1 / 5, 6 / 5], [1, 0, -1 / 5, 2 / 5, 8 / 5]]
  objectiveRow := [0, 0, 2 / 5, 1 / 5, 14 / 5]
  basis := [1, 0]

/-- The same with the first one first. -/
def twoByTwoSwapped : Tableau ℚ := { twoByTwoSolved with
  body := [[1, 0, -1 / 5, 2 / 5, 8 / 5], [0, 1, 3 / 5, -1 / 5, 6 / 5]]
  basis := [0, 1] }

theorem twoByTwoSolved_reachable : Reachable Problem.twoByTwo twoByTwoSolved := by
  have hpivot : twoByTwoPivoted.pivot? 0 1 = some twoByTwoSolved := by decide +kernel
  exact .pivot twoByTwoPivoted_reachable (by decide) (by decide) (v := 5 / 3) rfl
    (by decide +kernel) hpivot

theorem twoByTwoSwapped_reachable : Reachable Problem.twoByTwo twoByTwoSwapped := by
  obtain ⟨T, hT⟩ : ∃ T, (initial Problem.twoByTwo).pivot? 0 0 = some T := ⟨_, rfl⟩
  have hfirst : Reachable Problem.twoByTwo T :=
    .pivot (.start rfl) (by decide) (by decide) (v := 1) rfl rfl hT
  have hpivot : T.pivot? 1 1 = some twoByTwoSwapped := by
    cases hT
    decide +kernel
  exact .pivot hfirst (by cases hT; decide) (by cases hT; decide) (v := -5)
    (by cases hT; decide +kernel) (by decide +kernel) hpivot

/-- Two ways to pivot both variables into the basis end with the rows in different orders, and no
way ends at another tableau with one of these bases. -/
theorem twoByTwo_determined :
    Rearranged Problem.twoByTwo twoByTwoSolved twoByTwoSwapped ∧
      ∀ T, Reachable Problem.twoByTwo T → T.basis = [1, 0] → T = twoByTwoSolved := by
  rcases basis_determines_tableau (p := Problem.twoByTwo) rfl (by decide) with
    ⟨hfit, -⟩ | ⟨-, hdetermined⟩
  · exact absurd hfit (by decide)
  · constructor
    · refine (hdetermined _ _ twoByTwoSolved_reachable twoByTwoSwapped_reachable).2 fun c => ?_
      rw [twoByTwoSolved, twoByTwoSwapped]
      simp [or_comm]
    · intro T hT hbasis
      exact (hdetermined _ _ hT twoByTwoSolved_reachable).1 hbasis

end LinProg.Tableau
