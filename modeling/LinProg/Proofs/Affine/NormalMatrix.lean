import LinProg.Proofs.Affine.Projection
import LinProg.Proofs.Ldl.Exactness

/-!
# Pivots of the normal matrix

The normal matrix of `[A | I] diag(x)` is the sum of a matrix without negative directions and the
squares of the slacks on the diagonal. Elimination does not go below these squares
(`LdlStorage.Keeps.factorsAbove`), so the factorization succeeds as long as the squares are above
what the tolerance asks for, whatever the rows of `A` are (`Problem.normalMatrix_factorsAbove`).
-/

open scoped Matrix

namespace LinProg

variable {K : Type} [Field K] [LinearOrder K] [Exact K]

/-- A matrix is factored, and no pivot is less than its bound. -/
def LdlStorage.FactorsAbove {n : ℕ} (s : LdlStorage K) (M : Matrix K) (c : Fin n → K) : Prop :=
  ∃ s', s.factor? M = some (.ok (), s') ∧ ∀ k, c k ≤ Vec.coords n s'.diagonal k

section Pivots

variable [IsStrictOrderedRing K]

/-- The form of a leading block bounds its last pivot from below, where the last coordinate is one.
Bounds above what the tolerance asks for keep all pivots from being singular. -/
theorem LdlStorage.Keeps.factorsAbove {s : LdlStorage K} {u : LdlSolver K} {M : Matrix K} {n : ℕ}
    (h : Keeps s u) (htol : 0 ≤ u.tolerance) (hM : M.Consistent) (hrows : M.nrows = n)
    (hcols : M.ncols = n) (hsize : u.dimension? = none ∨ u.dimension? = some n)
    (hfit : n * n < 2 ^ 64) {c : Fin n → K} (hc : ∀ k, u.tolerance * |M.entries n n k k| < c k)
    (hform : ∀ (k : Fin n) (v : Fin (k + 1) → K), v (Fin.last k) = 1 → c k ≤
      v ⬝ᵥ (lowerSymmetric M n).submatrix (Fin.castLE k.isLt) (Fin.castLE k.isLt) *ᵥ v) :
    s.FactorsAbove M c := by
  rcases h.factor?_cases hM hrows hcols hsize with
    ⟨-, hlacks, -⟩ | ⟨-, S, hget, ⟨R, d, s', hstage, hregular, hs, hd⟩ |
      ⟨i, R, d, s', hi, hstage, hregular, hsingular, hs⟩⟩
  · exact absurd (Matrix.room_iff_lt.mpr hfit) hlacks
  · have hS := Ldl.symmetric_eq_lowerSymmetric hrows hcols hfit hget
    refine ⟨s', hs, fun k => ?_⟩
    rw [hd]
    refine hstage.le_pivot k.isLt (fun i hi => hregular.ne_zero htol i (hi.trans k.isLt)) ?_
    rw [← hS] at hform
    exact hform k
  · have hS := Ldl.symmetric_eq_lowerSymmetric hrows hcols hfit hget
    have hlt := hc ⟨i, hi⟩
    rw [entries_self_eq hS] at hlt
    rw [← hS] at hform
    exact absurd (hregular.lt_abs_nextPivot htol hstage hi hlt (hform ⟨i, hi⟩)) hsingular

end Pivots

namespace Problem

variable {p : Problem K} {x : Fin (p.nvars + p.ncons) → K}

omit [Exact K] in
theorem normalMatrix_self_nonneg [IsStrictOrderedRing K] (k : Fin p.ncons) :
    0 ≤ (p.scaled x * (p.scaled x)ᵀ) k k := by
  rw [Matrix.mul_apply]
  exact Finset.sum_nonneg fun i _ => mul_self_nonneg _

/-- The slack of a constraint at a point. -/
def slackAt (p : Problem K) (xs : List K) (k : Fin p.ncons) : K :=
  Vec.coords (p.nvars + p.ncons) xs (Fin.natAdd p.nvars k)

theorem exists_normalMatrix (hv : p.validate = .ok ()) {w : Workspace K}
    (hw : Workspace.of? p = some w) {xs : List K} (hx : xs.length = p.nvars + p.ncons) :
    p.ncons * p.ncons < 2 ^ 64 ∧ ∃ B, w.augmented.scaleColumns? xs = some B ∧
      B.gram? = some (Matrix.ofMat (p.scaled (Vec.coords _ xs) *
        (p.scaled (Vec.coords _ xs))ᵀ)) := by
  obtain ⟨hfits, rfl⟩ := Workspace.form_of_of?_eq_some hv hw
  obtain ⟨hscale, hgram⟩ := Workspace.form_normalMatrix (x := Vec.coords _ xs) hfits
  rw [Vec.ofFn_coords hx] at hscale
  exact ⟨hfits.square_lt, _, hscale, hgram⟩

/-- **Normal matrices** are never singular where the slacks are not too small, whatever the solver
has been called with before. -/
theorem normalMatrix_factorsAbove [IsStrictOrderedRing K] (hv : p.validate = .ok ())
    {w : Workspace K} (hw : Workspace.of? p = some w) {xs : List K}
    (hx : xs.length = p.nvars + p.ncons) {t : K} (ht : 0 ≤ t) {s : LdlStorage K}
    {log : List (LdlEntry K)} (h : LdlLog LdlStorage.call? { tolerance := t } log s)
    (hsize : settledSize log = none ∨ settledSize log = some p.ncons) :
    ∃ B G, w.augmented.scaleColumns? xs = some B ∧ B.gram? = some G ∧
      ((∀ k, t * G.entries p.ncons p.ncons k k < p.slackAt xs k ^ 2) →
        s.FactorsAbove G fun k => p.slackAt xs k ^ 2) ∧
      (t = 0 → (∀ k, p.slackAt xs k ≠ 0) → s.FactorsAbove G fun k => p.slackAt xs k ^ 2) := by
  obtain ⟨hroom, B, hB, hG⟩ := exists_normalMatrix hv hw hx
  obtain ⟨u, hkeeps, hrecords⟩ := LdlStorage.exists_records h
  obtain rfl := hrecords.tolerance
  rw [← hrecords.size] at hsize
  set X := p.scaled (Vec.coords _ xs) * (p.scaled (Vec.coords _ xs))ᵀ
  have hentries : (Matrix.ofMat X).entries p.ncons p.ncons = X := Matrix.ofMat_entries
  have hsymmetric : lowerSymmetric (Matrix.ofMat X) p.ncons = X := by
    rw [lowerSymmetric_of_isSymm (by rw [hentries]; exact p.isSymm_normalMatrix _), hentries]
  have hconsistent : (Matrix.ofMat X).Consistent := Matrix.hasRows_ofMat.length_data
  have hfactored : (∀ k, u.tolerance * X k k < p.slackAt xs k ^ 2) →
      s.FactorsAbove (Matrix.ofMat X) fun k => p.slackAt xs k ^ 2 := by
    intro hslack
    refine hkeeps.factorsAbove ht hconsistent Matrix.ofMat_nrows Matrix.ofMat_ncols hsize
      hroom (fun k => ?_) fun k v hlast => ?_
    · rw [hentries, abs_of_nonneg (normalMatrix_self_nonneg k)]
      exact hslack k
    · rw [hsymmetric]
      exact Workspace.sq_slack_le_form k hlast
  refine ⟨B, _, hB, hG, ?_, fun hzero hslack => hfactored fun k => ?_⟩
  · rw [hentries]
    exact hfactored
  · rw [hzero, zero_mul]
    exact sq_pos_of_ne_zero (hslack k)

/-- Two rows are the same and one is zero, so `A Aᵀ` is singular. -/
def degenerateRows : Problem ℚ := ⟨[1, 1], ⟨3, 2, [1, 1, 1, 1, 0, 0]⟩, [3, 3, 1]⟩

theorem degenerateRows_factorsAbove :
    ∃ B G, (Workspace.form degenerateRows).augmented.scaleColumns? [1, 1, 1, 1, 1] = some B ∧
      B.gram? = some G ∧ ({ tolerance := 1 / 4 } : LdlStorage ℚ).FactorsAbove G
        fun k => degenerateRows.slackAt [1, 1, 1, 1, 1] k ^ 2 := by
  have hlen : ([1, 1, 1, 1, 1] : List ℚ).length = degenerateRows.nvars + degenerateRows.ncons := rfl
  have hnormal : ((Workspace.form degenerateRows).augmented.scaleColumns? [1, 1, 1, 1, 1]).bind
      Matrix.gram? = some ⟨3, 3, [3, 2, 0, 2, 3, 0, 0, 0, 1]⟩ := by decide +kernel
  have hslack : ∀ k : Fin 3, (1 / 4 : ℚ) * (⟨3, 3, [3, 2, 0, 2, 3, 0, 0, 0, 1]⟩ : Matrix ℚ).entries
      3 3 k k < degenerateRows.slackAt [1, 1, 1, 1, 1] k ^ 2 := by decide +kernel
  obtain ⟨B, G, hB, hG, habove, -⟩ := normalMatrix_factorsAbove (p := degenerateRows)
    (w := Workspace.form degenerateRows) rfl rfl hlen (t := 1 / 4) (by norm_num) .start
    (Or.inl rfl)
  rw [hB, Option.bind_some, hG, Option.some.injEq] at hnormal
  rw [hnormal] at habove hG
  exact ⟨B, _, hB, hG, habove hslack⟩

end Problem

end LinProg
