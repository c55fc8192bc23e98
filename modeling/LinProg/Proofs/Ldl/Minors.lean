import LinProg.Proofs.Ldl.Exactness

/-!
# Singular pivots and leading minors

The leading minors of a matrix are the products of its first pivots (`Stage.minor_eq`). So the test
on a pivot, which sees what the elimination has left of a diagonal entry, compares two minors of
the matrix itself (`Stage.minor_le_iff`), and a factorization names the first column that fails it
(`LdlStorage.factor?_reportsSingular`). The pivots of definite matrices are positive
(`Stage.pivot_pos`).
-/

open scoped Matrix

namespace LinProg

variable {K : Type} [Field K] {n j k : ℕ}

/-- The determinant of the first `k` rows and columns. -/
def leadingMinor (X : Mat n n K) (k : Fin (n + 1)) : K :=
  (X.submatrix (Fin.castLE k.is_le) (Fin.castLE k.is_le)).det

theorem leadingMinor_zero (X : Mat n n K) : leadingMinor X 0 = 1 := Matrix.det_fin_zero

section Definite

variable [LinearOrder K] {X : Mat n n K}

/-- The quadratic form of the matrix is positive. -/
def Definite (X : Mat n n K) : Prop := ∀ u : Fin n → K, u ≠ 0 → 0 < u ⬝ᵥ X *ᵥ u

omit [LinearOrder K] in
theorem extend_dotProduct {f : Fin k → Fin n} (hf : Function.Injective f) (u : Fin k → K)
    (v : Fin n → K) : Function.extend f u 0 ⬝ᵥ v = u ⬝ᵥ (v ∘ f) := by
  refine (Fintype.sum_of_injective f hf _ _ (fun i hi => ?_) fun i => ?_).symm
  · rw [Function.extend_apply' _ _ _ hi, Pi.zero_apply, zero_mul]
  · rw [hf.extend_apply]
    rfl

theorem Definite.submatrix (h : Definite X) {f : Fin k → Fin n} (hf : Function.Injective f) :
    Definite (X.submatrix f f) := by
  intro u hu
  have hextend : Function.extend f u 0 ≠ 0 := by
    intro hzero
    refine hu (funext fun i => ?_)
    rw [← hf.extend_apply u 0 i, hzero]
    rfl
  have hproduct : (X *ᵥ Function.extend f u 0) ∘ f = X.submatrix f f *ᵥ u := by
    funext i
    rw [Function.comp_apply, Matrix.mulVec, dotProduct_comm, extend_dotProduct hf, dotProduct_comm]
    rfl
  rw [← hproduct, ← extend_dotProduct hf]
  exact h _ hextend

theorem Definite.leadingMinor_ne_zero (h : Definite X) (k : Fin (n + 1)) :
    leadingMinor X k ≠ 0 := by
  intro hzero
  obtain ⟨u, hu, hkernel⟩ := Matrix.exists_mulVec_eq_zero_iff.mpr hzero
  have hpos := h.submatrix (Fin.castLE_injective k.is_le) u hu
  rw [hkernel, dotProduct_zero] at hpos
  exact lt_irrefl _ hpos

end Definite

namespace Ldl

variable [LinearOrder K] [Exact K]
variable {S : ℕ → ℕ → K} {t : K} {R : ℕ → List K} {d : List K}

namespace Stage

/-- **Minors are products of pivots.** Only the pivots before the last have to be nonzero. -/
theorem minor_eq (h : Stage S n j R d) (hk : k ≤ j) (hd : ∀ i, i + 1 < k → d.getD i 0 ≠ 0) :
    (symmetric k S).det = ∏ i ∈ Finset.range k, d.getD i 0 := by
  have hstage := h.earlier hk
  have hR : ∀ i < k, ((R i).take k).length ≤ i := fun i hi => (hstage.length_row_of_lt hi).le
  have hnonzero : ∀ i, i + 1 < k → (d.take k).getD i 0 ≠ 0 := by
    intro i hi
    rw [getD_take d (by omega)]
    exact hd i hi
  rw [← hstage.product_eq hnonzero, Matrix.det_mul, Matrix.det_mul, Matrix.det_transpose,
    det_unitLower hR, one_mul, mul_one, pivots, Matrix.det_diagonal, Finset.prod_range]
  exact Finset.prod_congr rfl fun i _ => getD_take d i.isLt

theorem minor_ne_zero (h : Stage S n j R d) (hk : k ≤ j) (hd : ∀ i < k, d.getD i 0 ≠ 0) :
    (symmetric k S).det ≠ 0 := by
  rw [h.minor_eq hk fun i hi => hd i (by omega)]
  exact Finset.prod_ne_zero_iff.mpr fun i hi => hd i (Finset.mem_range.mp hi)

theorem minor_succ (h : Stage S n j R d) (hk : k < j) (hd : ∀ i < k, d.getD i 0 ≠ 0) :
    (symmetric (k + 1) S).det = (symmetric k S).det * d.getD k 0 := by
  rw [h.minor_eq hk fun i hi => hd i (by omega), h.minor_eq hk.le fun i hi => hd i (by omega),
    Finset.prod_range_succ]

theorem abs_pivot_eq (h : Stage S n j R d) (hk : k < j) (hd : ∀ i < k, d.getD i 0 ≠ 0) :
    |d.getD k 0| = |(symmetric (k + 1) S).det / (symmetric k S).det| := by
  rw [h.minor_succ hk hd, mul_div_cancel_left₀ _ (h.minor_ne_zero hk.le hd)]

theorem minor_le_iff [IsStrictOrderedRing K] (h : Stage S n j R d) (hk : k < j)
    (hd : ∀ i < k, d.getD i 0 ≠ 0) (c : K) :
    |(symmetric (k + 1) S).det| ≤ c * |(symmetric k S).det| ↔ |d.getD k 0| ≤ c := by
  rw [h.minor_succ hk hd, abs_mul, mul_comm c,
    mul_le_mul_iff_right₀ (abs_pos.mpr (h.minor_ne_zero hk.le hd))]

theorem pivot_pos (h : Stage S n j R d) (hd : ∀ i < j, d.getD i 0 ≠ 0)
    (hpos : Definite (symmetric n S)) (hk : k < j) : 0 < d.getD k 0 := by
  obtain ⟨u, hlast, hu⟩ := h.exists_form_eq_pivot hk fun i hi => hd i (hi.trans hk)
  rw [← hu]
  refine hpos.submatrix (Fin.castLE_injective (hk.trans_le h.le)) u fun hzero => ?_
  rw [hzero, Pi.zero_apply] at hlast
  exact zero_ne_one hlast

end Stage

theorem Regular.not_minor_le [IsStrictOrderedRing K] (hd : Regular S t j d) (ht : 0 ≤ t)
    (h : Stage S n j R d) (hk : k < j) :
    ¬|(symmetric (k + 1) S).det| ≤ t * |S k k| * |(symmetric k S).det| := by
  rw [h.minor_le_iff hk fun i hi => hd.ne_zero ht i (hi.trans hk)]
  exact not_le.mpr (hd k hk)

end Ldl

section Columns

variable [LinearOrder K] {t : K} {M : Matrix K}

/-- What the elimination leaves of the diagonal entry of column `k` is no more than the part `t` of
it, where the pivot is written as the quotient of two leading minors. -/
def Cancels (t : K) (M : Matrix K) (n : ℕ) (k : Fin n) : Prop :=
  |leadingMinor (lowerSymmetric M n) k.succ| ≤
    t * |M.entries n n k k| * |leadingMinor (lowerSymmetric M n) k.castSucc|

theorem cancels_iff {S : ℕ → ℕ → K} (hS : Ldl.symmetric n S = lowerSymmetric M n) (k : Fin n) :
    Cancels t M n k ↔ |(Ldl.symmetric (k + 1) S).det| ≤
      t * |S k k| * |(Ldl.symmetric k S).det| := by
  rw [Cancels, entries_self_eq hS, ← hS]
  rfl

theorem forall_not_cancels_zero_iff [IsStrictOrderedRing K] : (∀ k, ¬Cancels 0 M n k) ↔
    ∀ k, leadingMinor (lowerSymmetric M n) k ≠ 0 := by
  have hfirst : leadingMinor (lowerSymmetric M n) 0 ≠ 0 := by
    rw [leadingMinor_zero]
    exact one_ne_zero
  rw [Fin.forall_fin_succ, and_iff_right hfirst]
  refine forall_congr' fun k => not_congr ?_
  rw [Cancels, zero_mul, zero_mul, abs_nonpos_iff]

end Columns

namespace LdlStorage

variable [LinearOrder K] [Exact K] {t : K} {s s' : LdlStorage K} {M : Matrix K}

/-- A factorization reports the first column whose pivot cancels, and succeeds without one. -/
structure ReportsSingular (s : LdlStorage K) (t : K) (M : Matrix K) (n : ℕ) : Prop where
  /-- The magnitude is that of the pivot. -/
  singular_iff : ∀ (j : Fin n) (v : K),
    (∃ s', s.factor? M = some (.error (.singular j v), s')) ↔
      IsLeast {k | Cancels t M n k} j ∧
        v = |leadingMinor (lowerSymmetric M n) j.succ /
          leadingMinor (lowerSymmetric M n) j.castSucc|
  ok_iff : (∃ s', s.factor? M = some (.ok (), s')) ↔ ∀ k, ¬Cancels t M n k
  ok_iff_of_zero : t = 0 → ((∃ s', s.factor? M = some (.ok (), s')) ↔
    ∀ k, leadingMinor (lowerSymmetric M n) k ≠ 0)
  definite : t = 0 → (M.entries n n).IsSymm → Definite (M.entries n n) →
    ∃ s', s.factor? M = some (.ok (), s') ∧ ∀ k, 0 < Vec.coords n s'.diagonal k

variable [IsStrictOrderedRing K]

theorem reportsSingular_of_ok (hs : s.factor? M = some (.ok (), s'))
    (hregular : ∀ k, ¬Cancels t M n k)
    (hpos : Definite (lowerSymmetric M n) → ∀ k, 0 < Vec.coords n s'.diagonal k) :
    s.ReportsSingular t M n where
  singular_iff := by
    intro j v
    rw [hs]
    refine iff_of_false ?_ fun hleast => hregular j hleast.1.1
    rintro ⟨s₁, hs₁⟩
    cases hs₁
  ok_iff := iff_of_true ⟨s', hs⟩ hregular
  ok_iff_of_zero := by
    rintro rfl
    exact iff_of_true ⟨s', hs⟩ (forall_not_cancels_zero_iff.mp hregular)
  definite := by
    intro _ hsymm hdefinite
    rw [← lowerSymmetric_of_isSymm hsymm] at hdefinite
    exact ⟨s', hs, hpos hdefinite⟩

theorem reportsSingular_of_error {i : Fin n} {v : K}
    (hs : s.factor? M = some (.error (.singular i v), s'))
    (hleast : IsLeast {k | Cancels t M n k} i)
    (hv : v = |leadingMinor (lowerSymmetric M n) i.succ /
      leadingMinor (lowerSymmetric M n) i.castSucc|) :
    s.ReportsSingular t M n := by
  have hcancels : ¬∀ k, ¬Cancels t M n k := fun hnot => hnot i hleast.1
  have herror : ¬∃ s', s.factor? M = some (.ok (), s') := by
    rintro ⟨s₁, hs₁⟩
    rw [hs] at hs₁
    cases hs₁
  refine ⟨fun j w => ?_, iff_of_false herror hcancels, ?_, ?_⟩
  · rw [hs]
    constructor
    · rintro ⟨s₁, hs₁⟩
      simp only [Option.some.injEq, Prod.mk.injEq, Except.error.injEq, LdlError.singular.injEq]
        at hs₁
      obtain ⟨⟨hij, rfl⟩, -⟩ := hs₁
      rw [← Fin.ext hij]
      exact ⟨hleast, hv⟩
    · rintro ⟨hj, rfl⟩
      rw [hj.unique hleast, ← hv]
      exact ⟨s', rfl⟩
  · rintro rfl
    rw [forall_not_cancels_zero_iff] at hcancels
    exact iff_of_false herror hcancels
  · rintro rfl hsymm hdefinite
    rw [← lowerSymmetric_of_isSymm hsymm] at hdefinite
    exact absurd (forall_not_cancels_zero_iff.mpr hdefinite.leadingMinor_ne_zero) hcancels

/-- **Singular pivots** are reported exactly, whatever the solver has been called with before. -/
theorem factor?_reportsSingular (ht : 0 ≤ t) {log : List (LdlEntry K)}
    (h : LdlLog LdlStorage.call? { tolerance := t } log s)
    (hsize : settledSize log = none ∨ settledSize log = some n) (hM : M.Consistent)
    (hrows : M.nrows = n) (hcols : M.ncols = n) :
    (settledSize log = none ∧ 2 ^ 64 ≤ n * n ∧ s.factor? M = none) ∨
      s.ReportsSingular t M n := by
  obtain ⟨u, hkeeps, hrecords⟩ := exists_records h
  obtain rfl := hrecords.tolerance
  rw [← hrecords.size] at hsize ⊢
  rcases hkeeps.factor?_cases hM hrows hcols hsize with
    ⟨hnone, hlacks, hs⟩ | ⟨hroom, S, hget, ⟨R, d, s', hstage, hregular, hs, hd⟩ |
      ⟨i, R, d, s', hi, hstage, hregular, hsingular, hs⟩⟩
  · rw [Matrix.room_iff_lt, not_lt] at hlacks
    exact Or.inl ⟨hnone, hlacks, hs⟩
  · right
    have hS := Ldl.symmetric_eq_lowerSymmetric hrows hcols hroom.1 hget
    refine reportsSingular_of_ok hs (fun k => ?_) fun hdefinite k => ?_
    · rw [cancels_iff hS]
      exact hregular.not_minor_le ht hstage k.isLt
    · rw [← hS] at hdefinite
      rw [hd]
      exact hstage.pivot_pos (hregular.ne_zero ht) hdefinite k.isLt
  · right
    have hS := Ldl.symmetric_eq_lowerSymmetric hrows hcols hroom.1 hget
    have hnonzero := hregular.ne_zero_next ht hstage
    -- the column after the last regular one, with the pivot that is not kept
    have hnext := hstage.next hi
    have hpivot := hstage.getD_nextDiagonal_self
    refine reportsSingular_of_error (i := ⟨i, hi⟩) hs ⟨?_, fun k hk => ?_⟩ ?_
    · rw [Set.mem_ofPred_eq, cancels_iff hS, hnext.minor_le_iff (Nat.lt_succ_self i) hnonzero,
        hpivot]
      exact not_lt.mp hsingular
    · by_contra hlt
      rw [Set.mem_ofPred_eq, cancels_iff hS] at hk
      exact hregular.not_minor_le ht hstage (Fin.lt_def.mp (not_le.mp hlt)) hk
    · rw [Exact.abs_eq, ← hpivot, hnext.abs_pivot_eq (Nat.lt_succ_self i) hnonzero, ← hS]
      rfl

/-- The second pivot of `[1 2; 2 4]` cancels, also after a factorization that broke off. -/
theorem halfWritten_reportsSingular :
    IsLeast {k : Fin 2 | Cancels (0 : ℚ) ⟨2, 2, [1, 2, 2, 4]⟩ 2 k} 1 ∧
      leadingMinor (lowerSymmetric (⟨2, 2, [1, 2, 2, 4]⟩ : Matrix ℚ) 2) 1 ≠ 0 := by
  have hfactor : ∃ s', halfWritten.factor? ⟨2, 2, [1, 2, 2, 4]⟩ =
      some (.error (.singular (1 : Fin 2) 0), s') := ⟨halfWritten, by decide +kernel⟩
  rcases factor?_reportsSingular (n := 2) (M := ⟨2, 2, [1, 2, 2, 4]⟩) le_rfl halfWritten_log
    (Or.inr rfl) (by rfl) rfl rfl with ⟨hnone, -⟩ | hreports
  · cases hnone
  · have hleast := ((hreports.singular_iff 1 0).mp hfactor).1
    refine ⟨hleast, fun hzero => ?_⟩
    have hfirst : Cancels (0 : ℚ) ⟨2, 2, [1, 2, 2, 4]⟩ 2 0 := by
      rw [Cancels, zero_mul, zero_mul, abs_nonpos_iff]
      exact hzero
    exact absurd (hleast.2 hfirst) (by decide)

end LdlStorage

end LinProg
