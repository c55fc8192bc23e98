import LinProg.Proofs.Exact.Programs
import LinProg.Proofs.Ldl.Definite
import LinProg.Proofs.Ldl.History

/-!
# Factors and solutions in storage

What a factorization leaves in storage is `L D Lᵀ` for the symmetric matrix whose lower triangle it
has read, and a solve then replaces a right-hand side by the one solution of the system
(`LdlStorage.factor?_exact`).

* `Ldl.IdentityAbove n L`: the storage holds the identity on the diagonal and above it. This is
  written before the first column, and a column is written below its pivot only.
* `LdlStorage.factor?_congr`: entries above the diagonal are never read.
* `LdlStorage.Decomposes`: what is meant by the factors of a matrix in storage.
-/

open scoped Matrix

namespace LinProg

section Loops

variable {σ β : Type} {l : List β}

theorem of_foldlM_eq_some {f : σ → β → Option σ} {I : σ → Prop}
    (hstep : ∀ x ∈ l, ∀ s s', I s → f s x = some s' → I s') {s s' : σ}
    (h : l.foldlM f s = some s') (hs : I s) : I s' := by
  induction l generalizing s with
  | nil =>
    cases h
    exact hs
  | cons x l ih =>
    obtain ⟨hx, hl⟩ := List.forall_mem_cons.mp hstep
    rw [List.foldlM_cons, Option.bind_eq_bind, Option.bind_eq_some_iff] at h
    obtain ⟨s₁, hs₁, h⟩ := h
    exact ih hl h (hx s s₁ hs hs₁)

theorem foldlM_congr {f g : σ → β → Option σ} (h : ∀ x ∈ l, ∀ s, f s x = g s x) (s : σ) :
    l.foldlM f s = l.foldlM g s := by
  induction l generalizing s with
  | nil => rfl
  | cons x l ih =>
    obtain ⟨hx, hl⟩ := List.forall_mem_cons.mp h
    rw [List.foldlM_cons, List.foldlM_cons, hx s]
    exact congrArg _ (funext fun s' => ih hl s')

end Loops

namespace Ldl

variable {α : Type} [Scalar α] {n j : ℕ} {L L' M M' : Matrix α} {d d' : List α} {tolerance : α}

section Above

/-- On the diagonal and above it the storage holds the identity. -/
def IdentityAbove (n : ℕ) (L : Matrix α) : Prop :=
  ∀ i < n, ∀ k < n, i ≤ k → L.get? i k = some (if i = k then 1 else 0)

theorem Room.set?_of_eq_some (h : Room n L d) {i k : ℕ} (hi : i < n) (hk : k < n) {v : α}
    (hset : L.set? i k v = some L') : Room n L' d ∧
      ∀ i' < n, ∀ k' < n, L'.get? i' k' = if i' = i ∧ k' = k then some v else L.get? i' k' := by
  obtain ⟨L₁, hset₁, hroom, hget⟩ := h.exists_set? hi hk v
  rw [hset, Option.some.injEq] at hset₁
  subst hset₁
  exact ⟨hroom, hget⟩

theorem Room.identityAbove_of_reset? (h : Room n L d) (hreset : reset? n L = some L') :
    Room n L' d ∧ IdentityAbove n L' := by
  -- the rows before `i` are done, and the first `j` entries of row `i`
  let Done (i j : ℕ) (L' : Matrix α) : Prop := Room n L' d ∧ ∀ i' < n, ∀ k < n,
    i' < i ∨ i' = i ∧ k < j → L'.get? i' k = some (if i' = k then 1 else 0)
  have hloop : ∃ L₁, reset? n L = some L₁ ∧ Done n 0 L₁ := by
    refine exists_foldlM_range (I := fun i L' => Done i 0 L') (fun i L₁ hi hL₁ => ?_)
      ⟨h, fun i' _ k _ hdone => by omega⟩
    have hrow : ∃ L₂, (List.range n).foldlM
        (fun L j => L.set? i j (if i = j then 1 else 0)) L₁ = some L₂ ∧ Done i n L₂ := by
      refine exists_foldlM_range (I := fun j L' => Done i j L') (fun j L₂ hj hL₂ => ?_) hL₁
      obtain ⟨L₃, hset, hroom, hget⟩ := hL₂.1.exists_set? hi hj (if i = j then 1 else 0)
      refine ⟨L₃, hset, hroom, fun i' hi' k hk hdone => ?_⟩
      rw [hget i' hi' k hk]
      by_cases hnew : i' = i ∧ k = j
      · obtain ⟨rfl, rfl⟩ := hnew
        exact if_pos ⟨rfl, rfl⟩
      · rw [if_neg hnew]
        exact hL₂.2 i' hi' k hk (by omega)
    obtain ⟨L₂, hL₂, hroom, hdone⟩ := hrow
    exact ⟨L₂, hL₂, hroom, fun i' hi' k hk hlt => hdone i' hi' k hk (by omega)⟩
  obtain ⟨L₁, hL₁, hroom, hdone⟩ := hloop
  rw [hreset, Option.some.injEq] at hL₁
  subst hL₁
  exact ⟨hroom, fun i hi k hk _ => hdone i hi k hk (Or.inl hi)⟩

theorem IdentityAbove.of_fillColumn? (h : IdentityAbove n L) (hroom : Room n L d) (hj : j < n)
    {pivot : α} (hfill : fillColumn? M d n j pivot L = some L') :
    Room n L' d ∧ IdentityAbove n L' := by
  refine of_foldlM_eq_some (I := fun L' => Room n L' d ∧ IdentityAbove n L')
    (fun i hi L₁ L₂ hL₁ hturn => ?_) hfill ⟨hroom, h⟩
  rw [List.mem_range'_1] at hi
  simp only [Option.bind_eq_bind, Option.bind_eq_some_iff] at hturn
  obtain ⟨m, -, v, -, hset⟩ := hturn
  obtain ⟨hroom', hget⟩ := hL₁.1.set?_of_eq_some (by omega : i < n) hj hset
  refine ⟨hroom', fun i' hi' k hk hle => ?_⟩
  rw [hget i' hi' k hk, if_neg (by omega)]
  exact hL₁.2 i' hi' k hk hle

omit [Scalar α] in
theorem length_of_put?_eq_some {l l' : List α} {i : ℕ} {v : α} (h : put? l i v = some l') :
    l'.length = l.length := by
  unfold put? at h
  split at h
  · cases h
    exact List.length_set
  · cases h

theorem IdentityAbove.of_sweep? (h : IdentityAbove n L) (hroom : Room n L d) {js : List ℕ}
    (hjs : ∀ j ∈ js, j < n) {r : Except (LdlError α) Unit}
    (hsweep : sweep? M tolerance n js L d = some (r, L', d')) : IdentityAbove n L' := by
  induction js generalizing L d with
  | nil =>
    cases hsweep
    exact h
  | cons j js ih =>
    obtain ⟨hj, hrest⟩ := List.forall_mem_cons.mp hjs
    simp only [sweep?, Option.bind_eq_bind, Option.bind_eq_some_iff] at hsweep
    obtain ⟨m, -, pivot, -, hsweep⟩ := hsweep
    split at hsweep
    · obtain ⟨d₁, hput, L₁, hfill, hsweep⟩ := by
        simpa only [Option.bind_eq_some_iff] using hsweep
      have hroom' : Room n L d₁ :=
        { hroom with length_diagonal := (length_of_put?_eq_some hput).trans hroom.length_diagonal }
      obtain ⟨hroom₁, habove⟩ := h.of_fillColumn? hroom' hj hfill
      exact ih habove hroom₁ hrest hsweep
    · cases hsweep
      exact h

end Above

section Below

/-- Entries on and below the diagonal are the same in both matrices. -/
def SameLower (n : ℕ) (M M' : Matrix α) : Prop := ∀ i < n, ∀ k ≤ i, M'.get? i k = M.get? i k

theorem SameLower.fillColumn?_eq (h : SameLower n M M') (pivot : α) :
    fillColumn? M' d n j pivot L = fillColumn? M d n j pivot L := by
  refine foldlM_congr (fun i hi L₁ => ?_) L
  rw [List.mem_range'_1] at hi
  rw [h i (by omega) j (by omega)]

theorem SameLower.sweep?_eq (h : SameLower n M M') {js : List ℕ} (hjs : ∀ j ∈ js, j < n) :
    sweep? M' tolerance n js L d = sweep? M tolerance n js L d := by
  induction js generalizing L d with
  | nil => rfl
  | cons j js ih =>
    obtain ⟨hj, hrest⟩ := List.forall_mem_cons.mp hjs
    simp only [sweep?, h j hj j le_rfl, h.fillColumn?_eq, ih hrest]

end Below

end Ldl

namespace LdlStorage

section Calls

variable {α : Type} [Scalar α] {s s' : LdlStorage α} {u : LdlSolver α} {M M' : Matrix α}

/-- **Entries above the diagonal** are never read: a matrix with the same lower triangle leads to
the same result and the same storage. -/
theorem factor?_congr (hrows : M'.nrows = M.nrows) (hcols : M'.ncols = M.ncols)
    (h : Ldl.SameLower M.nrows M M') : s.factor? M' = s.factor? M := by
  have hwrite : ∀ s₁ : LdlStorage α, M.nrows = s₁.dimension →
      s₁.overwrite? M' = s₁.overwrite? M := by
    intro s₁ hs₁
    rw [hs₁] at h
    simp only [overwrite?, h.sweep?_eq fun j hj => List.mem_range.mp hj]
  unfold factor?
  rw [hrows, hcols]
  split
  · rfl
  · refine congrArg _ (funext fun s₁ => ?_)
    split
    · rfl
    · rename_i hs₁
      exact hwrite s₁ (not_not.mp hs₁)

theorem Keeps.exists_overwrite? (h : Keeps s u) (hs : s.factor? M = some (.ok (), s')) :
    ∃ s₁ : LdlStorage α, s₁.overwrite? M = some (.ok (), s') ∧
      Ldl.Room M.nrows s₁.lower s₁.diagonal := by
  unfold factor? at hs
  split at hs
  · cases hs
  · obtain ⟨s₁, hs₁, hs⟩ := Option.bind_eq_some_iff.mp hs
    split at hs
    · cases hs
    · rename_i hsize
      refine ⟨s₁, hs, ?_⟩
      have hroom : ∃ n, Ldl.Room n s₁.lower s₁.diagonal := by
        cases hu : u.dimension? with
        | none =>
          rw [ensureAnalysed?, h.analysed_eq_false hu] at hs₁
          rcases h.analyse?_cases M.nrows with ⟨-, hnone, -⟩ | ⟨s₂, hs₂, -, hkeeps⟩
          · rw [hnone] at hs₁
            cases hs₁
          · rw [hs₂] at hs₁
            cases hs₁
            exact ⟨_, (hkeeps.room rfl).2⟩
        | some n =>
          obtain ⟨hanalysed, hroom⟩ := h.room hu
          rw [ensureAnalysed?, hanalysed] at hs₁
          cases hs₁
          exact ⟨n, hroom⟩
      obtain ⟨n, hroom⟩ := hroom
      have hn : M.nrows = n := (not_not.mp hsize).trans hroom.nrows
      rwa [hn]

theorem Keeps.identityAbove_of_factor? (h : Keeps s u) (hs : s.factor? M = some (.ok (), s')) :
    Ldl.IdentityAbove M.nrows s'.lower := by
  obtain ⟨s₁, hs₁, hroom⟩ := h.exists_overwrite? hs
  have hdimension : s₁.dimension = M.nrows := hroom.nrows
  simp only [overwrite?, hdimension, Option.bind_eq_bind, Option.bind_eq_some_iff] at hs₁
  obtain ⟨L, hreset, ⟨r, L', d'⟩, hsweep, hs₁⟩ := hs₁
  obtain ⟨hroom', habove⟩ := hroom.identityAbove_of_reset? hreset
  have hfinal := habove.of_sweep? hroom' (fun j hj => List.mem_range.mp hj) hsweep
  cases r with
  | error e => cases hs₁
  | ok v =>
    cases hs₁
    exact hfinal

end Calls

end LdlStorage

section Exact

variable {K : Type} [Field K] {n : ℕ}

/-- The symmetric matrix given by a lower triangle. -/
def lowerSymmetric (M : Matrix K) (n : ℕ) : Mat n n K :=
  .of fun i k => M.entries n n (max i k) (min i k)

theorem lowerSymmetric_of_isSymm {M : Matrix K} (h : (M.entries n n).IsSymm) :
    lowerSymmetric M n = M.entries n n := by
  ext i k
  rw [lowerSymmetric, Matrix.of_apply]
  rcases le_total i k with hik | hki
  · rw [max_eq_right hik, min_eq_left hik]
    exact h.apply i k
  · rw [max_eq_left hki, min_eq_right hki]

theorem entries_self_eq {M : Matrix K} {S : ℕ → ℕ → K}
    (hS : Ldl.symmetric n S = lowerSymmetric M n) (k : Fin n) : M.entries n n k k = S k k := by
  have hdiagonal := congrFun (congrFun hS k) k
  rw [Ldl.symmetric, lowerSymmetric, Matrix.of_apply, Matrix.of_apply, max_self, min_self,
    max_self, min_self] at hdiagonal
  exact hdiagonal.symm

theorem Matrix.entries_eq_of_get? {M : Matrix K} (hrows : M.nrows = n) (hcols : M.ncols = n)
    (hfit : n * n < 2 ^ 64) {i k : Fin n} {v : K} (h : M.get? i k = some v) :
    M.entries n n i k = v := by
  rw [Matrix.get?_eq_getElem? (by rwa [hrows, hcols]) (by rw [hrows]; exact i.isLt)
    (by rw [hcols]; exact k.isLt)] at h
  rw [Matrix.entries, Matrix.of_apply, List.getD_eq_getElem?_getD, h, Option.getD_some]

variable [LinearOrder K] [Exact K]

namespace Ldl

variable {L M : Matrix K} {d e : List K} {R : ℕ → List K} {S : ℕ → ℕ → K} {tolerance : K}

theorem Holds.entries_eq (h : Holds n L d R e) (hR : ∀ i < n, (R i).length = i)
    (habove : IdentityAbove n L) : L.entries n n = unitLower n R := by
  have hentry : ∀ {i k : Fin n} {v : K}, L.get? i k = some v → L.entries n n i k = v :=
    Matrix.entries_eq_of_get? h.room.nrows h.room.ncols h.room.stored.1
  have hshort : ∀ i < n, (R i).length ≤ i := fun i hi => (hR i hi).le
  ext i k
  rcases lt_trichotomy i k with hik | rfl | hki
  · have hzero := habove i i.isLt k k.isLt hik.le
    rw [if_neg (Fin.val_ne_of_ne hik.ne)] at hzero
    rw [hentry hzero, unitLower_of_lt hshort hik]
  · have hone := habove i i.isLt i i.isLt le_rfl
    rw [if_pos rfl] at hone
    rw [hentry hone, unitLower_self hshort i]
  · have hlt : k.val < (R i).length := by rw [hR i i.isLt]; exact hki
    have hrow := h.rows i i.isLt k hlt
    rw [List.getElem?_eq_getElem hlt] at hrow
    rw [hentry hrow, unitLower, Matrix.add_apply, Matrix.one_apply_ne hki.ne', zero_add,
      strictLower, Matrix.of_apply, Vec.coords, List.getD_eq_getElem _ _ hlt]

omit [LinearOrder K] [Exact K] in
theorem symmetric_eq_lowerSymmetric (hrows : M.nrows = n) (hcols : M.ncols = n)
    (hfit : n * n < 2 ^ 64) (hget : ∀ i < n, ∀ k < n, M.get? i k = some (S i k)) :
    symmetric n S = lowerSymmetric M n := by
  have hentry : ∀ i k : Fin n, M.entries n n i k = S i k := fun i k =>
    Matrix.entries_eq_of_get? hrows hcols hfit (hget i i.isLt k k.isLt)
  ext i k
  rw [symmetric, lowerSymmetric, Matrix.of_apply, Matrix.of_apply, hentry]
  rcases le_total i k with hik | hki
  · rw [max_eq_right hik, min_eq_left hik, max_eq_right (Fin.val_le_of_le hik),
      min_eq_left (Fin.val_le_of_le hik)]
  · rw [max_eq_left hki, min_eq_right hki, max_eq_left (Fin.val_le_of_le hki),
      min_eq_right (Fin.val_le_of_le hki)]

theorem Stage.isUnit_symmetric (h : Stage S n n R d) (hd : ∀ k < n, d.getD k 0 ≠ 0) :
    IsUnit (symmetric n S) := by
  have hR : ∀ i < n, (R i).length ≤ i := fun i hi => (h.length_row_of_lt hi).le
  have hpivots : IsUnit (pivots n d) := by
    rw [pivots, Matrix.isUnit_diagonal, Pi.isUnit_iff]
    exact fun i => (hd i i.isLt).isUnit
  rw [← h.product_eq fun k hk => hd k (Nat.lt_of_succ_lt hk)]
  exact ((isUnit_unitLower hR).mul hpivots).mul
    ((Matrix.isUnit_transpose _).mpr (isUnit_unitLower hR))

end Ldl

namespace LdlStorage

/-- The storage holds the factors of an `n × n` matrix of which the lower triangle counts, and
solves with them. -/
structure Decomposes (s : LdlStorage K) (M : Matrix K) (n : ℕ) : Prop where
  size : s.lower.nrows = n ∧ s.lower.ncols = n ∧ s.lower.Consistent ∧ s.diagonal.length = n
  lower_self : ∀ i, s.lower.entries n n i i = 1
  lower_of_lt : ∀ i k, i < k → s.lower.entries n n i k = 0
  pivot_ne_zero : ∀ i, Vec.coords n s.diagonal i ≠ 0
  product_eq : s.lower.entries n n * .diagonal (Vec.coords n s.diagonal) *
    (s.lower.entries n n)ᵀ = lowerSymmetric M n
  /-- A right-hand side is replaced by the one solution of the system. -/
  solve : ∀ r : List K, r.length = n → ∃ x, s.solve? r = some (.ok (), x) ∧ x.length = n ∧
    lowerSymmetric M n *ᵥ Vec.coords n x = Vec.coords n r ∧
    ∀ y : List K, y.length = n → lowerSymmetric M n *ᵥ Vec.coords n y = Vec.coords n r → y = x

variable {s s' : LdlStorage K} {u : LdlSolver K} {M : Matrix K}

theorem decomposes_of_stage {S : ℕ → ℕ → K} {R : ℕ → List K} {e : List K}
    (hstage : Ldl.Stage S n n R e) (he : ∀ k < n, e.getD k 0 ≠ 0)
    (hholds : Ldl.Holds n s.lower s.diagonal R e) (habove : Ldl.IdentityAbove n s.lower)
    (hS : Ldl.symmetric n S = lowerSymmetric M n)
    (hsolve : ∀ r : List K, r.length = n →
      s.solve? r = some (.ok (), Ldl.Factors.solve ⟨(List.range n).map R, e⟩ r)) :
    s.Decomposes M n := by
  have hR : ∀ i < n, (R i).length = i := fun i hi => hstage.length_row_of_lt hi
  have hshort : ∀ i < n, (R i).length ≤ i := fun i hi => (hR i hi).le
  have hlower := hholds.entries_eq hR habove
  have hdiagonal : Vec.coords n s.diagonal = Vec.coords n e := by
    funext i
    have hi : i.val < e.length := by rw [hstage.length_diagonal]; exact i.isLt
    rw [Vec.coords, Vec.coords, List.getD_eq_getElem?_getD, List.getD_eq_getElem?_getD,
      hholds.pivots i hi]
  exact
    { size := ⟨hholds.room.nrows, hholds.room.ncols, hholds.room.consistent,
        hholds.room.length_diagonal⟩
      lower_self := fun i => by rw [hlower, Ldl.unitLower_self hshort]
      lower_of_lt := fun i k hik => by rw [hlower, Ldl.unitLower_of_lt hshort hik]
      pivot_ne_zero := fun i => by
        rw [hdiagonal]
        exact he i i.isLt
      product_eq := by
        rw [hlower, hdiagonal, ← hS]
        exact hstage.product_eq fun k hk => he k (Nat.lt_of_succ_lt hk)
      solve := by
        intro r hr
        obtain ⟨x, hx, hlen, hsolves⟩ := hstage.solve_spec he hr
        rw [hS] at hsolves
        refine ⟨x, by rw [hsolve r hr, hx], hlen, hsolves, fun y hy hsolves' => ?_⟩
        have hunit : IsUnit (lowerSymmetric M n) := hS ▸ hstage.isUnit_symmetric he
        have hcoords : Vec.coords n y = Vec.coords n x :=
          Matrix.mulVec_injective_iff_isUnit.mpr hunit (hsolves'.trans hsolves.symm)
        rw [← Vec.ofFn_coords hy, ← Vec.ofFn_coords hlen, hcoords] }

theorem Keeps.decomposes_of_factor? [IsStrictOrderedRing K] (h : Keeps s u)
    (htol : 0 ≤ u.tolerance) (hM : M.Consistent) (hrows : M.nrows = n)
    (hs : s.factor? M = some (.ok (), s')) : s'.Decomposes M n := by
  have habove := h.identityAbove_of_factor? hs
  rw [hrows] at habove
  cases h.factorOutcome hM with
  | noRoom _ _ _ hs₁ _ =>
    rw [hs] at hs₁
    cases hs₁
  | rejected e _ _ hs₁ _ =>
    rw [hs] at hs₁
    cases hs₁
  | singular j v s₁ _ _ _ hs₁ _ _ =>
    rw [hs] at hs₁
    cases hs₁
  | factored F s₁ hsquare _ hF hs₁ _ hkeeps =>
    rw [hs] at hs₁
    cases hs₁
    have hcols : M.ncols = n := hsquare.symm.trans hrows
    obtain ⟨-, -, R', hlower, -, -, hholds⟩ := hkeeps.stage
    rw [hrows] at hlower hholds
    have hfit : n * n < 2 ^ 64 := hholds.room.stored.1
    have hget : ∀ i < n, ∀ k < n, M.get? i k =
        some (entryAt (Matrix.pieces M.ncols M.nrows M.data) i k) := fun i hi k hk =>
      hM.hasRows.get?_eq (by rwa [hrows, hcols]) (hrows.symm ▸ hi) (hcols.symm ▸ hk)
    rcases Ldl.Stage.factor_cases u.tolerance hrows hget with
      ⟨R, e, hstage, hregular, hF'⟩ | ⟨i, R, e, -, -, -, -, hF'⟩
    · rw [hF, Outcome.ok.injEq] at hF'
      subst hF'
      -- the rows that the storage holds are those of the last stage
      have hrow : ∀ i < n, R i = R' i := by
        intro i hi
        have hi' := congrArg (fun l => l[i]?) hlower
        simpa [hi] using hi'
      exact decomposes_of_stage hstage (hregular.ne_zero htol) (hholds.congr hrow) habove
        (Ldl.symmetric_eq_lowerSymmetric hrows hcols hfit hget)
        fun r hr => hkeeps.solve_factored rfl (hr.trans hrows.symm)
    · rw [hF] at hF'
      cases hF'

/-- **Factorization and solution** are exact, whatever the solver has been called with before. -/
theorem factor?_exact [IsStrictOrderedRing K] {t : K} (ht : 0 ≤ t) {log : List (LdlEntry K)}
    (h : LdlLog LdlStorage.call? { tolerance := t } log s) (hM : M.Consistent)
    (hrows : M.nrows = n) (hcols : M.ncols = n) (hs : s.factor? M = some (.ok (), s')) :
    s'.Decomposes M n ∧ ((M.entries n n).IsSymm → lowerSymmetric M n = M.entries n n) ∧
      ∀ M' : Matrix K, M'.nrows = n → M'.ncols = n → Ldl.SameLower n M M' →
        s.factor? M' = s.factor? M := by
  obtain ⟨u, hkeeps, hrecords⟩ := exists_records h
  refine ⟨hkeeps.decomposes_of_factor? (hrecords.tolerance ▸ ht) hM hrows hs,
    lowerSymmetric_of_isSymm, fun M' hrows' hcols' hlower => ?_⟩
  exact factor?_congr (hrows'.trans hrows.symm) (hcols'.trans hcols.symm) (hrows ▸ hlower)

/-- A matrix that is not symmetric, after a factorization that broke off. -/
theorem rewritten_exact : rewritten.Decomposes ⟨2, 2, [1, 7, 3, 10]⟩ 2 ∧
    halfWritten.factor? ⟨2, 2, [1, 3, 3, 10]⟩ = halfWritten.factor? ⟨2, 2, [1, 7, 3, 10]⟩ := by
  have hfactor : halfWritten.factor? ⟨2, 2, [1, 7, 3, 10]⟩ = some (.ok (), rewritten) := by
    decide +kernel
  obtain ⟨hdecomposes, -, hcongr⟩ :=
    factor?_exact le_rfl halfWritten_log (by rfl) rfl rfl hfactor
  refine ⟨hdecomposes, hcongr ⟨2, 2, [1, 3, 3, 10]⟩ rfl rfl ?_⟩
  intro i hi k hk
  interval_cases i
  · interval_cases k
    rfl
  · interval_cases k
    · rfl
    · rfl

end LdlStorage

end Exact

end LinProg
