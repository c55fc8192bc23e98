import LinProg.Proofs.Checked.Steps
import LinProg.Proofs.Orders

/-!
# Listing variables and constraints in another order

When a problem lists the variables and constraints of another one in another order
(`Problem.Reordered`, as `Problem.reorder` does by `Problem.reordered_map_value`), the columns of
`[A | I]` are reordered with both. Projections are unique, so the projected cost is reordered in the
same way, although the factors of the normal matrix change completely. What a step makes of it, its
largest and smallest entries, the objective and the length of the step do not depend on the order
(`AffineScaling.outcomeAt_reordered`).
-/

open scoped Matrix

namespace LinProg

section Places

variable {n n' m m' : ℕ} (τ : Fin n' ≃ Fin n) (σ : Fin m' ≃ Fin m)

/-- The order of variables and slacks that orders of variables and of constraints give. -/
def places : Fin (n' + m') ≃ Fin (n + m) :=
  finSumFinEquiv.symm.trans ((Equiv.sumCongr τ σ).trans finSumFinEquiv)

theorem places_castAdd (j : Fin n') : places τ σ (Fin.castAdd m' j) = Fin.castAdd m (τ j) := by
  simp [places]

theorem places_natAdd (i : Fin m') : places τ σ (Fin.natAdd n' i) = Fin.natAdd n (σ i) := by
  simp [places]

theorem append_comp_places {α : Type} (u : Fin n → α) (v : Fin m → α) :
    Fin.append u v ∘ places τ σ = Fin.append (u ∘ τ) (v ∘ σ) := by
  funext i
  refine Fin.addCases (fun j => ?_) (fun k => ?_) i
  · rw [Function.comp_apply, places_castAdd, Fin.append_left, Fin.append_left]
    rfl
  · rw [Function.comp_apply, places_natAdd, Fin.append_right, Fin.append_right]
    rfl

end Places

theorem submatrix_mulVec_comp {K : Type} [Field K] {m m' N N' : ℕ} (B : Mat m N K)
    (σ : Fin m' → Fin m) (e : Fin N' ≃ Fin N) (u : Fin N → K) :
    B.submatrix σ e *ᵥ (u ∘ e) = (B *ᵥ u) ∘ σ := by
  rw [Matrix.submatrix_mulVec_equiv, Function.comp_assoc, Equiv.self_comp_symm, Function.comp_id]

namespace IsProjection

variable {K : Type} [Field K] {m m' N N' : ℕ} {B : Mat m N K} {v q : Fin N → K}

theorem submatrix (h : IsProjection B v q) (σ : Fin m' ≃ Fin m) (e : Fin N' ≃ Fin N) :
    IsProjection (B.submatrix σ e) (v ∘ e) (q ∘ e) := by
  constructor
  · rw [submatrix_mulVec_comp, h.kernel]
    rfl
  · obtain ⟨w, hw⟩ := h.rowSpace
    refine ⟨w ∘ σ, ?_⟩
    rw [Matrix.submatrix_vecMul_equiv, Function.comp_assoc, Equiv.self_comp_symm,
      Function.comp_id, ← hw]
    rfl

end IsProjection

variable {K : Type} [Field K]

/-- `p'` lists the variables and the constraints of `p` in another order. -/
structure Problem.Reordered (p p' : Problem K) (τ : Fin p'.nvars ≃ Fin p.nvars)
    (σ : Fin p'.ncons ≃ Fin p.ncons) : Prop where
  costs : p'.costs = p.costs ∘ τ
  coeffs : p'.coeffs = p.coeffs.submatrix σ τ
  bounds : p'.bounds = p.bounds ∘ σ

namespace Problem.Reordered

variable {p p' : Problem K} {τ : Fin p'.nvars ≃ Fin p.nvars} {σ : Fin p'.ncons ≃ Fin p.ncons}
  (h : p.Reordered p' τ σ)
include h

theorem augmentedCosts_eq : p'.augmentedCosts = p.augmentedCosts ∘ places τ σ := by
  rw [augmentedCosts, augmentedCosts, append_comp_places, h.costs]
  rfl

theorem augmented_eq : p'.augmented = p.augmented.submatrix σ (places τ σ) := by
  have hunit : ∀ i, (Pi.single i 1 : Fin p'.ncons → K) = Pi.single (σ i) 1 ∘ σ := by
    intro i
    funext k
    simp only [Pi.single_apply, Function.comp_apply, σ.injective.eq_iff]
  ext i j
  rw [augmented, augmented, Matrix.submatrix_apply, Matrix.of_apply, Matrix.of_apply,
    ← Function.comp_apply (f := Fin.append _ _), append_comp_places, hunit, h.coeffs]
  rfl

theorem augmented_mulVec_comp (x : Fin (p.nvars + p.ncons) → K) :
    p'.augmented *ᵥ (x ∘ places τ σ) = (p.augmented *ᵥ x) ∘ σ := by
  rw [h.augmented_eq, submatrix_mulVec_comp]

theorem value_comp (x : Fin (p.nvars + p.ncons) → K) :
    p'.augmentedCosts ⬝ᵥ (x ∘ places τ σ) = p.augmentedCosts ⬝ᵥ x := by
  rw [h.augmentedCosts_eq]
  exact Equiv.sum_comp (places τ σ) fun i => p.augmentedCosts i * x i

theorem scaled_comp (x : Fin (p.nvars + p.ncons) → K) :
    p'.scaled (x ∘ places τ σ) = (p.scaled x).submatrix σ (places τ σ) := by
  ext i j
  rw [scaled, scaled, Matrix.submatrix_apply, Matrix.mul_diagonal, Matrix.mul_diagonal,
    h.augmented_eq]
  rfl

theorem scaledCosts_comp (x : Fin (p.nvars + p.ncons) → K) :
    p'.scaledCosts (x ∘ places τ σ) = p.scaledCosts x ∘ places τ σ := by
  rw [scaledCosts, scaledCosts, h.augmentedCosts_eq]
  rfl

theorem withSlacks_comp {start start' : List K}
    (hstart : Vec.coords p'.nvars start' = Vec.coords p.nvars start ∘ τ) :
    p'.withSlacks start' = p.withSlacks start ∘ places τ σ := by
  unfold withSlacks
  dsimp only
  rw [append_comp_places, hstart, h.coeffs, submatrix_mulVec_comp, h.bounds]
  rfl

end Problem.Reordered

variable [LinearOrder K] [Exact K]

open Checked

namespace Vec

theorem coords_map_value {n : ℕ} (x : List (Checked K)) (i : Fin n) :
    coords n (x.map value) i = (coords n x i).value := by
  rw [coords, coords, show (0 : K) = (0 : Checked K).value from rfl, List.getD_map]

theorem coords_map_value_reorder {n a b : ℕ} {x : List (Checked K)} (hlen : x.length = n)
    (e : Equiv.Perm (Fin n)) (ha : a = n) (hb : n = b) :
    coords a ((reorder e x).map value) =
      coords b (x.map value) ∘ (finCongr ha).trans (e.trans (finCongr hb)) := by
  subst ha hb
  funext i
  rw [Function.comp_apply, coords_map_value, coords_map_value, coords_reorder e hlen]
  rfl

end Vec

namespace Problem

section Reorder

variable (p : Problem (Checked K))

omit [LinearOrder K] [Exact K] in
theorem nvars_map_value : (p.map value).nvars = p.nvars := List.length_map _

omit [LinearOrder K] [Exact K] in
theorem ncons_map_value : (p.map value).ncons = p.ncons := List.length_map _

theorem coeffs_map_value (i : Fin (p.map value).ncons) (j : Fin (p.map value).nvars) :
    (p.map value).coeffs i j = (p.constraints.entries p.ncons p.nvars
      (finCongr (ncons_map_value p) i) (finCongr (nvars_map_value p) j)).value := by
  have hzero : (0 : K) = (0 : Checked K).value := rfl
  rw [coeffs, Matrix.entries, Matrix.entries, Matrix.of_apply, Matrix.of_apply, hzero,
    show (p.map value).constraints.data = p.constraints.data.map value from rfl, List.getD_map]
  rfl

variable (τ : Equiv.Perm (Fin p.nvars)) (σ : Equiv.Perm (Fin p.ncons))

/-- The order of the variables, for the problem over the field. -/
def variablePlaces : Fin ((p.reorder τ σ).map value).nvars ≃ Fin (p.map value).nvars :=
  (finCongr ((nvars_map_value _).trans (nvars_reorder τ σ))).trans
    (τ.trans (finCongr (nvars_map_value p).symm))

/-- The order of the constraints, for the problem over the field. -/
def constraintPlaces : Fin ((p.reorder τ σ).map value).ncons ≃ Fin (p.map value).ncons :=
  (finCongr ((ncons_map_value _).trans (ncons_reorder τ σ))).trans
    (σ.trans (finCongr (ncons_map_value p).symm))

theorem reordered_map_value : (p.map value).Reordered ((p.reorder τ σ).map value)
    (variablePlaces p τ σ) (constraintPlaces p τ σ) where
  costs := by
    rw [costs, costs, show ((p.reorder τ σ).map value).cost = (Vec.reorder τ p.cost).map value from
      congrArg (List.map value) (cost_reorder τ σ)]
    exact Vec.coords_map_value_reorder rfl τ _ _
  coeffs := by
    ext i j
    rw [Matrix.submatrix_apply, coeffs_map_value, coeffs_map_value]
    let row := finCongr ((ncons_map_value _).trans (ncons_reorder τ σ)) i
    let column := finCongr ((nvars_map_value _).trans (nvars_reorder τ σ)) j
    have hentry := congrFun (congrFun (Matrix.ofMat_entries
      (X := (p.constraints.entries p.ncons p.nvars).submatrix σ τ)) row) column
    exact congrArg value hentry
  bounds := by
    rw [bounds, bounds, show ((p.reorder τ σ).map value).rhs = (Vec.reorder σ p.rhs).map value from
      congrArg (List.map value) (rhs_reorder τ σ)]
    exact Vec.coords_map_value_reorder rfl σ _ _

end Reorder

end Problem

theorem Vec.normInf_comp {N N' : ℕ} (u : Fin N → K) (e : Fin N' ≃ Fin N) :
    normInf (List.ofFn (u ∘ e)) = normInf (List.ofFn u) := by
  have hbounds : ∀ c, 0 ≤ c →
      (normInf (List.ofFn (u ∘ e)) ≤ c ↔ normInf (List.ofFn u) ≤ c) := by
    intro c hc
    rw [normInf_le_iff hc, normInf_le_iff hc, List.forall_mem_ofFn_iff, List.forall_mem_ofFn_iff]
    exact e.forall_congr_left.trans (by simp)
  exact le_antisymm ((hbounds _ (normInf_nonneg _)).mpr le_rfl)
    ((hbounds _ (normInf_nonneg _)).mp le_rfl)

namespace AffineScaling

variable {p p' : Problem K} {τ : Fin p'.nvars ≃ Fin p.nvars} {σ : Fin p'.ncons ≃ Fin p.ncons}
  {x q : Fin (p.nvars + p.ncons) → K} {least : K} {k : ℕ}

section Reordered

variable (h : p.Reordered p' τ σ)
include h

omit [Exact K] in
theorem Interior.reordered (hx : Interior p x) : Interior p' (x ∘ places τ σ) where
  positive i := hx.positive _
  solves := by rw [h.augmented_mulVec_comp, hx.solves, h.bounds]

omit [Exact K] in
theorem LeastProjected.reordered (hq : LeastProjected p x q least) :
    LeastProjected p' (x ∘ places τ σ) (q ∘ places τ σ) least where
  projection := by
    rw [h.scaled_comp, h.scaledCosts_comp]
    exact hq.projection.submatrix σ (places τ σ)
  le i := hq.le _
  attained := by
    obtain ⟨i, hi⟩ := hq.attained
    exact ⟨(places τ σ).symm i, by rw [Function.comp_apply, Equiv.apply_symm_apply, hi]⟩

theorem stationary_reordered_iff :
    Stationary p' (x ∘ places τ σ) (q ∘ places τ σ) ↔ Stationary p x q := by
  unfold Stationary
  rw [h.scaledCosts_comp, Vec.normInf_comp, Vec.normInf_comp]

theorem nextPoint_reordered (alpha : K) :
    nextPoint p' alpha least (x ∘ places τ σ) (q ∘ places τ σ) =
      nextPoint p alpha least x q ∘ places τ σ := by
  unfold nextPoint
  simp only [stationary_reordered_iff h]
  split
  · rfl
  · rfl

theorem recordAt_reordered (y : Fin (p.nvars + p.ncons) → K) :
    recordAt p' (x ∘ places τ σ) (y ∘ places τ σ) least k = recordAt p x y least k := by
  unfold recordAt
  have hlength : ∑ i, ((y ∘ places τ σ) i - (x ∘ places τ σ) i) ^ 2 = ∑ i, (y i - x i) ^ 2 :=
    Equiv.sum_comp (places τ σ) fun i => (y i - x i) ^ 2
  rw [h.value_comp, hlength]

end Reordered

omit [Exact K] in
theorem LeastProjected.unique [IsStrictOrderedRing K] {q' : Fin (p.nvars + p.ncons) → K}
    {least' : K} (hq : LeastProjected p x q least) (hq' : LeastProjected p x q' least') :
    q = q' ∧ least = least' := by
  obtain rfl := hq.projection.unique hq'.projection
  obtain ⟨i, rfl⟩ := hq.attained
  obtain ⟨i', rfl⟩ := hq'.attained
  exact ⟨rfl, le_antisymm (hq.le i') (hq'.le i)⟩

/-- The same iterate of a problem and of the reordered one. -/
def SameIterate (p p' : Problem K) (τ : Fin p'.nvars ≃ Fin p.nvars)
    (σ : Fin p'.ncons ≃ Fin p.ncons) (s s' : InteriorPoint (Checked K)) : Prop :=
  ∃ x k, Interior p x ∧ s = iterateAt p x k ∧ s' = iterateAt p' (x ∘ places τ σ) k

/-- The same outcome of a step, whether there is one or not. -/
inductive SameOutcome (p p' : Problem K) (τ : Fin p'.nvars ≃ Fin p.nvars)
    (σ : Fin p'.ncons ≃ Fin p.ncons) :
    Option (StepOutcome (Checked K)) → Option (StepOutcome (Checked K)) → Prop
  | broken : SameOutcome p p' τ σ none none
  | notApplicable (least : Checked K) :
    SameOutcome p p' τ σ (some (.notApplicable least)) (some (.notApplicable least))
  | failed (why : StepFailure (Checked K)) :
    SameOutcome p p' τ σ (some (.failed why)) (some (.failed why))
  | advanced {s s' : InteriorPoint (Checked K)} (record : Record (Checked K))
    (h : SameIterate p p' τ σ s s') :
    SameOutcome p p' τ σ (some (.advanced s record)) (some (.advanced s' record))
  | converged {s s' : InteriorPoint (Checked K)} (record : Record (Checked K))
    (h : SameIterate p p' τ σ s s') :
    SameOutcome p p' τ σ (some (.converged s record)) (some (.converged s' record))

variable {o : Options K} {c : Criterion (Checked K)} [IsStrictOrderedRing K]

theorem outcomeAt_reordered (h : p.Reordered p' τ σ) (ho : o.validate = .ok ())
    (hx : Interior p x) (hq : LeastProjected p x q least) :
    SameOutcome p p' τ σ (outcomeAt o c p x q least k)
      (outcomeAt o c p' (x ∘ places τ σ) (q ∘ places τ σ) least k) := by
  unfold outcomeAt moveOutcome
  simp only [stationary_reordered_iff h, nextPoint_reordered h, recordAt_reordered h]
  have hnext := hx.next hq ho
  split
  · exact .notApplicable _
  · split
    · exact .broken
    · split
      · exact .failed _
      · split
        · exact .converged _ ⟨_, k + 1, hnext, rfl, rfl⟩
        · exact .advanced _ ⟨_, k + 1, hnext, rfl, rfl⟩

/-- **Steps from the same iterate** of a problem and of the reordered one. -/
theorem step?_reordered (h : p.Reordered p' τ σ) (hv : p.validate = .ok ())
    (hv' : p'.validate = .ok ()) (hfit : Workspace.Fits p) (hfit' : Workspace.Fits p')
    (ho : o.validate = .ok ()) (hsing : o.singularTolerance = 0)
    {s s' : InteriorPoint (Checked K)} (hs : SameIterate p p' τ σ s s') (effort effort' : Effort) :
    ∃ outcome outcome' spent spent', SameOutcome p p' τ σ outcome outcome' ∧
      step? ⟨o.map .number, c⟩ ((Workspace.form p).map .number) s effort =
        outcome.map (·, spent) ∧
      step? ⟨o.map .number, c⟩ ((Workspace.form p').map .number) s' effort' =
        outcome'.map (·, spent') := by
  obtain ⟨x, k, hx, rfl, rfl⟩ := hs
  obtain ⟨q, least, spent, hq, hstep⟩ :=
    step?_eq_outcomeAt (c := c) (k := k) hv hfit ho hsing hx effort
  obtain ⟨q', least', spent', hq', hstep'⟩ :=
    step?_eq_outcomeAt (c := c) (k := k) hv' hfit' ho hsing (hx.reordered h) effort'
  -- the projection of the reordered problem is the reordered projection
  obtain ⟨rfl, rfl⟩ := (hq.reordered h).unique hq'
  exact ⟨_, _, spent, spent', outcomeAt_reordered h ho hx hq, hstep, hstep'⟩

end AffineScaling

end LinProg
