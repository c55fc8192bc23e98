import LinProg.Proofs.Affine.Projection

/-!
# Moves of affine scaling in exact arithmetic

A move goes from `x` along a projected cost `q` (`moved`), unless that has vanished (`nextPoint`).
The new point solves the same equations, keeps a part of every coordinate and never has a smaller
objective. What another solution gains on `x` it gains along `q` (`value_sub_eq`), so a short move
bounds it (`sq_gain_le`).
-/

open scoped Matrix

namespace LinProg.AffineScaling

variable {K : Type} [Field K] [LinearOrder K]

/-- The point that a move along a projected cost leads to. -/
def moved {N : ℕ} (alpha least : K) (x q : Fin N → K) : Fin N → K :=
  fun i => x i * (1 + alpha * q i / |least|)

section Moved

variable {p : Problem K} {x q : Fin (p.nvars + p.ncons) → K} {alpha least : K}

theorem moved_eq {N : ℕ} (alpha least : K) (x q : Fin N → K) :
    moved alpha least x q = x + (alpha / |least|) • (Matrix.diagonal x *ᵥ q) := by
  funext i
  rw [moved, Pi.add_apply, Pi.smul_apply, Matrix.mulVec_diagonal, smul_eq_mul]
  ring

omit [LinearOrder K] in
theorem augmented_mulVec_direction (hq : p.scaled x *ᵥ q = 0) :
    p.augmented *ᵥ (Matrix.diagonal x *ᵥ q) = 0 := by
  rw [Matrix.mulVec_mulVec]
  exact hq

omit [LinearOrder K] in
theorem value_scaled (hq : IsProjection (p.scaled x) (p.scaledCosts x) q)
    {d : Fin (p.nvars + p.ncons) → K} (hd : p.scaled x *ᵥ d = 0) :
    p.augmentedCosts ⬝ᵥ Matrix.diagonal x *ᵥ d = q ⬝ᵥ d := by
  have hscaled : p.augmentedCosts ⬝ᵥ Matrix.diagonal x *ᵥ d = p.scaledCosts x ⬝ᵥ d := by
    refine Finset.sum_congr rfl fun i _ => ?_
    rw [Matrix.mulVec_diagonal, Problem.scaledCosts, Pi.mul_apply, mul_assoc]
  rw [hscaled, hq.dotProduct_of_kernel hd]

omit [LinearOrder K] in
theorem value_direction (hq : IsProjection (p.scaled x) (p.scaledCosts x) q) :
    p.augmentedCosts ⬝ᵥ Matrix.diagonal x *ᵥ q = q ⬝ᵥ q := value_scaled hq hq.kernel

theorem value_direction_pos [IsStrictOrderedRing K]
    (hq : IsProjection (p.scaled x) (p.scaledCosts x) q) (hne : q ≠ 0) :
    0 < p.augmentedCosts ⬝ᵥ Matrix.diagonal x *ᵥ q := by
  rw [value_direction hq]
  have hnonneg : 0 ≤ q ⬝ᵥ q := Finset.sum_nonneg fun i _ => mul_self_nonneg _
  exact lt_of_le_of_ne hnonneg fun hzero => hne (dotProduct_self_eq_zero.mp hzero.symm)

omit [LinearOrder K] in
theorem value_sub_eq (hx : ∀ i, x i ≠ 0) (hq : IsProjection (p.scaled x) (p.scaledCosts x) q)
    {z : Fin (p.nvars + p.ncons) → K} (hz : p.augmented *ᵥ z = p.augmented *ᵥ x) :
    p.augmentedCosts ⬝ᵥ z - p.augmentedCosts ⬝ᵥ x = q ⬝ᵥ fun i => (z i - x i) / x i := by
  have hdirection : (Matrix.diagonal x *ᵥ fun i => (z i - x i) / x i) = z - x := by
    funext i
    rw [Matrix.mulVec_diagonal, mul_div_cancel₀ _ (hx i), Pi.sub_apply]
  have hkernel : (p.scaled x *ᵥ fun i => (z i - x i) / x i) = 0 := by
    rw [Problem.scaled, ← Matrix.mulVec_mulVec, hdirection, Matrix.mulVec_sub, hz, sub_self]
  rw [← value_scaled hq hkernel, hdirection, dotProduct_sub]

theorem augmented_mulVec_moved (hq : p.scaled x *ᵥ q = 0) :
    p.augmented *ᵥ moved alpha least x q = p.augmented *ᵥ x := by
  rw [moved_eq, Matrix.mulVec_add, Matrix.mulVec_smul, augmented_mulVec_direction hq, smul_zero,
    add_zero]

theorem value_moved (hq : IsProjection (p.scaled x) (p.scaledCosts x) q) :
    p.augmentedCosts ⬝ᵥ moved alpha least x q =
      p.augmentedCosts ⬝ᵥ x + alpha * (q ⬝ᵥ q) / |least| := by
  rw [moved_eq, dotProduct_add, dotProduct_smul, value_direction hq, smul_eq_mul]
  ring

theorem le_moved [IsStrictOrderedRing K] (halpha : 0 ≤ alpha) (hx : ∀ i, 0 ≤ x i)
    (hleast : ∀ i, least ≤ q i) (i : Fin (p.nvars + p.ncons)) :
    (1 - alpha) * x i ≤ moved alpha least x q i := by
  have hratio : -1 ≤ q i / |least| := by
    rcases le_or_gt 0 (q i) with hq | hq
    · exact (neg_nonpos.mpr zero_le_one).trans (div_nonneg hq (abs_nonneg _))
    · -- the least entry is negative as well, and no entry is below it
      have hneg : least < 0 := (hleast i).trans_lt hq
      rw [abs_of_neg hneg, le_div_iff₀ (neg_pos.mpr hneg)]
      have := hleast i
      linarith
  have hfactor : 1 - alpha ≤ 1 + alpha * q i / |least| := by
    have := mul_le_mul_of_nonneg_left hratio halpha
    rw [← mul_div_assoc] at this
    linarith
  rw [moved, mul_comm]
  exact mul_le_mul_of_nonneg_left hfactor (hx i)

theorem mul_gain_eq [IsStrictOrderedRing K] {N : ℕ} {x q z : Fin N → K} (hx : ∀ i, x i ≠ 0)
    (hleast : least ≠ 0) :
    alpha * (q ⬝ᵥ fun i => (z i - x i) / x i) =
      |least| * ∑ i, (moved alpha least x q i - x i) * ((z i - x i) / x i ^ 2) := by
  have habs : |least| ≠ 0 := abs_ne_zero.mpr hleast
  rw [dotProduct, Finset.mul_sum, Finset.mul_sum]
  refine Finset.sum_congr rfl fun i _ => ?_
  have hi := hx i
  rw [moved]
  field_simp
  ring

/-- **A short move leaves little to gain**, on the scale of the point that it comes from. -/
theorem sq_gain_le [IsStrictOrderedRing K] {N : ℕ} {x q z : Fin N → K} (hx : ∀ i, x i ≠ 0)
    (hleast : least ≠ 0) :
    alpha ^ 2 * (q ⬝ᵥ fun i => (z i - x i) / x i) ^ 2 ≤
      least ^ 2 * ((∑ i, (moved alpha least x q i - x i) ^ 2) *
        ∑ i, ((z i - x i) / x i ^ 2) ^ 2) := by
  rw [← mul_pow, mul_gain_eq hx hleast, mul_pow, sq_abs]
  exact mul_le_mul_of_nonneg_left (Finset.sum_mul_sq_le_sq_mul_sq _ _ _) (sq_nonneg _)

end Moved

variable [Exact K]

/-- The projected cost counts as vanished. -/
def Stationary (p : Problem K) (x q : Fin (p.nvars + p.ncons) → K) : Prop :=
  Vec.normInf (List.ofFn q) ≤ Scalar.epsilon * Vec.normInf (List.ofFn (p.scaledCosts x))

instance (p : Problem K) (x q : Fin (p.nvars + p.ncons) → K) : Decidable (Stationary p x q) :=
  inferInstanceAs (Decidable (_ ≤ _))

/-- The point that a step leads to. -/
def nextPoint (p : Problem K) (alpha least : K) (x q : Fin (p.nvars + p.ncons) → K) :
    Fin (p.nvars + p.ncons) → K :=
  if Stationary p x q then x else moved alpha least x q

section NextPoint

variable {p : Problem K} {x q : Fin (p.nvars + p.ncons) → K} {alpha least : K}

theorem augmented_mulVec_nextPoint (hq : p.scaled x *ᵥ q = 0) :
    p.augmented *ᵥ nextPoint p alpha least x q = p.augmented *ᵥ x := by
  rw [nextPoint]
  split
  · rfl
  · exact augmented_mulVec_moved hq

variable [IsStrictOrderedRing K]

theorem le_nextPoint (halpha : 0 ≤ alpha) (hx : ∀ i, 0 ≤ x i) (hleast : ∀ i, least ≤ q i)
    (i : Fin (p.nvars + p.ncons)) : (1 - alpha) * x i ≤ nextPoint p alpha least x q i := by
  rw [nextPoint]
  split
  · have := mul_nonneg halpha (hx i)
    linarith
  · exact le_moved halpha hx hleast i

theorem value_le_nextPoint (halpha : 0 ≤ alpha)
    (hq : IsProjection (p.scaled x) (p.scaledCosts x) q) :
    p.augmentedCosts ⬝ᵥ x ≤ p.augmentedCosts ⬝ᵥ nextPoint p alpha least x q := by
  rw [nextPoint]
  split
  · exact le_rfl
  · rw [value_moved hq]
    have hgain : 0 ≤ alpha * (q ⬝ᵥ q) / |least| :=
      div_nonneg (mul_nonneg halpha (Finset.sum_nonneg fun i _ => mul_self_nonneg _))
        (abs_nonneg _)
    linarith

theorem ne_zero_of_not_stationary (h : ¬Stationary p x q) : q ≠ 0 := by
  rintro rfl
  apply h
  have hbound : 0 ≤ Scalar.epsilon * Vec.normInf (List.ofFn (p.scaledCosts x)) :=
    mul_nonneg Exact.scalar_epsilon_nonneg (Vec.normInf_nonneg _)
  rw [Stationary, Vec.normInf_le_iff hbound]
  intro v hv
  obtain ⟨i, rfl⟩ := List.mem_ofFn.mp hv
  rw [Pi.zero_apply, abs_zero]
  exact hbound

theorem Stationary.dotProduct_le (h : Stationary p x q) (y : Fin (p.nvars + p.ncons) → K) :
    q ⬝ᵥ y ≤ Scalar.epsilon * Vec.normInf (List.ofFn (p.scaledCosts x)) * ∑ i, |y i| := by
  have hbound : 0 ≤ Scalar.epsilon * Vec.normInf (List.ofFn (p.scaledCosts x)) :=
    mul_nonneg Exact.scalar_epsilon_nonneg (Vec.normInf_nonneg _)
  have hentry := List.forall_mem_ofFn_iff.mp ((Vec.normInf_le_iff hbound).mp h)
  rw [dotProduct, Finset.mul_sum]
  refine Finset.sum_le_sum fun i _ => ?_
  calc q i * y i ≤ |q i| * |y i| := by
        rw [← abs_mul]
        exact le_abs_self _
    _ ≤ _ := mul_le_mul_of_nonneg_right (hentry i) (abs_nonneg _)

theorem nextPoint_cases (hq : IsProjection (p.scaled x) (p.scaledCosts x) q) :
    Stationary p x q ∧ nextPoint p alpha least x q = x ∨
      ¬Stationary p x q ∧ q ≠ 0 ∧
        p.augmentedCosts ⬝ᵥ nextPoint p alpha least x q =
          p.augmentedCosts ⬝ᵥ x + alpha * (q ⬝ᵥ q) / |least| := by
  by_cases hstat : Stationary p x q
  · left
    exact ⟨hstat, if_pos hstat⟩
  · right
    refine ⟨hstat, ne_zero_of_not_stationary hstat, ?_⟩
    rw [nextPoint, if_neg hstat, value_moved hq]

end NextPoint

end LinProg.AffineScaling
