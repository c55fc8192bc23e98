import LinProg.Proofs.Affine.Sizes
import LinProg.Proofs.Rounded.Numbers

/-!
# Residuals of accepted iterates

An iterate is accepted if its largest residual is within a bound (`AffineScaling.accept?`). The
largest of some values passes over those that are not numbers, so the bound is asked of the rows
whose product with the iterate is a number, and of no other (`Workspace.MeetsBound`).

* `Workspace.Sized.residual_le_iff`: what a small residual says about the rows.
* `AffineScaling.accepts_rows_that_are_numbers`: which rows of an accepted iterate are within the
  bound, at any state of a solve, and that a step is refused for a row only.
* `AffineScaling.overflowing_row_is_accepted`: a row whose product overflows to a difference of
  infinities does not keep an iterate from being accepted.
-/

namespace LinProg

variable {α : Type} [Scalar α]

namespace Workspace

variable {w : Workspace α} {n m : ℕ}

/-- The rows whose product with a point is a number have residuals that are numbers, and within a
bound that is not negative. -/
def MeetsBound (w : Workspace α) (bound : α) (lhs : List α) : Prop :=
  0 ≤ bound ∧ ∀ e ∈ lhs.zip w.rhs, Scalar.isNaN e.1 = false →
    Scalar.isNaN (Scalar.abs (e.1 - e.2)) = false ∧ Scalar.abs (e.1 - e.2) ≤ bound

theorem isFinite_rhs {p : Problem α} (hv : p.validate = .ok ()) (hw : Workspace.of? p = some w) :
    ∀ b ∈ w.rhs, Scalar.isFinite b = true := by
  simp only [of?, Option.bind_eq_bind, Option.bind_eq_some_iff] at hw
  obtain ⟨_, -, _, -, M, -, hw⟩ := hw
  cases hw
  exact List.all_eq_true.mp (Problem.validate_eq_ok_iff.mp hv).2.2.2.2.2.2

theorem Sized.residual_le_iff [OrderedNumbers α] (h : w.Sized n m)
    (hfinite : ∀ b ∈ w.rhs, Scalar.isFinite b = true) {x : List α} (hx : x.length = n + m) {r c : α}
    (hr : w.residual? x = some r) :
    ∃ lhs, w.augmented.product? x = some lhs ∧ lhs.length = m ∧ (r ≤ c ↔ w.MeetsBound c lhs) := by
  obtain ⟨rs, hrows⟩ := h.hasRows
  obtain ⟨lhs, hlhs, hlength⟩ := hrows.exists_product? h.width_pos (hx.trans h.ncols.symm)
  refine ⟨lhs, hlhs, hlength.trans h.nrows, ?_⟩
  rw [residual?, hlhs, Option.bind_eq_bind, Option.bind_some] at hr
  cases hr
  rw [foldl_max_le_iff _ OrderedNumbers.isNaN_zero, List.forall_mem_map, MeetsBound]
  refine and_congr_right fun _ => forall₂_congr fun e he => ?_
  have hnan : Scalar.isNaN (Scalar.abs (e.1 - e.2)) = Scalar.isNaN e.1 := by
    rw [OrderedNumbers.isNaN_abs,
      OrderedNumbers.isNaN_sub _ (hfinite _ (List.of_mem_zip he).2)]
  rw [hnan]
  cases Scalar.isNaN e.1 with
  | false =>
    refine ⟨fun hle _ => ⟨rfl, hle.resolve_left Bool.false_ne_true⟩, fun hle => ?_⟩
    exact Or.inr (hle rfl).2
  | true => exact ⟨fun _ hfalse => Bool.noConfusion hfalse, fun _ => Or.inl rfl⟩

end Workspace

namespace AffineScaling

variable {a : AffineScaling α} {p : Problem α} {start : List α} {w : Workspace α}
  {point : InteriorPoint α}

/-- **The rows that are numbers** decide whether an iterate is accepted. From any state of a solve,
in an arithmetic where numbers are ordered, the machine formats among them:

* an iterate that a step comes to is finite, and meets the residual bound in every row whose
  product with it is a number;
* a step that is refused for its residual would have come to a finite iterate which does not. -/
theorem accepts_rows_that_are_numbers [OrderedNumbers α]
    (hbegin : a.begin p start = .ok (.at w point)) {P : Progress α} {k : ℕ}
    (hP : Reached a w { point := point } k P) {outcome : StepOutcome α} {effort : Effort}
    (hstep : a.step? w P.point P.effort = some (outcome, effort)) :
    (∀ next record, outcome = .advanced next record ∨ outcome = .converged next record →
      Vec.allFinite next.x = true ∧ ∃ lhs, w.augmented.product? next.x = some lhs ∧
        lhs.length = p.ncons ∧
        w.MeetsBound (w.residualBound a.options.feasibilityTolerance) lhs) ∧
    ∀ iteration r, outcome = .failed (.infeasible iteration r) →
      ∃ x, Vec.allFinite x = true ∧ ∃ lhs, w.augmented.product? x = some lhs ∧
        lhs.length = p.ncons ∧
        ¬w.MeetsBound (w.residualBound a.options.feasibilityTolerance) lhs := by
  obtain ⟨hw, hpoint, hzero⟩ := sized_of_begin hbegin
  have hfinite := Workspace.isFinite_rhs (valid_of_begin hbegin).1
    (begin_eq_at_iff.mp hbegin).2.2.2.2
  have hs := (hP.sized hw hpoint hzero).1
  constructor
  · intro next record hleads
    have hadvances : Advances a w P.point P.effort next record effort := by
      rcases hleads with rfl | rfl
      · exact Or.inl hstep
      · exact Or.inr hstep
    obtain ⟨-, hlength, hfollows, -⟩ := hadvances.follows hw hs
    obtain ⟨r, hr, hle⟩ := hfollows.residual
    obtain ⟨lhs, hlhs, hcount, hiff⟩ := hw.residual_le_iff hfinite hlength hr
    exact ⟨hfollows.finite, lhs, hlhs, hcount, hiff.mp hle⟩
  · rintro iteration r rfl
    rcases step?_outcomes hw hs hstep with
      ⟨e, u, -, hsystem, -⟩ | ⟨-, -, hnone | ⟨least, hnone⟩ | ⟨next, least, hlength, haccept⟩⟩
    · cases hsystem
    · cases hnone
    · cases hnone
    · rcases accept?_outcomes haccept with
        ⟨-, hfailed⟩ | ⟨r', hnext, hr, hlarge, -⟩ | ⟨point', record, -, -, hleads⟩
      · cases hfailed
      · obtain ⟨lhs, hlhs, hcount, hiff⟩ := hw.residual_le_iff hfinite hlength hr
        exact ⟨next, hnext, lhs, hlhs, hcount, fun hmeets => hlarge (hiff.mpr hmeets)⟩
      · unfold leads at hleads
        split at hleads
        · cases hleads
        · cases hleads

theorem exists_first_step (a : AffineScaling α) (p : Problem α) (start : List α)
    {Q : Workspace α → List α → Prop} [∀ w lhs, Decidable (Q w lhs)]
    (h : (match a.begin p start with
      | .ok (.at w point) =>
        match a.step? w point {} with
        | some (.advanced next _, _) =>
          (w.augmented.product? next.x).any fun lhs => decide (Q w lhs)
        | _ => false
      | _ => false) = true) :
    ∃ w point next record effort lhs, a.begin p start = .ok (.at w point) ∧
      a.step? w point {} = some (.advanced next record, effort) ∧
      w.augmented.product? next.x = some lhs ∧ Q w lhs := by
  split at h
  · rename_i w point hbegin
    split at h
    · rename_i next record effort hstep
      obtain ⟨lhs, hlhs, hQ⟩ := (Option.any_eq_true _ _).mp h
      exact ⟨w, point, next, record, effort, lhs, hbegin, hstep, hlhs, of_decide_eq_true hQ⟩
    · cases h
  · cases h

/-- Maximise `x₀ + x₁` subject to `x₀ + 2 x₁ ≤ 4`, in binary64. -/
def slopingRow : Problem Float := ⟨[1, 1], ⟨1, 2, [1, 2]⟩, [4]⟩

/-- A step from `(1, 1)` meets the bound in its row. -/
theorem slopingRow_meets_bound : ∃ (w : Workspace Float) (x lhs : List Float),
    Workspace.of? slopingRow = some w ∧ Vec.allFinite x = true ∧
    w.augmented.product? x = some lhs ∧ (∀ l ∈ lhs, Scalar.isNaN l = false) ∧
    w.MeetsBound (w.residualBound 1e-9) lhs := by
  obtain ⟨w, point, next, record, effort, lhs, hbegin, hstep, hlhs, hnumbers⟩ :=
    exists_first_step (of Options.default) slopingRow [1, 1]
      (Q := fun _ lhs => ∀ l ∈ lhs, Scalar.isNaN l = false) (by decide +kernel)
  obtain ⟨haccepted, -⟩ := accepts_rows_that_are_numbers hbegin .start hstep
  obtain ⟨hfinite, lhs', hlhs', -, hmeets⟩ := haccepted next record (Or.inl rfl)
  obtain rfl : lhs = lhs' := Option.some.inj (hlhs.symm.trans hlhs')
  exact ⟨w, next.x, lhs, (begin_eq_at_iff.mp hbegin).2.2.2.2, hfinite, hlhs, hnumbers, hmeets⟩

/-- Maximise `1.001 x₀ + x₁` subject to `1e153 (x₀ - x₁) ≤ 1`, in binary64. -/
def steepStrip : Problem Float := ⟨[1.001, 1], ⟨1, 2, [1e153, -1e153]⟩, [1]⟩

/-- One step with the default settings. -/
def oneStep : AffineScaling Float := of { Options.default with maxIterations := 1 }

/-- **An overflowing row is accepted.** From `(1, 1)` the first step on `steepStrip` comes to about
`(1e156, 1e156)`. Both products in its row overflow, their difference is not a number, and so is
the residual. The solve ends at the limit on its iterations, not as a failure. -/
theorem overflowing_row_is_accepted :
    steepStrip.validate = .ok () ∧ oneStep.options.validate = .ok () ∧
    (∃ w point next record effort lhs, oneStep.begin steepStrip [1, 1] = .ok (.at w point) ∧
      oneStep.step? w point {} = some (.advanced next record, effort) ∧
      w.augmented.product? next.x = some lhs ∧
      ∃ e ∈ lhs.zip w.rhs, Scalar.isNaN (Scalar.abs (e.1 - e.2)) = true) ∧
    ∃ sol, (oneStep.solve steepStrip [1, 1]).Yields (.ok sol) ∧
      sol.status = .maxIterations ∧ sol.iterations = 1 := by
  refine ⟨Problem.validate_eq_ok_iff.mpr (by decide +kernel),
    Options.validate_eq_ok_iff.mpr (by decide +kernel), ?_, ?_⟩
  · exact exists_first_step oneStep steepStrip [1, 1]
      (Q := fun w lhs => ∃ e ∈ lhs.zip w.rhs, Scalar.isNaN (Scalar.abs (e.1 - e.2)) = true)
      (by decide +kernel)
  · exact Timed.exists_yields_ok (x := oneStep.solve steepStrip [1, 1])
      (P := fun sol => sol.status = .maxIterations ∧ sol.iterations = 1) (by decide +kernel)

end AffineScaling

end LinProg
