import LinProg.Proofs.Affine.Sizes
import LinProg.Proofs.Checked.Steps

/-!
# Where a solve begins

In any arithmetic a solve of a valid problem from a point of the right kind is rejected because of a
row without a positive coefficient, or because the point misses a constraint or is not strictly
inside, or it begins at the point (`AffineScaling.begin_eq`). Nothing is divided before the first
step, so on numbers these are the conditions of exact arithmetic
(`AffineScaling.begin_map_number`).
-/

open scoped Matrix

namespace LinProg

section AnyArithmetic

variable {α : Type} [Scalar α] {p : Problem α} {start lhs : List α}

namespace Precheck

theorem checkRows_forms (M : Matrix α) :
    ((∃ r ∈ M.rows, ∀ v ∈ r, v ≤ 0) ∧ ∃ row, checkRows M = .error (.noSolution row)) ∨
      (¬∃ r ∈ M.rows, ∀ v ∈ r, v ≤ 0) ∧ checkRows M = .ok () := by
  unfold checkRows
  rcases hrow : M.rows.findIdx? fun r => r.all fun v => decide (v ≤ 0) with _ | row
  · right
    rw [hrow]
    refine ⟨?_, rfl⟩
    rintro ⟨r, hr, hall⟩
    have hnone := List.findIdx?_eq_none_iff.mp hrow r hr
    rw [List.all_eq_false] at hnone
    obtain ⟨v, hv, hpos⟩ := hnone
    exact hpos (decide_eq_true (hall v hv))
  · left
    obtain ⟨hlt, hall, -⟩ := List.findIdx?_eq_some_iff_getElem.mp hrow
    rw [hrow]
    refine ⟨⟨_, List.getElem_mem hlt, fun v hv => ?_⟩, row, rfl⟩
    exact of_decide_eq_true (List.all_eq_true.mp hall v hv)

theorem checkStart_forms (tolerance : α)
    (hlhs : p.constraints.productInto? start (List.replicate p.ncons 0) = some lhs) :
    ((∃ e ∈ lhs.zip p.rhs, e.1 > e.2 + tolerance) ∧
      ∃ row l r, checkStart tolerance p start = .error (.infeasibleStart row l r)) ∨
    (¬∃ e ∈ lhs.zip p.rhs, e.1 > e.2 + tolerance) ∧ checkStart tolerance p start = .ok () := by
  have hfails : ∀ (e : α × α) (_ : ℕ),
      decide (e.1 > e.2 + tolerance) = true ↔ ¬¬e.1 > e.2 + tolerance := fun e _ => by
    rw [decide_eq_true_eq, not_not]
  rw [checkStart, hlhs, Outcome.ofOption, Outcome.ok_bind]
  split
  · rename_i e row hfound
    left
    obtain ⟨hmem, hmisses⟩ := of_find?_zipIdx_eq_some hfails hfound
    exact ⟨⟨e, List.mem_of_getElem? hmem, not_not.mp hmisses⟩, row, e.1, e.2, rfl⟩
  · rename_i hnone
    right
    refine ⟨?_, rfl⟩
    rintro ⟨e, he, hmisses⟩
    exact (find?_zipIdx_eq_none_iff hfails).mp hnone e he hmisses

end Precheck

namespace AffineScaling

variable {a : AffineScaling α}

theorem begin_of_bad_point (hv : p.validate = .ok ()) (ho : a.options.validate = .ok ())
    {e : InputError α} (hpoint : p.validatePoint start = .error e) :
    a.begin p start = .error (.start (.input e)) := by
  rw [begin, Precheck.check, hv, ho, hpoint]
  rfl

/-- **Where a solve begins**, in any arithmetic. -/
theorem begin_eq (hv : p.validate = .ok ()) (ho : a.options.validate = .ok ())
    (hpoint : p.validatePoint start = .ok ())
    (hlhs : p.constraints.productInto? start (List.replicate p.ncons 0) = some lhs) :
    a.begin p start =
      if ∃ r ∈ p.constraints.rows, ∀ v ∈ r, v ≤ 0 then .ok (.rejected .noSolution)
      else if ∃ e ∈ lhs.zip p.rhs, e.1 > e.2 + a.options.feasibilityTolerance then
        .ok (.rejected (.notApplicable .initialPoint))
      else if ¬Scalar.Stores α (p.nvars + p.ncons) then .fault
      else if ∃ v ∈ start ++ p.rhs.zipWith (· - ·) lhs, ¬v > 0 then
        .ok (.rejected (.notApplicable .initialPoint))
      else match Workspace.of? p with
        | some w => .ok (.at w ⟨start ++ p.rhs.zipWith (· - ·) lhs, p.nvars, 0⟩)
        | none => .fault := by
  rw [begin, Precheck.check, hv, ho, hpoint]
  simp only [Outcome.ofExcept, Outcome.mapError, Outcome.ok_bind]
  rcases Precheck.checkRows_forms p.constraints with ⟨hrow, row, herror⟩ | ⟨hrows, hok⟩
  · rw [if_pos hrow, herror]
    rfl
  · rw [if_neg hrows, hok]
    rcases Precheck.checkStart_forms a.options.feasibilityTolerance hlhs with
      ⟨hmiss, row, l, r, herror⟩ | ⟨hmisses, hstart⟩
    · rw [if_pos hmiss, Outcome.ok_bind, herror]
      rfl
    · rw [if_neg hmisses, Outcome.ok_bind, hstart, Outcome.ok_bind]
      rcases InteriorPoint.initial_forms hpoint hlhs with
        ⟨hlacks, hfault⟩ | ⟨hstores, ⟨hnot, i, v, herror⟩ | ⟨hall, hinitial⟩⟩
      · rw [if_pos hlacks, hfault]
      · rw [if_neg (not_not.mpr hstores), if_pos hnot, herror]
        rfl
      · rw [if_neg (not_not.mpr hstores), if_neg hall, hinitial]
        cases Workspace.of? p <;> rfl

theorem begin_ne_error (hv : p.validate = .ok ()) (ho : a.options.validate = .ok ())
    (hpoint : p.validatePoint start = .ok ()) (e : AffineError α) :
    a.begin p start ≠ .error e := by
  obtain ⟨lhs, hlhs, -⟩ := Problem.exists_productInto? hv hpoint
  rw [begin_eq hv ho hpoint hlhs]
  split_ifs
  · nofun
  · nofun
  · nofun
  · cases Workspace.of? p <;> nofun
  · nofun

theorem exists_solution (hv : p.validate = .ok ()) (ho : a.options.validate = .ok ())
    (hpoint : p.validatePoint start = .ok ())
    (hroom : Matrix.Room α (p.ncons + 1) (p.nvars + p.ncons + 1))
    (hmax : a.options.maxIterations < 2 ^ 64) {r : Outcome (AffineError α) (Solution α)}
    (hr : (a.solve p start).Yields r) : ∃ sol, r = .ok sol := by
  cases r with
  | ok sol => exact ⟨sol, rfl⟩
  | fault =>
    have hlacks := (solve_eq_fault_iff hv hroom.1 hmax hr).mp rfl
    exact absurd hroom.2 hlacks.not_stores
  | error e =>
    rcases solve_yields hr with
      ⟨_, _, -, s, -, hsol⟩ | ⟨_, -, hsol⟩ | ⟨e', hbegin, -⟩ | ⟨-, hsol⟩
    · cases s <;> cases hsol
    · exact absurd hsol.symm Outcome.ofOption_ne_error
    · exact absurd hbegin (begin_ne_error hv ho hpoint e')
    · cases hsol

end AffineScaling

end AnyArithmetic

open Checked

variable {K : Type} [Field K] [LinearOrder K] [Exact K] {p : Problem K} {start : List K}

theorem Problem.validate_map_number :
    (p.map number).validate = .ok () ↔ p.validate = .ok () := by
  rw [validate_eq_ok_iff, validate_eq_ok_iff]
  simp only [map, Matrix.map, nvars, ncons, Matrix.Consistent, List.length_map,
    Vec.allFinite_map_number, Vec.allFinite_eq_true]

theorem Problem.eq_map_number {p : Problem (Checked K)} (hv : p.validate = .ok ()) :
    p = (p.map value).map number := by
  obtain ⟨-, -, -, -, hcost, hentries, hrhs⟩ := Problem.validate_eq_ok_iff.mp hv
  obtain ⟨cost, ⟨nrows, ncols, data⟩, rhs⟩ := p
  simp only [map, Matrix.map]
  rw [← Vec.map_value_of_allFinite hcost, ← Vec.map_value_of_allFinite hentries,
    ← Vec.map_value_of_allFinite hrhs]

theorem Problem.validate_map_value {p : Problem (Checked K)} (hv : p.validate = .ok ()) :
    (p.map value).validate = .ok () :=
  Problem.validate_map_number.mp (Problem.eq_map_number hv ▸ hv)

theorem Problem.length_map_value {p : Problem (Checked K)} {start : List (Checked K)}
    (hpoint : p.validatePoint start = .ok ()) : (start.map value).length = (p.map value).nvars := by
  rw [List.length_map, Problem.length_of_validatePoint hpoint]
  exact (List.length_map _).symm

theorem Problem.validatePoint_map_number (hlen : start.length = p.nvars) :
    (p.map number).validatePoint (start.map number) = .ok () := by
  have hnvars : (p.map number).nvars = p.nvars := List.length_map _
  rw [validatePoint, List.length_map, hnvars, if_neg (not_not.mpr hlen),
    Vec.allFinite_map_number, if_pos rfl]

omit [LinearOrder K] [Exact K] in
theorem Problem.ofFn_withSlacks (hlen : start.length = p.nvars) :
    start ++ p.rhs.zipWith (· - ·) (List.ofFn (p.coeffs *ᵥ Vec.coords p.nvars start)) =
      List.ofFn (p.withSlacks start) := by
  have hrhs : p.rhs = List.ofFn p.bounds := (Vec.ofFn_coords rfl).symm
  rw [withSlacks, List.ofFn_fin_append, Vec.ofFn_coords hlen, hrhs, Vec.zipWith_ofFn]
  rfl

namespace AffineScaling

variable {o : Options K} {c : Criterion (Checked K)}

theorem misses_or_not_inside_iff [IsStrictOrderedRing K] (p : Problem K) (start : List K)
    {tolerance : K} (htol : 0 ≤ tolerance) :
    ((∃ e ∈ ((List.ofFn (p.coeffs *ᵥ Vec.coords p.nvars start)).map number).zip
        (p.rhs.map number), e.1 > e.2 + number tolerance) ∨
      ∃ v ∈ (List.ofFn (p.withSlacks start)).map number, ¬v > 0) ↔
      ∃ i, p.withSlacks start i ≤ 0 := by
  have hzip : ((List.ofFn (p.coeffs *ᵥ Vec.coords p.nvars start)).map number).zip
      (p.rhs.map number) = List.ofFn fun i =>
        (number ((p.coeffs *ᵥ Vec.coords p.nvars start) i), number (p.bounds i)) := by
    have hrhs : p.rhs = List.ofFn p.bounds := (Vec.ofFn_coords rfl).symm
    rw [hrhs, List.map_ofFn, List.map_ofFn]
    exact Vec.zipWith_ofFn Prod.mk _ _
  rw [hzip]
  constructor
  · rintro (⟨e, he, hmiss⟩ | ⟨v, hv, hnot⟩)
    · obtain ⟨i, rfl⟩ := List.mem_ofFn.mp he
      have hlt : p.bounds i + tolerance < (p.coeffs *ᵥ Vec.coords p.nvars start) i := hmiss
      refine ⟨Fin.natAdd p.nvars i, ?_⟩
      simp only [Problem.withSlacks, Fin.append_right, Pi.sub_apply]
      linarith
    · obtain ⟨u, hu, rfl⟩ := List.mem_map.mp hv
      obtain ⟨i, rfl⟩ := List.mem_ofFn.mp hu
      exact ⟨i, not_lt.mp hnot⟩
  · rintro ⟨i, hi⟩
    right
    refine ⟨_, List.mem_map_of_mem (List.mem_ofFn.mpr ⟨i, rfl⟩), ?_⟩
    exact not_lt.mpr hi

open scoped Classical in
theorem begin_map_number [IsStrictOrderedRing K] (hv : p.validate = .ok ())
    (ho : o.validate = .ok ()) (hlen : start.length = p.nvars) :
    begin ⟨o.map number, c⟩ (p.map number) (start.map number) =
      if ∃ i, ∀ j, p.coeffs i j ≤ 0 then .ok (.rejected .noSolution)
      else if ∃ i, p.withSlacks start i ≤ 0 then .ok (.rejected (.notApplicable .initialPoint))
      else if Workspace.Fits p then
        .ok (.at ((Workspace.form p).map number) (iterateAt p (p.withSlacks start) 0))
      else .fault := by
  obtain ⟨-, -, -, ⟨hfeas, -⟩, -⟩ := Options.validate_eq_ok_iff.mp ho
  let lhs := List.ofFn (p.coeffs *ᵥ Vec.coords p.nvars start)
  have hncons : (p.map number).ncons = p.ncons := List.length_map _
  have hnvars : (p.map number).nvars = p.nvars := List.length_map _
  have hlhs : (p.map number).constraints.productInto? (start.map number)
      (List.replicate (p.map number).ncons 0) = some (lhs.map number) := by
    rw [hncons, Matrix.replicate_zero_eq_map,
      show (p.map number).constraints = p.constraints.map number from rfl,
      Matrix.productInto?_map_number, Problem.productInto?_eq hv hlen, Option.map_some]
  have hx : start.map number ++ (p.map number).rhs.zipWith (· - ·) (lhs.map number) =
      (List.ofFn (p.withSlacks start)).map number := by
    rw [← Problem.ofFn_withSlacks hlen, List.map_append]
    exact congrArg (start.map number ++ ·) (Vec.zipWith_map_number (fun _ _ => rfl) p.rhs lhs)
  have hrows : (∃ r ∈ (p.map number).constraints.rows, ∀ v ∈ r, v ≤ 0) ↔
      ∃ i, ∀ j, p.coeffs i j ≤ 0 := by
    rw [show (p.map number).constraints = p.constraints.map number from rfl, Matrix.rows_map,
      Problem.constraints_eq_ofMat hv, Matrix.ofMat_rows (Problem.nvars_pos hv), Matrix.rowsOf]
    simp only [List.mem_map, List.mem_ofFn, zero_eq, exists_exists_eq_and, forall_exists_index,
      forall_apply_eq_imp_iff, number_le]
  have hslacks := misses_or_not_inside_iff p start hfeas
  rw [begin_eq (Problem.validate_map_number.mpr hv) (Options.validate_map_number.mpr ho)
    (Problem.validatePoint_map_number hlen) hlhs, hx, Workspace.of?_map_number, hnvars]
  simp only [hrows]
  rw [show (o.map number).feasibilityTolerance = number o.feasibilityTolerance from rfl,
    show (p.map number).rhs = p.rhs.map number from rfl]
  rw [if_neg (not_not.mpr (Checked.stores _)), ← ite_or]
  simp only [lhs, hslacks]
  by_cases hfit : Workspace.Fits p
  · rw [if_pos hfit, Workspace.of?_eq hv hfit]
    rfl
  · have hnone : Workspace.of? p = none := by
      rw [Option.eq_none_iff_forall_ne_some]
      intro w hw
      exact hfit (Workspace.fits_of_of?_eq_some hv hw)
    rw [if_neg hfit, hnone]
    rfl

end AffineScaling

end LinProg
