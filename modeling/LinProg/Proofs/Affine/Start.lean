import LinProg.Proofs.Affine.Runs
import LinProg.Proofs.Affine.Steps

/-!
# The first iterate in exact arithmetic

A solve from a point of the right length passes through three stages. The checks before it find a
row without a positive coefficient or a constraint that the point misses by more than the tolerance
(`Precheck.check_cases`). The point with its slacks, `startPoint`, is the first iterate if all of it
is positive (`InteriorPoint.initial_cases`). And the storage for the solve may not fit in a word.
`AffineScaling.begin_outcomes` puts them together.
-/

open scoped Matrix

namespace LinProg

variable {K : Type} [Field K] [LinearOrder K] [Exact K] {p : Problem K} {start : List K}

namespace Problem

/-- A point with what it leaves of the bounds. -/
def withSlacks (p : Problem K) (start : List K) : Fin (p.nvars + p.ncons) → K :=
  let v := Vec.coords p.nvars start
  Fin.append v (p.bounds - p.coeffs *ᵥ v)

omit [LinearOrder K] [Exact K] in
theorem augmented_withSlacks (start : List K) :
    p.augmented *ᵥ p.withSlacks start = p.bounds := by
  rw [withSlacks, augmented_mulVec]
  simp only [Fin.append_left, Fin.append_right]
  exact add_sub_cancel _ _

/-- A point with positive variables that reaches no bound. -/
def StrictlyInside (p : Problem K) (start : List K) : Prop :=
  (∀ v ∈ start, 0 < v) ∧ ∀ i, (p.coeffs *ᵥ Vec.coords p.nvars start) i < p.bounds i

omit [Exact K] in
theorem withSlacks_pos_iff [IsStrictOrderedRing K] (hlen : start.length = p.nvars) :
    (∀ i, 0 < p.withSlacks start i) ↔ p.StrictlyInside start := by
  unfold withSlacks StrictlyInside
  rw [Fin.forall_fin_add]
  simp only [Fin.append_left, Fin.append_right, Pi.sub_apply, sub_pos]
  rw [← List.forall_mem_ofFn_iff (P := fun v => 0 < v), Vec.ofFn_coords hlen]

end Problem

theorem Problem.productInto?_eq (hv : p.validate = .ok ()) (hlen : start.length = p.nvars) :
    p.constraints.productInto? start (List.replicate p.ncons 0) =
      some (List.ofFn (p.coeffs *ᵥ Vec.coords p.nvars start)) := by
  have hproduct := Matrix.ofMat_product? (X := p.coeffs) (Problem.nvars_pos hv)
    (Vec.coords p.nvars start)
  rw [Matrix.product?, Vec.ofFn_coords hlen, Matrix.ofMat_nrows,
    ← Problem.constraints_eq_ofMat hv] at hproduct
  exact hproduct

namespace InteriorPoint

/-- The first iterate. -/
def startPoint (p : Problem K) (start : List K) : InteriorPoint K :=
  ⟨List.ofFn (p.withSlacks start), p.nvars, 0⟩

theorem validatePoint_eq_ok_iff : p.validatePoint start = .ok () ↔ start.length = p.nvars := by
  rw [Problem.validatePoint]
  split
  · rename_i hlen
    exact iff_of_false nofun hlen
  · rename_i hlen
    rw [Vec.allFinite_eq_true, if_pos rfl]
    exact iff_of_true rfl (not_not.mp hlen)

theorem initial_cases (hv : p.validate = .ok ()) (hlen : start.length = p.nvars) :
    ((∀ i, 0 < p.withSlacks start i) ∧
      InteriorPoint.initial p start = .ok (startPoint p start)) ∨
    ∃ i, p.withSlacks start i ≤ 0 ∧
      InteriorPoint.initial p start = .error (.notInterior i (p.withSlacks start i)) := by
  have hx : start ++ List.zipWith (· - ·) p.rhs
      (List.ofFn (p.coeffs *ᵥ Vec.coords p.nvars start)) = List.ofFn (p.withSlacks start) := by
    have hrhs : p.rhs = List.ofFn p.bounds := (Vec.ofFn_coords rfl).symm
    rw [Problem.withSlacks, List.ofFn_fin_append, Vec.ofFn_coords hlen, hrhs, Vec.zipWith_ofFn]
    rfl
  have hfails : ∀ (v : K) (_ : ℕ), (!decide (v > 0)) = true ↔ ¬0 < v := fun v _ => by simp
  rw [initial, validatePoint_eq_ok_iff.mpr hlen, Problem.productInto?_eq hv hlen,
    Exact.entries?_eq]
  simp only [Outcome.ofExcept, Outcome.mapError, Outcome.ofOption, Outcome.ok_bind]
  rw [hx]
  split
  · rename_i v k hfound
    right
    obtain ⟨i, rfl, rfl, hnot⟩ := of_find?_zipIdx_ofFn_eq_some hfails hfound
    exact ⟨i, not_lt.mp hnot, rfl⟩
  · rename_i hnone
    left
    have hpos := (find?_zipIdx_eq_none_iff hfails).mp hnone
    exact ⟨List.forall_mem_ofFn_iff.mp hpos, rfl⟩

theorem initial_eq_ok_iff (hv : p.validate = .ok ()) {point : InteriorPoint K} :
    InteriorPoint.initial p start = .ok point ↔
      start.length = p.nvars ∧ (∀ i, 0 < p.withSlacks start i) ∧ point = startPoint p start := by
  constructor
  · intro h
    obtain ⟨⟨⟩, hpoint, -⟩ := Outcome.bind_eq_ok.mp h
    rw [Outcome.mapError_eq_ok, Outcome.ofExcept_eq_ok] at hpoint
    have hlen := validatePoint_eq_ok_iff.mp hpoint
    rcases initial_cases hv hlen with ⟨hpos, hok⟩ | ⟨i, -, herror⟩
    · rw [hok] at h
      exact ⟨hlen, hpos, (Outcome.ok.inj h).symm⟩
    · rw [herror] at h
      cases h
  · rintro ⟨hlen, hpos, rfl⟩
    rcases initial_cases hv hlen with ⟨-, hok⟩ | ⟨i, hi, -⟩
    · exact hok
    · exact absurd (hpos i) (not_lt.mpr hi)

omit [LinearOrder K] [Exact K] in
theorem value_startPoint :
    p.augmentedCosts ⬝ᵥ Vec.coords (p.nvars + p.ncons) (startPoint p start).x =
      p.costs ⬝ᵥ Vec.coords p.nvars start := by
  rw [startPoint, Vec.coords_ofFn, Problem.augmentedCosts_dotProduct]
  simp only [Problem.withSlacks, Fin.append_left]

omit [Exact K] in
theorem startPoint_inside (hpos : ∀ i, 0 < p.withSlacks start i) :
    (startPoint p start).Inside p where
  length := List.length_ofFn
  positive := by
    rw [startPoint, Vec.coords_ofFn]
    exact hpos
  solves := by
    rw [startPoint, Vec.coords_ofFn]
    exact p.augmented_withSlacks start

end InteriorPoint

namespace Precheck

omit [Exact K] in
theorem all_nonpos_iff {m n : ℕ} {X : Mat m n K} {i : ℕ} (hi : i < (Matrix.rowsOf X).length) :
    ((Matrix.rowsOf X)[i].all fun v => decide (v ≤ 0)) = true ↔
      ∀ j, X ⟨i, by rwa [Matrix.length_rowsOf] at hi⟩ j ≤ 0 := by
  rw [Matrix.getElem_rowsOf, List.all_eq_true, List.forall_mem_ofFn_iff]
  simp only [decide_eq_true_eq]

theorem checkRows_cases (hv : p.validate = .ok ()) :
    (checkRows p.constraints = .ok () ∧ ∀ i, ∃ j, 0 < p.coeffs i j) ∨
    ∃ i : Fin p.ncons, checkRows p.constraints = .error (.noSolution i) ∧
      (∀ j, p.coeffs i j ≤ 0) ∧ ∀ k < i, ∃ j, 0 < p.coeffs k j := by
  rw [checkRows, Problem.constraints_eq_ofMat hv, Matrix.ofMat_rows (Problem.nvars_pos hv)]
  rcases hrow : (Matrix.rowsOf p.coeffs).findIdx? fun r => r.all fun v => decide (v ≤ 0) with
    _ | row
  · left
    refine ⟨by rw [hrow], fun i => ?_⟩
    have hi : i.val < (Matrix.rowsOf p.coeffs).length := by
      rw [Matrix.length_rowsOf]
      exact i.isLt
    have hpasses := List.findIdx?_eq_none_iff.mp hrow _ (List.getElem_mem hi)
    rw [← Bool.not_eq_true, all_nonpos_iff] at hpasses
    push Not at hpasses
    exact hpasses
  · right
    obtain ⟨hlt, hfails, hbefore⟩ := List.findIdx?_eq_some_iff_getElem.mp hrow
    have hlt' : row < p.ncons := by rwa [Matrix.length_rowsOf] at hlt
    refine ⟨⟨row, hlt'⟩, by rw [hrow], (all_nonpos_iff hlt).mp hfails, fun k hk => ?_⟩
    have hpasses := hbefore k hk
    rw [all_nonpos_iff] at hpasses
    push Not at hpasses
    exact hpasses

theorem checkStart_cases (hv : p.validate = .ok ()) (hlen : start.length = p.nvars)
    (tolerance : K) :
    (checkStart tolerance p start = .ok () ∧
      ∀ i, (p.coeffs *ᵥ Vec.coords p.nvars start) i ≤ p.bounds i + tolerance) ∨
    ∃ i : Fin p.ncons,
      checkStart tolerance p start = .error
        (.infeasibleStart i ((p.coeffs *ᵥ Vec.coords p.nvars start) i) (p.bounds i)) ∧
      p.bounds i + tolerance < (p.coeffs *ᵥ Vec.coords p.nvars start) i := by
  have hzip : (List.ofFn (p.coeffs *ᵥ Vec.coords p.nvars start)).zip p.rhs =
      List.ofFn fun i => ((p.coeffs *ᵥ Vec.coords p.nvars start) i, p.bounds i) := by
    have hrhs : p.rhs = List.ofFn p.bounds := (Vec.ofFn_coords rfl).symm
    rw [hrhs]
    exact Vec.zipWith_ofFn Prod.mk _ _
  have hfails : ∀ (v : K × K) (_ : ℕ),
      decide (v.1 > v.2 + tolerance) = true ↔ ¬v.1 ≤ v.2 + tolerance := fun v _ => by simp
  rw [checkStart, Problem.productInto?_eq hv hlen]
  simp only [Outcome.ofOption, Outcome.ok_bind]
  rw [hzip]
  split
  · rename_i v k hfound
    right
    obtain ⟨i, rfl, rfl, hnot⟩ := of_find?_zipIdx_ofFn_eq_some hfails hfound
    exact ⟨i, rfl, not_le.mp hnot⟩
  · rename_i hnone
    left
    have hpasses := (find?_zipIdx_eq_none_iff hfails).mp hnone
    exact ⟨rfl, List.forall_mem_ofFn_iff.mp hpasses⟩

theorem check_cases (hv : p.validate = .ok ()) (hlen : start.length = p.nvars) (tolerance : K) :
    (check tolerance p start = .ok () ∧ (∀ i, ∃ j, 0 < p.coeffs i j) ∧
      ∀ i, (p.coeffs *ᵥ Vec.coords p.nvars start) i ≤ p.bounds i + tolerance) ∨
    (∃ i : Fin p.ncons, check tolerance p start = .error (.noSolution i) ∧
      ∀ j, p.coeffs i j ≤ 0) ∨
    (∀ i, ∃ j, 0 < p.coeffs i j) ∧ ∃ i : Fin p.ncons,
      check tolerance p start = .error
        (.infeasibleStart i ((p.coeffs *ᵥ Vec.coords p.nvars start) i) (p.bounds i)) ∧
      p.bounds i + tolerance < (p.coeffs *ᵥ Vec.coords p.nvars start) i := by
  rw [check, hv, InteriorPoint.validatePoint_eq_ok_iff.mpr hlen]
  rcases checkRows_cases hv with ⟨hok, hrows⟩ | ⟨i, herror, hrow, -⟩
  · rw [hok]
    rcases checkStart_cases hv hlen tolerance with ⟨hstart, hle⟩ | ⟨i, hstart, hlt⟩
    · exact Or.inl ⟨hstart, hrows, hle⟩
    · exact Or.inr (Or.inr ⟨hrows, i, hstart, hlt⟩)
  · rw [herror]
    exact Or.inr (Or.inl ⟨i, rfl, hrow⟩)

theorem check_ne_fault (hv : p.validate = .ok ()) (hlen : start.length = p.nvars) (tolerance : K) :
    check tolerance p start ≠ .fault := by
  intro hfault
  rcases check_cases hv hlen tolerance with ⟨hok, -⟩ | ⟨i, herror, -⟩ | ⟨-, i, herror, -⟩
  · cases hok.symm.trans hfault
  · cases herror.symm.trans hfault
  · cases herror.symm.trans hfault

theorem check_eq_ok_iff (hv : p.validate = .ok ()) (hlen : start.length = p.nvars)
    (tolerance : K) : check tolerance p start = .ok () ↔ (∀ i, ∃ j, 0 < p.coeffs i j) ∧
      ∀ i, (p.coeffs *ᵥ Vec.coords p.nvars start) i ≤ p.bounds i + tolerance := by
  rcases check_cases hv hlen tolerance with ⟨hok, hboth⟩ | ⟨i, herror, hrow⟩ | ⟨-, i, herror, hlt⟩
  · exact iff_of_true hok hboth
  · rw [herror]
    refine iff_of_false nofun ?_
    rintro ⟨hrows, -⟩
    obtain ⟨j, hj⟩ := hrows i
    exact absurd (hrow j) (not_le.mpr hj)
  · rw [herror]
    refine iff_of_false nofun ?_
    rintro ⟨-, hle⟩
    exact absurd hlt (not_lt.mpr (hle i))

end Precheck

namespace AffineScaling

variable {a : AffineScaling K}

/-- **Where a solve begins**, with a valid problem, valid options and a point of the right length:
it is rejected by the checks, or because the point is not strictly inside, or begins at the point,
if the storage fits. -/
theorem begin_outcomes (hv : p.validate = .ok ()) (ho : a.options.validate = .ok ())
    (hlen : start.length = p.nvars) :
    (∃ e status, Precheck.check a.options.feasibilityTolerance p start = .error e ∧
      e.status? = some status ∧ a.begin p start = .ok (.rejected status)) ∨
    Precheck.check a.options.feasibilityTolerance p start = .ok () ∧
      ((∃ i, p.withSlacks start i ≤ 0) ∧
        a.begin p start = .ok (.rejected (.notApplicable .initialPoint)) ∨
      (∀ i, 0 < p.withSlacks start i) ∧
        (¬Workspace.Fits p ∧ a.begin p start = .fault ∨
          a.begin p start =
            .ok (.at (Workspace.form p) (InteriorPoint.startPoint p start)))) := by
  unfold AffineScaling.begin
  rw [hv, ho]
  rcases Precheck.check_cases hv hlen a.options.feasibilityTolerance with
    ⟨hcheck, -⟩ | ⟨i, hcheck, -⟩ | ⟨-, i, hcheck, -⟩
  · right
    rw [hcheck]
    refine ⟨rfl, ?_⟩
    rcases InteriorPoint.initial_cases hv hlen with ⟨hpos, hinitial⟩ | ⟨i, hi, hinitial⟩
    · right
      refine ⟨hpos, ?_⟩
      by_cases hfit : Workspace.Fits p
      · right
        rw [Outcome.ok_bind, hinitial, Workspace.of?_eq hv hfit]
        rfl
      · left
        have hw : Workspace.of? p = none := by
          rw [Option.eq_none_iff_forall_ne_some]
          intro w hw
          exact hfit (Workspace.fits_of_of?_eq_some hv hw)
        rw [Outcome.ok_bind, hinitial, hw]
        exact ⟨hfit, rfl⟩
    · left
      rw [Outcome.ok_bind, hinitial]
      exact ⟨⟨i, hi⟩, rfl⟩
  · left
    rw [hcheck]
    exact ⟨_, _, rfl, rfl, rfl⟩
  · left
    rw [hcheck]
    exact ⟨_, _, rfl, rfl, rfl⟩

theorem begin_cases [IsStrictOrderedRing K] (hv : p.validate = .ok ())
    (ho : a.options.validate = .ok ()) (hrows : ∀ i, ∃ j, 0 < p.coeffs i j)
    (hlen : start.length = p.nvars) (hpos : ∀ v ∈ start, 0 < v)
    (hstrict : ∀ i, (p.coeffs *ᵥ Vec.coords p.nvars start) i < p.bounds i) :
    (¬Workspace.Fits p ∧ a.begin p start = .fault) ∨
      a.begin p start = .ok (.at (Workspace.form p) (InteriorPoint.startPoint p start)) := by
  obtain ⟨-, -, -, ⟨hfeas, -⟩, -⟩ := Options.validate_eq_ok_iff.mp ho
  have hcheck := (Precheck.check_eq_ok_iff hv hlen _).mpr
    ⟨hrows, fun i => le_add_of_le_of_nonneg (hstrict i).le hfeas⟩
  have hslacks := (Problem.withSlacks_pos_iff hlen).mpr ⟨hpos, hstrict⟩
  rcases begin_outcomes hv ho hlen with ⟨e, status, herror, -⟩ | ⟨-, ⟨⟨i, hi⟩, -⟩ | ⟨-, hbegin⟩⟩
  · rw [hcheck] at herror
    cases herror
  · exact absurd (hslacks i) (not_lt.mpr hi)
  · exact hbegin

end AffineScaling

end LinProg
