import LinProg.Affine.Solver
import LinProg.Proofs.Affine.Moves

/-!
# Steps of affine scaling in exact arithmetic

From an interior point (`InteriorPoint.Inside`) a step fails on a singular normal system, gives up
on the projected cost, or goes to the next point (`AffineScaling.step?_cases`). It is never refused
there, since the new point solves the equations exactly.
-/

open scoped Matrix

namespace LinProg

variable {K : Type} [Field K] [LinearOrder K]

/-- An interior point of a problem: positive variables and slacks that solve `[A | I] x = b`. -/
structure InteriorPoint.Inside (p : Problem K) (s : InteriorPoint K) : Prop where
  length : s.x.length = p.nvars + p.ncons
  positive : ∀ i, 0 < Vec.coords (p.nvars + p.ncons) s.x i
  solves : p.augmented *ᵥ Vec.coords (p.nvars + p.ncons) s.x = p.bounds

theorem InteriorPoint.Inside.eq_ofFn {p : Problem K} {s : InteriorPoint K} (h : s.Inside p) :
    s.x = List.ofFn (Vec.coords (p.nvars + p.ncons) s.x) :=
  (Vec.ofFn_coords h.length).symm

variable [Exact K] {p : Problem K}

namespace Workspace

variable {x : Fin (p.nvars + p.ncons) → K}

theorem form_objective? : (form p).objective? (List.ofFn x) = some (p.augmentedCosts ⬝ᵥ x) := by
  have hcost : (List.ofFn p.augmentedCosts).take p.nvars = List.ofFn p.costs := by
    rw [Problem.augmentedCosts, List.ofFn_fin_append, List.take_left' List.length_ofFn]
  rw [objective?, form, if_pos (by simp), hcost, Vec.take_ofFn, Vec.dot?_ofFn,
    Problem.augmentedCosts_dotProduct]

theorem form_residual? (hv : p.validate = .ok ()) :
    ∃ r, (form p).residual? (List.ofFn x) = some r ∧
      ∀ c, r ≤ c ↔ 0 ≤ c ∧ ∀ i, |(p.augmented *ᵥ x) i - p.bounds i| ≤ c := by
  have hN : 0 < p.nvars + p.ncons := Nat.add_pos_left (Problem.nvars_pos hv) _
  have hzip : (List.ofFn (p.augmented *ᵥ x)).zip (List.ofFn p.bounds) =
      List.ofFn fun i => ((p.augmented *ᵥ x) i, p.bounds i) := Vec.zipWith_ofFn Prod.mk _ _
  have hresidual : (form p).residual? (List.ofFn x) =
      some (((List.ofFn fun i => ((p.augmented *ᵥ x) i, p.bounds i)).map
        fun e => Scalar.abs (e.1 - e.2)).foldl Scalar.max 0) := by
    rw [residual?, form, Matrix.ofMat_product? hN, ← hzip]
    rfl
  refine ⟨_, hresidual, fun c => ?_⟩
  rw [Vec.foldl_max_le_iff, List.forall_mem_map, List.forall_mem_ofFn_iff]
  rfl

end Workspace

namespace AffineScaling

variable {a : AffineScaling K} {s : InteriorPoint K} {x q : Fin (p.nvars + p.ncons) → K} {least : K}

theorem move_eq : move a.options.affineStep (Workspace.form p) (List.ofFn x) (List.ofFn q) least =
    List.ofFn (nextPoint p a.options.affineStep least x q) := by
  by_cases hstat : Stationary p x q
  · rw [nextPoint, if_pos hstat, move, Workspace.scaledCostNorm, Workspace.form_scaledCost]
    exact if_pos hstat
  · rw [nextPoint, if_neg hstat, move, Workspace.scaledCostNorm, Workspace.form_scaledCost,
      Vec.zipWith_ofFn]
    exact if_neg hstat

/-- What an accepted iterate and its record hold. -/
structure Accepted (p : Problem K) (s : InteriorPoint K) (least : K)
    (y : Fin (p.nvars + p.ncons) → K) (point : InteriorPoint K) (record : Record K) : Prop where
  x : point.x = List.ofFn y
  nvars : point.nvars = s.nvars
  iteration : point.iteration = s.iteration + 1
  objective : record.objective = p.augmentedCosts ⬝ᵥ y
  minReducedCost : record.minReducedCost = some least

omit [LinearOrder K] [Exact K] in
theorem Accepted.coords_eq {y : Fin (p.nvars + p.ncons) → K} {point : InteriorPoint K}
    {record : Record K} (h : Accepted p s least y point record) :
    Vec.coords (p.nvars + p.ncons) point.x = y := by
  rw [h.x, Vec.coords_ofFn]

/-- What the projection of a step at the point `x` gives. -/
structure Projected (a : AffineScaling K) (p : Problem K) (x : Fin (p.nvars + p.ncons) → K)
    (effort : Effort) (q : Fin (p.nvars + p.ncons) → K) (least : K) (effort' : Effort) : Prop where
  cost : (Workspace.form p).projectedCost? (List.ofFn x)
    (LdlSolver.resized { tolerance := a.options.singularTolerance } p.ncons) effort =
      some (.ok (List.ofFn q), effort')
  argmin : ∃ i, Vec.argmin (List.ofFn q) = some (i, least)
  projection : IsProjection (p.scaled x) (p.scaledCosts x) q

theorem Projected.least_le {effort effort' : Effort} (h : Projected a p x effort q least effort')
    (i : Fin (p.nvars + p.ncons)) : least ≤ q i := by
  obtain ⟨k, hk⟩ := h.argmin
  exact (Vec.argmin_spec hk).2 (q i) (List.mem_ofFn.mpr ⟨i, rfl⟩)

theorem Projected.exists_eq_least {effort effort' : Effort}
    (h : Projected a p x effort q least effort') : ∃ i, q i = least := by
  obtain ⟨k, hk⟩ := h.argmin
  exact List.mem_ofFn.mp (Vec.argmin_spec hk).1

theorem exists_projected (hv : p.validate = .ok ()) {effort effort' : Effort}
    (hcost : (Workspace.form p).projectedCost? (List.ofFn x)
      (LdlSolver.resized { tolerance := a.options.singularTolerance } p.ncons) effort =
        some (.ok (List.ofFn q), effort'))
    (hproj : IsProjection (p.scaled x) (p.scaledCosts x) q) :
    ∃ least, Projected a p x effort q least effort' := by
  have hN : 0 < p.nvars + p.ncons := Nat.add_pos_left (Problem.nvars_pos hv) _
  have hne : List.ofFn q ≠ [] := List.ne_nil_of_length_pos (by rw [List.length_ofFn]; exact hN)
  obtain ⟨i, least, hleast⟩ := Vec.exists_argmin_eq_some hne
  exact ⟨least, hcost, ⟨i, hleast⟩, hproj⟩

variable [IsStrictOrderedRing K]

theorem accept?_cases (hv : p.validate = .ok ()) (htol : 0 ≤ a.options.feasibilityTolerance)
    (hlen : s.x.length = p.nvars + p.ncons) {y : Fin (p.nvars + p.ncons) → K}
    (hy : p.augmented *ᵥ y = p.bounds) (least : K) :
    (2 ^ 64 ≤ s.iteration + 1 ∧
      a.accept? (Workspace.form p) s least (List.ofFn y) = none) ∨
    ∃ point record, Accepted p s least y point record ∧
      (a.accept? (Workspace.form p) s least (List.ofFn y) = some (.advanced point record) ∨
        a.accept? (Workspace.form p) s least (List.ofFn y) = some (.converged point record)) := by
  rcases Nat.lt_or_ge (s.iteration + 1) (2 ^ 64) with hfit | hfit
  · right
    obtain ⟨r, hr, hle⟩ := Workspace.form_residual? (x := y) hv
    have hbound : r ≤ (Workspace.form p).residualBound a.options.feasibilityTolerance := by
      have hnorm := Vec.normInf_nonneg (Workspace.form p).rhs
      have hnonneg : 0 ≤ (Workspace.form p).residualBound a.options.feasibilityTolerance :=
        mul_nonneg htol (add_nonneg zero_le_one hnorm)
      rw [hle, hy]
      refine ⟨hnonneg, fun i => ?_⟩
      rw [sub_self, abs_zero]
      exact hnonneg
    obtain ⟨norm, hnorm⟩ : ∃ norm, Vec.distance2? (List.ofFn y) s.x = some norm :=
      ⟨_, if_pos (by rw [List.length_ofFn, hlen])⟩
    let point : InteriorPoint K := ⟨List.ofFn y, s.nvars, s.iteration + 1⟩
    let record := Record.affine (s.iteration + 1) (p.augmentedCosts ⬝ᵥ y) norm least .zero
    have haccept : a.accept? (Workspace.form p) s least (List.ofFn y) =
        if a.criterion record a.options then some (.converged point record)
        else some (.advanced point record) := by
      simp only [accept?, Size.add?_eq hfit, Vec.allFinite_eq_true, hr, hnorm, hbound,
        Workspace.form_objective?, Option.bind_eq_bind, Option.bind_some, Bool.not_true,
        Bool.false_eq_true, if_false, if_true]
      rfl
    refine ⟨point, record, ⟨rfl, rfl, rfl, rfl, rfl⟩, ?_⟩
    rw [haccept]
    split
    · exact Or.inr rfl
    · exact Or.inl rfl
  · left
    rw [accept?, Size.add?_eq_none hfit]
    exact ⟨hfit, rfl⟩

section Step

omit [IsStrictOrderedRing K]

theorem analyse?_ncons (hfit : Workspace.Fits p) (solver : LdlSolver K) :
    solver.analyse? (Workspace.form p).ncons = some (solver.resized p.ncons) := by
  have hncons : (Workspace.form p).ncons = p.ncons := Matrix.ofMat_nrows
  rw [hncons]
  exact LdlSolver.analyse?_eq (Matrix.room_iff_lt.mpr hfit.square_lt) solver

theorem step?_of_error (hfit : Workspace.Fits p) {effort : Effort} {e : LdlError K}
    (he : (Workspace.form p).projectedCost? s.x
      (LdlSolver.resized { tolerance := a.options.singularTolerance } p.ncons) effort =
        some (.error e, effort)) :
    a.step? (Workspace.form p) s effort = some (.failed (.system e), effort) := by
  rw [step?, analyse?_ncons hfit, Option.bind_eq_bind, Option.bind_some, he]
  rfl

theorem step?_of_projected (hfit : Workspace.Fits p) (hx : s.x = List.ofFn x)
    {effort effort' : Effort} (h : Projected a p x effort q least effort') :
    a.step? (Workspace.form p) s effort =
      if a.options.reducedCostThreshold ≤ least then some (.notApplicable least, effort')
      else (a.accept? (Workspace.form p) s least
        (List.ofFn (nextPoint p a.options.affineStep least x q))).map (·, effort') := by
  obtain ⟨i, hleast⟩ := h.argmin
  simp only [step?, analyse?_ncons hfit, hx, h.cost, hleast, move_eq, Option.bind_eq_bind,
    Option.bind_some, Option.map_eq_bind]
  rfl

end Step

theorem projected_cases (hv : p.validate = .ok ()) (hfit : Workspace.Fits p)
    (ho : a.options.validate = .ok ()) (x : Fin (p.nvars + p.ncons) → K) (effort : Effort) :
    (∃ e, (Workspace.form p).projectedCost? (List.ofFn x)
      (LdlSolver.resized { tolerance := a.options.singularTolerance } p.ncons) effort =
        some (.error e, effort)) ∨
    ∃ q least effort', Projected a p x effort q least effort' := by
  obtain ⟨-, -, -, -, ⟨hsing, -⟩, -⟩ := Options.validate_eq_ok_iff.mp ho
  rcases Workspace.projectedCost?_cases (x := x)
    (s := LdlSolver.resized { tolerance := a.options.singularTolerance } p.ncons) hv hfit hsing rfl
    effort with herror | ⟨q, effort', hq, hproj⟩
  · exact Or.inl herror
  · right
    obtain ⟨least, hprojected⟩ := exists_projected hv hq hproj
    exact ⟨q, least, effort', hprojected⟩

/-- **A step.** From an interior point it fails on a singular normal system, gives up on the
projected cost, or goes to the next point. -/
theorem step?_cases (hv : p.validate = .ok ()) (hfit : Workspace.Fits p)
    (ho : a.options.validate = .ok ()) (h : s.Inside p) (effort : Effort) :
    (∃ e, (Workspace.form p).projectedCost? s.x
        (LdlSolver.resized { tolerance := a.options.singularTolerance } p.ncons) effort =
          some (.error e, effort) ∧
      a.step? (Workspace.form p) s effort = some (.failed (.system e), effort)) ∨
    ∃ q least effort',
      Projected a p (Vec.coords (p.nvars + p.ncons) s.x) effort q least effort' ∧
      ((a.options.reducedCostThreshold ≤ least ∧
        a.step? (Workspace.form p) s effort = some (.notApplicable least, effort')) ∨
      least < a.options.reducedCostThreshold ∧
      ((2 ^ 64 ≤ s.iteration + 1 ∧ a.step? (Workspace.form p) s effort = none) ∨
      ∃ point record, Accepted p s least (nextPoint p a.options.affineStep least
          (Vec.coords (p.nvars + p.ncons) s.x) q) point record ∧
        (a.step? (Workspace.form p) s effort = some (.advanced point record, effort') ∨
          a.step? (Workspace.form p) s effort = some (.converged point record, effort')))) := by
  rcases projected_cases hv hfit ho (Vec.coords (p.nvars + p.ncons) s.x) effort with
    ⟨e, he⟩ | ⟨q, least, effort', hproj⟩
  · left
    rw [← h.eq_ofFn] at he
    exact ⟨e, he, step?_of_error hfit he⟩
  · right
    refine ⟨q, least, effort', hproj, ?_⟩
    rw [step?_of_projected hfit h.eq_ofFn hproj]
    by_cases hthreshold : a.options.reducedCostThreshold ≤ least
    · left
      exact ⟨hthreshold, if_pos hthreshold⟩
    · right
      refine ⟨not_le.mp hthreshold, ?_⟩
      rw [if_neg hthreshold]
      obtain ⟨-, -, -, ⟨hfeas, -⟩, -⟩ := Options.validate_eq_ok_iff.mp ho
      -- the next point solves the equations, so its residual is zero
      have hnext : p.augmented *ᵥ nextPoint p a.options.affineStep least
          (Vec.coords (p.nvars + p.ncons) s.x) q = p.bounds := by
        rw [augmented_mulVec_nextPoint hproj.projection.kernel]
        exact h.solves
      rcases accept?_cases (a := a) hv hfeas h.length hnext least with
        ⟨hlarge, hnone⟩ | ⟨point, record, haccepted, hadvanced | hconverged⟩
      · left
        rw [hnone]
        exact ⟨hlarge, rfl⟩
      · right
        rw [hadvanced]
        exact ⟨point, record, haccepted, Or.inl rfl⟩
      · right
        rw [hconverged]
        exact ⟨point, record, haccepted, Or.inr rfl⟩

end AffineScaling

end LinProg
