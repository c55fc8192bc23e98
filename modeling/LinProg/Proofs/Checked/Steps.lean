import LinProg.Proofs.Affine.Start
import LinProg.Proofs.Checked.Systems

/-!
# Steps of affine scaling with checked divisions

A step divides by the smallest projected cost alone, and where that is zero the new iterate is
undefined. Everywhere else a step on numbers is the step of exact arithmetic. From an interior point
and without a tolerance for singular systems, what a step does is settled by the projection of the
cost, with its smallest entry (`AffineScaling.step?_eq_outcomeAt`).
-/

open scoped Matrix

namespace LinProg

open Checked

section Map

variable {α β : Type} (f : α → β)

def Problem.map (p : Problem α) : Problem β := ⟨p.cost.map f, p.constraints.map f, p.rhs.map f⟩

def Workspace.map (w : Workspace α) : Workspace β :=
  ⟨w.augmented.map f, w.cost.map f, w.rhs.map f, w.nvars⟩

def Options.map (o : Options α) : Options β where
  tolerance := f o.tolerance
  maxIterations := o.maxIterations
  maxTime := o.maxTime
  affineStep := f o.affineStep
  reducedCostThreshold := f o.reducedCostThreshold
  feasibilityTolerance := f o.feasibilityTolerance
  zeroTolerance := f o.zeroTolerance
  singularTolerance := f o.singularTolerance

end Map

variable {K : Type} [Field K] [LinearOrder K] [Exact K]

theorem Options.validate_map_number {o : Options K} :
    (o.map number).validate = .ok () ↔ o.validate = .ok () := by
  rw [validate_eq_ok_iff, validate_eq_ok_iff]
  exact Iff.rfl

theorem Options.eq_map_number {o : Options (Checked K)} (h : o.validate = .ok ()) :
    o = (o.map value).map number := by
  obtain ⟨⟨hstep, -⟩, htol, ⟨-, hzero⟩, ⟨-, hfeas⟩, ⟨-, hsing⟩, hthreshold, -⟩ :=
    validate_eq_ok_iff.mp h
  have hpositive : ∀ {a : Checked K}, 0 < a → a = number a.value := by
    intro a ha
    cases a with
    | number a => rfl
    | undefined => cases ha
  obtain ⟨tolerance, _, _, step, threshold, feasibility, zero, singular⟩ := o
  simp only [map]
  rw [← hpositive hstep, ← hpositive htol, ← eq_number_of_isFinite hzero,
    ← eq_number_of_isFinite hfeas, ← eq_number_of_isFinite hsing,
    ← eq_number_of_isFinite hthreshold]

theorem Options.validate_map_value {o : Options (Checked K)} (h : o.validate = .ok ()) :
    (o.map value).validate = .ok () :=
  Options.validate_map_number.mp (Options.eq_map_number h ▸ h)

namespace Workspace

theorem of?_map_number (p : Problem K) :
    Workspace.of? (p.map number) = (Workspace.of? p).map (map number) := by
  have hncons : (p.map number).ncons = p.ncons := List.length_map _
  have hnvars : (p.map number).nvars = p.nvars := List.length_map _
  unfold of?
  rw [hncons, hnvars, Matrix.replicate_zero_eq_map]
  simp only [Problem.map, Matrix.withIdentityBlock?_map_number, ← List.map_append,
    Option.bind_eq_bind, Option.bind_map, Option.map_bind, Function.comp_def]
  rfl

theorem objective?_map_number (w : Workspace K) (x : List K) :
    (w.map number).objective? (x.map number) = (w.objective? x).map number := by
  simp only [objective?, map, List.length_map, ← List.map_take, Vec.dot?_map_number,
    apply_ite (Option.map number), Option.map_none]

theorem residual?_map_number (w : Workspace K) (x : List K) :
    (w.map number).residual? (x.map number) = (w.residual? x).map number := by
  have hmisses : ∀ lhs : List K, (((lhs.map number).zip (w.rhs.map number)).map
        fun e => Scalar.abs (e.1 - e.2)).foldl Scalar.max 0 =
      number (((lhs.zip w.rhs).map fun e => Scalar.abs (e.1 - e.2)).foldl Scalar.max 0) := by
    intro lhs
    rw [List.zip_map, List.map_map, List.foldl_map, List.foldl_map, zero_eq]
    exact List.foldl_hom number fun a e => max_number a |e.1 - e.2|
  unfold residual?
  simp only [map, Matrix.product?_map_number, Option.bind_eq_bind, Option.bind_map,
    Option.map_bind, Function.comp_def, hmisses]
  rfl

theorem residualBound_map_number (w : Workspace K) (tolerance : K) :
    (w.map number).residualBound (number tolerance) = number (w.residualBound tolerance) := by
  simp only [residualBound, map, Vec.normInf_map_number, one_eq, number_add, number_mul]

theorem scaledCost_map_number (w : Workspace K) (x : List K) :
    (w.map number).scaledCost (x.map number) = (w.scaledCost x).map number :=
  Vec.zipWith_map_number (fun _ _ => rfl) _ _

theorem projectOnce?_map_number {B : Matrix K} {s : LdlSolver K} (hs : s.Invertible) {width : ℕ}
    {v q : List K} (h : projectOnce? B s width v = some (.ok q)) :
    projectOnce? (B.map number) (s.map number) width (v.map number) =
      some (.ok (q.map number)) := by
  unfold projectOnce? at h ⊢
  obtain ⟨b, hb, h⟩ := Option.bind_eq_some_iff.mp h
  rcases hy : s.solve b with e | y
  · rw [hy] at h
    cases h
  · rw [hy] at h
    obtain ⟨correction, hcorrection, h⟩ := Option.bind_eq_some_iff.mp h
    cases h
    rw [Matrix.product?_map_number, hb, Option.map_some, Option.bind_eq_bind, Option.bind_some,
      LdlSolver.solve_map_number hs hy]
    dsimp only
    rw [Matrix.replicate_zero_eq_map, Matrix.transposeProductInto?_map_number, hcorrection,
      Option.map_some, Option.bind_some]
    exact congrArg (fun r => some (Except.ok r)) (Vec.zipWith_map_number (fun _ _ => rfl) v _)

theorem projectedCost?_map_number [IsStrictOrderedRing K] {w : Workspace K} {x q : List K}
    {s : LdlSolver K} (htol : 0 ≤ s.tolerance) {effort effort' : Effort}
    (h : w.projectedCost? x s effort = some (.ok q, effort')) :
    (w.map number).projectedCost? (x.map number) (s.map number) effort =
      some (.ok (q.map number), effort') := by
  unfold projectedCost? at h ⊢
  obtain ⟨scaled, hscaled, h⟩ := Option.bind_eq_some_iff.mp h
  obtain ⟨G, hG, h⟩ := Option.bind_eq_some_iff.mp h
  obtain ⟨⟨answer, s'⟩, hfactor, h⟩ := Option.bind_eq_some_iff.mp h
  rcases answer with e | u
  · cases h
  · obtain ⟨hs', hfactor'⟩ := LdlSolver.factor?_map_number htol hfactor
    obtain ⟨first, hfirst, h⟩ := Option.bind_eq_some_iff.mp h
    rcases first with e | v
    · cases h
    · obtain ⟨second, hsecond, h⟩ := Option.bind_eq_some_iff.mp h
      rcases second with e | r
      · cases h
      · cases h
        rw [show (w.map number).augmented = w.augmented.map number from rfl,
          Matrix.scaleColumns?_map_number, hscaled, Option.map_some, Option.bind_eq_bind,
          Option.bind_some, Matrix.gram?_map_number, hG, Option.map_some, Option.bind_some,
          hfactor']
        simp only [Option.bind_eq_bind, Option.bind_some, scaledCost_map_number, List.length_map]
        rw [projectOnce?_map_number hs' hfirst, Option.bind_some]
        dsimp only
        rw [projectOnce?_map_number hs' hsecond]
        rfl

theorem projectedCost?_error_map_number [IsStrictOrderedRing K] {w : Workspace K} {x : List K}
    {B G : Matrix K} {s s' : LdlSolver K} {e : LdlError K} (htol : 0 ≤ s.tolerance)
    (hB : w.augmented.scaleColumns? x = some B) (hG : B.gram? = some G)
    (h : s.factor? G = some (.error e, s')) (effort : Effort) :
    ∃ e', (w.map number).projectedCost? (x.map number) (s.map number) effort =
      some (.error e', effort) := by
  rcases LdlSolver.factor?_map_number_cases htol G with
    ⟨hnone, -⟩ | ⟨e₁, s₁, -, e', herror⟩ | ⟨s₁, hok, -⟩
  · rw [h] at hnone
    cases hnone
  · refine ⟨e', ?_⟩
    rw [projectedCost?, show (w.map number).augmented = w.augmented.map number from rfl,
      Matrix.scaleColumns?_map_number, hB, Option.map_some, Option.bind_eq_bind, Option.bind_some,
      Matrix.gram?_map_number, hG, Option.map_some, Option.bind_some, herror]
    rfl
  · rw [h] at hok
    cases hok

end Workspace

namespace AffineScaling

theorem move_map_number [IsStrictOrderedRing K] {w : Workspace K} {x q : List K} {alpha least : K}
    (hdivides : ¬Vec.normInf q ≤ Scalar.epsilon * w.scaledCostNorm x → least ≠ 0) :
    move (number alpha) (w.map number) (x.map number) (q.map number) (number least) =
      (move alpha w x q least).map number := by
  unfold move Workspace.scaledCostNorm at *
  rw [Workspace.scaledCost_map_number, Vec.normInf_map_number, Vec.normInf_map_number, epsilon_eq,
    number_mul]
  by_cases hvanished : Vec.normInf q ≤ Scalar.epsilon * Vec.normInf (w.scaledCost x)
  · rw [if_pos hvanished, if_pos (number_le.mpr hvanished)]
  · rw [if_neg hvanished, if_neg (fun h => hvanished (number_le.mp h))]
    refine Vec.zipWith_map_number (fun v r => ?_) x q
    rw [number_mul, abs_number, number_div (abs_ne_zero.mpr (hdivides hvanished)), one_eq,
      number_add, number_mul]
    rfl

theorem move_of_div_zero [IsStrictOrderedRing K] {w : Workspace K} {x q : List K} (alpha : K)
    (hvanished : ¬Vec.normInf q ≤ Scalar.epsilon * w.scaledCostNorm x) (hx : x ≠ [])
    (hq : q ≠ []) :
    Vec.allFinite (move (number alpha) (w.map number) (x.map number) (q.map number) (number 0)) =
      false := by
  obtain ⟨v, x, rfl⟩ := List.exists_cons_of_ne_nil hx
  obtain ⟨r, q, rfl⟩ := List.exists_cons_of_ne_nil hq
  unfold move Workspace.scaledCostNorm at *
  rw [Workspace.scaledCost_map_number, Vec.normInf_map_number, Vec.normInf_map_number, epsilon_eq,
    number_mul, if_neg (fun h => hvanished (number_le.mp h)), List.map_cons, List.map_cons,
    List.zipWith_cons_cons, number_mul, abs_number, abs_zero, mul_one_add_div_zero]
  rfl

variable {p : Problem K}

/-- A solution of `[A | I] x = b` without an entry that is zero or less. -/
structure Interior (p : Problem K) (x : Fin (p.nvars + p.ncons) → K) : Prop where
  positive : ∀ i, 0 < x i
  solves : p.augmented *ᵥ x = p.bounds

/-- The projected cost at a point, with its smallest entry. -/
structure LeastProjected (p : Problem K) (x q : Fin (p.nvars + p.ncons) → K) (least : K) :
    Prop where
  projection : IsProjection (p.scaled x) (p.scaledCosts x) q
  le : ∀ i, least ≤ q i
  attained : ∃ i, q i = least

variable {o : Options K} {c : Criterion (Checked K)} {x q : Fin (p.nvars + p.ncons) → K}
  {least : K} {k : ℕ}

theorem Projected.leastProjected {a : AffineScaling K} {effort effort' : Effort}
    (h : Projected a p x effort q least effort') : LeastProjected p x q least :=
  ⟨h.projection, h.least_le, h.exists_eq_least⟩

theorem Interior.next [IsStrictOrderedRing K] (hx : Interior p x) (h : LeastProjected p x q least)
    (ho : o.validate = .ok ()) : Interior p (nextPoint p o.affineStep least x q) := by
  obtain ⟨⟨hpos, hone⟩, -⟩ := Options.validate_eq_ok_iff.mp ho
  constructor
  · intro i
    have hpart : 0 < (1 - o.affineStep) * x i := mul_pos (sub_pos.mpr hone) (hx.positive i)
    exact hpart.trans_le (le_nextPoint hpos.le (fun i => (hx.positive i).le) h.le i)
  · rw [augmented_mulVec_nextPoint h.projection.kernel]
    exact hx.solves

/-- A point of the problem as the iterate with a number. -/
def iterateAt (p : Problem K) (x : Fin (p.nvars + p.ncons) → K) (k : ℕ) :
    InteriorPoint (Checked K) := ⟨(List.ofFn x).map number, p.nvars, k⟩

/-- The record of a step between two points. -/
def recordAt (p : Problem K) (x y : Fin (p.nvars + p.ncons) → K) (least : K) (k : ℕ) :
    Record (Checked K) :=
  .affine (k + 1) (number (p.augmentedCosts ⬝ᵥ y))
    (number (Scalar.sqrt (∑ i, (y i - x i) ^ 2))) (number least) .zero

/-- What comes of the move along a projected cost. -/
def moveOutcome (o : Options K) (c : Criterion (Checked K)) (p : Problem K)
    (x q : Fin (p.nvars + p.ncons) → K) (least : K) (k : ℕ) :
    Option (StepOutcome (Checked K)) :=
  if 2 ^ 64 ≤ k + 1 then none
  else if ¬Stationary p x q ∧ least = 0 then some (.failed (.nonFinite (k + 1)))
  else
    let y := nextPoint p o.affineStep least x q
    let record := recordAt p x y least k
    if c record (o.map number) then some (.converged (iterateAt p y (k + 1)) record)
    else some (.advanced (iterateAt p y (k + 1)) record)

/-- What comes of a step from a point with a projected cost. -/
def outcomeAt (o : Options K) (c : Criterion (Checked K)) (p : Problem K)
    (x q : Fin (p.nvars + p.ncons) → K) (least : K) (k : ℕ) :
    Option (StepOutcome (Checked K)) :=
  if o.reducedCostThreshold ≤ least then some (.notApplicable (number least))
  else moveOutcome o c p x q least k

variable [IsStrictOrderedRing K]

theorem accept?_interior (hv : p.validate = .ok ())
    (hfeas : 0 ≤ o.feasibilityTolerance) (hcount : k + 1 < 2 ^ 64)
    {y : Fin (p.nvars + p.ncons) → K} (hy : p.augmented *ᵥ y = p.bounds) :
    accept? ⟨o.map number, c⟩ ((Workspace.form p).map number) (iterateAt p x k) (number least)
        ((List.ofFn y).map number) =
      if c (recordAt p x y least k) (o.map number) then
        some (.converged (iterateAt p y (k + 1)) (recordAt p x y least k))
      else some (.advanced (iterateAt p y (k + 1)) (recordAt p x y least k)) := by
  obtain ⟨r, hr, hle⟩ := Workspace.form_residual? (x := y) hv
  have hbound : r ≤ (Workspace.form p).residualBound o.feasibilityTolerance := by
    have hnonneg : 0 ≤ (Workspace.form p).residualBound o.feasibilityTolerance :=
      mul_nonneg hfeas (add_nonneg zero_le_one (Vec.normInf_nonneg _))
    rw [hle, hy]
    refine ⟨hnonneg, fun i => ?_⟩
    rw [sub_self, abs_zero]
    exact hnonneg
  have hresidual : ((Workspace.form p).map number).residual? ((List.ofFn y).map number) =
      some (number r) := by
    rw [Workspace.residual?_map_number, hr, Option.map_some]
  have hcheck : number r ≤ ((Workspace.form p).map number).residualBound
      (o.map number).feasibilityTolerance := by
    rw [show (o.map number).feasibilityTolerance = number o.feasibilityTolerance from rfl,
      Workspace.residualBound_map_number]
    exact number_le.mpr hbound
  have hdistance : Vec.distance2? ((List.ofFn y).map number) ((List.ofFn x).map number) =
      some (number (Scalar.sqrt (∑ i, (y i - x i) ^ 2))) := by
    rw [Vec.distance2?_map_number, Vec.distance2?_ofFn, Option.map_some]
  have hobjective : ((Workspace.form p).map number).objective? ((List.ofFn y).map number) =
      some (number (p.augmentedCosts ⬝ᵥ y)) := by
    rw [Workspace.objective?_map_number, Workspace.form_objective?, Option.map_some]
  simp only [accept?, iterateAt, Size.add?_eq hcount, Vec.allFinite_map_number, hresidual, hcheck,
    hdistance, hobjective, Option.bind_eq_bind, Option.bind_some, Bool.not_true,
    Bool.false_eq_true, if_false, if_true]
  rfl

theorem accept?_move (hv : p.validate = .ok ()) (ho : o.validate = .ok ()) (hx : Interior p x)
    (hq : LeastProjected p x q least) :
    accept? ⟨o.map number, c⟩ ((Workspace.form p).map number) (iterateAt p x k) (number least)
        (move (number o.affineStep) ((Workspace.form p).map number) ((List.ofFn x).map number)
          ((List.ofFn q).map number) (number least)) = moveOutcome o c p x q least k := by
  have hN : 0 < p.nvars + p.ncons := Nat.add_pos_left (Problem.nvars_pos hv) _
  have hne : ∀ u : Fin (p.nvars + p.ncons) → K, List.ofFn u ≠ [] := fun u =>
    List.ne_nil_of_length_pos (by rw [List.length_ofFn]; exact hN)
  have hstationary : Stationary p x q ↔ Vec.normInf (List.ofFn q) ≤
      Scalar.epsilon * (Workspace.form p).scaledCostNorm (List.ofFn x) := by
    rw [Workspace.scaledCostNorm, Workspace.form_scaledCost]
    exact Iff.rfl
  obtain ⟨-, -, -, ⟨hfeas, -⟩, -⟩ := Options.validate_eq_ok_iff.mp ho
  unfold moveOutcome
  by_cases hcount : 2 ^ 64 ≤ k + 1
  · rw [if_pos hcount, accept?, iterateAt, Size.add?_eq_none hcount]
    rfl
  · rw [if_neg hcount]
    by_cases hzero : ¬Stationary p x q ∧ least = 0
    · obtain ⟨hmoves, rfl⟩ := hzero
      have hundefined := move_of_div_zero o.affineStep (fun h => hmoves (hstationary.mpr h))
        (hne x) (hne q)
      rw [if_pos ⟨hmoves, rfl⟩, accept?, iterateAt, Size.add?_eq (not_le.mp hcount)]
      simp only [hundefined, Option.bind_eq_bind, Option.bind_some]
      rfl
    · rw [if_neg hzero, move_map_number, move_eq (a := ⟨o, fun _ _ => false⟩),
        accept?_interior hv hfeas (not_le.mp hcount) (hx.next hq ho).solves]
      intro hmoves hleast
      exact hzero ⟨fun h => hmoves (hstationary.mp h), hleast⟩

omit [IsStrictOrderedRing K] in
theorem analyse?_map_number (hfit : Workspace.Fits p) :
    LdlSolver.analyse? { tolerance := (o.map number).singularTolerance }
      ((Workspace.form p).map number).ncons =
        some ((LdlSolver.resized { tolerance := o.singularTolerance } p.ncons).map number) := by
  have hncons : ((Workspace.form p).map number).ncons = p.ncons := Matrix.ofMat_nrows
  have hroom : Matrix.Room (Checked K) p.ncons p.ncons :=
    Matrix.room_iff_lt (K := K) |>.mpr hfit.square_lt
  rw [hncons, LdlSolver.analyse?_eq hroom]
  rfl

theorem step?_map_number (hfit : Workspace.Fits p) (hsing : 0 ≤ o.singularTolerance)
    {effort effort' : Effort} {i : ℕ} (hargmin : Vec.argmin (List.ofFn q) = some (i, least))
    (hcost : (Workspace.form p).projectedCost? (List.ofFn x)
      (LdlSolver.resized { tolerance := o.singularTolerance } p.ncons) effort =
        some (.ok (List.ofFn q), effort')) :
    step? ⟨o.map number, c⟩ ((Workspace.form p).map number) (iterateAt p x k) effort =
      if o.reducedCostThreshold ≤ least then some (.notApplicable (number least), effort')
      else (accept? ⟨o.map number, c⟩ ((Workspace.form p).map number) (iterateAt p x k)
        (number least) (move (number o.affineStep) ((Workspace.form p).map number)
          ((List.ofFn x).map number) ((List.ofFn q).map number) (number least))).map
            (·, effort') := by
  have hargmin' : Vec.argmin ((List.ofFn q).map number) = some (i, number least) := by
    rw [Vec.argmin_map_number, hargmin, Option.map_some]
  have hcost' := Workspace.projectedCost?_map_number (s := LdlSolver.resized
    { tolerance := o.singularTolerance } p.ncons) hsing hcost
  unfold step?
  rw [Option.map_eq_bind]
  dsimp only
  rw [analyse?_map_number hfit, Option.bind_eq_bind, Option.bind_some,
    show (iterateAt p x k).x = (List.ofFn x).map number from rfl, hcost', Option.bind_eq_bind,
    Option.bind_some]
  dsimp only
  rw [hargmin']
  rfl

theorem checkedStep?_of_projected (hv : p.validate = .ok ()) (hfit : Workspace.Fits p)
    (ho : o.validate = .ok ()) (hx : Interior p x) {effort effort' : Effort}
    (h : Projected (of o) p x effort q least effort') :
    step? ⟨o.map number, c⟩ ((Workspace.form p).map number) (iterateAt p x k) effort =
      (outcomeAt o c p x q least k).map (·, effort') := by
  obtain ⟨-, -, -, -, ⟨hsing, -⟩, -⟩ := Options.validate_eq_ok_iff.mp ho
  obtain ⟨i, hargmin⟩ := h.argmin
  rw [step?_map_number hfit hsing hargmin h.cost, accept?_move hv ho hx h.leastProjected, outcomeAt]
  split
  · rfl
  · rfl

theorem checkedStep?_cases (hv : p.validate = .ok ()) (hfit : Workspace.Fits p)
    (ho : o.validate = .ok ()) (hx : Interior p x) (effort : Effort) :
    ((∀ q least effort', ¬Projected (of o) p x effort q least effort') ∧
      ∃ e, step? ⟨o.map number, c⟩ ((Workspace.form p).map number) (iterateAt p x k) effort =
        some (.failed (.system e), effort)) ∨
    ∃ q least effort', Projected (of o) p x effort q least effort' ∧
      step? ⟨o.map number, c⟩ ((Workspace.form p).map number) (iterateAt p x k) effort =
        (outcomeAt o c p x q least k).map (·, effort') := by
  obtain ⟨-, -, -, -, ⟨hsing, -⟩, -⟩ := Options.validate_eq_ok_iff.mp ho
  rcases LdlSolver.factor?_cases (p.isSymm_normalMatrix x)
    (s := LdlSolver.resized { tolerance := o.singularTolerance } p.ncons) hfit.square_lt hsing
    rfl with
    ⟨e, hfactor⟩ | ⟨s', hfactor, hsolves⟩
  · left
    have hcost := Workspace.projectedCost?_error hfit hfactor effort
    obtain ⟨hscale, hgram⟩ := Workspace.form_normalMatrix (x := x) hfit
    obtain ⟨e', hcost'⟩ := Workspace.projectedCost?_error_map_number (s := LdlSolver.resized
      { tolerance := o.singularTolerance } p.ncons) hsing hscale hgram hfactor effort
    refine ⟨fun q least effort' hproj => ?_, e', ?_⟩
    · have hok := hproj.cost
      rw [show (of o).options = o from rfl, hcost] at hok
      cases hok
    · unfold step?
      dsimp only
      rw [analyse?_map_number hfit, Option.bind_eq_bind, Option.bind_some,
        show (iterateAt p x k).x = (List.ofFn x).map number from rfl, hcost']
      rfl
  · right
    obtain ⟨q, effort', hcost, hproj⟩ := Workspace.projectedCost?_ok hv hfit hfactor hsolves effort
    obtain ⟨least, hprojected⟩ := exists_projected (a := of o) hv hcost hproj
    exact ⟨q, least, effort', hprojected, checkedStep?_of_projected hv hfit ho hx hprojected⟩

/-- **A step from an interior point**, without a tolerance for singular systems. -/
theorem step?_eq_outcomeAt (hv : p.validate = .ok ()) (hfit : Workspace.Fits p)
    (ho : o.validate = .ok ()) (hsing : o.singularTolerance = 0) (hx : Interior p x)
    (effort : Effort) :
    ∃ q least effort', LeastProjected p x q least ∧
      step? ⟨o.map number, c⟩ ((Workspace.form p).map number) (iterateAt p x k) effort =
        (outcomeAt o c p x q least k).map (·, effort') := by
  rcases checkedStep?_cases (c := c) (k := k) hv hfit ho hx effort with
    ⟨hnot, -⟩ | ⟨q, least, effort', hproj, hstep⟩
  · obtain ⟨q, effort', hcost, hproj⟩ := Workspace.projectedCost?_interior (x := x)
      (s := LdlSolver.resized { tolerance := o.singularTolerance } p.ncons) hv hfit hsing rfl
      (fun i => (hx.positive _).ne') effort
    obtain ⟨least, hprojected⟩ := exists_projected (a := of o) hv hcost hproj
    exact absurd hprojected (hnot q least effort')
  · exact ⟨q, least, effort', hproj.leastProjected, hstep⟩

end AffineScaling

end LinProg
