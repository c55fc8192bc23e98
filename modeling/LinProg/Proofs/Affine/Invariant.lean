import LinProg.Proofs.Affine.Start

/-!
# The iterates of affine scaling in exact arithmetic

Every step from an interior point leads to an interior point with no smaller objective
(`Accepted.inside`, `Accepted.value_le`), so every state of a solve is one (`Kept`).
`iterates_stay_inside` says how far a step goes and what it gains.
-/

open scoped Matrix

namespace LinProg.AffineScaling

variable {K : Type} [Field K] [LinearOrder K] [IsStrictOrderedRing K] [Exact K]
variable {a : AffineScaling K} {p : Problem K} {s point : InteriorPoint K} {record : Record K}
variable {effort effort' : Effort} {least : K} {q : Fin (p.nvars + p.ncons) → K}

theorem Advances.accepted (hv : p.validate = .ok ()) (hfit : Workspace.Fits p)
    (ho : a.options.validate = .ok ()) (h : s.Inside p)
    (hstep : Advances a (Workspace.form p) s effort point record effort') :
    ∃ q least, Projected a p (Vec.coords (p.nvars + p.ncons) s.x) effort q least effort' ∧
      least < a.options.reducedCostThreshold ∧
      Accepted p s least (nextPoint p a.options.affineStep least
        (Vec.coords (p.nvars + p.ncons) s.x) q) point record := by
  rcases step?_cases hv hfit ho h effort with
    ⟨e, -, he⟩ | ⟨q, least, effort'', hproj, ⟨-, hrejected⟩ |
      ⟨hleast, ⟨-, hnone⟩ | ⟨point', record', haccepted, hok⟩⟩⟩
  · obtain ⟨hout | hout, -⟩ := hstep.outcome he
    · cases hout
    · cases hout
  · obtain ⟨hout | hout, -⟩ := hstep.outcome hrejected
    · cases hout
    · cases hout
  · exact absurd hnone hstep.step?_ne_none
  · rcases hok with hok | hok
    · obtain ⟨hout | hout, rfl⟩ := hstep.outcome hok
      · cases hout
        exact ⟨q, least, hproj, hleast, haccepted⟩
      · cases hout
    · obtain ⟨hout | hout, rfl⟩ := hstep.outcome hok
      · cases hout
      · cases hout
        exact ⟨q, least, hproj, hleast, haccepted⟩

section Accepted

variable (ho : a.options.validate = .ok ()) (h : s.Inside p)
  (hproj : Projected a p (Vec.coords (p.nvars + p.ncons) s.x) effort q least effort')
  (hacc : Accepted p s least (nextPoint p a.options.affineStep least
    (Vec.coords (p.nvars + p.ncons) s.x) q) point record)
include ho h hproj hacc

theorem Accepted.le (i : Fin (p.nvars + p.ncons)) :
    (1 - a.options.affineStep) * Vec.coords (p.nvars + p.ncons) s.x i ≤
      Vec.coords (p.nvars + p.ncons) point.x i := by
  rw [hacc.coords_eq]
  exact le_nextPoint (Options.validate_eq_ok_iff.mp ho).1.1.le (fun i => (h.positive i).le)
    hproj.least_le i

theorem Accepted.inside : point.Inside p where
  length := by rw [hacc.x, List.length_ofFn]
  positive := by
    intro i
    have hpart : 0 < 1 - a.options.affineStep :=
      sub_pos.mpr (Options.validate_eq_ok_iff.mp ho).1.2
    exact (mul_pos hpart (h.positive i)).trans_le (hacc.le ho h hproj i)
  solves := by
    rw [hacc.coords_eq, augmented_mulVec_nextPoint hproj.projection.kernel]
    exact h.solves

omit h in
theorem Accepted.value_le : p.augmentedCosts ⬝ᵥ Vec.coords (p.nvars + p.ncons) s.x ≤
    p.augmentedCosts ⬝ᵥ Vec.coords (p.nvars + p.ncons) point.x := by
  rw [hacc.coords_eq]
  exact value_le_nextPoint (Options.validate_eq_ok_iff.mp ho).1.1.le hproj.projection

end Accepted

/-- What all states of a solve have: an interior point, and objectives that have grown from the
value at the starting point up to the value here. -/
structure Kept (p : Problem K) (value : K) (P : Progress K) : Prop where
  inside : P.point.Inside p
  nvars : P.point.nvars = p.nvars
  increasing : (value :: P.history.toList.map Record.objective).Pairwise (· ≤ ·)
  value_le : ∀ v ∈ value :: P.history.toList.map Record.objective,
    v ≤ p.augmentedCosts ⬝ᵥ Vec.coords (p.nvars + p.ncons) P.point.x

theorem Kept.advanced {value : K} {P : Progress K} (h : Kept p value P)
    (hv : p.validate = .ok ()) (hfit : Workspace.Fits p) (ho : a.options.validate = .ok ())
    (hstep : Advances a (Workspace.form p) P.point P.effort point record effort')
    (elapsed : Duration) : Kept p value (P.advanced point record elapsed effort') := by
  obtain ⟨q, least, hproj, -, hacc⟩ := hstep.accepted hv hfit ho h.inside
  have hgain := hacc.value_le ho hproj
  have hobjective : record.objective =
      p.augmentedCosts ⬝ᵥ Vec.coords (p.nvars + p.ncons) point.x := by
    rw [hacc.objective, hacc.coords_eq]
  have hhistory : (P.advanced point record elapsed effort').history.toList.map Record.objective =
      P.history.toList.map Record.objective ++ [record.objective] := by
    rw [Progress.advanced, Array.toList_push, List.map_append]
    rfl
  refine ⟨hacc.inside ho h.inside hproj, hacc.nvars.trans h.nvars, ?_, ?_⟩
  · rw [hhistory, ← List.cons_append, List.pairwise_append]
    refine ⟨h.increasing, List.pairwise_singleton _ _, fun u hu v hv => ?_⟩
    rw [List.mem_singleton.mp hv, hobjective]
    exact (h.value_le u hu).trans hgain
  · rw [hhistory, ← List.cons_append]
    intro v hv
    rcases List.mem_append.mp hv with hv | hv
    · exact (h.value_le v hv).trans hgain
    · rw [List.mem_singleton.mp hv, hobjective]
      exact le_rfl

section Solve

variable {start : List K} {w : Workspace K}

omit [IsStrictOrderedRing K] in
theorem Kept.begin (h : a.begin p start = .ok (.at w point)) :
    w = Workspace.form p ∧ Workspace.Fits p ∧ point.iteration = 0 ∧
      Kept p (p.augmentedCosts ⬝ᵥ Vec.coords (p.nvars + p.ncons) point.x) { point := point } := by
  obtain ⟨hv, -, -, hinitial, hw⟩ := begin_eq_at_iff.mp h
  obtain ⟨hfit, rfl⟩ := Workspace.form_of_of?_eq_some hv hw
  obtain ⟨-, hpos, rfl⟩ := (InteriorPoint.initial_eq_ok_iff hv).mp hinitial
  have hinside := InteriorPoint.startPoint_inside hpos
  refine ⟨rfl, hfit, rfl, hinside, rfl, List.pairwise_singleton _ _, ?_⟩
  intro v hv
  rw [List.mem_singleton.mp hv]

theorem Reached.kept {k : ℕ} {P : Progress K} (h : a.begin p start = .ok (.at w point))
    (hP : Reached a w { point := point } k P) :
    Kept p (p.augmentedCosts ⬝ᵥ Vec.coords (p.nvars + p.ncons) point.x) P := by
  obtain ⟨hv, ho, -, -, -⟩ := begin_eq_at_iff.mp h
  obtain ⟨rfl, hfit, -, hstart⟩ := Kept.begin h
  induction hP with
  | start => exact hstart
  | step _ hstep elapsed ih => exact ih.advanced hv hfit ho hstep elapsed

theorem Reached.iteration {k : ℕ} {P : Progress K} (h : a.begin p start = .ok (.at w point))
    (hP : Reached a w { point := point } k P) : P.point.iteration = k := by
  obtain ⟨hv, ho, -, -, -⟩ := begin_eq_at_iff.mp h
  obtain ⟨rfl, hfit, hzero, -⟩ := Kept.begin h
  induction hP with
  | start => exact hzero
  | step hP hstep elapsed ih =>
    obtain ⟨q, least, -, -, hacc⟩ := hstep.accepted hv hfit ho (hP.kept h).inside
    exact hacc.iteration.trans (congrArg (· + 1) ih)

omit [IsStrictOrderedRing K] in
theorem report?_spec {value : K} {P : Progress K} (h : Kept p value P) (status : Status)
    (time : Duration) :
    ∃ sol, report? (Workspace.form p) status P time = some sol ∧ sol.status = status ∧
      sol.stats.history = P.history ∧
      (keepsIterate status = true →
        sol.primal = List.ofFn (fun j =>
          Vec.coords (p.nvars + p.ncons) P.point.x (Fin.castAdd p.ncons j)) ∧
        sol.slack = List.ofFn (fun i =>
          Vec.coords (p.nvars + p.ncons) P.point.x (Fin.natAdd p.nvars i)) ∧
        sol.objectiveValue = p.augmentedCosts ⬝ᵥ Vec.coords (p.nvars + p.ncons) P.point.x) := by
  let x := Vec.coords (p.nvars + p.ncons) P.point.x
  have hx : P.point.x = List.ofFn x := h.inside.eq_ofFn
  have hprimal : P.point.primal? = some (List.ofFn fun j => x (Fin.castAdd p.ncons j)) := by
    rw [InteriorPoint.primal?, h.nvars, if_pos (by rw [h.inside.length]; omega), hx, Vec.take_ofFn]
  have hslack : P.point.slack? = some (List.ofFn fun i => x (Fin.natAdd p.nvars i)) := by
    rw [InteriorPoint.slack?, h.nvars, if_pos (by rw [h.inside.length]; omega), hx, Vec.drop_ofFn]
  have hobjective : (Workspace.form p).objective? P.point.x = some (p.augmentedCosts ⬝ᵥ x) := by
    rw [hx, Workspace.form_objective?]
  let stats : Stats K := {
    history := P.history
    solveTime := time
    factorizations := P.effort.factorizations
    linearSolves := P.effort.linearSolves }
  by_cases hkeeps : keepsIterate status = true
  · let sol : Solution K := {
      primal := List.ofFn fun j => x (Fin.castAdd p.ncons j)
      slack := List.ofFn fun i => x (Fin.natAdd p.nvars i)
      status := status
      objectiveValue := p.augmentedCosts ⬝ᵥ x
      iterations := P.history.size
      stats := stats }
    refine ⟨sol, ?_, rfl, rfl, fun _ => ⟨rfl, rfl, rfl⟩⟩
    rw [report?, hobjective, Option.bind_eq_bind, Option.bind_some, if_pos hkeeps, hprimal, hslack]
    rfl
  · let sol : Solution K :=
      { Solution.terminated status (Workspace.form p).nvars (Workspace.form p).ncons with
        iterations := P.history.size
        stats := stats }
    refine ⟨sol, ?_, rfl, rfl, fun htrue => absurd htrue hkeeps⟩
    rw [report?, hobjective, Option.bind_eq_bind, Option.bind_some, if_neg hkeeps]
    rfl

/-- A solution reports a state that the solve has reached. -/
structure Reports (a : AffineScaling K) (p : Problem K) (point : InteriorPoint K)
    (sol : Solution K) (l : ℕ) (Q : Progress K) : Prop where
  le : l ≤ a.options.maxIterations
  reached : Reached a (Workspace.form p) { point := point } l Q
  history : sol.stats.history = Q.history
  ended : ∃ effort, Ended a (Workspace.form p) Q effort sol.status
  iterate : keepsIterate sol.status = true →
    sol.primal = List.ofFn (fun j =>
      Vec.coords (p.nvars + p.ncons) Q.point.x (Fin.castAdd p.ncons j)) ∧
    sol.slack = List.ofFn (fun i =>
      Vec.coords (p.nvars + p.ncons) Q.point.x (Fin.natAdd p.nvars i)) ∧
    sol.objectiveValue = p.augmentedCosts ⬝ᵥ Vec.coords (p.nvars + p.ncons) Q.point.x

theorem run_yields_reports (h : a.begin p start = .ok (.at w point)) {r : Option (Solution K)}
    (hr : (a.run w point).Yields r) :
    (r = none ∧ ∃ l Q, l < a.options.maxIterations ∧ Reached a w { point := point } l Q ∧
      a.step? w Q.point Q.effort = none) ∨
    ∃ sol l Q, r = some sol ∧ Reports a p point sol l Q := by
  obtain ⟨rfl, -, -, -⟩ := Kept.begin h
  obtain ⟨start, ended, time, hended, rfl⟩ := run_yields hr
  rcases iterate_yields .start hended with
    ⟨rfl, l, Q, hl, hQ, hnone⟩ | ⟨status, l, Q, effort, hl, hQ, hend, rfl⟩
  · rw [Nat.zero_add] at hl
    exact Or.inl ⟨rfl, l, Q, hl, hQ, hnone⟩
  · right
    rw [Nat.zero_add] at hl
    have hkept := hQ.kept h
    have hkept' : Kept p (p.augmentedCosts ⬝ᵥ Vec.coords (p.nvars + p.ncons) point.x)
        { Q with effort := effort } :=
      ⟨hkept.inside, hkept.nvars, hkept.increasing, hkept.value_le⟩
    obtain ⟨sol, hsol, rfl, hhistory, hiterate⟩ := report?_spec hkept' status time
    exact ⟨sol, l, Q, hsol, hl, hQ, hhistory, ⟨effort, hend⟩, hiterate⟩

omit [IsStrictOrderedRing K] in
theorem solve_yields_ok {sol : Solution K} (hsol : (a.solve p start).Yields (.ok sol)) :
    (∃ w point, a.begin p start = .ok (.at w point) ∧ (a.run w point).Yields (some sol)) ∨
      keepsIterate sol.status = false ∧ sol.stats.history = #[] := by
  rcases solve_yields hsol with
    ⟨w, point, hbegin, s, hs, hsome⟩ | ⟨status, hbegin, hterminated⟩ | ⟨e, -, herror⟩ | ⟨-, hfault⟩
  · left
    cases s with
    | none => cases hsome
    | some sol' =>
      cases hsome
      exact ⟨w, point, hbegin, hs⟩
  · right
    cases hterminated
    exact ⟨keepsIterate_of_begin_rejected hbegin, rfl⟩
  · cases herror
  · cases hfault

theorem Reports.stays_inside {sol : Solution K} {l : ℕ} {Q : Progress K}
    (h : a.begin p start = .ok (.at w point)) (hreports : Reports a p point sol l Q) :
    (sol.stats.history.toList.map Record.objective).Pairwise (· ≤ ·) ∧
    (keepsIterate sol.status = true →
      sol.primal.length = p.nvars ∧ sol.slack.length = p.ncons ∧
      (∀ v ∈ sol.primal, 0 < v) ∧ (∀ v ∈ sol.slack, 0 < v) ∧
      p.coeffs *ᵥ Vec.coords p.nvars sol.primal + Vec.coords p.ncons sol.slack = p.bounds) := by
  obtain ⟨rfl, -, -, -⟩ := Kept.begin h
  have hkept := hreports.reached.kept h
  constructor
  · rw [hreports.history]
    exact (List.pairwise_cons.mp hkept.increasing).2
  · intro hkeeps
    obtain ⟨hprimal, hslack, -⟩ := hreports.iterate hkeeps
    have hsolves := hkept.inside.solves
    rw [Problem.augmented_mulVec] at hsolves
    rw [hprimal, hslack, Vec.coords_ofFn, Vec.coords_ofFn]
    refine ⟨List.length_ofFn, List.length_ofFn, ?_, ?_, hsolves⟩
    · exact List.forall_mem_ofFn_iff.mpr fun j => hkept.inside.positive _
    · exact List.forall_mem_ofFn_iff.mpr fun i => hkept.inside.positive _

end Solve

/-- **The iterates stay inside.** In exact arithmetic, for a valid problem and valid options:

* a step from an interior point that leads on solves the equations exactly and keeps more than the
  part `1 - affineStep` of each coordinate. It stays where the projected cost has vanished, and
  gains `affineStep * q² / |least|` otherwise;
* so all states of a solve are interior points, and their objectives never decrease;
* and so do the points and the records that a solve returns.

A field divides by zero with the result zero, which the first part leaves out. -/
theorem iterates_stay_inside (hvalid : p.validate = .ok ()) (ho : a.options.validate = .ok ()) :
    (∀ w s effort point record effort', Workspace.of? p = some w → s.Inside p →
      Advances a w s effort point record effort' →
      let x := Vec.coords (p.nvars + p.ncons) s.x
      let x' := Vec.coords (p.nvars + p.ncons) point.x
      ∃ q least, Projected a p x effort q least effort' ∧ record.minReducedCost = some least ∧
        (Stationary p x q ∨ least ≠ 0 →
          point.x.length = p.nvars + p.ncons ∧ p.augmented *ᵥ x' = p.bounds ∧
          (∀ i, (1 - a.options.affineStep) * x i ≤ x' i ∧ 0 < (1 - a.options.affineStep) * x i) ∧
          (Stationary p x q ∧ x' = x ∨
            ¬Stationary p x q ∧ q ≠ 0 ∧
              p.costs ⬝ᵥ (fun j => x' (Fin.castAdd p.ncons j)) =
                p.costs ⬝ᵥ (fun j => x (Fin.castAdd p.ncons j)) +
                  a.options.affineStep * (q ⬝ᵥ q) / |least|))) ∧
    (∀ start w point k P, a.begin p start = .ok (.at w point) →
      Reached a w { point := point } k P →
      P.point.Inside p ∧
        (p.costs ⬝ᵥ Vec.coords p.nvars start :: P.history.toList.map Record.objective).Pairwise
          (· ≤ ·)) ∧
    ∀ start sol, (a.solve p start).Yields (.ok sol) →
      (sol.stats.history.toList.map Record.objective).Pairwise (· ≤ ·) ∧
      (keepsIterate sol.status = true →
        sol.primal.length = p.nvars ∧ sol.slack.length = p.ncons ∧
        (∀ v ∈ sol.primal, 0 < v) ∧ (∀ v ∈ sol.slack, 0 < v) ∧
        p.coeffs *ᵥ Vec.coords p.nvars sol.primal + Vec.coords p.ncons sol.slack = p.bounds) := by
  refine ⟨?_, ?_, ?_⟩
  · intro w s effort point record effort' hw hinside hstep x x'
    obtain ⟨hfit, rfl⟩ := Workspace.form_of_of?_eq_some hvalid hw
    obtain ⟨q, least, hproj, -, hacc⟩ := hstep.accepted hvalid hfit ho hinside
    have hpart : 0 < 1 - a.options.affineStep :=
      sub_pos.mpr (Options.validate_eq_ok_iff.mp ho).1.2
    have hnext := hacc.inside ho hinside hproj
    have hx' : x' = nextPoint p a.options.affineStep least x q := hacc.coords_eq
    refine ⟨q, least, hproj, hacc.minReducedCost, fun _ => ⟨hnext.length, hnext.solves,
      fun i => ⟨hacc.le ho hinside hproj i, mul_pos hpart (hinside.positive i)⟩, ?_⟩⟩
    rw [← Problem.augmentedCosts_dotProduct, ← Problem.augmentedCosts_dotProduct, hx']
    exact nextPoint_cases hproj.projection
  · intro start w point k P hbegin hP
    have hkept := hP.kept hbegin
    obtain ⟨-, -, -, hinitial, -⟩ := begin_eq_at_iff.mp hbegin
    obtain ⟨-, -, rfl⟩ := (InteriorPoint.initial_eq_ok_iff hvalid).mp hinitial
    have hincreasing := hkept.increasing
    rw [InteriorPoint.value_startPoint] at hincreasing
    exact ⟨hkept.inside, hincreasing⟩
  · intro start sol hsol
    rcases solve_yields_ok hsol with ⟨w, point, hbegin, hrun⟩ | ⟨hkeeps, hhistory⟩
    · rcases run_yields_reports hbegin hrun with ⟨hnone, -⟩ | ⟨sol', l, Q, hsome, hreports⟩
      · cases hnone
      · cases hsome
        exact hreports.stays_inside hbegin
    · rw [hkeeps, hhistory]
      exact ⟨List.Pairwise.nil, nofun⟩

/-- Two steps, with no tolerance for singular systems. -/
def twoSteps : Options ℚ := { Options.default with maxIterations := 2, singularTolerance := 0 }

theorem twoSteps_validate : twoSteps.validate = .ok () :=
  Options.validate_eq_ok_iff.mpr (by decide +kernel)

theorem twoByTwo_stays_inside : ∃ sol,
    ((of twoSteps).solve Problem.twoByTwo [1, 1]).Yields (.ok sol) ∧ sol.iterations = 2 ∧
    (sol.stats.history.toList.map Record.objective).Pairwise (· ≤ ·) ∧
    (∀ v ∈ sol.primal, 0 < v) ∧ (∀ v ∈ sol.slack, 0 < v) ∧
    Problem.twoByTwo.coeffs *ᵥ Vec.coords _ sol.primal + Vec.coords _ sol.slack =
      Problem.twoByTwo.bounds := by
  obtain ⟨sol, hyields, hstatus, htwo⟩ := Timed.exists_yields_ok
    (x := (of twoSteps).solve Problem.twoByTwo [1, 1])
    (P := fun sol => sol.status = .maxIterations ∧ sol.iterations = 2) (by decide +kernel)
  obtain ⟨-, -, h⟩ := iterates_stay_inside (a := of twoSteps) (p := Problem.twoByTwo) rfl
    twoSteps_validate
  obtain ⟨hincreasing, hiterate⟩ := h [1, 1] sol hyields
  obtain ⟨-, -, hprimal, hslack, hsolves⟩ := hiterate (by rw [hstatus]; rfl)
  exact ⟨sol, hyields, htwo, hincreasing, hprimal, hslack, hsolves⟩

end LinProg.AffineScaling
