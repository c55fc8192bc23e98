import LinProg.Proofs.Affine.Runs
import LinProg.Proofs.Exact.Programs
import LinProg.Proofs.Sizes

/-!
# Sizes in a solve by affine scaling

The vectors and matrices of a solve have the sizes that the problem gives them
(`Workspace.Sized`, `InteriorPoint.Sized`), from where it begins and along all steps, in any
arithmetic. So no operation meets another size than it asks for, no entry is missing, and a run
always reports a solution (`run_yields_some`). What breaks a solve down is storage that is refused
before the run, and `LacksStorage` says where (`solve_eq_fault_iff`).

A step from a sized state attempts one factorization. It takes the effort of one projected cost, or
none if the normal system is singular (`step?_outcomes`).
-/

namespace LinProg

variable {α : Type} [Scalar α]

/-- The parts of a workspace have the sizes that `n` variables and `m` constraints ask for. -/
structure Workspace.Sized (w : Workspace α) (n m : ℕ) : Prop where
  hasRows : ∃ rs, w.augmented.HasRows rs
  nrows : w.augmented.nrows = m
  ncols : w.augmented.ncols = n + m
  cost : w.cost.length = n + m
  rhs : w.rhs.length = m
  nvars : w.nvars = n
  nvars_pos : 0 < n
  stores : Scalar.Stores α (n + m)
  /-- Every entry of `[A | I]` has an address, and storage holds them all. -/
  room : Matrix.Room α m (n + m)

/-- An iterate holds `n` variables and `m` slacks. -/
structure InteriorPoint.Sized (s : InteriorPoint α) (n m : ℕ) : Prop where
  length : s.x.length = n + m
  nvars : s.nvars = n

omit [Scalar α] in
theorem InteriorPoint.Sized.length_values {s : InteriorPoint α} {n m : ℕ} (h : s.Sized n m) :
    (s.x.take n).length = n ∧ (s.x.drop n).length = m := by
  rw [List.length_take, List.length_drop, h.length]
  omega

variable {n m : ℕ}

namespace Workspace

variable {w : Workspace α}

theorem exists_of? {p : Problem α} (hv : p.validate = .ok ()) (hwidth : p.nvars + p.ncons < 2 ^ 64)
    (hstores : Scalar.Stores α (p.nvars + p.ncons))
    (hroom : Matrix.Room α p.ncons (p.nvars + p.ncons)) :
    ∃ w, Workspace.of? p = some w ∧ w.Sized p.nvars p.ncons ∧
      w.cost = p.cost ++ List.replicate p.ncons 0 := by
  have hncols := Problem.ncols_eq hv
  have hnrows := Problem.nrows_eq hv
  obtain ⟨M, rs, hM, hrows, hMrows, hMcols⟩ := (Problem.hasRows hv).exists_withIdentityBlock?
    (by rw [hncols, hnrows]; exact hroom) (by rw [hncols, hnrows]; exact hwidth)
  refine ⟨⟨M, p.cost ++ List.replicate p.ncons 0, p.rhs, p.nvars⟩, ?_, ⟨⟨rs, hrows⟩, ?_, ?_, ?_,
    rfl, rfl, Problem.nvars_pos hv, hstores, hroom⟩, rfl⟩
  · rw [of?, Size.add?_eq hwidth, Option.bind_eq_bind, Option.bind_some,
      Scalar.entries?_eq hstores, Option.bind_some, hM]
    rfl
  · exact hMrows.trans hnrows
  · rw [hMcols, hncols, hnrows]
  · rw [List.length_append, List.length_replicate]
    rfl

theorem sized_of_of? {p : Problem α} (hv : p.validate = .ok ()) (hw : Workspace.of? p = some w) :
    w.Sized p.nvars p.ncons ∧ w.cost = p.cost ++ List.replicate p.ncons 0 := by
  have hblock := hw
  simp only [of?, Matrix.withIdentityBlock?, Option.bind_eq_bind, Option.bind_eq_some_iff,
    Size.add?_eq_some_iff, Scalar.entries?_eq_some_iff, Matrix.room?_eq_some_iff,
    Problem.ncols_eq hv, Problem.nrows_eq hv] at hblock
  obtain ⟨_, ⟨hwidth, rfl⟩, _, ⟨hstores, -⟩, M, ⟨_, ⟨-, rfl⟩, _, ⟨hroom, -⟩, -⟩, -⟩ := hblock
  obtain ⟨w', hw', hsized⟩ := exists_of? hv hwidth hstores hroom
  rw [hw, Option.some.injEq] at hw'
  rw [hw']
  exact hsized

namespace Sized

variable (h : w.Sized n m)
include h

theorem width_pos : 0 < w.augmented.ncols := by
  have := h.nvars_pos
  rw [h.ncols]
  omega

theorem square_room : Matrix.Room α m m :=
  h.room.mono (Nat.mul_le_mul_left m (Nat.le_add_left m n))

theorem objective?_eq {x : List α} (hx : x.length = n + m) :
    w.objective? x = some (Vec.dot (w.cost.take n) (x.take n)) := by
  have hlen : (w.cost.take n).length = (x.take n).length := by
    rw [List.length_take, List.length_take, h.cost, hx]
  rw [objective?, h.nvars, if_pos (by omega), Vec.dot?, if_pos hlen]

theorem exists_residual? {x : List α} (hx : x.length = n + m) : ∃ r, w.residual? x = some r := by
  obtain ⟨rs, hrows⟩ := h.hasRows
  obtain ⟨v, hv, -⟩ := hrows.exists_product? h.width_pos (hx.trans h.ncols.symm)
  rw [residual?, hv]
  exact ⟨_, rfl⟩

end Sized

theorem objective?_of_of? {p : Problem α} (hv : p.validate = .ok ()) (hw : Workspace.of? p = some w)
    {x : List α} (hx : x.length = p.nvars + p.ncons) :
    w.objective? x = some (Vec.dot p.cost (x.take p.nvars)) := by
  obtain ⟨hsized, hcost⟩ := sized_of_of? hv hw
  have htake : w.cost.take p.nvars = p.cost := by
    rw [hcost]
    exact List.take_left' rfl
  rw [hsized.objective?_eq hx, htake]

theorem exists_projectOnce? {M : Matrix α} {rs : List (List α)} (hM : M.HasRows rs)
    (hw : 0 < M.ncols) {solver : LdlSolver α} (hsolves : solver.SolvesSize M.nrows) {v : List α}
    (hv : v.length = M.ncols) :
    ∃ q, projectOnce? M solver v.length v = some (.ok q) ∧ q.length = v.length := by
  obtain ⟨b, hb, hblen⟩ := hM.exists_product? hw hv
  obtain ⟨y, hy, hylen⟩ := hsolves b hblen
  obtain ⟨c, hc, hclen⟩ := hM.exists_transposeProductInto? hw hylen
    (y := List.replicate v.length 0) (by rw [List.length_replicate, hv])
  refine ⟨List.zipWith (· - ·) v c, ?_, ?_⟩
  · rw [projectOnce?, hb, Option.bind_eq_bind, Option.bind_some, hy]
    dsimp only
    rw [hc]
    rfl
  · rw [List.length_zipWith, hclen, hv, Nat.min_self]

end Workspace

/-- The effort after one more projected cost. -/
def Effort.projected (effort : Effort) : Effort :=
  ⟨effort.factorizations + 1, effort.linearSolves + 2⟩

namespace Workspace

variable {w : Workspace α}

/-- The factorization that a projection at a point attempts: that of the normal matrix. -/
def attempt? (w : Workspace α) (x : List α) (solver : LdlSolver α) :
    Option (Except (LdlError α) Unit × LdlSolver α) := do
  let scaled ← w.augmented.scaleColumns? x
  solver.factor? (← scaled.gram?)

/-- **The projected cost** is refused by the factorization, without effort, or is as long as the
point. -/
theorem Sized.projectedCost?_outcomes (h : w.Sized n m) {x : List α} (hx : x.length = n + m)
    {solver : LdlSolver α} (hs : solver.dimension? = some m) (effort : Effort) :
    (∃ e u, w.attempt? x solver = some (.error e, u) ∧
      w.projectedCost? x solver effort = some (.error e, effort)) ∨
    ∃ u q, w.attempt? x solver = some (.ok (), u) ∧
      w.projectedCost? x solver effort = some (.ok q, effort.projected) ∧ q.length = n + m := by
  obtain ⟨rs, hrows⟩ := h.hasRows
  obtain ⟨S, rs', hS, hSrows, hSn, hSm⟩ :=
    hrows.exists_scaleColumns? (by rw [h.nrows, h.ncols]; exact h.room.1)
      (hx.trans h.ncols.symm)
  rw [h.nrows] at hSn
  rw [h.ncols] at hSm
  have hpos : 0 < S.ncols := by
    have := h.nvars_pos
    omega
  obtain ⟨G, rs'', hG, hGrows, hGn, hGm⟩ := hSrows.exists_gram?
    (by rw [hSn, hSm]; exact h.room.1) (by rw [hSn]; exact h.square_room)
  rw [hSn] at hGn hGm
  have hattempt : w.attempt? x solver = solver.factor? G := by
    rw [attempt?, hS, Option.bind_eq_bind, Option.bind_some, hG, Option.bind_some]
  rw [hattempt, projectedCost?, hS, Option.bind_eq_bind, Option.bind_some, hG, Option.bind_some]
  rcases LdlSolver.factor?_outcomes hs hGrows hGn hGm h.square_room.1 with
    ⟨e, s', hfactor⟩ | ⟨s', hfactor, hsolves⟩
  · left
    rw [hfactor]
    exact ⟨e, s', rfl, rfl⟩
  · right
    rw [← hSn] at hsolves
    have hcost : (w.scaledCost x).length = n + m := by
      rw [scaledCost, List.length_zipWith, h.cost, hx, Nat.min_self]
    obtain ⟨v, hv, hvlen⟩ := exists_projectOnce? hSrows hpos hsolves (hcost.trans hSm.symm)
    obtain ⟨q, hq, hqlen⟩ :=
      exists_projectOnce? hSrows hpos hsolves (hvlen.trans (hcost.trans hSm.symm))
    rw [hvlen, hcost] at hq
    rw [hcost] at hv
    rw [hfactor]
    simp only [Option.bind_eq_bind, Option.bind_some]
    rw [hx, hv, Option.bind_some]
    dsimp only
    rw [hq]
    exact ⟨s', q, rfl, rfl, by rw [hqlen, hvlen, hcost]⟩

end Workspace

namespace AffineScaling

variable {a : AffineScaling α} {w : Workspace α} {s point : InteriorPoint α} {record : Record α}
  {effort effort' : Effort}

theorem length_move {alpha least : α} {x q : List α} (h : q.length = x.length) :
    (move alpha w x q least).length = x.length := by
  unfold move
  split
  · rfl
  · rw [List.length_zipWith, h, Nat.min_self]

theorem exists_accept? (hw : w.Sized n m) (hs : s.Sized n m) (hcount : s.iteration + 1 < 2 ^ 64)
    (least : α) {next : List α} (hnext : next.length = n + m) :
    ∃ outcome, a.accept? w s least next = some outcome := by
  obtain ⟨residual, hresidual⟩ := hw.exists_residual? hnext
  have hdistance : next.length = s.x.length := hnext.trans hs.length.symm
  rw [accept?, Size.add?_eq hcount, Option.bind_eq_bind, Option.bind_some]
  split
  · exact ⟨_, rfl⟩
  · rw [hresidual, Vec.distance2?, if_pos hdistance, hw.objective?_eq hnext]
    simp only [Option.bind_eq_bind, Option.bind_some]
    split
    · split
      · exact ⟨_, rfl⟩
      · exact ⟨_, rfl⟩
    · exact ⟨_, rfl⟩

/-- The factorization that a step attempts, with a new solver. -/
def attempt? (a : AffineScaling α) (w : Workspace α) (s : InteriorPoint α) :
    Option (Except (LdlError α) Unit × LdlSolver α) :=
  w.attempt? s.x (LdlSolver.resized { tolerance := a.options.singularTolerance } w.ncons)

/-- **The forms of a step**: the factorization is refused, or else the projected cost ends the
solve, or a new iterate is accepted or not. -/
theorem step?_forms (hw : w.Sized n m) (hs : s.Sized n m) (effort : Effort) :
    (∃ e u, a.attempt? w s = some (.error e, u) ∧
      a.step? w s effort = some (.failed (.system e), effort)) ∨
    (∃ u, a.attempt? w s = some (.ok (), u)) ∧
      (a.step? w s effort = some (.failed .noProjectedCost, effort.projected) ∨
      (∃ least, a.step? w s effort = some (.notApplicable least, effort.projected)) ∨
      ∃ next least, next.length = n + m ∧ a.step? w s effort =
        (a.accept? w s least next).map fun outcome => (outcome, effort.projected)) := by
  have hsize : (LdlSolver.resized { tolerance := a.options.singularTolerance } w.ncons :
      LdlSolver α).dimension? = some m := congrArg some hw.nrows
  have hroom : Matrix.Room α w.ncons w.ncons := by
    rw [show w.ncons = m from hw.nrows]
    exact hw.square_room
  rw [step?]
  dsimp only
  rw [LdlSolver.analyse?_eq hroom, Option.bind_eq_bind, Option.bind_some]
  rcases hw.projectedCost?_outcomes hs.length hsize effort with
    ⟨e, u, hattempt, hcost⟩ | ⟨u, q, hattempt, hcost, hq⟩
  · left
    rw [hcost]
    exact ⟨e, u, hattempt, rfl⟩
  · right
    refine ⟨⟨u, hattempt⟩, ?_⟩
    rw [hcost, Option.bind_eq_bind, Option.bind_some]
    dsimp only
    split
    · exact Or.inl rfl
    · right
      split
      · exact Or.inl ⟨_, rfl⟩
      · right
        refine ⟨_, _, ?_, Option.map_eq_bind.symm⟩
        rw [length_move (hq.trans hs.length.symm), hs.length]

theorem exists_step? (hw : w.Sized n m) (hs : s.Sized n m) (hcount : s.iteration + 1 < 2 ^ 64)
    (effort : Effort) : ∃ outcome effort', a.step? w s effort = some (outcome, effort') := by
  rcases step?_forms hw hs effort with
    ⟨e, u, -, hstep⟩ | ⟨-, hstep | ⟨least, hstep⟩ | ⟨next, least, hnext, hstep⟩⟩
  · exact ⟨_, _, hstep⟩
  · exact ⟨_, _, hstep⟩
  · exact ⟨_, _, hstep⟩
  · obtain ⟨outcome, haccept⟩ := exists_accept? (a := a) hw hs hcount least hnext
    rw [haccept] at hstep
    exact ⟨outcome, _, hstep⟩

theorem step?_outcomes (hw : w.Sized n m) (hs : s.Sized n m) {outcome : StepOutcome α}
    (hstep : a.step? w s effort = some (outcome, effort')) :
    (∃ e u, a.attempt? w s = some (.error e, u) ∧ outcome = .failed (.system e) ∧
      effort' = effort) ∨
    (∃ u, a.attempt? w s = some (.ok (), u)) ∧ effort' = effort.projected ∧
      (outcome = .failed .noProjectedCost ∨ (∃ least, outcome = .notApplicable least) ∨
        ∃ next least, next.length = n + m ∧ a.accept? w s least next = some outcome) := by
  rcases step?_forms (a := a) hw hs effort with
    ⟨e, u, hattempt, hform⟩ | ⟨hattempt, hform | ⟨least, hform⟩ | ⟨next, least, hnext, hform⟩⟩
  · rw [hstep] at hform
    cases hform
    exact Or.inl ⟨e, u, hattempt, rfl, rfl⟩
  · rw [hstep] at hform
    cases hform
    exact Or.inr ⟨hattempt, rfl, Or.inl rfl⟩
  · rw [hstep] at hform
    cases hform
    exact Or.inr ⟨hattempt, rfl, Or.inr (Or.inl ⟨least, rfl⟩)⟩
  · rw [hstep] at hform
    obtain ⟨outcome', haccept, heq⟩ := Option.map_eq_some_iff.mp hform.symm
    cases heq
    exact Or.inr ⟨hattempt, rfl, Or.inr (Or.inr ⟨next, least, hnext, haccept⟩)⟩

theorem factored_of_step? (hw : w.Sized n m) (hs : s.Sized n m) {outcome : StepOutcome α}
    (hstep : a.step? w s effort = some (outcome, effort')) (h : ∀ why, outcome ≠ .failed why) :
    (∃ u, a.attempt? w s = some (.ok (), u)) ∧ effort' = effort.projected := by
  rcases step?_outcomes hw hs hstep with ⟨e, u, -, hfailed, -⟩ | ⟨hattempt, hspent, -⟩
  · exact absurd hfailed (h _)
  · exact ⟨hattempt, hspent⟩

theorem Advances.follows (h : Advances a w s effort point record effort')
    (hw : w.Sized n m) (hs : s.Sized n m) :
    effort' = effort.projected ∧ point.x.length = n + m ∧ Follows a w s point record ∧
      a.step? w s effort = some (a.leads point record, effort') := by
  obtain ⟨outcome, hstep⟩ : ∃ outcome, a.step? w s effort = some (outcome, effort') := by
    rcases h with h | h
    · exact ⟨_, h⟩
    · exact ⟨_, h⟩
  have hleads := (h.outcome hstep).1
  rcases step?_outcomes hw hs hstep with
    ⟨e, u, -, rfl, -⟩ | ⟨-, hspent, rfl | ⟨least, rfl⟩ | ⟨next, least, hnext, haccept⟩⟩
  · rcases hleads with hleads | hleads <;> cases hleads
  · rcases hleads with hleads | hleads <;> cases hleads
  · rcases hleads with hleads | hleads <;> cases hleads
  · rcases accept?_outcomes haccept with
      ⟨-, rfl⟩ | ⟨r, -, -, -, rfl⟩ | ⟨point', record', rfl, hfollows, rfl⟩
    · rcases hleads with hleads | hleads <;> cases hleads
    · rcases hleads with hleads | hleads <;> cases hleads
    · obtain ⟨rfl, rfl⟩ : point' = point ∧ record' = record := by
        unfold leads at hleads
        split at hleads
        · rcases hleads with hleads | hleads <;> cases hleads
          exact ⟨rfl, rfl⟩
        · rcases hleads with hleads | hleads <;> cases hleads
          exact ⟨rfl, rfl⟩
      exact ⟨hspent, hnext, hfollows, hstep⟩

theorem Advances.sized (h : Advances a w s effort point record effort') (hw : w.Sized n m)
    (hs : s.Sized n m) : point.Sized n m ∧ point.iteration = s.iteration + 1 ∧
      Vec.allFinite point.x = true ∧ w.objective? point.x = some record.objective := by
  obtain ⟨-, hlength, hfollows, -⟩ := h.follows hw hs
  exact ⟨⟨hlength, hfollows.nvars.trans hs.nvars⟩, hfollows.iteration, hfollows.finite,
    hfollows.objective⟩

variable {P₀ P : Progress α} {k : ℕ}

theorem Reached.sized (hP : Reached a w P₀ k P) (hw : w.Sized n m) (hs : P₀.point.Sized n m)
    (hzero : P₀.point.iteration = 0) : P.point.Sized n m ∧ P.point.iteration = k := by
  induction hP with
  | start => exact ⟨hs, hzero⟩
  | step hP hstep elapsed ih =>
    obtain ⟨hsized, hiteration, -⟩ := hstep.sized hw ih.1
    exact ⟨hsized, hiteration.trans (congrArg (· + 1) ih.2)⟩

omit [Scalar α] in
theorem primal?_eq (hs : s.Sized n m) : s.primal? = some (s.x.take n) := by
  rw [InteriorPoint.primal?, hs.nvars, if_pos (by rw [hs.length]; omega)]

omit [Scalar α] in
theorem slack?_eq (hs : s.Sized n m) : s.slack? = some (s.x.drop n) := by
  rw [InteriorPoint.slack?, hs.nvars, if_pos (by rw [hs.length]; omega)]

theorem exists_report? (hw : w.Sized n m) (hs : P.point.Sized n m) (status : Status)
    (time : Duration) : ∃ sol, report? w status P time = some sol ∧
      sol.stats.history = P.history ∧
      (keepsIterate status = true → sol.primal = P.point.x.take n ∧ sol.slack = P.point.x.drop n ∧
        w.objective? P.point.x = some sol.objectiveValue) := by
  have hobjective := hw.objective?_eq hs.length
  rw [report?, hobjective, Option.bind_eq_bind, Option.bind_some]
  by_cases hkeeps : keepsIterate status = true
  · rw [if_pos hkeeps, primal?_eq hs, slack?_eq hs]
    exact ⟨_, rfl, rfl, fun _ => ⟨rfl, rfl, rfl⟩⟩
  · have hterminated : Solution.terminated? status w.nvars w.ncons =
        some (Solution.terminated status w.nvars w.ncons : Solution α) := by
      rw [hw.nvars, show w.ncons = m from hw.nrows]
      exact Solution.terminated?_eq_some_iff.mpr
        ⟨⟨hw.stores.mono (Nat.le_add_right n m), hw.stores.mono (Nat.le_add_left m n)⟩, rfl⟩
    rw [if_neg hkeeps, hterminated]
    exact ⟨_, rfl, rfl, fun htrue => absurd htrue hkeeps⟩

/-- **A run reports a solution**, in any arithmetic, if its steps can be counted. -/
theorem run_yields_some (hw : w.Sized n m) (hs : s.Sized n m) (hzero : s.iteration = 0)
    (hmax : a.options.maxIterations < 2 ^ 64) {r : Option (Solution α)}
    (hr : (a.run w s).Yields r) : ∃ sol, r = some sol := by
  obtain ⟨start, ended, time, hended, rfl⟩ := run_yields hr
  rcases iterate_yields .start hended with
    ⟨-, l, Q, hl, hQ, hnone⟩ | ⟨status, l, Q, effort, -, hQ, -, rfl⟩
  · obtain ⟨hsized, hiteration⟩ := hQ.sized hw hs hzero
    obtain ⟨outcome, effort', hstep⟩ :=
      exists_step? (a := a) hw hsized (by rw [hiteration]; omega) Q.effort
    rw [hnone] at hstep
    cases hstep
  · obtain ⟨sol, hsol, -⟩ := exists_report? (P := { Q with effort := effort }) hw
      (hQ.sized hw hs hzero).1 status time
    exact ⟨sol, hsol⟩

end AffineScaling

section Beginning

variable {p : Problem α} {start : List α}

theorem Problem.length_of_validatePoint (h : p.validatePoint start = .ok ()) :
    start.length = p.nvars := by
  unfold Problem.validatePoint at h
  split at h
  · cases h
  · rename_i hlen
    exact not_not.mp hlen

theorem Problem.allFinite_of_validatePoint (h : p.validatePoint start = .ok ()) :
    Vec.allFinite start = true := by
  rw [Problem.validatePoint, if_neg (not_not.mpr (Problem.length_of_validatePoint h))] at h
  split at h
  · assumption
  · cases h

theorem Problem.exists_productInto? (hv : p.validate = .ok ())
    (hpoint : p.validatePoint start = .ok ()) :
    ∃ lhs, p.constraints.productInto? start (List.replicate p.ncons 0) = some lhs ∧
      lhs.length = p.ncons := by
  have hncols := Problem.ncols_eq hv
  have hnrows := Problem.nrows_eq hv
  have hlen := p.length_of_validatePoint hpoint
  obtain ⟨lhs, hlhs, hcount⟩ := (Problem.hasRows hv).exists_productInto?
    (by rw [hncols]; exact Problem.nvars_pos hv) (hlen.trans hncols.symm)
    (y := List.replicate p.ncons 0) (by rw [List.length_replicate, hnrows])
  exact ⟨lhs, hlhs, hcount.trans hnrows⟩

theorem Precheck.check_never_faults (hv : p.validate = .ok ()) (tolerance : α) :
    Precheck.check tolerance p start ≠ .fault := by
  unfold Precheck.check
  intro hfault
  rw [hv] at hfault
  simp only [Outcome.mapError, Outcome.ok_bind, Outcome.bind_eq_fault,
    Outcome.ofExcept_eq_ok] at hfault
  rcases hfault with hfault | ⟨⟨⟩, hpoint, hfault | ⟨⟨⟩, -, hfault⟩⟩
  · cases hpoint : p.validatePoint start with
    | error e =>
      rw [hpoint] at hfault
      cases hfault
    | ok u =>
      rw [hpoint] at hfault
      cases hfault
  · exact absurd hfault Outcome.ofExcept_ne_fault
  · have hvalid : p.validatePoint start = .ok () := by
      cases hstart : p.validatePoint start with
      | ok u => rfl
      | error e =>
        rw [hstart] at hpoint
        cases hpoint
    obtain ⟨lhs, hlhs, -⟩ := Problem.exists_productInto? hv hvalid
    rw [checkStart, hlhs] at hfault
    simp only [Outcome.ofOption, Outcome.ok_bind] at hfault
    split at hfault
    · cases hfault
    · cases hfault

theorem Precheck.validatePoint_of_check {tolerance : α}
    (h : Precheck.check tolerance p start = .ok ()) : p.validatePoint start = .ok () := by
  simp only [check, Outcome.bind_eq_ok, Outcome.mapError_eq_ok, Outcome.ofExcept_eq_ok] at h
  obtain ⟨-, -, ⟨⟩, hpoint, -⟩ := h
  exact hpoint

theorem Precheck.checkWithoutStart_never_faults (hv : p.validate = .ok ()) :
    Precheck.checkWithoutStart p ≠ .fault := by
  unfold Precheck.checkWithoutStart
  rw [hv]
  exact Outcome.ofExcept_ne_fault

theorem InteriorPoint.initial_forms {lhs : List α} (hpoint : p.validatePoint start = .ok ())
    (hlhs : p.constraints.productInto? start (List.replicate p.ncons 0) = some lhs) :
    (¬Scalar.Stores α (p.nvars + p.ncons) ∧ InteriorPoint.initial p start = .fault) ∨
    Scalar.Stores α (p.nvars + p.ncons) ∧
      (((∃ v ∈ start ++ p.rhs.zipWith (· - ·) lhs, ¬v > 0) ∧
        ∃ i v, InteriorPoint.initial p start = .error (.notInterior i v)) ∨
      (¬∃ v ∈ start ++ p.rhs.zipWith (· - ·) lhs, ¬v > 0) ∧
        InteriorPoint.initial p start =
          .ok ⟨start ++ p.rhs.zipWith (· - ·) lhs, p.nvars, 0⟩) := by
  have hfails : ∀ (v : α) (_ : ℕ), (!decide (v > 0)) = true ↔ ¬v > 0 := fun v _ => by
    rw [Bool.not_eq_true', decide_eq_false_iff_not]
  rw [initial, hpoint, hlhs, p.length_of_validatePoint hpoint]
  simp only [Outcome.ofExcept, Outcome.mapError, Outcome.ofOption, Outcome.ok_bind]
  by_cases hstores : Scalar.Stores α (p.nvars + p.ncons)
  · right
    refine ⟨hstores, ?_⟩
    rw [Scalar.entries?_eq hstores]
    dsimp only [Outcome.ok_bind]
    split
    · rename_i v i hfound
      left
      obtain ⟨hmem, hnot⟩ := of_find?_zipIdx_eq_some hfails hfound
      exact ⟨⟨v, List.mem_of_getElem? hmem, hnot⟩, i, v, rfl⟩
    · rename_i hnone
      right
      refine ⟨?_, rfl⟩
      rintro ⟨v, hv, hnot⟩
      exact hnot ((find?_zipIdx_eq_none_iff hfails).mp hnone v hv)
  · left
    rw [Scalar.entries?_eq_none hstores]
    exact ⟨hstores, rfl⟩

theorem InteriorPoint.initial_eq_fault_iff (hv : p.validate = .ok ())
    (hpoint : p.validatePoint start = .ok ()) :
    InteriorPoint.initial p start = .fault ↔ ¬Scalar.Stores α (p.nvars + p.ncons) := by
  obtain ⟨lhs, hlhs, -⟩ := Problem.exists_productInto? hv hpoint
  rcases initial_forms hpoint hlhs with
    ⟨hlacks, hfault⟩ | ⟨hstores, ⟨-, i, v, herror⟩ | ⟨-, hok⟩⟩
  · exact iff_of_true hfault hlacks
  · exact iff_of_false (by rw [herror]; nofun) (not_not.mpr hstores)
  · exact iff_of_false (by rw [hok]; nofun) (not_not.mpr hstores)

theorem InteriorPoint.validatePoint_of_initial {point : InteriorPoint α}
    (h : InteriorPoint.initial p start = .ok point) : p.validatePoint start = .ok () := by
  obtain ⟨⟨⟩, hpoint, -⟩ := Outcome.bind_eq_ok.mp h
  rwa [Outcome.mapError_eq_ok, Outcome.ofExcept_eq_ok] at hpoint

theorem InteriorPoint.initial_sized (hv : p.validate = .ok ()) {point : InteriorPoint α}
    (h : InteriorPoint.initial p start = .ok point) :
    Scalar.Stores α (p.nvars + p.ncons) ∧ point.Sized p.nvars p.ncons ∧ point.iteration = 0 := by
  have hpoint := validatePoint_of_initial h
  obtain ⟨lhs, hlhs, hcount⟩ := Problem.exists_productInto? hv hpoint
  have hlength : (start ++ p.rhs.zipWith (· - ·) lhs).length = p.nvars + p.ncons := by
    rw [List.length_append, List.length_zipWith, hcount, show p.rhs.length = p.ncons from rfl,
      Nat.min_self, p.length_of_validatePoint hpoint]
  rcases initial_forms hpoint hlhs with
    ⟨-, hfault⟩ | ⟨hstores, ⟨-, i, v, herror⟩ | ⟨-, hok⟩⟩
  · rw [h] at hfault
    cases hfault
  · rw [h] at herror
    cases herror
  · rw [h] at hok
    cases hok
    exact ⟨hstores, ⟨hlength, rfl⟩, rfl⟩

namespace AffineScaling

variable {a : AffineScaling α} {w : Workspace α} {point : InteriorPoint α}

theorem sized_of_begin (hbegin : a.begin p start = .ok (.at w point)) :
    w.Sized p.nvars p.ncons ∧ point.Sized p.nvars p.ncons ∧ point.iteration = 0 := by
  obtain ⟨hv, -, -, hinitial, hw⟩ := begin_eq_at_iff.mp hbegin
  exact ⟨(Workspace.sized_of_of? hv hw).1, (InteriorPoint.initial_sized hv hinitial).2⟩

/-- Storage is refused to a solve by affine scaling, at one of the three places where it asks for
more than its input takes. -/
inductive LacksStorage (a : AffineScaling α) (p : Problem α) (start : List α) : Prop where
  /-- The first point and its slacks. -/
  | point (ho : a.options.validate = .ok ())
      (hcheck : Precheck.check a.options.feasibilityTolerance p start = .ok ())
      (hlacks : ¬Scalar.Stores α (p.nvars + p.ncons))
  /-- The constraints next to an identity. -/
  | constraints (ho : a.options.validate = .ok ())
      (hcheck : Precheck.check a.options.feasibilityTolerance p start = .ok ())
      {first : InteriorPoint α} (hfirst : InteriorPoint.initial p start = .ok first)
      (hlacks : ¬Scalar.Stores α (p.ncons * (p.nvars + p.ncons)))
  /-- The zeros of a solution without an iterate. -/
  | zeros {status : Status} (hbegin : a.begin p start = .ok (.rejected status))
      (hlacks : ¬(Scalar.Stores α p.nvars ∧ Scalar.Stores α p.ncons))

theorem LacksStorage.not_stores (h : LacksStorage a p start) :
    ¬Scalar.Stores α ((p.ncons + 1) * (p.nvars + p.ncons + 1)) := by
  have hsum : p.nvars + p.ncons ≤ (p.ncons + 1) * (p.nvars + p.ncons + 1) := by nlinarith
  have hproduct : p.ncons * (p.nvars + p.ncons) ≤ (p.ncons + 1) * (p.nvars + p.ncons + 1) := by
    nlinarith
  intro hstores
  cases h with
  | point ho hcheck hlacks => exact hlacks (hstores.mono hsum)
  | constraints ho hcheck hfirst hlacks => exact hlacks (hstores.mono hproduct)
  | zeros hbegin hlacks =>
    have hboth := hstores.mono hsum
    exact hlacks ⟨hboth.mono (Nat.le_add_right _ _), hboth.mono (Nat.le_add_left _ _)⟩

theorem begin_eq_fault_iff (hv : p.validate = .ok ())
    (hfit : (p.ncons + 1) * (p.nvars + p.ncons + 1) < 2 ^ 64) :
    a.begin p start = .fault ↔ a.options.validate = .ok () ∧
      Precheck.check a.options.feasibilityTolerance p start = .ok () ∧
      (¬Scalar.Stores α (p.nvars + p.ncons) ∨
        (∃ first, InteriorPoint.initial p start = .ok first) ∧
          ¬Scalar.Stores α (p.ncons * (p.nvars + p.ncons))) := by
  constructor
  · intro h
    simp only [begin, hv, Outcome.bind_eq_fault, Outcome.mapError_eq_fault, Outcome.mapError_eq_ok,
      Outcome.ofExcept_ne_fault, Outcome.ofExcept_eq_ok, reduceCtorEq, false_or, true_and] at h
    obtain ⟨-, ⟨⟩, ho, h⟩ := h
    split at h
    · rename_i first hfirst
      obtain ⟨⟨⟩, hcheck, hfirst⟩ := Outcome.bind_eq_ok.mp hfirst
      refine ⟨ho, hcheck, Or.inr ⟨⟨first, hfirst⟩, fun hstores => ?_⟩⟩
      obtain ⟨w, hw, -⟩ := Workspace.exists_of? hv (by nlinarith)
        (InteriorPoint.initial_sized hv hfirst).1 ⟨by nlinarith, hstores⟩
      rw [hw] at h
      cases h
    · rename_i hfault
      rcases Outcome.bind_eq_fault.mp hfault with hcheck | ⟨⟨⟩, hcheck, hinitial⟩
      · exact absurd hcheck (Precheck.check_never_faults hv _)
      · exact ⟨ho, hcheck, Or.inl ((InteriorPoint.initial_eq_fault_iff hv
          (Precheck.validatePoint_of_check hcheck)).mp hinitial)⟩
    · split at h <;> cases h
  · rintro ⟨ho, hcheck, hlacks⟩
    rw [begin, hv, ho, hcheck]
    rcases hlacks with hlacks | ⟨⟨first, hfirst⟩, hlacks⟩
    · rw [Outcome.ok_bind, (InteriorPoint.initial_eq_fault_iff hv
        (Precheck.validatePoint_of_check hcheck)).mpr hlacks]
      rfl
    · have hnone : Workspace.of? p = none := by
        rw [Option.eq_none_iff_forall_ne_some]
        intro w hw
        exact hlacks (Workspace.sized_of_of? hv hw).1.room.2
      rw [Outcome.ok_bind, hfirst, hnone]
      rfl

/-- **A solve of a valid problem breaks down only where storage is refused**, in any
arithmetic. -/
theorem solve_eq_fault_iff (hv : p.validate = .ok ())
    (hfit : (p.ncons + 1) * (p.nvars + p.ncons + 1) < 2 ^ 64)
    (hmax : a.options.maxIterations < 2 ^ 64) {r : Outcome (AffineError α) (Solution α)}
    (hr : (a.solve p start).Yields r) : r = .fault ↔ LacksStorage a p start := by
  constructor
  · rintro rfl
    rcases solve_yields hr with
      ⟨w, point, hbegin, s, hs, hfault⟩ | ⟨status, hbegin, hfault⟩ | ⟨e, -, herror⟩ | ⟨hbegin, -⟩
    · obtain ⟨hw, hpoint, hzero⟩ := sized_of_begin hbegin
      obtain ⟨sol, rfl⟩ := run_yields_some hw hpoint hzero hmax hs
      cases hfault
    · refine .zeros hbegin fun hstores => ?_
      rw [Solution.terminated?_eq_some_iff.mpr ⟨hstores, rfl⟩] at hfault
      cases hfault
    · cases herror
    · obtain ⟨ho, hcheck, hlacks | ⟨⟨first, hfirst⟩, hlacks⟩⟩ :=
        (begin_eq_fault_iff hv hfit).mp hbegin
      · exact .point ho hcheck hlacks
      · exact .constraints ho hcheck hfirst hlacks
  · have hfaults : a.begin p start = .fault → r = .fault := by
      intro hbegin
      rw [solve, hbegin] at hr
      exact hr.symm
    intro h
    cases h with
    | point ho hcheck hlacks =>
      exact hfaults ((begin_eq_fault_iff hv hfit).mpr ⟨ho, hcheck, Or.inl hlacks⟩)
    | constraints ho hcheck hfirst hlacks =>
      exact hfaults ((begin_eq_fault_iff hv hfit).mpr ⟨ho, hcheck, Or.inr ⟨⟨_, hfirst⟩, hlacks⟩⟩)
    | zeros hbegin hlacks =>
      rename_i status
      have hnone : (Solution.terminated? status p.nvars p.ncons : Option (Solution α)) = none := by
        rw [Option.eq_none_iff_forall_ne_some]
        intro sol hsol
        exact hlacks (Solution.terminated?_eq_some_iff.mp hsol).1
      rw [solve, hbegin] at hr
      dsimp only at hr
      rw [hnone] at hr
      exact hr.symm

end AffineScaling

end Beginning

end LinProg
