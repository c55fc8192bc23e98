import LinProg.Proofs.Affine.Invariant
import LinProg.Proofs.Affine.Sizes

/-!
# What a solution tells about the solve

Each step that leads on counts one factorization and two linear solves and adds a record, numbered
from one on and with the objective of the iterate that it leads to (`Recorded`). A run goes on while
its steps do not converge, so no record before the last one satisfies the stopping rule
(`Going.unconverged`). What ends the run decides about the last record and about the effort of a
step without one (`Verdict`), and the solution reports all of it (`solution_tells_the_run`).

The stopping rule is asked of a record before the time is filled in, so it must not depend on the
time (`IgnoresElapsed`).
-/

namespace LinProg

variable {α : Type}

/-- A stopping rule that does not look at the time of a record. -/
def Criterion.IgnoresElapsed (c : Criterion α) : Prop :=
  ∀ r o elapsed, c { r with elapsed := elapsed } o = c r o

variable [Scalar α]

theorem Criterion.stepNorm_ignoresElapsed : (stepNorm : Criterion α).IgnoresElapsed :=
  fun _ _ _ => rfl

namespace AffineScaling

variable {a : AffineScaling α} {p : Problem α} {start : List α} {w : Workspace α}
  {s point : InteriorPoint α} {record : Record α} {P : Progress α} {effort effort' : Effort}
  {sol : Solution α} {elapsed : Duration} {n m k : ℕ}

/-! ### Records -/

/-- What a state has recorded of `k` steps. -/
structure Recorded (w : Workspace α) (k : ℕ) (P : Progress α) : Prop where
  size : P.history.size = k
  numbered : ∀ i r, P.history[i]? = some r → r.iteration = i + 1
  effort : P.effort = ⟨k, 2 * k⟩
  objective : ∀ r, P.history.back? = some r → w.objective? P.point.x = some r.objective

theorem recorded_start : Recorded w 0 { point := point } where
  size := rfl
  numbered := nofun
  effort := rfl
  objective := nofun

theorem Recorded.advanced (h : Recorded w k P) (hiteration : record.iteration = k + 1)
    (hobjective : w.objective? point.x = some record.objective) (elapsed : Duration) :
    Recorded w (k + 1) (P.advanced point record elapsed P.effort.projected) where
  size := by
    rw [Progress.advanced, Array.size_push, h.size]
  numbered := by
    intro i r hr
    rw [Progress.advanced, Array.getElem?_push] at hr
    split at hr
    · rename_i hi
      cases hr
      rw [hi, h.size]
      exact hiteration
    · exact h.numbered i r hr
  effort := by
    rw [Progress.advanced, h.effort]
    rfl
  objective := by
    intro r hr
    rw [Progress.advanced, Array.back?_push] at hr
    cases hr
    exact hobjective

theorem Reached.recorded (hP : Reached a w { point := s } k P) (hw : w.Sized n m)
    (hs : s.Sized n m) (hzero : s.iteration = 0) : Recorded w k P := by
  induction hP with
  | start => exact recorded_start
  | step hP hstep elapsed ih =>
    obtain ⟨hsized, hcount⟩ := hP.sized hw hs hzero
    obtain ⟨rfl, -, hfollows, -⟩ := hstep.follows hw hsized
    refine ih.advanced ?_ hfollows.objective elapsed
    rw [hfollows.recorded, hfollows.iteration, hcount]

/-! ### Which records satisfy the stopping rule -/

theorem criterion_of_step? (hw : w.Sized n m) (hs : s.Sized n m) :
    (a.step? w s effort = some (.advanced point record, effort') →
      a.criterion record a.options = false) ∧
    (a.step? w s effort = some (.converged point record, effort') →
      a.criterion record a.options = true) := by
  constructor
  · intro hstep
    obtain ⟨-, -, -, hleads⟩ := Advances.follows (Or.inl hstep) hw hs
    by_contra hcriterion
    rw [hstep, leads, if_pos (Bool.eq_true_of_not_eq_false hcriterion)] at hleads
    cases hleads
  · intro hstep
    obtain ⟨-, -, -, hleads⟩ := Advances.follows (Or.inr hstep) hw hs
    by_contra hcriterion
    rw [hstep, leads, if_neg hcriterion] at hleads
    cases hleads

/-- No record of a state satisfies the stopping rule. -/
def Unconverged (a : AffineScaling α) (P : Progress α) : Prop :=
  ∀ (i : ℕ) r, P.history[i]? = some r → a.criterion r a.options = false

omit [Scalar α] in
theorem Unconverged.advanced (h : Unconverged a P) (hc : a.criterion.IgnoresElapsed)
    (hcriterion : a.criterion record a.options = false) (elapsed : Duration) :
    Unconverged a (P.advanced point record elapsed effort) := by
  intro i r hr
  rw [Progress.advanced, Array.getElem?_push] at hr
  split at hr
  · cases hr
    exact (hc record a.options elapsed).trans hcriterion
  · exact h i r hr

theorem Going.unconverged {began : Duration} (h : Going a w began { point := s } k P)
    (hc : a.criterion.IgnoresElapsed) (hw : w.Sized n m) (hs : s.Sized n m)
    (hzero : s.iteration = 0) : Unconverged a P := by
  induction h with
  | start => exact fun i r hr => nomatch hr
  | step h hstep now hintime ih =>
    have hreached := Going.reached .start h
    rw [Nat.zero_add] at hreached
    exact ih.advanced hc ((criterion_of_step? hw (hreached.sized hw hs hzero).1).1 hstep) _

/-! ### The end of a run -/

/-- Why a run with `budget` steps ends at a state, and what it has spent. -/
inductive Verdict (a : AffineScaling α) (budget : ℕ) (F : Progress α) : Status → Prop where
  | converged {r : Record α} (hlast : F.history.back? = some r)
      (hcriterion : a.criterion r a.options = true)
      (hspent : F.effort.factorizations = F.history.size) : Verdict a budget F .optimal
  | limit (hopen : Unconverged a F) (hsize : F.history.size = budget)
      (hspent : F.effort.factorizations = F.history.size) : Verdict a budget F .maxIterations
  | late (hopen : Unconverged a F) (hsize : F.history.size ≠ 0)
      (htime : a.options.maxTime.isSome = true)
      (hspent : F.effort.factorizations = F.history.size) : Verdict a budget F .maxTime
  | stopped (hopen : Unconverged a F)
      (hspent : F.effort.factorizations = F.history.size + 1) :
      Verdict a budget F (.notApplicable .stopCriterion)
  | failed (hopen : Unconverged a F)
      (hspent : F.effort.factorizations = F.history.size ∨
        F.effort.factorizations = F.history.size + 1) : Verdict a budget F .numericalFailure

section Verdict

variable {budget : ℕ} {F : Progress α} {status : Status}

omit [Scalar α] in
theorem Unconverged.not_last (h : Unconverged a P) :
    ¬∃ r, P.history.back? = some r ∧ a.criterion r a.options = true := by
  rintro ⟨r, hr, hcriterion⟩
  rw [Array.back?_eq_getElem?] at hr
  exact Bool.noConfusion ((h _ r hr).symm.trans hcriterion)

omit [Scalar α] in
theorem Verdict.optimal_iff (h : Verdict a budget F status) : status = .optimal ↔
    ∃ r, F.history.back? = some r ∧ a.criterion r a.options = true := by
  cases h with
  | converged hlast hcriterion hspent => exact iff_of_true rfl ⟨_, hlast, hcriterion⟩
  | limit hopen => exact iff_of_false nofun hopen.not_last
  | late hopen => exact iff_of_false nofun hopen.not_last
  | stopped hopen => exact iff_of_false nofun hopen.not_last
  | failed hopen => exact iff_of_false nofun hopen.not_last

omit [Scalar α] in
theorem Verdict.kept (h : Verdict a budget F status) (hkeeps : keepsIterate status = true)
    (hbudget : budget ≠ 0) :
    F.history.size ≠ 0 ∧ F.effort.factorizations = F.history.size := by
  cases h with
  | converged hlast hcriterion hspent =>
    refine ⟨fun hempty => ?_, hspent⟩
    rw [Array.eq_empty_of_size_eq_zero hempty] at hlast
    cases hlast
  | limit hopen hsize hspent => exact ⟨hsize.trans_ne hbudget, hspent⟩
  | late hopen hsize htime hspent => exact ⟨hsize, hspent⟩
  | stopped => cases hkeeps
  | failed => cases hkeeps

end Verdict

/-- How a run with `budget` steps has ended: at a reached state, whose effort may be that of one
more step. -/
structure Ends (a : AffineScaling α) (w : Workspace α) (s : InteriorPoint α) (budget : ℕ)
    (status : Status) (F : Progress α) : Prop where
  reached : ∃ P, Reached a w { point := s } F.history.size P ∧ P.point = F.point ∧
    P.history = F.history
  le_budget : F.history.size ≤ budget
  linearSolves : F.effort.linearSolves = 2 * F.effort.factorizations
  /-- Only the last record can satisfy the stopping rule. -/
  last : ∀ i r, F.history[i]? = some r → a.criterion r a.options = true →
    i + 1 = F.history.size
  verdict : Verdict a budget F status

section Ends

variable {budget : ℕ} {status : Status} (hw : w.Sized n m) (hs : s.Sized n m)
  (hzero : s.iteration = 0) (hP : Reached a w { point := s } k P) (hopen : Unconverged a P)
include hw hs hzero hP hopen

theorem ends_at (hle : k ≤ budget) (heffort : effort = P.effort ∨ effort = P.effort.projected)
    (hverdict : Verdict a budget { P with effort := effort } status) :
    Ends a w s budget status { P with effort := effort } := by
  obtain ⟨hsize, -, hspent, -⟩ := hP.recorded hw hs hzero
  refine ⟨⟨P, hsize ▸ hP, rfl, rfl⟩, hsize.trans_le hle, ?_, ?_, hverdict⟩
  · rw [hspent] at heffort
    rcases heffort with rfl | rfl
    · rfl
    · rfl
  · intro i r hr hcriterion
    exact Bool.noConfusion ((hopen i r hr).symm.trans hcriterion)

theorem ends_after (hlt : k < budget)
    (hstep : Advances a w P.point P.effort point record effort)
    (hverdict : Verdict a budget (P.advanced point record elapsed effort) status) :
    Ends a w s budget status (P.advanced point record elapsed effort) := by
  have hnext := hP.step hstep elapsed
  obtain ⟨hsize, -, hspent, -⟩ := hnext.recorded hw hs hzero
  refine ⟨⟨_, hsize.symm ▸ hnext, rfl, rfl⟩, hsize.trans_le hlt, ?_, ?_, hverdict⟩
  · rw [hspent]
  · intro i r hr hconverged
    rw [Progress.advanced, Array.getElem?_push] at hr
    split at hr
    · rename_i hi
      rw [hsize, hi, (hP.recorded hw hs hzero).size]
    · exact Bool.noConfusion ((hopen i r hr).symm.trans hconverged)

end Ends

/-- **What the end of a run tells**, whatever its last turn is. -/
theorem iterate_ends {began : Duration} {budget : ℕ} (hc : a.criterion.IgnoresElapsed)
    (hw : w.Sized n m) (hs : s.Sized n m) (hzero : s.iteration = 0) {status : Status}
    {F : Progress α} (hr : (iterate a w began budget { point := s }).Yields (some (status, F))) :
    Ends a w s budget status F := by
  obtain ⟨l, Q, left, hcount, hgoing, hlast⟩ := iterate_yields_turns .start hr
  have hQ : Reached a w { point := s } l Q := Nat.zero_add l ▸ hgoing.reached .start
  have hsized := (hQ.sized hw hs hzero).1
  have hopen := hgoing.unconverged hc hw hs hzero
  obtain ⟨hsize, -, hspent, -⟩ := hQ.recorded hw hs hzero
  have hfactorizations : Q.effort.factorizations = Q.history.size := by
    rw [hspent, hsize]
  cases hlast with
  | spent =>
    exact ends_at hw hs hzero hQ hopen (by omega) (Or.inl rfl)
      (.limit hopen (hsize.trans (by omega)) hfactorizations)
  | stopped hstep =>
    obtain ⟨-, rfl⟩ := factored_of_step? hw hsized hstep nofun
    exact ends_at hw hs hzero hQ hopen (by omega) (Or.inr rfl)
      (.stopped hopen (congrArg (· + 1) hfactorizations))
  | failed hstep =>
    rcases step?_outcomes hw hsized hstep with ⟨e, u, -, -, rfl⟩ | ⟨-, rfl, -⟩
    · exact ends_at hw hs hzero hQ hopen (by omega) (Or.inl rfl)
        (.failed hopen (Or.inl hfactorizations))
    · exact ends_at hw hs hzero hQ hopen (by omega) (Or.inr rfl)
        (.failed hopen (Or.inr (congrArg (· + 1) hfactorizations)))
  | converged hstep now =>
    obtain ⟨hsize', -, hspent', -⟩ :=
      (hQ.step (Or.inr hstep) (began.since now)).recorded hw hs hzero
    refine ends_after hw hs hzero hQ hopen (by omega) (Or.inr hstep)
      (.converged Array.back?_push ((hc _ _ _).trans ((criterion_of_step? hw hsized).2 hstep)) ?_)
    rw [hspent', hsize']
  | late hstep now hlate =>
    obtain ⟨hsize', -, hspent', -⟩ :=
      (hQ.step (Or.inl hstep) (began.since now)).recorded hw hs hzero
    have hlimit : a.options.maxTime.isSome = true := by
      cases hmax : a.options.maxTime with
      | some limit => rfl
      | none =>
        rw [outOfTime_of_unlimited hmax] at hlate
        cases hlate
    refine ends_after hw hs hzero hQ hopen (by omega) (Or.inl hstep)
      (.late (hopen.advanced hc ((criterion_of_step? hw hsized).1 hstep) _) ?_ hlimit ?_)
    · rw [hsize']
      exact Nat.succ_ne_zero l
    · rw [hspent', hsize']

/-! ### The solution -/

/-- A solution that keeps the iterate of its last record. -/
structure KeepsLast (a : AffineScaling α) (p : Problem α) (start : List α) (sol : Solution α) :
    Prop where
  pos : 1 ≤ sol.stats.history.size
  factorizations : sol.stats.factorizations = sol.stats.history.size
  iterate : ∃ w point P, a.begin p start = .ok (.at w point) ∧
    Reached a w { point := point } sol.stats.history.size P ∧
    P.history = sol.stats.history ∧ sol.primal ++ sol.slack = P.point.x
  length_primal : sol.primal.length = p.nvars
  length_slack : sol.slack.length = p.ncons
  objective : sol.objectiveValue = Vec.dot p.cost sol.primal
  record : ∃ r, sol.stats.history.back? = some r ∧ r.objective = sol.objectiveValue

/-- A solution with zeros for values, and the record of the iterates before. -/
structure KeepsRecord (a : AffineScaling α) (p : Problem α) (start : List α) (sol : Solution α) :
    Prop where
  iterate : ∃ w point P, a.begin p start = .ok (.at w point) ∧
    Reached a w { point := point } sol.stats.history.size P ∧ P.history = sol.stats.history
  primal : sol.primal = List.replicate p.nvars 0
  slack : sol.slack = List.replicate p.ncons 0
  objective : sol.objectiveValue = 0

/-- What a solution tells about the solve that it comes from. -/
structure TellsTheRun (a : AffineScaling α) (p : Problem α) (start : List α) (sol : Solution α) :
    Prop where
  le_max : sol.stats.history.size ≤ a.options.maxIterations
  iterations : sol.iterations = sol.stats.history.size
  numbered : ∀ i r, sol.stats.history[i]? = some r → r.iteration = i + 1
  linearSolves : sol.stats.linearSolves = 2 * sol.stats.factorizations
  pivots : sol.stats.pivots = 0
  /-- Only the last record can satisfy the stopping rule. -/
  last : ∀ i r, sol.stats.history[i]? = some r → a.criterion r a.options = true →
    i + 1 = sol.stats.history.size
  kept : sol.status = .optimal ∨ sol.status = .maxIterations ∨ sol.status = .maxTime →
    KeepsLast a p start sol
  optimal_iff : sol.status = .optimal ↔
    ∃ r, sol.stats.history.back? = some r ∧ a.criterion r a.options = true
  maxIterations : sol.status = .maxIterations →
    sol.stats.history.size = a.options.maxIterations
  maxTime : sol.status = .maxTime → a.options.maxTime.isSome = true
  stopped : sol.status = .notApplicable .stopCriterion →
    sol.stats.factorizations = sol.stats.history.size + 1 ∧ KeepsRecord a p start sol
  failed : sol.status = .numericalFailure →
    (sol.stats.factorizations = sol.stats.history.size ∨
      sol.stats.factorizations = sol.stats.history.size + 1) ∧ KeepsRecord a p start sol
  rejected : sol.status = .noSolution ∨ sol.status = .notApplicable .initialPoint →
    sol = Solution.terminated sol.status p.nvars p.ncons
  bounded : sol.status ≠ .unbounded

theorem terminated_tells {status : Status}
    (h : status = .noSolution ∨ status = .notApplicable .initialPoint) :
    TellsTheRun a p start (Solution.terminated status p.nvars p.ncons) := by
  have hends : status ≠ .optimal ∧ status ≠ .maxIterations ∧ status ≠ .maxTime ∧
      status ≠ .notApplicable .stopCriterion ∧ status ≠ .numericalFailure ∧
      status ≠ .unbounded := by
    rcases h with rfl | rfl <;> exact ⟨nofun, nofun, nofun, nofun, nofun, nofun⟩
  obtain ⟨hoptimal, hmax, htime, hstop, hfailed, hunbounded⟩ := hends
  exact {
    le_max := Nat.zero_le _
    iterations := rfl
    numbered := nofun
    linearSolves := rfl
    pivots := rfl
    last := nofun
    kept := fun hkept => (hkept.elim hoptimal (Or.rec hmax htime)).elim
    optimal_iff := iff_of_false hoptimal nofun
    maxIterations := fun hstatus => absurd hstatus hmax
    maxTime := fun hstatus => absurd hstatus htime
    stopped := fun hstatus => absurd hstatus hstop
    failed := fun hstatus => absurd hstatus hfailed
    rejected := fun _ => rfl
    bounded := hunbounded }

section Report

variable {status : Status} {budget : ℕ} {F : Progress α} {time : Duration}
  (hbegin : a.begin p start = .ok (.at w point)) (hends : Ends a w point budget status F)
  (hreport : report? w status F time = some sol)
include hbegin hends hreport

theorem Ends.keepsLast (hkeeps : keepsIterate status = true) (hbudget : budget ≠ 0) :
    KeepsLast a p start sol := by
  obtain ⟨hv, -, -, -, hof⟩ := begin_eq_at_iff.mp hbegin
  obtain ⟨hw, hpoint, hzero⟩ := sized_of_begin hbegin
  obtain ⟨P, hP, hsame, hhistory⟩ := hends.reached
  have hobjective := (hP.recorded hw hpoint hzero).objective
  have hsized := (hP.sized hw hpoint hzero).1
  obtain ⟨hnonempty, hspent⟩ := hends.verdict.kept hkeeps hbudget
  obtain ⟨-, -, hreported, hfactorizations, -⟩ := of_report? hreport
  rw [← hreported] at hP hhistory hspent hnonempty
  rw [hhistory, hsame] at hobjective
  rw [hsame] at hsized
  have hpos : 0 < sol.stats.history.size := Nat.pos_of_ne_zero hnonempty
  obtain ⟨r, hr⟩ : ∃ r, sol.stats.history.back? = some r := by
    rw [Array.back?_eq_getElem?]
    exact ⟨_, Array.getElem?_eq_getElem (Nat.sub_lt hpos Nat.one_pos)⟩
  obtain ⟨sol', hreport', -, hvalues⟩ := exists_report? hw hsized status time
  obtain rfl : sol = sol' := Option.some.inj (hreport.symm.trans hreport')
  obtain ⟨hprimal, hslack, hvalue⟩ := hvalues hkeeps
  have hdot := Workspace.objective?_of_of? hv hof hsized.length
  refine ⟨hpos, hfactorizations.trans hspent, ⟨w, point, P, hbegin, hP, hhistory, ?_⟩, ?_, ?_, ?_,
    r, hr, ?_⟩
  · rw [hprimal, hslack, hsame]
    exact List.take_append_drop _ _
  · rw [hprimal, hsized.length_values.1]
  · rw [hslack, hsized.length_values.2]
  · rw [hprimal]
    exact Option.some.inj (hvalue.symm.trans hdot)
  · exact Option.some.inj ((hobjective r hr).symm.trans hvalue)

theorem Ends.keepsRecord (hkeeps : keepsIterate status = false) :
    KeepsRecord a p start sol := by
  obtain ⟨hw, -⟩ := sized_of_begin hbegin
  obtain ⟨P, hP, -, hhistory⟩ := hends.reached
  obtain ⟨-, -, hreported, -⟩ := of_report? hreport
  obtain ⟨hprimal, hslack, hobjective⟩ := terminated_of_report? hkeeps hreport
  rw [← hreported] at hP hhistory
  rw [hw.nvars] at hprimal
  rw [Workspace.ncons, hw.nrows] at hslack
  exact ⟨⟨w, point, P, hbegin, hP, hhistory⟩, hprimal, hslack, hobjective⟩

end Report

theorem run_tells (hc : a.criterion.IgnoresElapsed) (hbegin : a.begin p start = .ok (.at w point))
    (hr : (a.run w point).Yields (some sol)) : TellsTheRun a p start sol := by
  obtain ⟨-, ho, -⟩ := begin_eq_at_iff.mp hbegin
  obtain ⟨-, -, -, -, -, -, hbudget⟩ := Options.validate_eq_ok_iff.mp ho
  obtain ⟨hw, hpoint, hzero⟩ := sized_of_begin hbegin
  obtain ⟨began, ended, time, hended, hsome⟩ := run_yields hr
  obtain ⟨⟨status, F⟩, rfl, hreport⟩ := Option.bind_eq_some_iff.mp hsome.symm
  have hends := iterate_ends hc hw hpoint hzero hended
  have hkept := hends.keepsLast hbegin hreport
  have hdropped := hends.keepsRecord hbegin hreport
  obtain ⟨⟨P, hP, -, hhistory⟩, hle, hsolves, hlast, hverdict⟩ := hends
  have hnumbered := (hP.recorded hw hpoint hzero).numbered
  have hoptimal := hverdict.optimal_iff
  obtain ⟨rfl, hiterations, hreported, hfactorizations, hlinear, hpivots⟩ := of_report? hreport
  rw [hhistory] at hnumbered
  rw [← hreported] at hle hlast hoptimal hnumbered hiterations
  rw [← hfactorizations] at hsolves
  refine ⟨hle, hiterations, hnumbered, hlinear.trans hsolves, hpivots, hlast, ?_, hoptimal, ?_, ?_,
    ?_, ?_, ?_, ?_⟩
  · rintro (hstatus | hstatus | hstatus)
    all_goals exact hkept (by rw [hstatus]; rfl) hbudget
  · intro hstatus
    rw [hstatus] at hverdict
    cases hverdict with
    | limit hopen hsize hspent => exact hreported ▸ hsize
  · intro hstatus
    rw [hstatus] at hverdict
    cases hverdict with
    | late hopen hsize htime hspent => exact htime
  · intro hstatus
    refine ⟨?_, hdropped (by rw [hstatus]; rfl)⟩
    rw [hstatus] at hverdict
    rw [hfactorizations, hreported]
    cases hverdict with
    | stopped hopen hspent => exact hspent
  · intro hstatus
    refine ⟨?_, hdropped (by rw [hstatus]; rfl)⟩
    rw [hstatus] at hverdict
    rw [hfactorizations, hreported]
    cases hverdict with
    | failed hopen hspent => exact hspent
  · rintro (hstatus | hstatus)
    all_goals
      rw [hstatus] at hverdict
      cases hverdict
  · intro hstatus
    rw [hstatus] at hverdict
    cases hverdict

/-- **A solution tells the run.** In any arithmetic, for every solution that a solve returns with a
stopping rule that does not look at the time, the counters, the record, the status and the values
belong to one run:

* there are as many iterations as records, numbered from one on, at most the allowed number; two
  linear solves for each factorization; and no record before the last satisfies the stopping rule;
* a solution that is optimal or ended by a limit holds the iterate of the last record, with its
  objective, after one factorization for each record. It is optimal exactly if the last record
  satisfies the stopping rule. At the limit on the iterations there are that many records, and the
  time can end only a solve that has a limit on it;
* one that the projected cost has stopped, or that has failed, holds zeros and the record of the
  iterates before, and counts the factorization of the step that ended it, if there was one;
* one that has been refused holds nothing. -/
theorem solution_tells_the_run (hc : a.criterion.IgnoresElapsed)
    (hsol : (a.solve p start).Yields (.ok sol)) : TellsTheRun a p start sol := by
  rcases solve_yields hsol with
    ⟨w, point, hbegin, r, hr, hok⟩ | ⟨status, hbegin, hok⟩ | ⟨e, -, hok⟩ | ⟨-, hok⟩
  · obtain rfl := Outcome.ofOption_eq_ok.mp hok.symm
    exact run_tells hc hbegin hr
  · obtain ⟨-, rfl⟩ := Solution.terminated?_eq_some_iff.mp (Outcome.ofOption_eq_ok.mp hok.symm)
    exact terminated_tells (status_of_begin_rejected hbegin)
  · cases hok
  · cases hok

theorem twoByTwo_tells_the_run : ∃ sol,
    ((of twoSteps).solve Problem.twoByTwo [1, 1]).Yields (.ok sol) ∧
    sol.status = .maxIterations ∧ sol.stats.history.size = 2 ∧ sol.stats.factorizations = 2 ∧
    sol.stats.linearSolves = 4 ∧ sol.objectiveValue = Vec.dot Problem.twoByTwo.cost sol.primal := by
  obtain ⟨sol, hyields, hstatus⟩ := Timed.exists_yields_ok
    (x := (of twoSteps).solve Problem.twoByTwo [1, 1])
    (P := fun sol => sol.status = .maxIterations) (by decide +kernel)
  have htells := solution_tells_the_run Criterion.stepNorm_ignoresElapsed hyields
  have hsize : sol.stats.history.size = 2 := htells.maxIterations hstatus
  have hkept := htells.kept (Or.inr (Or.inl hstatus))
  have hspent : sol.stats.factorizations = 2 := hkept.factorizations.trans hsize
  exact ⟨sol, hyields, hstatus, hsize, hspent, by rw [htells.linearSolves, hspent],
    hkept.objective⟩

end AffineScaling

end LinProg
