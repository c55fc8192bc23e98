import LinProg.Solver

/-!
# Solves and suites

A solver passes a problem on to one of the two methods, and a suite to both. `Solver.Gives` lists
what a solve by a solver comes to, and every solve comes to one of these (`Solver.solve_gives`). A
solution is one of the method (`Solver.solve_cases`), and those of a suite are solves of its problem
by both methods (`Suite.run_yields`).
-/

namespace LinProg

variable {α : Type} [Scalar α] {p : Problem α}

namespace Solver

variable {s : Solver α}

/-- What a solve gives: affine scaling needs a starting point, and otherwise the answer is that of
the method, whose errors the solver reports as its own. -/
inductive Gives (s : Solver α) (p : Problem α) : Outcome (SolverError α) (Solution α) → Prop where
  | noStart (hmethod : s.method = .affineScaling) (hstart : s.start = none) :
      Gives s p (.error (.missingStart .affineScaling))
  | scaling {start : List α} {t : Outcome (AffineError α) (Solution α)}
      (hmethod : s.method = .affineScaling) (hstart : s.start = some start)
      (ht : ((AffineScaling.of s.options).solve p start).Yields t) :
      Gives s p (t.mapError affineError)
  | simplex {t : Outcome (InputError α) (Solution α)} (hmethod : s.method = .simplex)
      (ht : (Simplex.solve s.options p).Yields t) : Gives s p (t.mapError .invalidProblem)

theorem solve_gives {r : Outcome (SolverError α) (Solution α)} (hr : (s.solve p).Yields r) :
    s.Gives p r := by
  unfold solve at hr
  split at hr
  · rename_i hmethod hstart
    obtain rfl := Timed.yields_done.mp hr
    exact .noStart hmethod hstart
  · rename_i start hmethod hstart
    obtain ⟨t, ht, hr⟩ := Timed.yields_bind.mp hr
    obtain rfl := Timed.yields_done.mp hr
    exact .scaling hmethod hstart ht
  · rename_i hmethod
    obtain ⟨t, ht, hr⟩ := Timed.yields_bind.mp hr
    obtain rfl := Timed.yields_done.mp hr
    exact .simplex hmethod ht

theorem solve_cases {sol : Solution α} (hr : (s.solve p).Yields (.ok sol)) :
    (s.method = .affineScaling ∧
      ∃ start, ((AffineScaling.of s.options).solve p start).Yields (.ok sol)) ∨
    (s.method = .simplex ∧ (Simplex.solve s.options p).Yields (.ok sol)) := by
  generalize hok : Outcome.ok sol = r at hr
  cases solve_gives hr with
  | noStart hmethod hstart => cases hok
  | @scaling start t hmethod hstart ht =>
    obtain rfl := Outcome.mapError_eq_ok.mp hok.symm
    exact Or.inl ⟨hmethod, start, ht⟩
  | simplex hmethod ht =>
    obtain rfl := Outcome.mapError_eq_ok.mp hok.symm
    exact Or.inr ⟨hmethod, ht⟩

end Solver

namespace Suite

variable {o : Options α} {start : List α}

theorem affineRuns_yields {steps : List α} {runs : List (AffineRun α)}
    (h : (affineRuns o p start steps).Yields (.ok runs)) :
    ∀ r ∈ runs, ((AffineScaling.of (o.withStep r.step)).solve p start).Yields (.ok r.solution) := by
  induction steps generalizing runs with
  | nil =>
    obtain rfl : [] = runs := Outcome.ok.inj h
    exact nofun
  | cons step steps ih =>
    rw [affineRuns] at h
    obtain ⟨r, hr, h⟩ := Timed.yields_bind.mp h
    cases r with
    | error e => cases h
    | fault => cases h
    | ok solution =>
      obtain ⟨rest, hrest, h⟩ := Timed.yields_bind.mp h
      obtain ⟨rs, rfl, hruns⟩ := Outcome.bind_eq_ok.mp h
      obtain rfl : ⟨step, solution⟩ :: rs = runs := Outcome.ok.inj hruns
      refine List.forall_mem_cons.mpr ⟨?_, ih hrest⟩
      obtain ⟨r, hsolve, hr⟩ := Timed.yields_bind.mp hr
      obtain rfl : r = .ok solution := Outcome.mapError_eq_ok.mp hr
      exact hsolve

theorem run_yields {suite : Suite α} (h : (run o p start).Yields (.ok suite)) :
    (∀ r ∈ suite.affine,
      ((AffineScaling.of (o.withStep r.step)).solve p start).Yields (.ok r.solution)) ∧
    (Simplex.solve o p).Yields (.ok suite.simplex) := by
  rw [run] at h
  obtain ⟨r, haffine, h⟩ := Timed.yields_bind.mp h
  cases r with
  | error e => cases h
  | fault => cases h
  | ok runs =>
    obtain ⟨r, hsolve, h⟩ := Timed.yields_bind.mp h
    obtain ⟨simplex, rfl, hsuite⟩ := Outcome.bind_eq_ok.mp h
    obtain rfl : ⟨runs, simplex⟩ = suite := Outcome.ok.inj hsuite
    rcases Solver.solve_cases hsolve with ⟨hmethod, -⟩ | ⟨-, hsimplex⟩
    · cases hmethod
    · exact ⟨affineRuns_yields haffine, hsimplex⟩

end Suite

end LinProg
