import LinProg.Proofs.Comparison.Records
import LinProg.Proofs.Exchange.Problems
import LinProg.Proofs.Exchange.Solutions
import LinProg.Proofs.Solvers

/-!
# Saving what a solve returns

Which solutions survive in a file. The solvers do not check the objectives that they report and
record, nor the simplex method its values, so an overflow during a solve makes a file that cannot be
read back (`steepBox_not_loaded`); `Solver.saved_solution` says exactly when.
-/

namespace LinProg

open Json

section Legible

variable {p : Problem Float} {start : List Float} {sol : Solution Float}

theorem AffineScaling.legible_iff {a : AffineScaling Float}
    (hr : (a.solve p start).Yields (.ok sol)) :
    sol.Legible ↔ ∀ r ∈ sol.stats.history.toList, r.objective.isFinite = true := by
  obtain ⟨hprimal, hslack, hobjective⟩ := isFinite_of_solve hr
  refine ⟨fun h => List.all_eq_true.mp h.2.2.2, fun h =>
    ⟨hprimal, hslack, ?_, List.all_eq_true.mpr h⟩⟩
  rcases hobjective with hzero | ⟨r, hr, hvalue⟩
  · rw [hzero]
    exact LastingOverflow.isFinite_zero (α := Float)
  · exact hvalue ▸ h r hr

theorem Simplex.legible_iff {o : Options Float} (hr : (solve o p).Yields (.ok sol)) :
    sol.Legible ↔ Vec.allFinite sol.primal = true ∧ Vec.allFinite sol.slack = true ∧
      ∀ r ∈ sol.stats.history.toList, r.objective.isFinite = true :=
  ⟨fun h => ⟨h.1, h.2.1, List.all_eq_true.mp h.2.2.2⟩, fun h =>
    ⟨h.1, h.2.1, isFinite_of_solve hr h.2.2, List.all_eq_true.mpr h.2.2⟩⟩

theorem Simplex.onlyFinite_eq_self {o : Options Float} (hr : (solve o p).Yields (.ok sol)) :
    sol.onlyFinite = sol := by
  refine Solution.onlyFinite_eq_self_iff.mpr fun r hrecord => Record.onlyFinite_eq_self_iff.mpr ?_
  obtain ⟨hnorm, hcost⟩ := (records_of_solve hr).1 r hrecord
  simp [hnorm, hcost]

end Legible

/-- **What a saved solution is read as.** For every solve that returns, by either method, with any
starting point and options, whose finite numbers are restored and whose counts fit words:

* the file has a text, which is read as the solution without the step lengths and projected costs
  that are not finite if the variables, the slacks and all objectives are finite, and not at all
  otherwise;
* it is read as the same solution, field by field, if and only if all its numbers are finite;
* affine scaling: it is read if and only if all objectives of the record are finite;
* the simplex method: nothing is left out, and it is read if and only if its values and all
  objectives of the record are finite. -/
theorem Solver.saved_solution {s : Solver Float} {p : Problem Float} {sol : Solution Float}
    (hs : (s.solve p).Yields (.ok sol)) (hwords : sol.Words)
    (hrestores : ∀ x ∈ sol.numbers, x.isFinite = true → Restores x) {path : String}
    {clock clock' : ℕ → Duration} {w w' : Session.World}
    (hwrite : (Store.writeSolution path sol).toSession.simulate clock w = (.ok (), w')) :
    ∃ text, (Session.readText path).simulate clock' w' = (.ok text, w') ∧
      Solution.ofText? text = (if sol.Legible then some sol.onlyFinite else none) ∧
      (Solution.ofText? text = some sol ↔ ∀ x ∈ sol.numbers, x.isFinite = true) ∧
      (s.method = .affineScaling →
        (sol.Legible ↔ ∀ r ∈ sol.stats.history.toList, r.objective.isFinite = true)) ∧
      (s.method = .simplex → sol.onlyFinite = sol ∧
        (sol.Legible ↔ Vec.allFinite sol.primal = true ∧ Vec.allFinite sol.slack = true ∧
          ∀ r ∈ sol.stats.history.toList, r.objective.isFinite = true)) := by
  refine ⟨sol.toJson.pretty, Session.simulate_readText (Store.simulate_writeText hwrite),
    Solution.ofText?_pretty hwords hrestores,
    Solution.ofText?_pretty_eq_some_iff hwords hrestores, fun haffine => ?_, fun hsimplex => ?_⟩
  · rcases solve_cases hs with ⟨-, start, hr⟩ | ⟨hmethod, -⟩
    · exact AffineScaling.legible_iff hr
    · rw [haffine] at hmethod
      cases hmethod
  · rcases solve_cases hs with ⟨hmethod, -⟩ | ⟨-, hr⟩
    · rw [hsimplex] at hmethod
      cases hmethod
    · exact ⟨Simplex.onlyFinite_eq_self hr, Simplex.legible_iff hr⟩

/-- Maximise `x₀ + x₁` subject to `x₀ ≤ 4` and `x₁ ≤ 4`, in binary64. -/
def evenBox : Problem Float := ⟨[1, 1], ⟨2, 2, [1, 0, 0, 1]⟩, [4, 4]⟩

/-- Both methods' solutions of `evenBox` are read back as they were. -/
theorem evenBox_saved : ∃ simplex affine w w',
    (Solver.solve ⟨.simplex, Options.default, none⟩ evenBox).Yields (.ok simplex) ∧
    (Solver.solve ⟨.affineScaling, Options.withTolerance 10, some [1, 1]⟩ evenBox).Yields
      (.ok affine) ∧
    (Store.writeSolution "p" simplex).toSession.simulate (fun _ => .zero) ⟨{}, "", 0⟩ =
      (.ok (), w) ∧
    (Store.writeSolution "p" affine).toSession.simulate (fun _ => .zero) ⟨{}, "", 0⟩ =
      (.ok (), w') ∧
    (∃ text, (Session.readText "p").simulate (fun _ => .zero) w = (.ok text, w) ∧
      Solution.ofText? text = some simplex) ∧
    ∃ text, (Session.readText "p").simulate (fun _ => .zero) w' = (.ok text, w') ∧
      Solution.ofText? text = some affine := by
  obtain ⟨simplex, hsimplex, hwords, hrestores⟩ := Timed.exists_yields_ok
    (x := Solver.solve ⟨.simplex, Options.default, none⟩ evenBox)
    (P := fun sol => sol.Words ∧ ∀ x ∈ sol.numbers, Restores x) (by decide +kernel)
  obtain ⟨affine, haffine, hwords', hrestores'⟩ := Timed.exists_yields_ok
    (x := Solver.solve ⟨.affineScaling, Options.withTolerance 10, some [1, 1]⟩ evenBox)
    (P := fun sol => sol.Words ∧ ∀ x ∈ sol.numbers, Restores x) (by decide +kernel)
  obtain ⟨w, hwrite⟩ := Store.simulate_writeJson_working simplex.toJson
  obtain ⟨w', hwrite'⟩ := Store.simulate_writeJson_working affine.toJson
  obtain ⟨text, htext, -, hread, -⟩ := Solver.saved_solution hsimplex hwords
    (fun x hx _ => hrestores x hx) hwrite
  obtain ⟨text', htext', -, hread', -⟩ := Solver.saved_solution haffine hwords'
    (fun x hx _ => hrestores' x hx) hwrite'
  exact ⟨simplex, affine, w, w', hsimplex, haffine, hwrite, hwrite',
    ⟨text, htext, hread.mpr fun x hx => (hrestores x hx).isFinite⟩,
    text', htext', hread'.mpr fun x hx => (hrestores' x hx).isFinite⟩

theorem Solver.not_loaded {s : Solver Float} {p : Problem Float}
    (h : ∃ sol, (s.solve p).Yields (.ok sol) ∧ sol.status = .optimal ∧ sol.Words ∧
      (∀ x ∈ sol.numbers, x.isFinite = true → Restores x) ∧ sol.objectiveValue.isFinite = false) :
    ∃ sol w, (s.solve p).Yields (.ok sol) ∧ sol.status = .optimal ∧
      (Store.writeSolution "p" sol).toSession.simulate (fun _ => .zero) ⟨{}, "", 0⟩ =
        (.ok (), w) ∧
      ∃ text, (Session.readText "p").simulate (fun _ => .zero) w = (.ok text, w) ∧
        Solution.ofText? text = none := by
  obtain ⟨sol, hsolve, hopt, hwords, hrestores, hobjective⟩ := h
  obtain ⟨w, hwrite⟩ := Store.simulate_writeJson_working sol.toJson
  have hlegible : ¬sol.Legible := fun h => Bool.false_ne_true (hobjective.symm.trans h.2.2.1)
  exact ⟨sol, w, hsolve, hopt, hwrite, sol.toJson.pretty,
    Session.simulate_readText (Store.simulate_writeText hwrite),
    (Solution.ofText?_pretty hwords hrestores).trans (if_neg hlegible)⟩

/-- **An optimum that cannot be loaded.** Affine scaling stops at a finite point of `steepBox` where
the objective is infinite. Null stands for it in the file, which no solution can be read from. -/
theorem steepBox_not_loaded :
    steepBox.validate = .ok () ∧ (Options.withTolerance 10 : Options Float).validate = .ok () ∧
    ∃ sol w, (Solver.solve ⟨.affineScaling, Options.withTolerance 10, some [1, 1]⟩ steepBox).Yields
        (.ok sol) ∧ sol.status = .optimal ∧
      (Store.writeSolution "p" sol).toSession.simulate (fun _ => .zero) ⟨{}, "", 0⟩ =
        (.ok (), w) ∧
      ∃ text, (Session.readText "p").simulate (fun _ => .zero) w = (.ok text, w) ∧
        Solution.ofText? text = none := by
  refine ⟨Problem.validate_eq_ok_iff.mpr (by decide +kernel),
    Options.validate_eq_ok_iff.mpr (by decide +kernel), Solver.not_loaded ?_⟩
  exact Timed.exists_yields_ok
    (x := Solver.solve ⟨.affineScaling, Options.withTolerance 10, some [1, 1]⟩ steepBox)
    (P := fun sol => sol.status = .optimal ∧ sol.Words ∧
      (∀ x ∈ sol.numbers, x.isFinite = true → Restores x) ∧ sol.objectiveValue.isFinite = false)
    (by decide +kernel)

end LinProg
