import LinProg.Proofs.Affine.Sizes
import LinProg.Proofs.Ldl.Calls
import LinProg.Proofs.Simplex.Budgets
import LinProg.Proofs.Simplex.Rounding
import LinProg.Proofs.Solvers

/-!
# Nothing breaks down after validation

A fault is an index outside of a list, two lengths that should agree and do not, a missing value, a
size that does not fit in a word, or storage that is refused because its bytes do not fit in a
signed word. On a valid problem whose tableau has addresses for all entries neither method comes to
one but the last, whatever the arithmetic, the starting point and the options: entries that are not
numbers change which branch is taken, but the scans still give places inside their lists, and all
vectors keep their lengths.

`Solver.LacksStorage` lists the places where a solve asks for storage. Where there is none for the
entries of a tableau one of them may be refused; this is the only way in which a solve ends without
an answer (`Solver.answers_after_validation`). With storage left out of account (`Scalar.unlimited`)
there is always one.
-/

namespace LinProg

variable {α : Type} [Scalar α] {p : Problem α}

theorem Simplex.solve_eq_fault_iff {o : Options α} (hv : p.validate = .ok ())
    {r : Outcome (InputError α) (Solution α)} (hr : (Simplex.solve o p).Yields r) :
    r = .fault ↔ o.validate = .ok () ∧ (∀ b ∈ p.rhs, ¬b < 0) ∧
      ¬Matrix.Room α (p.ncons + 1) (p.nvars + p.ncons + 1) := by
  rw [← Tableau.of_eq_fault_iff hv]
  refine ⟨fun hfault => ?_, fun ⟨ho, hT⟩ => solve_yields_fault ho hT hr⟩
  unfold Simplex.solve at hr
  split at hr
  · obtain rfl := Timed.yields_done.mp hr
    cases hfault
  · rename_i hbegin
    rcases Outcome.bind_eq_fault.mp hbegin with ho | ⟨⟨⟩, ho, hT⟩
    · exact absurd ho Outcome.ofExcept_ne_fault
    · exact ⟨Outcome.ofExcept_eq_ok.mp ho, hT⟩
  · rename_i T hT
    obtain ⟨-, -, hT⟩ := Outcome.bind_eq_ok.mp hT
    obtain ⟨-, -, hroom, rfl⟩ := Tableau.of_eq_ok_iff.mp hT
    obtain ⟨hn, hm⟩ := Tableau.stores_of_room hroom
    obtain ⟨s, hs, hr⟩ := Timed.yields_bind.mp hr
    obtain ⟨sol, T', rfl, -⟩ := run_of_shaped (Tableau.initial_shaped hv hroom.1) hn hm hs
    obtain rfl := Timed.yields_done.mp hr
    cases hfault

namespace Solver

/-- Storage is refused to a solve, for its tableau or on the way of affine scaling. -/
inductive LacksStorage (s : Solver α) (p : Problem α) : Prop where
  | tableau (hmethod : s.method = .simplex) (ho : s.options.validate = .ok ())
      (hrhs : ∀ b ∈ p.rhs, ¬b < 0)
      (hlacks : ¬Scalar.Stores α ((p.ncons + 1) * (p.nvars + p.ncons + 1)))
  | scaling {start : List α} (hmethod : s.method = .affineScaling) (hstart : s.start = some start)
      (h : (AffineScaling.of s.options).LacksStorage p start)

theorem LacksStorage.not_stores {s : Solver α} (h : s.LacksStorage p) :
    ¬Scalar.Stores α ((p.ncons + 1) * (p.nvars + p.ncons + 1)) := by
  cases h with
  | tableau hmethod ho hrhs hlacks => exact hlacks
  | scaling hmethod hstart h => exact h.not_stores

section Solve

variable (hv : p.validate = .ok ()) (hfit : (p.ncons + 1) * (p.nvars + p.ncons + 1) < 2 ^ 64)
include hv

theorem check_never_faults (s : Solver α) : s.check p ≠ .fault := by
  unfold check
  split
  · exact Precheck.check_never_faults hv _
  · exact Precheck.checkWithoutStart_never_faults hv

include hfit

/-- **A solve of a valid problem breaks down only where storage is refused.** -/
theorem solve_eq_fault_iff (s : Solver α) (hmax : s.options.maxIterations < 2 ^ 64)
    {r : Outcome (SolverError α) (Solution α)} (hr : (s.solve p).Yields r) :
    r = .fault ↔ s.LacksStorage p := by
  cases solve_gives hr with
  | noStart hmethod hstart =>
    refine iff_of_false nofun fun h => ?_
    cases h with
    | tableau hmethod' => simp [hmethod] at hmethod'
    | scaling hmethod' hstart' => simp [hstart] at hstart'
  | @scaling start t hmethod hstart ht =>
    rw [Outcome.mapError_eq_fault, AffineScaling.solve_eq_fault_iff hv hfit hmax ht]
    refine ⟨.scaling hmethod hstart, fun h => ?_⟩
    cases h with
    | tableau hmethod' => simp [hmethod] at hmethod'
    | scaling hmethod' hstart' h =>
      rw [hstart] at hstart'
      cases hstart'
      exact h
  | simplex hmethod ht =>
    rw [Outcome.mapError_eq_fault, Simplex.solve_eq_fault_iff hv ht]
    constructor
    · rintro ⟨ho, hrhs, hlacks⟩
      exact .tableau hmethod ho hrhs fun hstores => hlacks ⟨hfit, hstores⟩
    · intro h
      cases h with
      | tableau hmethod' ho hrhs hlacks => exact ⟨ho, hrhs, fun hroom => hlacks hroom.2⟩
      | scaling hmethod' => simp [hmethod] at hmethod'

end Solve

end Solver

namespace Suite

section Run

variable {o : Options α} {start : List α} (hv : p.validate = .ok ())
  (hfit : (p.ncons + 1) * (p.nvars + p.ncons + 1) < 2 ^ 64) (hmax : o.maxIterations < 2 ^ 64)
include hv hfit hmax

end Run

end Suite

/-- Maximise `x` under `m` times the constraint `x ≤ 1`, in binary64. -/
def tallColumn (m : ℕ) : Problem Float := ⟨[1], ⟨m, 1, List.replicate m 1⟩, List.replicate m 1⟩

theorem tallColumn_ncons (m : ℕ) : (tallColumn m).ncons = m := List.length_replicate

theorem tallColumn_validate {m : ℕ} (hm : m < 2 ^ 64) : (tallColumn m).validate = .ok () := by
  have hone : Scalar.isFinite (1 : Float) = true := by decide +kernel
  have hall : ∀ k, Vec.allFinite (List.replicate k (1 : Float)) = true := by
    intro k
    refine List.all_eq_true.mpr fun v hv => ?_
    rw [List.eq_of_mem_replicate hv]
    exact hone
  rw [Problem.validate_eq_ok_iff, tallColumn_ncons]
  refine ⟨Nat.one_ne_zero, ⟨?_, ?_⟩, rfl, rfl, hall 1, hall m, hall m⟩
  · simpa [tallColumn] using hm
  · simp [tallColumn, Matrix.Consistent]

theorem tallColumn_lacksStorage {m : ℕ} (hm : 2 ^ 30 ≤ m) :
    Solver.default.LacksStorage (tallColumn m) := by
  have hnonneg : ¬(1 : Float) < 0 := by decide +kernel
  refine .tableau rfl (Options.validate_eq_ok_iff.mpr (by decide +kernel)) ?_ ?_
  · intro b hb
    rw [List.eq_of_mem_replicate hb]
    exact hnonneg
  · have hbytes : Scalar.bytes Float = 8 := rfl
    rw [tallColumn_ncons, show (tallColumn m).nvars = 1 from rfl, Scalar.Stores, hbytes, not_lt]
    nlinarith

/-- A valid problem whose tableau has addresses, but more bytes than a signed word counts: no
simplex solve of it returns. -/
theorem tallColumn_breaks_down {m : ℕ} (hm : 2 ^ 30 ≤ m) (hfit : (m + 1) * (1 + m + 1) < 2 ^ 64)
    {r : Outcome (SolverError Float) (Solution Float)}
    (hr : (Solver.default.solve (tallColumn m)).Yields r) : r = .fault := by
  have hvalid := tallColumn_validate (m := m) (by nlinarith)
  rw [← tallColumn_ncons m] at hfit
  exact (Solver.solve_eq_fault_iff hvalid hfit Solver.default (by decide) hr).mpr
    (tallColumn_lacksStorage hm)

end LinProg
