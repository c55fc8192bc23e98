import LinProg.Proofs.Affine.Applicability
import LinProg.Proofs.Simplex.Rounding
import LinProg.Proofs.Solvers

/-!
# How malformed input is reported

Both methods look at the problem and the options before they begin, the simplex method at the signs
of the bounds and affine scaling at the starting point as well. `Solver.Refusal` lists the checks
that end a solve with the error of each, and there are no others (`Solver.solve_eq_error_iff`).

What is wrong with the problem or the options is reported as an invalid problem, whatever the
method. A malformed starting point is not: the checks of affine scaling pass its error on as a
reason not to start, so that it arrives as a failure of the method
(`shortStart_reported_as_failure`).
-/

namespace LinProg

variable {α : Type} [Scalar α] {p : Problem α} {c : InputError α}

namespace Problem

/-- Entry `row` of the bounds is `b`, the first that is negative. -/
def FirstNegative (p : Problem α) (row : ℕ) (b : α) : Prop :=
  p.rhs[row]? = some b ∧ b < 0 ∧ ∀ k < row, ∀ b' ∈ p.rhs[k]?, ¬b' < 0

theorem find?_negative_eq_some_iff {row : ℕ} {b : α} :
    (p.rhs.zipIdx.find? fun e => decide (e.1 < 0)) = some (b, row) ↔ p.FirstNegative row b := by
  rw [List.find?_eq_some_iff_getElem, FirstNegative]
  simp only [decide_eq_true_eq, List.getElem_zipIdx, Nat.zero_add, Prod.mk.injEq,
    List.length_zipIdx, Bool.not_eq_true', decide_eq_false_iff_not]
  constructor
  · rintro ⟨hneg, k, hk, ⟨rfl, rfl⟩, hbefore⟩
    refine ⟨List.getElem?_eq_getElem hk, hneg, fun l hl b' hb' => ?_⟩
    rw [List.getElem?_eq_getElem (hl.trans hk), Option.mem_some] at hb'
    exact hb' ▸ hbefore l hl
  · rintro ⟨hb, hneg, hbefore⟩
    obtain ⟨hk, rfl⟩ := List.getElem?_eq_some_iff.mp hb
    exact ⟨hneg, row, hk, ⟨rfl, rfl⟩, fun l hl =>
      hbefore l hl _ (List.getElem?_eq_getElem (hl.trans hk))⟩

/-- What is wrong with a starting point. -/
inductive Misfit (p : Problem α) (start : List α) : InputError α → Prop where
  | length (h : start.length ≠ p.nvars) : Misfit p start (.pointLength start.length p.nvars)
  | finite (hlen : start.length = p.nvars) (h : ¬Vec.allFinite start) :
    Misfit p start .nonFinitePoint

theorem validatePoint_eq_error_iff {start : List α} :
    p.validatePoint start = .error c ↔ p.Misfit start c := by
  unfold validatePoint
  constructor
  · intro h
    split at h
    · rename_i hlen
      cases h
      exact .length hlen
    · rename_i hlen
      split at h
      · cases h
      · rename_i hfinite
        cases h
        exact .finite (not_not.mp hlen) hfinite
  · rintro (hlen | ⟨hlen, hfinite⟩)
    · rw [if_pos hlen]
    · rw [if_neg (not_not.mpr hlen), if_neg hfinite]

end Problem

theorem Tableau.of_eq_error_iff : Tableau.of p = .error c ↔ p.validate = .error c ∨
    p.validate = .ok () ∧ ∃ row b, p.FirstNegative row b ∧ c = .negativeRhs row b := by
  rw [Tableau.of, Outcome.bind_eq_error]
  refine or_congr_right ?_
  constructor
  · rintro ⟨⟨⟩, hv, hT⟩
    refine ⟨hv, ?_⟩
    split at hT
    · rename_i b row hfound
      cases hT
      exact ⟨row, b, Problem.find?_negative_eq_some_iff.mp hfound, rfl⟩
    · simp [Outcome.bind_eq_error] at hT
  · rintro ⟨hv, row, b, hfirst, rfl⟩
    refine ⟨(), hv, ?_⟩
    rw [Problem.find?_negative_eq_some_iff.mpr hfirst]

theorem Simplex.solve_eq_error_iff {o : Options α} {r : Outcome (InputError α) (Solution α)}
    (hr : (Simplex.solve o p).Yields r) :
    r = .error c ↔ o.validate = .error c ∨ o.validate = .ok () ∧ Tableau.of p = .error c := by
  have hchecks : (Outcome.ofExcept o.validate >>= fun _ => Tableau.of p) = .error c ↔
      o.validate = .error c ∨ o.validate = .ok () ∧ Tableau.of p = .error c := by
    refine Outcome.bind_eq_error.trans (or_congr Outcome.ofExcept_eq_error ⟨?_, ?_⟩)
    · rintro ⟨⟨⟩, ho, hT⟩
      exact ⟨Outcome.ofExcept_eq_ok.mp ho, hT⟩
    · rintro ⟨ho, hT⟩
      exact ⟨(), Outcome.ofExcept_eq_ok.mpr ho, hT⟩
  rw [← hchecks]
  unfold Simplex.solve at hr
  split at hr
  · rename_i e he
    obtain rfl := Timed.yields_done.mp hr
    rw [he, Outcome.error.injEq, Outcome.error.injEq]
  · rename_i hfault
    obtain rfl := Timed.yields_done.mp hr
    rw [hfault]
    exact iff_of_false nofun nofun
  · rename_i T hT
    obtain ⟨s, -, hr⟩ := Timed.yields_bind.mp hr
    obtain rfl := Timed.yields_done.mp hr
    rw [hT]
    cases s with
    | none => exact iff_of_false nofun nofun
    | some s => exact iff_of_false nofun nofun

namespace Solver

/-- The checks that end a solve, with the error that each of them ends it with. -/
inductive Refusal (s : Solver α) (p : Problem α) : SolverError α → Prop where
  | noStart (hmethod : s.method = .affineScaling) (hstart : s.start = none) :
    Refusal s p (.missingStart .affineScaling)
  | scalingProblem {start : List α} (hmethod : s.method = .affineScaling)
    (hstart : s.start = some start) {c : InputError α} (h : p.validate = .error c) :
    Refusal s p (.invalidProblem c)
  | scalingOptions {start : List α} (hmethod : s.method = .affineScaling)
    (hstart : s.start = some start) (hv : p.validate = .ok ()) {c : InputError α}
    (h : s.options.validate = .error c) : Refusal s p (.invalidProblem c)
  | simplexOptions (hmethod : s.method = .simplex) {c : InputError α}
    (h : s.options.validate = .error c) : Refusal s p (.invalidProblem c)
  | simplexProblem (hmethod : s.method = .simplex) (ho : s.options.validate = .ok ())
    {c : InputError α} (h : p.validate = .error c) : Refusal s p (.invalidProblem c)
  | negativeBound (hmethod : s.method = .simplex) (ho : s.options.validate = .ok ())
    (hv : p.validate = .ok ()) {row : ℕ} {b : α} (h : p.FirstNegative row b) :
    Refusal s p (.invalidProblem (.negativeRhs row b))
  /-- The one input error that is not reported as an invalid problem. -/
  | misfit {start : List α} (hmethod : s.method = .affineScaling) (hstart : s.start = some start)
    (hv : p.validate = .ok ()) (ho : s.options.validate = .ok ()) {c : InputError α}
    (h : p.Misfit start c) : Refusal s p (.backend (.input c))

variable {s : Solver α} {r : Outcome (SolverError α) (Solution α)} {e : SolverError α}

theorem refusal_iff_scaling {start : List α} (hmethod : s.method = .affineScaling)
    (hstart : s.start = some start) : s.Refusal p e ↔
      ∃ c, (AffineScaling.of s.options).InputRefused p start c ∧ affineError c = e := by
  constructor
  · rintro (⟨-, hnone⟩ | ⟨-, hstart', h⟩ | ⟨-, hstart', hv, h⟩ | ⟨hsimplex, -⟩ | ⟨hsimplex, -, -⟩ |
      ⟨hsimplex, -, -, -⟩ | ⟨-, hstart', hv, ho, h⟩)
    · cases hstart.symm.trans hnone
    · exact ⟨_, .problem h, rfl⟩
    · exact ⟨_, .options hv h, rfl⟩
    · cases hmethod.symm.trans hsimplex
    · cases hmethod.symm.trans hsimplex
    · cases hmethod.symm.trans hsimplex
    · cases hstart.symm.trans hstart'
      exact ⟨_, .point hv ho (Problem.validatePoint_eq_error_iff.mpr h), rfl⟩
  · rintro ⟨_, h | ⟨hv, h⟩ | ⟨hv, ho, h⟩, rfl⟩
    · exact .scalingProblem hmethod hstart h
    · exact .scalingOptions hmethod hstart hv h
    · exact .misfit hmethod hstart hv ho (Problem.validatePoint_eq_error_iff.mp h)

theorem refusal_iff_simplex (hmethod : s.method = .simplex) : s.Refusal p e ↔
    ∃ c, (s.options.validate = .error c ∨ s.options.validate = .ok () ∧
      Tableau.of p = .error c) ∧ .invalidProblem c = e := by
  simp only [Tableau.of_eq_error_iff]
  constructor
  · rintro (⟨hscaling, -⟩ | ⟨hscaling, -, -⟩ | ⟨hscaling, -, -, -⟩ | ⟨-, h⟩ | ⟨-, ho, h⟩ |
      ⟨-, ho, hv, h⟩ | ⟨hscaling, -, -, -, -⟩)
    · cases hmethod.symm.trans hscaling
    · cases hmethod.symm.trans hscaling
    · cases hmethod.symm.trans hscaling
    · exact ⟨_, Or.inl h, rfl⟩
    · exact ⟨_, Or.inr ⟨ho, Or.inl h⟩, rfl⟩
    · exact ⟨_, Or.inr ⟨ho, Or.inr ⟨hv, _, _, h, rfl⟩⟩, rfl⟩
    · cases hmethod.symm.trans hscaling
  · rintro ⟨c, h | ⟨ho, h | ⟨hv, row, b, h, rfl⟩⟩, rfl⟩
    · exact .simplexOptions hmethod h
    · exact .simplexProblem hmethod ho h
    · exact .negativeBound hmethod ho hv h

/-- **A solve is refused** by one of the checks, and by nothing else. -/
theorem solve_eq_error_iff (hr : (s.solve p).Yields r) : r = .error e ↔ s.Refusal p e := by
  cases solve_gives hr with
  | noStart hmethod hstart =>
    -- of the checks only the one for the missing point applies here
    rw [Outcome.error.injEq]
    constructor
    · rintro rfl
      exact .noStart hmethod hstart
    · rintro (_ | ⟨-, hstart', -⟩ | ⟨-, hstart', -, -⟩ | ⟨hsimplex, -⟩ | ⟨hsimplex, -, -⟩ |
        ⟨hsimplex, -, -, -⟩ | ⟨-, hstart', -, -, -⟩)
      · rfl
      · cases hstart.symm.trans hstart'
      · cases hstart.symm.trans hstart'
      · cases hmethod.symm.trans hsimplex
      · cases hmethod.symm.trans hsimplex
      · cases hmethod.symm.trans hsimplex
      · cases hstart.symm.trans hstart'
  | scaling hmethod hstart ht =>
    simp only [Outcome.mapError_eq_error, AffineScaling.solve_eq_error_iff ht]
    exact (refusal_iff_scaling hmethod hstart).symm
  | simplex hmethod ht =>
    simp only [Outcome.mapError_eq_error, Simplex.solve_eq_error_iff ht]
    exact (refusal_iff_simplex hmethod).symm

end Solver

/-- **How malformed input is reported.** In any arithmetic, for any method, problem, options and
starting point or none, under any clock:

* a solve ends with an error if one of the checks fails, with the error of the first that does;
* of these, only what is wrong with the starting point of affine scaling, after the problem and the
  options have passed, is reported as a failure of the method. What is wrong with the problem, with
  a bound or with the options is reported as an invalid problem by either method;
* both reports carry the message of the cause. -/
theorem Solver.malformed_input_reported [Binary α] (s : Solver α) (p : Problem α)
    (clock : ℕ → Duration) (first : ℕ) :
    (∀ e, (s.solve p).runFrom clock first = .error e ↔ s.Refusal p e) ∧
    (∀ c, (s.solve p).runFrom clock first = .error (.backend c) ↔
      ∃ start cause, s.method = .affineScaling ∧ s.start = some start ∧ p.validate = .ok () ∧
        s.options.validate = .ok () ∧ p.Misfit start cause ∧ c = .input cause) ∧
    (∀ c : InputError α,
      (SolverError.invalidProblem c).message = "problem validation failed: " ++ c.message ∧
      (SolverError.backend (.input c)).message = "solver failed: " ++ c.message) := by
  have hrefused : ∀ e, (s.solve p).runFrom clock first = .error e ↔ s.Refusal p e :=
    fun e => solve_eq_error_iff (Timed.yields_runFrom clock first _)
  refine ⟨hrefused, fun c => ?_, fun c => ⟨rfl, rfl⟩⟩
  rw [hrefused]
  constructor
  · intro h
    cases h with
    | misfit hmethod hstart hv ho h => exact ⟨_, _, hmethod, hstart, hv, ho, h, rfl⟩
  · rintro ⟨start, cause, hmethod, hstart, hv, ho, h, rfl⟩
    exact .misfit hmethod hstart hv ho h

/-- Affine scaling with default options, from a point with one entry. -/
def shortStart : Solver Float := ⟨.affineScaling, Options.default, some [1]⟩

/-- **A malformed point is reported as a failure.** A point with one entry does not fit a problem in
two variables; the solve says so, but not as it says what else is wrong with its input. -/
theorem shortStart_reported_as_failure :
    Simplex.roundedTwoByTwo.validate = .ok () ∧ shortStart.options.validate = .ok () ∧
    Simplex.roundedTwoByTwo.validatePoint [1] = .error (.pointLength 1 2) ∧
    (shortStart.solve Simplex.roundedTwoByTwo).run (fun _ => .zero) =
      .error (.backend (.input (.pointLength 1 2))) ∧
    (SolverError.backend (.input (.pointLength 1 2)) : SolverError Float).message =
      "solver failed: dimension mismatch: starting point length 1 != nvars 2" := by
  have hv : Simplex.roundedTwoByTwo.validate = .ok () := rfl
  have ho : shortStart.options.validate = .ok () :=
    Options.validate_eq_ok_iff.mpr (by decide +kernel)
  refine ⟨hv, ho, rfl, ?_, by decide +kernel⟩
  exact (Solver.solve_eq_error_iff (Timed.yields_runFrom _ 0 _)).mpr
    (.misfit rfl rfl hv ho (.length (by decide)))

end LinProg
