import LinProg.Proofs.Exchange.Problems

/-!
# What the check of a problem says

A problem brings two sizes for its matrix, and nothing ties them to the entries: in a file they are
any two words. The check multiplies them before it compares the product with the number of entries,
so it breaks down on a product that does not fit in a word (`Problem.Overflows`). On every other
problem it answers: the parts fit together and all numbers are finite (`Problem.Sound`), or the
first check that fails gives the error (`Problem.Refused`).

Making a problem of its parts and reading one from a file end with this check, and break down with
it (`Problem.Validates`).
-/

namespace LinProg

namespace Matrix

variable {α : Type} {M : Matrix α}

theorem validate_eq_fault_iff : M.validate = .fault ↔ 2 ^ 64 ≤ M.nrows * M.ncols := by
  simp only [validate, Outcome.bind_eq_fault, Outcome.ofOption_eq_fault, Outcome.check_ne_fault,
    and_false, exists_false, or_false]
  constructor
  · intro hnone
    by_contra hfit
    rw [Size.mul?_eq (not_le.mp hfit)] at hnone
    cases hnone
  · exact Size.mul?_eq_none

theorem validate_eq_error_iff {c : InputError α} : M.validate = .error c ↔
    M.nrows * M.ncols < 2 ^ 64 ∧ ¬M.Consistent ∧
      c = .dataLength M.data.length M.nrows M.ncols := by
  simp only [validate, Outcome.bind_eq_error, Outcome.ofOption_ne_error, Outcome.ofOption_eq_ok,
    Size.mul?_eq_some_iff, Outcome.check_eq_error, false_or, Consistent]
  constructor
  · rintro ⟨k, ⟨hfit, rfl⟩, hlen, rfl⟩
    exact ⟨hfit, hlen, rfl⟩
  · rintro ⟨hfit, hlen, rfl⟩
    exact ⟨_, ⟨hfit, rfl⟩, hlen, rfl⟩

end Matrix

namespace Problem

variable {α : Type} [Scalar α] {p : Problem α}

/-- The parts of a problem fit together, and all its numbers are finite. -/
structure Sound (p : Problem α) : Prop where
  nonempty : p.cost ≠ []
  columns : p.constraints.ncols = p.cost.length
  rows : p.constraints.nrows = p.rhs.length
  entries : p.constraints.data.length = p.constraints.nrows * p.constraints.ncols
  finite : Vec.allFinite p.cost ∧ Vec.allFinite p.constraints.data ∧ Vec.allFinite p.rhs

/-- The sizes call for more entries than a word can count. Without variables they are not looked
at. -/
def Overflows (p : Problem α) : Prop :=
  p.cost ≠ [] ∧ 2 ^ 64 ≤ p.constraints.nrows * p.constraints.ncols

/-- The error of the first check that fails. -/
inductive Refused (p : Problem α) : InputError α → Prop where
  | empty (h : p.cost = []) : Refused p .emptyObjective
  | entries (hcost : p.cost ≠ []) (hfit : p.constraints.nrows * p.constraints.ncols < 2 ^ 64)
    (h : ¬p.constraints.Consistent) :
    Refused p
      (.dataLength p.constraints.data.length p.constraints.nrows p.constraints.ncols)
  | columns (hcost : p.cost ≠ []) (hfit : p.constraints.nrows * p.constraints.ncols < 2 ^ 64)
    (hentries : p.constraints.Consistent) (h : p.constraints.ncols ≠ p.nvars) :
    Refused p (.columnCount p.constraints.ncols p.nvars)
  | rows (hcost : p.cost ≠ []) (hfit : p.constraints.nrows * p.constraints.ncols < 2 ^ 64)
    (hentries : p.constraints.Consistent) (hcols : p.constraints.ncols = p.nvars)
    (h : p.constraints.nrows ≠ p.ncons) :
    Refused p (.rowCount p.constraints.nrows p.ncons)
  | finite (hcost : p.cost ≠ []) (hfit : p.constraints.nrows * p.constraints.ncols < 2 ^ 64)
    (hentries : p.constraints.Consistent) (hcols : p.constraints.ncols = p.nvars)
    (hrows : p.constraints.nrows = p.ncons)
    (h : ¬(Vec.allFinite p.cost ∧ Vec.allFinite p.constraints.data ∧ Vec.allFinite p.rhs)) :
    Refused p .nonFiniteProblem

omit [Scalar α] in
theorem nvars_ne_zero_iff : p.nvars ≠ 0 ↔ p.cost ≠ [] := by
  rw [nvars, ne_eq, List.length_eq_zero_iff]

theorem validate_eq_fault_iff : p.validate = .fault ↔ p.Overflows := by
  simp only [validate, Outcome.bind_eq_fault, Outcome.check_eq_ok, Outcome.check_ne_fault,
    Matrix.validate_eq_fault_iff, exists_const, and_false, or_false, false_or, nvars_ne_zero_iff,
    Overflows]

theorem validate_eq_error_iff {c : InputError α} : p.validate = .error c ↔ p.Refused c := by
  simp only [validate, Outcome.bind_eq_error, Outcome.check_eq_ok, Outcome.check_eq_error,
    Matrix.validate_eq_ok_iff, Matrix.validate_eq_error_iff, exists_const, nvars_ne_zero_iff]
  constructor
  · rintro (⟨h, rfl⟩ | ⟨hcost, ⟨hfit, h, rfl⟩ | ⟨⟨hfit, hentries⟩, ⟨h, rfl⟩ | ⟨hcols, ⟨h, rfl⟩ |
      ⟨hrows, h, rfl⟩⟩⟩⟩)
    · exact .empty (not_not.mp h)
    · exact .entries hcost hfit h
    · exact .columns hcost hfit hentries h
    · exact .rows hcost hfit hentries hcols h
    · exact .finite hcost hfit hentries hcols hrows h
  · rintro (h | ⟨hcost, hfit, h⟩ | ⟨hcost, hfit, hentries, h⟩ | ⟨hcost, hfit, hentries, hcols, h⟩ |
      ⟨hcost, hfit, hentries, hcols, hrows, h⟩)
    · exact Or.inl ⟨not_not.mpr h, rfl⟩
    · exact Or.inr ⟨hcost, Or.inl ⟨hfit, h, rfl⟩⟩
    · exact Or.inr ⟨hcost, Or.inr ⟨⟨hfit, hentries⟩, Or.inl ⟨h, rfl⟩⟩⟩
    · exact Or.inr ⟨hcost, Or.inr ⟨⟨hfit, hentries⟩, Or.inr ⟨hcols, Or.inl ⟨h, rfl⟩⟩⟩⟩
    · exact Or.inr ⟨hcost, Or.inr ⟨⟨hfit, hentries⟩, Or.inr ⟨hcols, Or.inr ⟨hrows, h, rfl⟩⟩⟩⟩

theorem validate_eq_ok_iff_sound :
    p.validate = .ok () ↔ p.Sound ∧ p.constraints.nrows * p.constraints.ncols < 2 ^ 64 := by
  rw [validate_eq_ok_iff, nvars_ne_zero_iff]
  constructor
  · rintro ⟨hcost, ⟨hfit, hentries⟩, hcols, hrows, hfinite⟩
    exact ⟨⟨hcost, hcols, hrows, hentries, hfinite⟩, hfit⟩
  · rintro ⟨h, hfit⟩
    exact ⟨h.nonempty, ⟨hfit, h.entries⟩, h.columns, h.rows, h.finite⟩

/-- What an operation answers that checks a problem, restates an error with `f` and otherwise gives
`b`. -/
structure Validates {ε β : Type} (p : Problem α) (f : InputError α → ε) (b : β)
    (r : Outcome ε β) : Prop where
  breaks : r = .fault ↔ p.Overflows
  refuses : ∀ e, r = .error e ↔ ∃ c, p.Refused c ∧ e = f c
  accepts : ∀ b', r = .ok b' ↔
    b' = b ∧ p.Sound ∧ p.constraints.nrows * p.constraints.ncols < 2 ^ 64

theorem validates {ε β : Type} (f : InputError α → ε) (b : β) :
    p.Validates f b (p.validate.mapError f >>= fun _ => .ok b) where
  breaks := by
    rw [Outcome.bind_eq_fault, Outcome.mapError_eq_fault, validate_eq_fault_iff]
    simp
  refuses e := by
    simp only [Outcome.bind_eq_error, Outcome.mapError_eq_error, validate_eq_error_iff,
      reduceCtorEq, and_false, exists_false, or_false, eq_comm (a := f _)]
  accepts b' := by
    rw [Outcome.bind_eq_ok]
    constructor
    · rintro ⟨⟨⟩, hv, hb⟩
      exact ⟨(Outcome.ok.inj hb).symm, validate_eq_ok_iff_sound.mp (Outcome.mapError_eq_ok.mp hv)⟩
    · rintro ⟨rfl, hsound⟩
      exact ⟨(), Outcome.mapError_eq_ok.mpr (validate_eq_ok_iff_sound.mpr hsound), rfl⟩

end Problem

namespace Store

variable {f : ProblemFile} {path text : String} {clock : ℕ → Duration} {w w' : Session.World}

theorem sizes_of_decodeProblem (h : decodeProblem path text = .ok f) :
    f.problem.constraints.nrows < 2 ^ 64 ∧ f.problem.constraints.ncols < 2 ^ 64 := by
  obtain ⟨v, hread⟩ := exists_of_decodeProblem h
  exact ProblemFile.sizes_of_ofJson? hread

/-- How a malformed problem is reported that was read from a file. -/
def invalidProblem (path : String) (c : InputError Float) : Failure :=
  ⟨["invalid problem in " ++ Text.quoted path], .input c⟩

theorem problemOfText_validates (h : decodeProblem path text = .ok f) :
    f.problem.Validates (invalidProblem path) f (problemOfText path text) := by
  rw [problemOfText, h]
  exact Problem.validates (invalidProblem path) f

theorem simulate_readProblem_of_text
    (h : ((Session.readText path).simulate clock w).1 = .ok text) :
    ((readProblem path).toSession.simulate clock w).1 = problemOfText path text := by
  rw [simulate_readProblem, h]
  rfl

/-- **Reading breaks down** on a text whose problem calls for more entries than a word can count,
and only there. -/
theorem readProblem_eq_fault_iff :
    ((readProblem path).toSession.simulate clock w).1 = .fault ↔
      ∃ text f, ((Session.readText path).simulate clock w).1 = .ok text ∧
        decodeProblem path text = .ok f ∧ f.problem.Overflows := by
  constructor
  · intro hfault
    rw [simulate_readProblem] at hfault
    -- reading the text and decoding it never break down, so it is the check that does
    rcases Outcome.bind_eq_fault.mp hfault with hread | ⟨text, htext, hfault⟩
    · exact absurd hread Outcome.ofExcept_ne_fault
    rw [Outcome.ofExcept_eq_ok] at htext
    cases hresult : ((Session.readText path).simulate clock w).1 with
    | error e =>
      rw [hresult] at htext
      cases htext
    | ok text' =>
      rw [hresult] at htext
      cases htext
      cases hdecode : decodeProblem path text with
      | error e =>
        rw [problemOfText, hdecode] at hfault
        cases hfault
      | ok f => exact ⟨text, f, rfl, hdecode, (problemOfText_validates hdecode).breaks.mp hfault⟩
  · rintro ⟨text, f, htext, hdecode, hlarge⟩
    rw [simulate_readProblem_of_text htext]
    exact (problemOfText_validates hdecode).breaks.mpr hlarge

end Store

/-- **What the check of a problem says.** In any arithmetic, for any sizes and any lists:

* the check breaks down if there are variables and the product of the sizes does not fit in a word,
  and only then. Otherwise it gives the error of the first part that fails, or accepts the problem
  because its parts fit together and its numbers are finite;
* so does making a problem of its parts;
* if the entries can be counted at all, the accepted problems are those whose parts fit together and
  whose numbers are finite;
* reading a problem from a file breaks down if the text has a problem with such sizes, each of which
  fits in a word by itself, and only then; otherwise what is read is checked the same way. -/
theorem problem_checks_answer {α : Type} [Scalar α] (p : Problem α) (path : String)
    (clock : ℕ → Duration) (w : Session.World) :
    (p.Validates id () p.validate ∧
      p.Validates id p (Problem.of p.cost p.constraints p.rhs) ∧
      (p.constraints.data.length < 2 ^ 64 → (p.validate = .ok () ↔ p.Sound))) ∧
    (((Store.readProblem path).toSession.simulate clock w).1 = .fault ↔
      ∃ text f, ((Session.readText path).simulate clock w).1 = .ok text ∧
        Store.decodeProblem path text = .ok f ∧ f.problem.Overflows) ∧
    ∀ text f, ((Session.readText path).simulate clock w).1 = .ok text →
      Store.decodeProblem path text = .ok f →
      (f.problem.constraints.nrows < 2 ^ 64 ∧ f.problem.constraints.ncols < 2 ^ 64) ∧
        f.problem.Validates (Store.invalidProblem path) f
          ((Store.readProblem path).toSession.simulate clock w).1 := by
  refine ⟨⟨?_, ?_, fun hlen => ?_⟩, Store.readProblem_eq_fault_iff,
    fun text f htext hdecode => ⟨?_, ?_⟩⟩
  · have hcheck := p.validates id ()
    rwa [Outcome.mapError_id, Outcome.bind_ok_unit] at hcheck
  · have hof := p.validates id p
    rwa [Outcome.mapError_id] at hof
  · rw [Problem.validate_eq_ok_iff_sound, and_iff_left_iff_imp]
    intro h
    exact h.entries ▸ hlen
  · exact Store.sizes_of_decodeProblem hdecode
  · rw [Store.simulate_readProblem_of_text htext]
    exact Store.problemOfText_validates hdecode

theorem Store.exists_text_of_kept {f : ProblemFile} (h : f.Kept) : ∃ w',
    (writeProblem "p" f).toSession.simulate (fun _ => .zero) ⟨{}, "", 0⟩ = (.ok (), w') ∧
    ∃ text, ((Session.readText "p").simulate (fun _ => .zero) w').1 = .ok text ∧
      decodeProblem "p" text = .ok f := by
  obtain ⟨w', hwrite⟩ := simulate_writeJson_working f.toJson
  have hread : (Session.readText "p").simulate (fun _ => .zero) w' = (.ok f.toJson.pretty, w') :=
    Session.simulate_readText (simulate_writeText hwrite)
  exact ⟨w', hwrite, f.toJson.pretty, congrArg Prod.fst hread, decodeProblem_pretty h⟩

/-- Maximise `x₀ + x₁` subject to two constraints, of whose coefficients the last is missing. -/
def shortFile : ProblemFile := ⟨⟨[1, 1], ⟨2, 2, [1, 2, 3]⟩, [4, 6]⟩, none⟩

/-- A problem that is written with a coefficient missing is refused when it is read. -/
theorem shortFile_refused : ∃ w',
    (Store.writeProblem "p" shortFile).toSession.simulate (fun _ => .zero) ⟨{}, "", 0⟩ =
      (.ok (), w') ∧
    ((Store.readProblem "p").toSession.simulate (fun _ => .zero) w').1 =
      .error (Store.invalidProblem "p" (.dataLength 3 2 2)) := by
  have hkept : shortFile.Kept :=
    ⟨⟨by decide +kernel, ⟨by decide, by decide, by decide +kernel⟩, by decide +kernel⟩, nofun⟩
  obtain ⟨w', hwrite, text, htext, hdecode⟩ := Store.exists_text_of_kept hkept
  obtain ⟨-, -, hreads⟩ := problem_checks_answer shortFile.problem "p" (fun _ => .zero) w'
  obtain ⟨-, hvalidates⟩ := hreads text shortFile htext hdecode
  refine ⟨w', hwrite, (hvalidates.refuses _).mpr ⟨.dataLength 3 2 2, ?_, rfl⟩⟩
  exact .entries (List.cons_ne_nil _ _) (by decide) (by decide)

/-- Maximise `x` subject to no constraints, with sizes whose product is the number of all words. -/
def wideFile : ProblemFile := ⟨⟨[1], ⟨2 ^ 32, 2 ^ 32, []⟩, []⟩, none⟩

/-- **A file that cannot be read.** The sizes of `wideFile` do not agree with its entries, of which
there are none; but the check breaks down instead of saying so, when the problem is made of its
parts as when it is read from a file. -/
theorem wideFile_breaks_down :
    ¬wideFile.problem.Sound ∧ wideFile.problem.validate = .fault ∧
    Problem.of wideFile.problem.cost wideFile.problem.constraints wideFile.problem.rhs = .fault ∧
    ∃ w', (Store.writeProblem "p" wideFile).toSession.simulate (fun _ => .zero) ⟨{}, "", 0⟩ =
        (.ok (), w') ∧
      ((Store.readProblem "p").toSession.simulate (fun _ => .zero) w').1 = .fault := by
  have hlarge : wideFile.problem.Overflows := ⟨List.cons_ne_nil _ _, by decide⟩
  have hkept : wideFile.Kept := ⟨⟨by decide +kernel, ⟨by decide, by decide, nofun⟩, nofun⟩, nofun⟩
  have hfault := Problem.validate_eq_fault_iff.mpr hlarge
  obtain ⟨w', hwrite, text, htext, hdecode⟩ := Store.exists_text_of_kept hkept
  refine ⟨fun h => absurd h.columns (by decide), hfault, ?_, w', hwrite, ?_⟩
  · exact Outcome.bind_eq_fault.mpr (Or.inl hfault)
  · exact Store.readProblem_eq_fault_iff.mpr ⟨text, wideFile, htext, hdecode, hlarge⟩

end LinProg
