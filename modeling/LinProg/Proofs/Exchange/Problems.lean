import LinProg.Files.Store
import LinProg.Proofs.Exact.Programs
import LinProg.Proofs.Files.Trees
import LinProg.Proofs.Json.Structures

/-!
# Problem files that were written

A problem that is written to a file is read back from it, as long as its numbers are restored: the
text has a value that passes the check (`ProblemFile.plain_toJson`), its fields are those that were
written (`ProblemFile.ofJson?_toJson`), and the problem passes the validation once more. Whatever
was accepted from a file is such a problem (`Store.sound_of_readProblem`).
-/

namespace LinProg

open Json

variable {depth : ℕ}

namespace Matrix

variable {M : Matrix Float}

/-- The sizes fit words, and the entries are restored. -/
def Kept (M : Matrix Float) : Prop :=
  M.nrows < 2 ^ 64 ∧ M.ncols < 2 ^ 64 ∧ ∀ x ∈ M.data, Restores x

theorem plain_toJson (h : M.Kept) : Plain (depth + 2) M.toJson := by
  obtain ⟨hrows, hcols, hdata⟩ := h
  refine plain_object (by simp) ?_
  simp only [List.forall_mem_cons, List.not_mem_nil, false_imp_iff, implies_true, and_true]
  exact ⟨plain_count hrows, plain_count hcols,
    plain_list fun x hx => plain_float fun _ => hdata x hx⟩

theorem ofJson?_toJson (h : M.Kept) : ofJson? M.toJson = some M := by
  obtain ⟨hrows, hcols, hdata⟩ := h
  have hfields : M.toJson.fields? ["nrows", "ncols", "data"] =
      some [.given (count M.nrows), .given (count M.ncols), .given (list float M.data)] :=
    fields?_object [("nrows", count M.nrows), ("ncols", count M.ncols),
      ("data", list float M.data)] (by simp)
  have hread : (list float M.data).list? Json.float? = some M.data := list?_list hdata
  simp [ofJson?, hfields, Slot.required, count?_count hrows, count?_count hcols, hread]

theorem sizes_of_ofJson? {v : Json} (h : ofJson? v = some M) :
    M.nrows < 2 ^ 64 ∧ M.ncols < 2 ^ 64 := by
  unfold ofJson? at h
  simp only [Option.bind_eq_bind, Option.bind_eq_some_iff] at h
  obtain ⟨slots, -, h⟩ := h
  split at h
  · simp only [Option.bind_eq_some_iff, Option.pure_def, Option.some.injEq] at h
    obtain ⟨nrows, hrows, ncols, hcols, data, -, rfl⟩ := h
    obtain ⟨_, hrows⟩ := exists_of_required hrows
    obtain ⟨_, hcols⟩ := exists_of_required hcols
    exact ⟨lt_of_count? hrows, lt_of_count? hcols⟩
  · cases h

end Matrix

namespace Problem

variable {p : Problem Float}

theorem exists_matrix_of_ofJson? {v : Json} (h : ofJson? v = some p) :
    ∃ v', Matrix.ofJson? v' = some p.constraints := by
  unfold ofJson? at h
  simp only [Option.bind_eq_bind, Option.bind_eq_some_iff] at h
  obtain ⟨slots, -, h⟩ := h
  split at h
  · simp only [Option.bind_eq_some_iff, Option.pure_def, Option.some.injEq] at h
    obtain ⟨cost, -, constraints, hconstraints, rhs, -, rfl⟩ := h
    exact exists_of_required hconstraints
  · cases h

/-- The matrix fits words, and all numbers are restored. -/
def Kept (p : Problem Float) : Prop :=
  (∀ x ∈ p.cost, Restores x) ∧ p.constraints.Kept ∧ ∀ x ∈ p.rhs, Restores x

theorem plain_toJson (h : p.Kept) : Plain (depth + 3) p.toJson := by
  obtain ⟨hcost, hconstraints, hrhs⟩ := h
  refine plain_object (by simp) ?_
  simp only [List.forall_mem_cons, List.not_mem_nil, false_imp_iff, implies_true, and_true]
  exact ⟨plain_list fun x hx => plain_float fun _ => hcost x hx, Matrix.plain_toJson hconstraints,
    plain_list fun x hx => plain_float fun _ => hrhs x hx⟩

theorem ofJson?_toJson (h : p.Kept) : ofJson? p.toJson = some p := by
  obtain ⟨hcost, hconstraints, hrhs⟩ := h
  have hfields : p.toJson.fields? ["cost", "constraints", "rhs"] =
      some [.given (list float p.cost), .given p.constraints.toJson, .given (list float p.rhs)] :=
    fields?_object [("cost", list float p.cost), ("constraints", p.constraints.toJson),
      ("rhs", list float p.rhs)] (by simp)
  have hcost' : (list float p.cost).list? Json.float? = some p.cost := list?_list hcost
  have hrhs' : (list float p.rhs).list? Json.float? = some p.rhs := list?_list hrhs
  simp [ofJson?, hfields, Slot.required, hcost', Matrix.ofJson?_toJson hconstraints, hrhs']

end Problem

namespace ProblemFile

variable {f : ProblemFile}

/-- All numbers of a problem and its starting point. -/
def numbers (f : ProblemFile) : List Float :=
  f.problem.cost ++ f.problem.constraints.data ++ f.problem.rhs ++ f.start.getD []

/-- The matrix fits words, and all numbers are restored. -/
def Kept (f : ProblemFile) : Prop :=
  f.problem.Kept ∧ ∀ start ∈ f.start, ∀ x ∈ start, Restores x

theorem plain_toJson (h : f.Kept) : Plain (depth + 4) f.toJson := by
  obtain ⟨hproblem, hstart⟩ := h
  have hp : Plain (depth + 3) f.problem.toJson := Problem.plain_toJson hproblem
  unfold toJson
  cases hs : f.start with
  | none => exact plain_object (by simp) (by simpa using hp)
  | some start =>
    refine plain_object (by simp) ?_
    simp only [List.forall_mem_cons, List.not_mem_nil, false_imp_iff, implies_true, and_true]
    exact ⟨hp, plain_list fun x hx => plain_float fun _ => hstart start hs x hx⟩

theorem ofJson?_toJson (h : f.Kept) : ofJson? f.toJson = some f := by
  obtain ⟨p, start⟩ := f
  obtain ⟨hproblem, hstart⟩ := h
  cases start with
  | none =>
    have hfields : (toJson ⟨p, none⟩).fields? ["problem", "start"] =
        some [.given p.toJson, .absent] := by
      simp [toJson, object, fields?, slotOf?, valuesOf]
    simp [ofJson?, hfields, Slot.required, Slot.orElse, Problem.ofJson?_toJson hproblem]
  | some start =>
    have hfields : (toJson ⟨p, some start⟩).fields? ["problem", "start"] =
        some [.given p.toJson, .given (list float start)] :=
      fields?_object [("problem", p.toJson), ("start", list float start)] (by simp)
    have hread : (list float start).list? Json.float? = some start :=
      list?_list (hstart start rfl)
    have hnullable : (list float start).nullable? (list? Json.float?) = some (some start) := by
      simp [list, nullable?] at hread ⊢
      exact hread
    simp [ofJson?, hfields, Slot.required, Slot.orElse, Problem.ofJson?_toJson hproblem, hnullable]

theorem parts_of_ofJson? {v : Json} (h : ofJson? v = some f) :
    (∃ v', Problem.ofJson? v' = some f.problem) ∧
      ∀ start ∈ f.start, Vec.allFinite start = true := by
  unfold ofJson? at h
  simp only [Option.bind_eq_bind, Option.bind_eq_some_iff] at h
  obtain ⟨slots, -, h⟩ := h
  split at h
  · simp only [Option.bind_eq_some_iff, Option.pure_def, Option.some.injEq] at h
    obtain ⟨p, hp, start, hstart, rfl⟩ := h
    refine ⟨exists_of_required hp, fun xs hxs => ?_⟩
    obtain rfl := Option.mem_def.mp hxs
    obtain ⟨v, hxs⟩ := exists_of_orElse_none hstart
    exact List.all_eq_true.mpr (isFinite_of_list?_float? (of_nullable?_eq_some hxs))
  · cases h

theorem sizes_of_ofJson? {v : Json} (h : ofJson? v = some f) :
    f.problem.constraints.nrows < 2 ^ 64 ∧ f.problem.constraints.ncols < 2 ^ 64 := by
  obtain ⟨⟨_, hproblem⟩, -⟩ := parts_of_ofJson? h
  obtain ⟨_, hmatrix⟩ := Problem.exists_matrix_of_ofJson? hproblem
  exact Matrix.sizes_of_ofJson? hmatrix

theorem kept (hv : f.problem.validate = .ok ()) (hcols : f.problem.constraints.ncols < 2 ^ 64)
    (hstart : ∀ start ∈ f.start, Vec.allFinite start = true)
    (hrestores : ∀ x ∈ f.numbers, x.isFinite = true → Restores x) : f.Kept := by
  obtain ⟨hpos, ⟨hfit, -⟩, hwidth, -, hcost, hdata, hrhs⟩ := Problem.validate_eq_ok_iff.mp hv
  have hrows : f.problem.constraints.nrows < 2 ^ 64 :=
    (Nat.le_mul_of_pos_right _ (by omega)).trans_lt hfit
  have hall : ∀ xs : List Float, Vec.allFinite xs = true → xs ⊆ f.numbers →
      ∀ x ∈ xs, Restores x := fun xs hfinite hsub x hx =>
    hrestores x (hsub hx) (List.all_eq_true.mp hfinite x hx)
  refine ⟨⟨hall _ hcost ?_, ⟨hrows, hcols, hall _ hdata ?_⟩, hall _ hrhs ?_⟩,
    fun start hs => hall start (hstart start hs) ?_⟩
  · intro x hx
    simp [numbers, hx]
  · intro x hx
    simp [numbers, hx]
  · intro x hx
    simp [numbers, hx]
  · intro x hx
    simp [numbers, Option.mem_def.mp hs, hx]

end ProblemFile

namespace Store

variable {f : ProblemFile} {path text : String} {clock : ℕ → Duration} {w w' : Session.World}

theorem simulate_file {β : Type} {x : Session (Except FileError β)} :
    (Attempt.file x).toSession.simulate clock w =
      (Outcome.ofExcept ((x.simulate clock w).1.mapError Failure.ofFile), (x.simulate clock w).2) :=
  Session.simulate_bind x _

theorem simulate_writeText {v : Json}
    (h : (writeJson path v).toSession.simulate clock w = (.ok (), w')) :
    (Session.writeText path v.pretty).simulate clock w = (.ok (), w') := by
  unfold writeJson at h
  rw [simulate_file] at h
  obtain ⟨hok, hw⟩ := Prod.mk.inj h
  rw [Outcome.ofExcept_eq_ok] at hok
  cases hresult : ((Session.writeText path v.pretty).simulate clock w).1 with
  | error e =>
    rw [hresult] at hok
    cases hok
  | ok u => exact Prod.ext hresult hw

theorem simulate_readProblem : (readProblem path).toSession.simulate clock w =
    (Outcome.ofExcept (((Session.readText path).simulate clock w).1.mapError Failure.ofFile) >>=
      problemOfText path, ((Session.readText path).simulate clock w).2) := by
  have hbind : (readProblem path).toSession =
      Session.bind (Attempt.file (Session.readText path)).toSession fun
        | .ok text => .done (problemOfText path text)
        | .error e => .done (.error e)
        | .fault => .done .fault := by
    refine congrArg (Session.bind _) (funext fun r => ?_)
    cases r <;> rfl
  rw [hbind, Session.simulate_bind, simulate_file]
  generalize (Outcome.ofExcept _ : Outcome Failure String) = r
  cases r <;> rfl

theorem decodeProblem_pretty (h : f.Kept) : decodeProblem path f.toJson.pretty = .ok f := by
  have hplain : Plain depthLimit f.toJson := ProblemFile.plain_toJson h
  have hcheck : f.toJson.plain? = some f.toJson := hplain.plainWithin?_eq
  have hmember : hasMember f.toJson "problem" = true := by
    simp [hasMember, ProblemFile.toJson, object, valuesOf]
  unfold decodeProblem parse
  simp only [hplain.parse?_pretty, bind, Except.bind]
  rw [hcheck]
  dsimp only
  rw [hmember, ProblemFile.ofJson?_toJson h]
  rfl

theorem problemOfText_pretty (h : f.Kept) (hv : f.problem.validate = .ok ()) :
    problemOfText path f.toJson.pretty = .ok f := by
  rw [problemOfText, decodeProblem_pretty h]
  simp [Outcome.ofExcept, hv, Outcome.mapError]

theorem exists_of_decodeProblem {text : String} (h : decodeProblem path text = .ok f) :
    ∃ v, ProblemFile.ofJson? v = some f := by
  unfold decodeProblem at h
  cases hparse : parse path text with
  | error e =>
    rw [hparse] at h
    cases h
  | ok v =>
    rw [hparse] at h
    simp only [bind, Except.bind] at h
    split at h
    · cases h
    · rename_i v' _
      cases hread : ProblemFile.ofJson? v' with
      | none =>
        rw [hread] at h
        dsimp only at h
        split at h <;> cases h
      | some file =>
        rw [hread] at h
        dsimp only at h
        split at h
        · cases h
        · cases h
          exact ⟨v', hread⟩

theorem sound_of_readProblem (h : (readProblem path).toSession.simulate clock w = (.ok f, w')) :
    f.problem.validate = .ok () ∧ f.problem.constraints.ncols < 2 ^ 64 ∧
      ∀ start ∈ f.start, Vec.allFinite start = true := by
  rw [simulate_readProblem] at h
  obtain ⟨text, -, htext⟩ := Outcome.bind_eq_ok.mp (Prod.mk.inj h).1
  unfold problemOfText at htext
  obtain ⟨file, hfile, htext⟩ := Outcome.bind_eq_ok.mp htext
  obtain ⟨⟨⟩, hv, hpure⟩ := Outcome.bind_eq_ok.mp htext
  cases hpure
  rw [Outcome.mapError_eq_ok] at hv
  rw [Outcome.ofExcept_eq_ok] at hfile
  obtain ⟨v, hread⟩ := exists_of_decodeProblem hfile
  exact ⟨hv, (ProblemFile.sizes_of_ofJson? hread).2, (ProblemFile.parts_of_ofJson? hread).2⟩

theorem simulate_readProblem_of_writeProblem {clock' : ℕ → Duration}
    (hv : f.problem.validate = .ok ()) (h : f.Kept)
    (hwrite : (writeProblem path f).toSession.simulate clock w = (.ok (), w')) :
    (readProblem path).toSession.simulate clock' w' = (.ok f, w') := by
  have hfile := simulate_writeText hwrite
  rw [simulate_readProblem, Session.simulate_readText hfile]
  simp [Except.mapError, Outcome.ofExcept, problemOfText_pretty h hv]

end Store

section RoundTrip

variable {f : ProblemFile} {path : String} {clock clock' : ℕ → Duration} {w w' : Session.World}

/-- **Problem files** round-trip. If the numbers of a problem are restored, and it is valid and has
a finite start or none, or if any file at all was read as this problem, then what is written for it
is read back as the same problem with the same start. -/
theorem Store.readProblem_writeProblem
    (hrestores : ∀ x ∈ f.numbers, x.isFinite = true → Restores x)
    (hf : (f.problem.validate = .ok () ∧ f.problem.nvars < 2 ^ 64 ∧
        ∀ start ∈ f.start, Vec.allFinite start = true) ∨
      ∃ source clock w₀ w₁, (readProblem source).toSession.simulate clock w₀ = (.ok f, w₁))
    (hwrite : (writeProblem path f).toSession.simulate clock w = (.ok (), w')) :
    (readProblem path).toSession.simulate clock' w' = (.ok f, w') := by
  obtain ⟨hv, hcols, hstart⟩ : f.problem.validate = .ok () ∧
      f.problem.constraints.ncols < 2 ^ 64 ∧ ∀ start ∈ f.start, Vec.allFinite start = true := by
    rcases hf with ⟨hv, hvars, hstart⟩ | ⟨source, clock, w₀, w₁, hread⟩
    · obtain ⟨-, -, hwidth, -⟩ := Problem.validate_eq_ok_iff.mp hv
      exact ⟨hv, hwidth ▸ hvars, hstart⟩
    · exact sound_of_readProblem hread
  exact simulate_readProblem_of_writeProblem hv (ProblemFile.kept hv hcols hstart hrestores) hwrite

end RoundTrip

/-- A problem with numbers of all kinds of texts: whole, with a fraction, and with an exponent. -/
def decimalFile : ProblemFile :=
  ⟨⟨[0.1, -2.5e-7], ⟨1, 2, [1, 1e300]⟩, [12.75]⟩, some [0, 3.0e-5]⟩

theorem Session.writeTo_working (bytes : ByteArray) :
    writeTo {} "p" bytes = (.ok (), FileTree.put {} (workingPlace ++ ["p"]) (.file bytes)) := by
  have hparent : Path.parent? "p" = some "" := by decide +kernel
  have hslash : Path.endsInSlash "p" = false := by decide +kernel
  have hvalid : Path.isValid "p" = true := by decide +kernel
  have habs : Path.isAbsolute "p" = false := by decide +kernel
  have hsplit : "p".splitOn "/" = ["p"] := by
    rw [String.splitOn, if_neg (by decide), String.splitOnAux, if_neg (by decide +kernel),
      if_neg (by decide +kernel), String.splitOnAux, if_pos (by decide +kernel)]
    decide +kernel
  have hnames : Path.names "p" = ["p"] := by
    rw [Path.names, hsplit]
    decide
  have hfind : FileTree.findForWriting {} "p" = .ok (.missing (workingPlace ++ ["p"])) := by
    have hname : Path.namesDirectory "p" = false := by simp [Path.namesDirectory, hslash]
    rw [FileTree.findForWriting, hname]
    simp [FileTree.find, FileTree.follow, hvalid, habs, Path.components, hslash, hnames]
    rw [if_neg (by decide)]
    rfl
  have hwrite : FileTree.write {} "p" bytes =
      .ok (FileTree.put {} (workingPlace ++ ["p"]) (.file bytes)) := by
    rw [FileTree.write, hfind]
    rfl
  simp [writeTo, hparent, FileTree.makeDirectories, hwrite]

theorem Store.simulate_writeJson_working (v : Json) : ∃ w',
    (writeJson "p" v).toSession.simulate (fun _ => .zero) ⟨{}, "", 0⟩ = (.ok (), w') := by
  refine ⟨_, Prod.ext ?_ rfl⟩
  unfold writeJson
  rw [simulate_file, Session.writeText, Session.simulate, Session.writeTo_working]
  rfl

/-- The problem is read back from the file it was written to. -/
theorem decimalFile_round_trip : ∃ w',
    (Store.writeProblem "p" decimalFile).toSession.simulate (fun _ => .zero) ⟨{}, "", 0⟩ =
      (.ok (), w') ∧
    (Store.readProblem "p").toSession.simulate (fun _ => .zero) w' = (.ok decimalFile, w') := by
  have hrestores : ∀ x ∈ decimalFile.numbers, x.isFinite = true → Restores x := by
    have hall : decimalFile.numbers.all (fun x => decide (Restores x)) = true := by decide +kernel
    exact fun x hx _ => of_decide_eq_true (List.all_eq_true.mp hall x hx)
  have hvalid : decimalFile.problem.validate = .ok () :=
    Problem.validate_eq_ok_iff.mpr (by decide +kernel)
  obtain ⟨w', hwrite⟩ := Store.simulate_writeJson_working decimalFile.toJson
  exact ⟨w', hwrite, Store.readProblem_writeProblem hrestores
    (Or.inl ⟨hvalid, by decide, by decide +kernel⟩) hwrite⟩

end LinProg
