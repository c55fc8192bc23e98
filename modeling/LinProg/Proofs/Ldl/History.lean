import LinProg.Proofs.Exact.Arithmetic
import LinProg.Proofs.Ldl.Calls

/-!
# What answers depend on

Of all calls that a solver has had, three things matter to the next one: the last call that made or
dropped factors (`lastDecisive`), the size of the last analysis (`settledSize`) and the number of
factorizations. `LdlStorage.Answers` says what each call then answers, and `calls_answers` that it
does so after any calls.
-/

namespace LinProg

variable {α : Type}

namespace LdlEntry

/-- A factorization that has made factors. -/
def succeeded : LdlEntry α → Bool
  | (.factor _, .factored (.ok _)) => true
  | _ => false

/-- An analysis, or a factorization that has not been refused. -/
def decisive : LdlEntry α → Bool
  | (.analyse _, _) => true
  | (.factor _, .factored (.ok _)) => true
  | (.factor _, .factored (.error e)) => !e.rejects
  | _ => false

/-- The size that is set after an entry. A first factorization sets it as well. -/
def settle (size : Option ℕ) : LdlEntry α → Option ℕ
  | (.analyse n, _) => some n
  | (.factor M, .factored (.ok _)) => size.or (some M.nrows)
  | (.factor M, .factored (.error e)) => if e.rejects then size else size.or (some M.nrows)
  | _ => size

end LdlEntry

/-- The last call that made or dropped factors. -/
def lastDecisive (log : List (LdlEntry α)) : Option (LdlEntry α) :=
  (log.filter LdlEntry.decisive).getLast?

/-- The size that matrices have to have. -/
def settledSize (log : List (LdlEntry α)) : Option ℕ := log.foldl LdlEntry.settle none

section Log

variable {log : List (LdlEntry α)} {e : LdlEntry α}

theorem lastDecisive_concat (h : e.decisive = true) : lastDecisive (log ++ [e]) = some e := by
  simp [lastDecisive, List.filter_append, h]

theorem lastDecisive_concat_of_not (h : e.decisive = false) :
    lastDecisive (log ++ [e]) = lastDecisive log := by
  simp [lastDecisive, List.filter_append, h]

theorem settledSize_concat : settledSize (log ++ [e]) = e.settle (settledSize log) := by
  simp [settledSize]

theorem succeeded_lastDecisive {earlier later : List (LdlEntry α)} (he : e.decisive = true)
    (hdrops : e.succeeded = false) (hlater : ∀ e' ∈ later, e'.succeeded = false)
    {last : LdlEntry α} (hlast : lastDecisive (earlier ++ e :: later) = some last) :
    last.succeeded = false := by
  rw [lastDecisive, List.filter_append, List.filter_cons_of_pos he,
    List.getLast?_append_cons] at hlast
  rcases List.mem_cons.mp (List.mem_of_getLast? hlast) with rfl | hmem
  · exact hdrops
  · exact hlater last (List.mem_of_mem_filter hmem)

end Log

variable [Scalar α]

/-- What a solver keeps of its calls. -/
structure LdlSolver.Records (t : α) (log : List (LdlEntry α)) (u : LdlSolver α) : Prop where
  tolerance : u.tolerance = t
  size : u.dimension? = settledSize log
  factorizations : u.factorizations = log.countP LdlEntry.succeeded
  /-- After a factorization there are the factors of its matrix. -/
  factored : ∀ M, lastDecisive log = some (.factor M, .factored (.ok ())) →
    M.Consistent ∧ M.nrows = M.ncols ∧
      ∃ F, Ldl.factor M t = .ok F ∧ u.stage = .factored M.nrows F
  /-- After anything else there are none. -/
  unfactored : (∀ M, lastDecisive log ≠ some (.factor M, .factored (.ok ()))) →
    ∀ n F, u.stage ≠ .factored n F

namespace LdlSolver.Records

variable {t : α} {log : List (LdlEntry α)} {u : LdlSolver α} {M : Matrix α} {n : ℕ}

theorem start (t : α) : Records t [] { tolerance := t } where
  tolerance := rfl
  size := rfl
  factorizations := rfl
  factored := nofun
  unfactored := fun _ => nofun

theorem keep (h : Records t log u) {e : LdlEntry α} (he : e.decisive = false)
    (hfailed : e.succeeded = false) (hsize : e.settle (settledSize log) = settledSize log) :
    Records t (log ++ [e]) u where
  tolerance := h.tolerance
  size := by rw [settledSize_concat, hsize, h.size]
  factorizations := by
    rw [List.countP_append, List.countP_singleton, hfailed, h.factorizations]
    rfl
  factored := by
    rw [lastDecisive_concat_of_not he]
    exact h.factored
  unfactored := by
    rw [lastDecisive_concat_of_not he]
    exact h.unfactored

theorem drop (h : Records t log u) {e : LdlEntry α} (he : e.decisive = true)
    (hfailed : e.succeeded = false) (hsize : e.settle (settledSize log) = some n) :
    Records t (log ++ [e]) (u.resized n) where
  tolerance := h.tolerance
  size := by
    rw [settledSize_concat, hsize]
    rfl
  factorizations := by
    rw [List.countP_append, List.countP_singleton, hfailed]
    exact h.factorizations
  factored := by
    intro M hM
    rw [lastDecisive_concat he, Option.some.injEq] at hM
    rw [hM] at hfailed
    cases hfailed
  unfactored := fun _ => nofun

theorem factor (h : Records t log u) (hM : M.Consistent) (hsquare : M.nrows = M.ncols)
    {F : Ldl.Factors α} (hF : Ldl.factor M u.tolerance = .ok F)
    (hsize : (settledSize log).or (some M.nrows) = some M.nrows) :
    Records t (log ++ [(.factor M, .factored (.ok ()))]) { u with
      stage := .factored M.nrows F
      factorizations := u.factorizations + 1 } where
  tolerance := h.tolerance
  size := by
    rw [settledSize_concat, LdlEntry.settle, hsize]
    rfl
  factorizations := by
    rw [List.countP_append, List.countP_singleton]
    exact congrArg (· + 1) h.factorizations
  factored := by
    intro M' hM'
    rw [lastDecisive_concat rfl] at hM'
    cases hM'
    exact ⟨hM, hsquare, F, h.tolerance ▸ hF, rfl⟩
  unfactored := fun hnot => absurd (lastDecisive_concat rfl) (hnot M)

theorem exists_stage_iff (h : Records t log u) : (∃ F, u.stage = .factored n F) ↔
    ∃ M, lastDecisive log = some (.factor M, .factored (.ok ())) ∧ n = M.nrows := by
  constructor
  · rintro ⟨F, hF⟩
    by_contra hnot
    by_cases hlast : ∃ M, lastDecisive log = some (.factor M, .factored (.ok ()))
    · obtain ⟨M, hM⟩ := hlast
      obtain ⟨-, -, F', -, hstage⟩ := h.factored M hM
      rw [hF] at hstage
      cases hstage
      exact hnot ⟨M, hM, rfl⟩
    · exact h.unfactored (fun M hM => hlast ⟨M, hM⟩) n F hF
  · rintro ⟨M, hM, rfl⟩
    obtain ⟨-, -, F, -, hstage⟩ := h.factored M hM
    exact ⟨F, hstage⟩

end LdlSolver.Records

namespace LdlStorage

variable {t : α} {log : List (LdlEntry α)} {s s' : LdlStorage α} {u : LdlSolver α} {M : Matrix α}

theorem or_settledSize (h : u.Records t log) (hdim : ∀ n, u.dimension? = some n → M.nrows = n) :
    (settledSize log).or (some M.nrows) = some M.nrows := by
  rw [← h.size]
  cases hu : u.dimension? with
  | none => rfl
  | some n => rw [hdim n hu, Option.some_or]

theorem exists_records (h : LdlLog LdlStorage.call? { tolerance := t } log s) :
    ∃ u, Keeps s u ∧ u.Records t log := by
  induction h with
  | start => exact ⟨_, keeps_fresh t, .start t⟩
  | @call log s s' c a h hc hcall ih =>
    obtain ⟨u, hkeeps, hrecords⟩ := ih
    cases c with
    | analyse n =>
      rcases hkeeps.analyse?_cases n with ⟨-, hs, -⟩ | ⟨s₁, hs, -, hkeeps'⟩
      · rw [call?, hs] at hcall
        cases hcall
      · rw [call?, hs] at hcall
        cases hcall
        exact ⟨_, hkeeps', hrecords.drop rfl rfl rfl⟩
    | factor M =>
      cases hkeeps.factorOutcome hc with
      | noRoom hsquare hdim hlacks hs hu =>
        -- a call without an answer is not in the log
        rw [call?, hs] at hcall
        cases hcall
      | rejected e he hwhy hs hu =>
        rw [call?, hs] at hcall
        cases hcall
        refine ⟨u, hkeeps, hrecords.keep ?_ rfl ?_⟩
        · simp [LdlEntry.decisive, he]
        · simp [LdlEntry.settle, he]
      | singular j v s₁ hsquare hdim hF hs hu hkeeps' =>
        rw [call?, hs] at hcall
        cases hcall
        exact ⟨_, hkeeps', hrecords.drop rfl rfl (or_settledSize hrecords hdim)⟩
      | factored F s₁ hsquare hdim hF hs hu hkeeps' =>
        rw [call?, hs] at hcall
        cases hcall
        exact ⟨_, hkeeps', hrecords.factor hc hsquare hF (or_settledSize hrecords hdim)⟩
    | solve b =>
      rw [call?, hkeeps.solve?_eq] at hcall
      cases hcall
      exact ⟨u, hkeeps, hrecords.keep rfl rfl rfl⟩

/-- What the log of the calls says about the calls that may come next. -/
structure Answers (t : α) (log : List (LdlEntry α)) (s : LdlStorage α) : Prop where
  /-- A solve succeeds after a factorization, for a right-hand side as long as its matrix. -/
  solve : ∀ b, ∃ r x, s.solve? b = some (r, x) ∧
    (r = .ok () ↔ ∃ M, lastDecisive log = some (.factor M, .factored (.ok ())) ∧
      b.length = M.nrows)
  /-- The solution is that of a new solver that has factored this one matrix. -/
  solution : ∀ M b, lastDecisive log = some (.factor M, .factored (.ok ())) →
    b.length = M.nrows → ∃ s₁ x,
      ({ tolerance := t } : LdlStorage α).factor? M = some (.ok (), s₁) ∧
      s₁.solve? b = some (.ok (), x) ∧ s.solve? b = some (.ok (), x)
  /-- A solve that fails leaves the right-hand side alone. -/
  failure : ∀ b e x, s.solve? b = some (.error e, x) → x = b
  /-- After an analysis or a singular pivot there are no factors until there are new ones. -/
  notFactored : ∀ earlier e later, log = earlier ++ e :: later →
    ((∃ n a, e = (.analyse n, a)) ∨
      ∃ M j v, e = (.factor M, .factored (.error (.singular j v)))) →
    (∀ e' ∈ later, LdlEntry.succeeded e' = false) →
      ∀ b, s.solve? b = some (.error .notFactored, b)
  /-- A matrix that is not square or has another size changes nothing. -/
  rejected : ∀ M e s', M.Consistent → s.factor? M = some (.error e, s') → e.rejects = true → s' = s
  factorizations : s.factorizations = log.countP LdlEntry.succeeded
  /-- Once a size is settled, matrices of this size are accepted and no others. -/
  settled : ∀ n, settledSize log = some n → ∀ M, M.Consistent → ∃ r s', s.factor? M = some (r, s') ∧
    ((∃ e, r = .error e ∧ e.rejects = true) ↔ ¬(M.nrows = n ∧ M.ncols = n))
  /-- Until then all square matrices are, unless there is no room for one. -/
  unsettled : settledSize log = none → ∀ M, M.Consistent →
    (M.nrows = M.ncols ∧ ¬Matrix.Room α M.nrows M.nrows ∧ s.factor? M = none) ∨
    ∃ r s', s.factor? M = some (r, s') ∧
      ((∃ e, r = .error e ∧ e.rejects = true) ↔ M.nrows ≠ M.ncols)

section Keeps

theorem Keeps.solve_notFactored (h : Keeps s u) (hstage : ∀ n F, u.stage ≠ .factored n F)
    (b : List α) : s.solve? b = some (.error .notFactored, b) := by
  rw [h.solve?_eq, LdlSolver.solve]
  cases hu : u.stage with
  | fresh => rfl
  | analysed n => rfl
  | factored n F => exact absurd hu (hstage n F)

theorem Keeps.solve_factored (h : Keeps s u) {n : ℕ} {F : Ldl.Factors α}
    (hstage : u.stage = .factored n F) {b : List α} (hb : b.length = n) :
    s.solve? b = some (.ok (), F.solve b) := by
  rw [h.solve?_eq, LdlSolver.solve, hstage]
  dsimp only
  rw [if_neg (not_not.mpr hb)]

theorem Keeps.solve?_ok_iff (h : Keeps s u) (b : List α) :
    ∃ r x, s.solve? b = some (r, x) ∧ (r = .ok () ↔ ∃ F, u.stage = .factored b.length F) := by
  by_cases hstage : ∃ n F, u.stage = .factored n F
  · obtain ⟨n, F, hF⟩ := hstage
    by_cases hb : b.length = n
    · exact ⟨_, _, h.solve_factored hF hb, iff_of_true rfl ⟨F, hb ▸ hF⟩⟩
    · have hsolve := h.solve?_eq b
      rw [LdlSolver.solve, hF] at hsolve
      dsimp only at hsolve
      rw [if_pos hb] at hsolve
      refine ⟨_, _, hsolve, iff_of_false ?_ ?_⟩
      · intro hr
        cases hr
      · rintro ⟨F', hF'⟩
        rw [hF] at hF'
        cases hF'
        exact hb rfl
  · have hnone : ∀ n F, u.stage ≠ .factored n F := fun n F hF => hstage ⟨n, F, hF⟩
    refine ⟨_, _, h.solve_notFactored hnone b, iff_of_false ?_ ?_⟩
    · intro hr
      cases hr
    · rintro ⟨F, hF⟩
      exact hnone _ F hF

theorem Keeps.eq_of_solve?_error (h : Keeps s u) {b x : List α} {e : LdlError α}
    (hsolve : s.solve? b = some (.error e, x)) : x = b := by
  rw [h.solve?_eq] at hsolve
  split at hsolve
  · cases hsolve
  · cases hsolve
    rfl

theorem Keeps.room_of_factored (h : Keeps s u) {n : ℕ} {F : Ldl.Factors α}
    (hu : u.stage = .factored n F) : Matrix.Room α n n := by
  have hdim : u.dimension? = some n := by rw [LdlSolver.dimension?, hu]
  exact (h.room hdim).2.stored

theorem exists_fresh_solve (hM : M.Consistent) (hsquare : M.nrows = M.ncols)
    (hroom : Matrix.Room α M.nrows M.nrows) {F : Ldl.Factors α} (hF : Ldl.factor M t = .ok F)
    {b : List α} (hb : b.length = M.nrows) :
    ∃ s₁, ({ tolerance := t } : LdlStorage α).factor? M = some (.ok (), s₁) ∧
      s₁.solve? b = some (.ok (), F.solve b) := by
  cases (keeps_fresh t).factorOutcome hM with
  | noRoom _ _ hlacks _ _ => exact absurd hroom hlacks
  | rejected e he hwhy _ _ =>
    rcases hwhy with hnot | ⟨n, hn, -⟩
    · exact absurd hsquare hnot
    · cases hn
  | singular j v s' _ _ hF' _ _ _ =>
    rw [hF] at hF'
    cases hF'
  | factored F' s' _ _ hF' hs _ hkeeps =>
    rw [hF] at hF'
    cases hF'
    exact ⟨s', hs, hkeeps.solve_factored rfl hb⟩

theorem Keeps.eq_of_rejects (h : Keeps s u) (hM : M.Consistent) {e : LdlError α}
    (hs : s.factor? M = some (.error e, s')) (he : e.rejects = true) : s' = s := by
  cases h.factorOutcome hM with
  | noRoom _ _ _ hs₁ _ =>
    rw [hs] at hs₁
    cases hs₁
  | rejected e₁ _ _ hs₁ _ =>
    rw [hs] at hs₁
    cases hs₁
    rfl
  | singular j v s₁ _ _ _ hs₁ _ _ =>
    rw [hs] at hs₁
    cases hs₁
    cases he
  | factored F s₁ _ _ _ hs₁ _ _ =>
    rw [hs] at hs₁
    cases hs₁

theorem Keeps.factor?_rejects_iff (h : Keeps s u) (hM : M.Consistent) :
    (M.nrows = M.ncols ∧ u.dimension? = none ∧ ¬Matrix.Room α M.nrows M.nrows ∧ s.factor? M = none) ∨
    ∃ r s', s.factor? M = some (r, s') ∧ ((∃ e, r = .error e ∧ e.rejects = true) ↔
      M.nrows ≠ M.ncols ∨ ∃ n, u.dimension? = some n ∧ M.nrows ≠ n) := by
  have hsized : M.nrows = M.ncols → (∀ n, u.dimension? = some n → M.nrows = n) →
      ¬(M.nrows ≠ M.ncols ∨ ∃ n, u.dimension? = some n ∧ M.nrows ≠ n) := by
    rintro hsquare hdim (hnot | ⟨n, hn, hne⟩)
    · exact hnot hsquare
    · exact hne (hdim n hn)
  cases h.factorOutcome hM with
  | noRoom hsquare hdim hlacks hs hu => exact Or.inl ⟨hsquare, hdim, hlacks, hs⟩
  | rejected e he hwhy hs hu => exact Or.inr ⟨_, _, hs, iff_of_true ⟨e, rfl, he⟩ hwhy⟩
  | singular j v s' hsquare hdim hF hs hu hkeeps =>
    refine Or.inr ⟨_, _, hs, iff_of_false ?_ (hsized hsquare hdim)⟩
    rintro ⟨e, he, hrejects⟩
    cases he
    cases hrejects
  | factored F s' hsquare hdim hF hs hu hkeeps =>
    refine Or.inr ⟨_, _, hs, iff_of_false ?_ (hsized hsquare hdim)⟩
    rintro ⟨e, he, -⟩
    cases he

theorem Keeps.rejects_iff_of_size (h : Keeps s u) (hM : M.Consistent) {n : ℕ}
    (hn : u.dimension? = some n) : ∃ r s', s.factor? M = some (r, s') ∧
      ((∃ e, r = .error e ∧ e.rejects = true) ↔ ¬(M.nrows = n ∧ M.ncols = n)) := by
  rcases h.factor?_rejects_iff hM with ⟨-, hnone, -⟩ | ⟨r, s', hs, hiff⟩
  · rw [hn] at hnone
    cases hnone
  · refine ⟨r, s', hs, hiff.trans ?_⟩
    simp only [hn, Option.some.injEq, exists_eq_left']
    omega

theorem Keeps.rejects_iff_of_unsized (h : Keeps s u) (hM : M.Consistent)
    (hnone : u.dimension? = none) :
    (M.nrows = M.ncols ∧ ¬Matrix.Room α M.nrows M.nrows ∧ s.factor? M = none) ∨
    ∃ r s', s.factor? M = some (r, s') ∧
      ((∃ e, r = .error e ∧ e.rejects = true) ↔ M.nrows ≠ M.ncols) := by
  rcases h.factor?_rejects_iff hM with ⟨hsquare, -, hlacks, hs⟩ | ⟨r, s', hs, hiff⟩
  · exact Or.inl ⟨hsquare, hlacks, hs⟩
  · refine Or.inr ⟨r, s', hs, hiff.trans ?_⟩
    simp [hnone]

end Keeps

/-- **What the calls answer** depends on what the log says, whatever the calls were, and on nothing
that an earlier matrix has left in the storage. -/
theorem calls_answers (h : LdlLog LdlStorage.call? { tolerance := t } log s) :
    Answers t log s := by
  obtain ⟨u, hkeeps, hrecords⟩ := exists_records h
  exact
    { solve := by
        intro b
        obtain ⟨r, x, hsolve, hiff⟩ := hkeeps.solve?_ok_iff b
        exact ⟨r, x, hsolve, hiff.trans hrecords.exists_stage_iff⟩
      solution := by
        intro M b hlast hb
        obtain ⟨hM, hsquare, F, hF, hstage⟩ := hrecords.factored M hlast
        obtain ⟨s₁, hs₁, hsolve⟩ :=
          exists_fresh_solve hM hsquare (hkeeps.room_of_factored hstage) hF hb
        exact ⟨s₁, _, hs₁, hsolve, hkeeps.solve_factored hstage hb⟩
      failure := fun b e x hsolve => hkeeps.eq_of_solve?_error hsolve
      notFactored := by
        rintro earlier e later rfl hdrops hlater b
        have he : LdlEntry.decisive e = true ∧ LdlEntry.succeeded e = false := by
          rcases hdrops with ⟨n, a, rfl⟩ | ⟨M, j, v, rfl⟩
          · exact ⟨rfl, rfl⟩
          · exact ⟨rfl, rfl⟩
        refine hkeeps.solve_notFactored (hrecords.unfactored fun M hM => ?_) b
        have hlast := succeeded_lastDecisive he.1 he.2 hlater hM
        cases hlast
      rejected := fun M e s' hM hs he => hkeeps.eq_of_rejects hM hs he
      factorizations := hkeeps.factorizations.trans hrecords.factorizations
      settled := fun n hn M hM => hkeeps.rejects_iff_of_size hM (hrecords.size.trans hn)
      unsettled := fun hnone M hM =>
        hkeeps.rejects_iff_of_unsized hM (hrecords.size.trans hnone) }

section Example

deriving instance DecidableEq for Except
deriving instance DecidableEq for LdlAnswer

/-- The storage after the factorization of `[2 1; 1 2]`. -/
def written : LdlStorage ℚ where
  tolerance := 0
  lower := ⟨2, 2, [1, 0, 1 / 2, 1]⟩
  diagonal := [2, 3 / 2]
  analysed := true
  factored := true
  factorizations := 1

/-- After that of `[1 2; 2 4]`, which is singular, a pivot of the first matrix is left. -/
def halfWritten : LdlStorage ℚ := { written with
  lower := ⟨2, 2, [1, 0, 2, 1]⟩
  diagonal := [1, 3 / 2]
  factored := false }

/-- After that of `[1 3; 3 10]`. -/
def rewritten : LdlStorage ℚ := { written with
  lower := ⟨2, 2, [1, 0, 3, 1]⟩
  diagonal := [1, 1]
  factorizations := 2 }

theorem halfWritten_log : LdlLog LdlStorage.call? ({ tolerance := 0 } : LdlStorage ℚ)
    ([] ++ [(.factor ⟨2, 2, [2, 1, 1, 2]⟩, .factored (.ok ()))] ++
      [(.factor ⟨2, 2, [1, 2, 2, 4]⟩, .factored (.error (.singular 1 0)))]) halfWritten := by
  have hfirst : call? ({ tolerance := 0 } : LdlStorage ℚ) (.factor ⟨2, 2, [2, 1, 1, 2]⟩) =
      some (.factored (.ok ()), written) := by decide +kernel
  have hsecond : call? written (.factor ⟨2, 2, [1, 2, 2, 4]⟩) =
      some (.factored (.error (.singular 1 0)), halfWritten) := by decide +kernel
  exact (LdlLog.start.call (by rfl) hfirst).call (by rfl) hsecond

/-- The factors that broke off do not show, and neither do those before them. -/
theorem rewritten_answers :
    (∀ b, halfWritten.solve? b = some (.error .notFactored, b)) ∧
      ∃ s₁ x, ({ tolerance := 0 } : LdlStorage ℚ).factor? ⟨2, 2, [1, 3, 3, 10]⟩ =
          some (.ok (), s₁) ∧
        s₁.solve? [4, 13] = some (.ok (), x) ∧ rewritten.solve? [4, 13] = some (.ok (), x) := by
  have hthird : call? halfWritten (.factor ⟨2, 2, [1, 3, 3, 10]⟩) =
      some (.factored (.ok ()), rewritten) := by decide +kernel
  constructor
  · exact (calls_answers halfWritten_log).notFactored _ _ [] rfl (Or.inr ⟨_, _, _, rfl⟩) nofun
  · have hlog := halfWritten_log.call (by rfl) hthird
    exact (calls_answers hlog).solution _ _ rfl rfl

end Example

end LdlStorage

end LinProg
