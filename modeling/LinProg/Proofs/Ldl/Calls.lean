import LinProg.Proofs.Ldl.InPlace

/-!
# Calls of a solver

A solver takes calls in any order, and each of its answers could depend on all calls before. It
does not: `LdlStorage.Keeps s u` says that the storage `s` holds what the solver `u`, which has no
storage, keeps, and every call leaves it so with one answer for both (`Keeps.call?_cases`). So both
give the same answers to any calls (`exists_log_iff`), and what is left in the storage by a matrix
before, or by a factorization that broke off, never shows.
-/

namespace LinProg

inductive LdlCall (α : Type) where
  | analyse (n : ℕ)
  | factor (M : Matrix α)
  | solve (rhs : List α)

/-- What a call gives. A solve leaves something in the place of the right-hand side. -/
inductive LdlAnswer (α : Type) where
  | analysed
  | factored (result : Except (LdlError α) Unit)
  | solved (result : Except (LdlError α) Unit) (rhs : List α)

abbrev LdlEntry (α : Type) := LdlCall α × LdlAnswer α

variable {α : Type}

/-- The matrix of a call has as many entries as its sizes say. -/
def LdlCall.Consistent : LdlCall α → Prop
  | .factor M => M.Consistent
  | _ => True

/-- The states that calls lead to, with the calls and their answers. -/
inductive LdlLog {σ : Type} (call? : σ → LdlCall α → Option (LdlAnswer α × σ)) (first : σ) :
    List (LdlEntry α) → σ → Prop where
  | start : LdlLog call? first [] first
  | call {log : List (LdlEntry α)} {s s' : σ} {c : LdlCall α} {a : LdlAnswer α}
      (h : LdlLog call? first log s) (hc : c.Consistent) (hcall : call? s c = some (a, s')) :
      LdlLog call? first (log ++ [(c, a)]) s'

theorem LdlLog.simulate {σ τ : Type} {call? : σ → LdlCall α → Option (LdlAnswer α × σ)}
    {call?' : τ → LdlCall α → Option (LdlAnswer α × τ)} {first s : σ} {first' : τ}
    {K : σ → τ → Prop} {log : List (LdlEntry α)} (h : LdlLog call? first log s)
    (hfirst : K first first')
    (hcall : ∀ s u c a s', K s u → c.Consistent → call? s c = some (a, s') →
      ∃ u', call?' u c = some (a, u') ∧ K s' u') :
    ∃ u, LdlLog call?' first' log u ∧ K s u := by
  induction h with
  | start => exact ⟨first', .start, hfirst⟩
  | call h hc hs ih =>
    obtain ⟨u, hu, hK⟩ := ih
    obtain ⟨u', hu', hK'⟩ := hcall _ _ _ _ _ hK hc hs
    exact ⟨u', hu.call hc hu', hK'⟩

variable [Scalar α]

def LdlStorage.call? (s : LdlStorage α) : LdlCall α → Option (LdlAnswer α × LdlStorage α)
  | .analyse n => (s.analyse? n).map fun s => (.analysed, s)
  | .factor M => (s.factor? M).map fun p => (.factored p.1, p.2)
  | .solve b => (s.solve? b).map fun p => (.solved p.1 p.2, s)

def LdlSolver.call? (u : LdlSolver α) : LdlCall α → Option (LdlAnswer α × LdlSolver α)
  | .analyse n => (u.analyse? n).map fun u => (.analysed, u)
  | .factor M => (u.factor? M).map fun p => (.factored p.1, p.2)
  | .solve b =>
    match u.solve b with
    | .ok x => some (.solved (.ok ()) x, u)
    | .error e => some (.solved (.error e) b, u)

namespace LdlStorage

section Keeps

/-- The storage holds the factors of size `n`. -/
def HoldsFactors (s : LdlStorage α) (n : ℕ) (F : Ldl.Factors α) : Prop :=
  ∃ R, F.lower = (List.range n).map R ∧ (∀ i < n, (R i).length = i) ∧ F.diagonal.length = n ∧
    Ldl.Holds n s.lower s.diagonal R F.diagonal

/-- The storage and its flags hold what a solver has been given. -/
def HoldsStage (s : LdlStorage α) : LdlStage α → Prop
  | .fresh => s.analysed = false ∧ s.factored = false
  | .analysed n => s.analysed = true ∧ s.factored = false ∧ Ldl.Room n s.lower s.diagonal
  | .factored n F => s.analysed = true ∧ s.factored = true ∧ s.HoldsFactors n F

/-- The storage `s` is that of the solver `u`. -/
structure Keeps (s : LdlStorage α) (u : LdlSolver α) : Prop where
  tolerance : s.tolerance = u.tolerance
  factorizations : s.factorizations = u.factorizations
  stage : s.HoldsStage u.stage

theorem keeps_fresh (t : α) : Keeps { tolerance := t } ({ tolerance := t } : LdlSolver α) :=
  ⟨rfl, rfl, rfl, rfl⟩

variable {s : LdlStorage α} {u : LdlSolver α} {n : ℕ}

theorem Keeps.analysed_eq_false (h : Keeps s u) (hu : u.dimension? = none) :
    s.analysed = false := by
  have hstage := h.stage
  rw [LdlSolver.dimension?] at hu
  split at hu
  · rename_i hfresh
    rw [hfresh] at hstage
    exact hstage.1
  · cases hu
  · cases hu

theorem Keeps.room (h : Keeps s u) (hu : u.dimension? = some n) :
    s.analysed = true ∧ Ldl.Room n s.lower s.diagonal := by
  have hstage := h.stage
  rw [LdlSolver.dimension?] at hu
  split at hu
  · cases hu
  · rename_i m hanalysed
    cases hu
    rw [hanalysed] at hstage
    exact ⟨hstage.1, hstage.2.2⟩
  · rename_i m F hfactored
    cases hu
    rw [hfactored] at hstage
    obtain ⟨hs, -, R, -, -, -, hholds⟩ := hstage
    exact ⟨hs, hholds.room⟩

end Keeps

variable {s : LdlStorage α} {u : LdlSolver α} {M : Matrix α} {n : ℕ}

namespace Keeps

theorem analyse?_cases (h : Keeps s u) (n : ℕ) :
    (¬Matrix.Room α n n ∧ s.analyse? n = none ∧ u.analyse? n = none) ∨
      ∃ s', s.analyse? n = some s' ∧ u.analyse? n = some (u.resized n) ∧
        Keeps s' (u.resized n) := by
  by_cases hroom : Matrix.Room α n n
  · right
    have hn : n ≤ n * n := Nat.le_mul_self n
    have hzeros : Matrix.zeros? n n = some (⟨n, n, List.replicate (n * n) (0 : α)⟩) := by
      rw [Matrix.zeros?, Matrix.room?_eq hroom]
      rfl
    have hdiagonal : Vec.constant? n (0 : α) = some (List.replicate n 0) := by
      rw [Vec.constant?, Scalar.entries?_eq (hroom.2.mono hn)]
      rfl
    let s' : LdlStorage α := { s with
      lower := ⟨n, n, List.replicate (n * n) 0⟩
      diagonal := List.replicate n 0
      analysed := true
      factored := false }
    refine ⟨s', ?_, ?_, h.tolerance, h.factorizations, rfl, rfl, ?_⟩
    · rw [analyse?, hzeros, hdiagonal]
      rfl
    · rw [LdlSolver.analyse?, Matrix.room?_eq hroom]
      rfl
    · exact ⟨rfl, rfl, List.length_replicate, List.length_replicate, hroom⟩
  · left
    refine ⟨hroom, ?_, ?_⟩
    · rw [analyse?, Matrix.zeros?, Matrix.room?_eq_none hroom]
      rfl
    · rw [LdlSolver.analyse?, Matrix.room?_eq_none hroom]
      rfl

theorem overwrite?_cases (h : Keeps s u) (hu : u.dimension? = some n) (hrows : M.nrows = n)
    (hcols : M.ncols = n) (hM : M.Consistent) :
    (∃ F s', Ldl.factor M u.tolerance = .ok F ∧ s.overwrite? M = some (.ok (), s') ∧
      Keeps s' { u with stage := .factored n F, factorizations := u.factorizations + 1 }) ∨
    ∃ j v s', Ldl.factor M u.tolerance = .error (.singular j v) ∧
      s.overwrite? M = some (.error (.singular j v), s') ∧ Keeps s' (u.resized n) := by
  obtain ⟨hanalysed, hroom⟩ := h.room hu
  obtain ⟨L, hreset, hL⟩ := hroom.exists_reset?
  have hfit : M.nrows * M.ncols < 2 ^ 64 := by
    rw [hrows, hcols]
    exact hroom.stored.1
  have hget : ∀ i < n, ∀ k < n,
      M.get? i k = some (entryAt (Matrix.pieces M.ncols M.nrows M.data) i k) :=
    fun i hi k hk => hM.hasRows.get?_eq hfit (hrows ▸ hi) (hcols ▸ hk)
  have hdimension : s.dimension = n := hroom.nrows
  rcases hL.sweep?_cases u.tolerance hrows hget with
    ⟨R, e, L', d, hstage, hholds, hfactor, hsweep⟩ | ⟨j, v, L', d, hroom', hfactor, hsweep⟩
  · left
    let s' : LdlStorage α := { s with
      lower := L'
      diagonal := d
      factored := true
      factorizations := s.factorizations + 1 }
    refine ⟨_, s', hfactor, ?_, h.tolerance, congrArg (· + 1) h.factorizations, hanalysed, rfl,
      R, rfl, fun i hi => ?_, hstage.length_diagonal, hholds⟩
    · rw [← h.tolerance] at hsweep
      rw [overwrite?, hdimension, hreset, Option.bind_eq_bind, Option.bind_some, hsweep]
      rfl
    · rw [hstage.length_row i hi, Nat.min_eq_left hi.le]
  · right
    let s' : LdlStorage α := { s with lower := L', diagonal := d, factored := false }
    refine ⟨j, v, s', hfactor, ?_, h.tolerance, h.factorizations, hanalysed, rfl, hroom'⟩
    rw [← h.tolerance] at hsweep
    rw [overwrite?, hdimension, hreset, Option.bind_eq_bind, Option.bind_some, hsweep]
    rfl

end Keeps

end LdlStorage

/-- A refusal before anything has been written. -/
def LdlError.rejects {α : Type} : LdlError α → Bool
  | .notSquare .. => true
  | .dimensionMismatch .. => true
  | _ => false

theorem LdlSolver.factor?_of_size {u u' : LdlSolver α} {M : Matrix α} (hsquare : M.nrows = M.ncols)
    (hu : u.ensureAnalysed? M.nrows = some (u', M.nrows)) : u.factor? M =
      match Ldl.factor M u'.tolerance with
      | .ok F => some (.ok (), { u' with
          stage := .factored M.nrows F
          factorizations := u'.factorizations + 1 })
      | .error e => some (.error e, u'.resized M.nrows)
      | .fault => none := by
  rw [factor?, if_neg (not_not.mpr hsquare), hu, Option.bind_eq_bind, Option.bind_some]
  exact if_neg (not_not.mpr rfl)

namespace LdlStorage

/-- What a factorization comes to, with the storage and without. -/
inductive FactorOutcome (s : LdlStorage α) (u : LdlSolver α) (M : Matrix α) : Prop where
  /-- There is no room for a first matrix of its size. -/
  | noRoom (hsquare : M.nrows = M.ncols) (hdim : u.dimension? = none)
      (hlacks : ¬Matrix.Room α M.nrows M.nrows) (hs : s.factor? M = none) (hu : u.factor? M = none)
  /-- It is refused, and nothing changes. -/
  | rejected (e : LdlError α) (he : e.rejects = true)
      (hwhy : M.nrows ≠ M.ncols ∨ ∃ n, u.dimension? = some n ∧ M.nrows ≠ n)
      (hs : s.factor? M = some (.error e, s)) (hu : u.factor? M = some (.error e, u))
  /-- A pivot is singular, and there are no factors. -/
  | singular (j : ℕ) (v : α) (s' : LdlStorage α) (hsquare : M.nrows = M.ncols)
      (hdim : ∀ n, u.dimension? = some n → M.nrows = n)
      (hF : Ldl.factor M u.tolerance = .error (.singular j v))
      (hs : s.factor? M = some (.error (.singular j v), s'))
      (hu : u.factor? M = some (.error (.singular j v), u.resized M.nrows))
      (hkeeps : Keeps s' (u.resized M.nrows))
  /-- The factors are those of the matrix. -/
  | factored (F : Ldl.Factors α) (s' : LdlStorage α) (hsquare : M.nrows = M.ncols)
      (hdim : ∀ n, u.dimension? = some n → M.nrows = n)
      (hF : Ldl.factor M u.tolerance = .ok F) (hs : s.factor? M = some (.ok (), s'))
      (hu : u.factor? M = some (.ok (), { u with
        stage := .factored M.nrows F
        factorizations := u.factorizations + 1 }))
      (hkeeps : Keeps s' { u with
        stage := .factored M.nrows F
        factorizations := u.factorizations + 1 })

variable {s s₁ : LdlStorage α} {u u₁ : LdlSolver α} {M : Matrix α} {n : ℕ}

theorem Keeps.factorOutcome_of_size (h : Keeps s₁ u₁) (hsquare : M.nrows = M.ncols)
    (hM : M.Consistent) (hs : s.ensureAnalysed? M.nrows = some s₁)
    (hu : u.ensureAnalysed? M.nrows = some (u₁, M.nrows))
    (hdim : ∀ n, u.dimension? = some n → M.nrows = n) (hdim₁ : u₁.dimension? = some M.nrows)
    (hu₁ : u₁ = u ∨ u₁ = u.resized M.nrows) : FactorOutcome s u M := by
  have hresized : u₁.resized M.nrows = u.resized M.nrows := by rcases hu₁ with rfl | rfl <;> rfl
  have htol : u₁.tolerance = u.tolerance := by rcases hu₁ with rfl | rfl <;> rfl
  have hnew : ∀ F, ({ u₁ with
      stage := .factored M.nrows F
      factorizations := u₁.factorizations + 1 } : LdlSolver α) = { u with
      stage := .factored M.nrows F
      factorizations := u.factorizations + 1 } := by
    intro F
    rcases hu₁ with rfl | rfl <;> rfl
  have hroom := (h.room hdim₁).2
  have hwrite : s.factor? M = s₁.overwrite? M := by
    rw [factor?, if_neg (not_not.mpr hsquare), hs, Option.bind_eq_bind, Option.bind_some]
    exact if_neg (not_not.mpr hroom.nrows.symm)
  rcases h.overwrite?_cases hdim₁ rfl hsquare.symm hM with
    ⟨F, s', hF, hs', hkeeps⟩ | ⟨j, v, s', hF, hs', hkeeps⟩
  · rw [hnew] at hkeeps
    refine .factored F s' hsquare hdim (htol ▸ hF) (hwrite.trans hs') ?_ hkeeps
    rw [LdlSolver.factor?_of_size hsquare hu, hF, ← hnew]
  · rw [hresized] at hkeeps
    refine .singular j v s' hsquare hdim (htol ▸ hF) (hwrite.trans hs') ?_ hkeeps
    rw [LdlSolver.factor?_of_size hsquare hu, hF, ← hresized]

theorem Keeps.factorOutcome (h : Keeps s u) (hM : M.Consistent) : FactorOutcome s u M := by
  by_cases hsquare : M.nrows = M.ncols
  · rcases hu : u.dimension? with _ | n
    · have hanalyse : s.ensureAnalysed? M.nrows = s.analyse? M.nrows := by
        rw [ensureAnalysed?, h.analysed_eq_false hu]
        rfl
      have hanalyse' : u.ensureAnalysed? M.nrows =
          (u.analyse? M.nrows).map fun u => (u, M.nrows) := by
        rw [LdlSolver.ensureAnalysed?, hu]
      rcases h.analyse?_cases M.nrows with ⟨hlacks, hs, hu'⟩ | ⟨s₁, hs, hu', hkeeps⟩
      · refine .noRoom hsquare hu hlacks ?_ ?_
        · rw [factor?, if_neg (not_not.mpr hsquare), hanalyse, hs]
          rfl
        · rw [LdlSolver.factor?, if_neg (not_not.mpr hsquare), hanalyse', hu']
          rfl
      · rw [hs] at hanalyse
        rw [hu'] at hanalyse'
        refine hkeeps.factorOutcome_of_size hsquare hM hanalyse hanalyse' ?_ rfl (Or.inr rfl)
        intro n hn
        rw [hu] at hn
        cases hn
    · obtain ⟨hanalysed, hroom⟩ := h.room hu
      have hanalyse : s.ensureAnalysed? M.nrows = some s := by
        rw [ensureAnalysed?, hanalysed]
        rfl
      have hanalyse' : u.ensureAnalysed? M.nrows = some (u, n) := by
        rw [LdlSolver.ensureAnalysed?, hu]
      by_cases hn : M.nrows = n
      · subst hn
        refine h.factorOutcome_of_size hsquare hM hanalyse hanalyse' ?_ hu (Or.inl rfl)
        intro n hn
        rw [hu, Option.some.injEq] at hn
        exact hn
      · have hdimension : s.dimension = n := hroom.nrows
        refine .rejected (.dimensionMismatch n M.nrows) rfl (Or.inr ⟨n, hu, hn⟩) ?_ ?_
        · rw [factor?, if_neg (not_not.mpr hsquare), hanalyse, Option.bind_eq_bind,
            Option.bind_some, hdimension]
          exact if_pos hn
        · rw [LdlSolver.factor?, if_neg (not_not.mpr hsquare), hanalyse', Option.bind_eq_bind,
            Option.bind_some]
          exact if_pos hn
  · exact .rejected (.notSquare M.nrows M.ncols) rfl (Or.inl hsquare) (if_pos hsquare)
      (if_pos hsquare)

theorem Keeps.diagonal_eq (h : Keeps s u) {F : Ldl.Factors α} (hu : u.stage = .factored n F) :
    s.diagonal = F.diagonal := by
  have hstage := h.stage
  rw [hu] at hstage
  obtain ⟨-, -, R, -, -, hlen, hholds⟩ := hstage
  refine List.ext_getElem? fun k => ?_
  rcases Nat.lt_or_ge k n with hk | hk
  · exact hholds.pivots k (hlen.symm ▸ hk)
  · rw [List.getElem?_eq_none (hholds.room.length_diagonal.le.trans hk),
      List.getElem?_eq_none (hlen.le.trans hk)]

theorem Keeps.factor?_cases (h : Keeps s u) (hM : M.Consistent) (hrows : M.nrows = n)
    (hcols : M.ncols = n) (hsize : u.dimension? = none ∨ u.dimension? = some n) :
    (u.dimension? = none ∧ ¬Matrix.Room α n n ∧ s.factor? M = none) ∨
    Matrix.Room α n n ∧ ∃ S : ℕ → ℕ → α, (∀ i < n, ∀ k < n, M.get? i k = some (S i k)) ∧
      ((∃ R d s', Ldl.Stage S n n R d ∧ Ldl.Regular S u.tolerance n d ∧
        s.factor? M = some (.ok (), s') ∧ s'.diagonal = d) ∨
      ∃ i R d s', i < n ∧ Ldl.Stage S n i R d ∧ Ldl.Regular S u.tolerance i d ∧
        ¬Scalar.abs (Ldl.nextPivot S R d i) > u.tolerance * Scalar.abs (S i i) ∧
        s.factor? M = some (.error (.singular i (Scalar.abs (Ldl.nextPivot S R d i))), s')) := by
  have hget : Matrix.Room α n n → ∀ i < n, ∀ k < n, M.get? i k =
      some (entryAt (Matrix.pieces M.ncols M.nrows M.data) i k) := fun hroom i hi k hk =>
    hM.hasRows.get?_eq (by rw [hrows, hcols]; exact hroom.1) (hrows.symm ▸ hi) (hcols.symm ▸ hk)
  cases h.factorOutcome hM with
  | noRoom hsquare hdim hlacks hs _ =>
    rw [hrows] at hlacks
    exact Or.inl ⟨hdim, hlacks, hs⟩
  | rejected e he hwhy hs _ =>
    exfalso
    rcases hwhy with hsquare | ⟨n', hn', hne⟩
    · exact hsquare (hrows.trans hcols.symm)
    · rcases hsize with hnone | hsome
      · rw [hnone] at hn'
        cases hn'
      · rw [hsome, Option.some.injEq] at hn'
        exact hne (hrows.trans hn')
  | singular j v s' hsquare hdim hF hs _ hkeeps =>
    have hroom := (hkeeps.room rfl).2.stored
    rw [hrows] at hroom
    refine Or.inr ⟨hroom, _, hget hroom, Or.inr ?_⟩
    rcases Ldl.Stage.factor_cases u.tolerance hrows (hget hroom) with
      ⟨R, d, -, -, hF'⟩ | ⟨i, R, d, hi, hstage, hregular, hsingular, hF'⟩
    · rw [hF] at hF'
      cases hF'
    · rw [hF] at hF'
      cases hF'
      exact ⟨j, R, d, s', hi, hstage, hregular, hsingular, hs⟩
  | factored F s' hsquare hdim hF hs _ hkeeps =>
    have hroom := (hkeeps.room rfl).2.stored
    rw [hrows] at hroom
    refine Or.inr ⟨hroom, _, hget hroom, Or.inl ?_⟩
    rcases Ldl.Stage.factor_cases u.tolerance hrows (hget hroom) with
      ⟨R, d, hstage, hregular, hF'⟩ | ⟨i, R, d, -, -, -, -, hF'⟩
    · rw [hF] at hF'
      cases hF'
      exact ⟨R, d, s', hstage, hregular, hs, hkeeps.diagonal_eq rfl⟩
    · rw [hF] at hF'
      cases hF'

theorem Keeps.solve?_eq (h : Keeps s u) (b : List α) : s.solve? b =
    some (match u.solve b with
      | .ok x => (.ok (), x)
      | .error e => (.error e, b)) := by
  have hstage := h.stage
  rw [LdlSolver.solve]
  rcases hu : u.stage with _ | n | ⟨n, F⟩
  · rw [hu] at hstage
    rw [solve?, hstage.2]
    rfl
  · rw [hu] at hstage
    rw [solve?, hstage.2.1]
    rfl
  · rw [hu] at hstage
    obtain ⟨-, hfactored, R, hlower, hR, he, hholds⟩ := hstage
    have hdimension : s.dimension = n := hholds.room.nrows
    rw [solve?, hfactored, hdimension, if_neg (by simp)]
    dsimp only
    by_cases hb : b.length = n
    · obtain ⟨y, z, hy, hz, hx⟩ := hholds.solve_inPlace hR he hb
      rw [← hlower] at hx
      rw [if_neg (not_not.mpr hb), if_neg (not_not.mpr hb), hy, Option.bind_eq_bind,
        Option.bind_some, hz, Option.bind_some, hx]
      rfl
    · rw [if_pos hb, if_pos hb]

/-- **Each call** has one answer, with the storage and without, or no room. -/
theorem Keeps.call?_cases (h : Keeps s u) {c : LdlCall α} (hc : c.Consistent) :
    (s.call? c = none ∧ u.call? c = none) ∨
      ∃ a s' u', s.call? c = some (a, s') ∧ u.call? c = some (a, u') ∧ Keeps s' u' := by
  cases c with
  | analyse n =>
    rw [call?, LdlSolver.call?]
    rcases h.analyse?_cases n with ⟨-, hs, hu⟩ | ⟨s', hs, hu, hkeeps⟩
    · left
      rw [hs, hu]
      exact ⟨rfl, rfl⟩
    · right
      rw [hs, hu]
      exact ⟨.analysed, s', _, rfl, rfl, hkeeps⟩
  | factor M =>
    rw [call?, LdlSolver.call?]
    cases h.factorOutcome hc with
    | noRoom hsquare hdim hlacks hs hu =>
      left
      rw [hs, hu]
      exact ⟨rfl, rfl⟩
    | rejected e he hwhy hs hu =>
      right
      rw [hs, hu]
      exact ⟨.factored (.error e), s, u, rfl, rfl, h⟩
    | singular j v s' hsquare hdim hF hs hu hkeeps =>
      right
      rw [hs, hu]
      exact ⟨.factored (.error (.singular j v)), s', _, rfl, rfl, hkeeps⟩
    | factored F s' hsquare hdim hF hs hu hkeeps =>
      right
      rw [hs, hu]
      exact ⟨.factored (.ok ()), s', _, rfl, rfl, hkeeps⟩
  | solve b =>
    right
    rw [call?, LdlSolver.call?, h.solve?_eq]
    cases u.solve b with
    | error e => exact ⟨.solved (.error e) b, s, u, rfl, rfl, h⟩
    | ok x => exact ⟨.solved (.ok ()) x, s, u, rfl, rfl, h⟩

/-- **All calls** have the same answers with the storage and without. -/
theorem exists_log_iff (t : α) (log : List (LdlEntry α)) :
    (∃ s, LdlLog LdlStorage.call? { tolerance := t } log s) ↔
      ∃ u, LdlLog LdlSolver.call? { tolerance := t } log u := by
  constructor
  · rintro ⟨s, h⟩
    obtain ⟨u, hu, -⟩ := h.simulate (K := Keeps) (keeps_fresh t)
      fun s u c a s' hkeeps hc hcall => by
        rcases hkeeps.call?_cases hc with ⟨hnone, -⟩ | ⟨a', s₁, u', hs', hu', hkeeps'⟩
        · rw [hcall] at hnone
          cases hnone
        · rw [hcall] at hs'
          cases hs'
          exact ⟨u', hu', hkeeps'⟩
    exact ⟨u, hu⟩
  · rintro ⟨u, h⟩
    obtain ⟨s, hs, -⟩ := h.simulate (K := fun u s => Keeps s u) (keeps_fresh t)
      fun u s c a u' hkeeps hc hcall => by
        rcases hkeeps.call?_cases hc with ⟨-, hnone⟩ | ⟨a', s', u₁, hs', hu', hkeeps'⟩
        · rw [hcall] at hnone
          cases hnone
        · rw [hcall] at hu'
          cases hu'
          exact ⟨s', hs', hkeeps'⟩
    exact ⟨s, hs⟩

end LdlStorage

end LinProg
