import LinProg.Ldl
import LinProg.Proofs.Checked.Matrices

/-!
# Systems of numbers

A factorization divides by its pivots only after each has passed the test for singularity, so none
of them is zero. What the factors of a matrix are over a field, and what the solver answers with
them, they are in checked arithmetic too (`LdlSolver.factor?_map_number`,
`LdlSolver.solve_map_number`).
-/

namespace LinProg

open Checked

namespace Ldl

section Map

variable {α β : Type} (f : α → β)

def Factors.map (F : Factors α) : Factors β := ⟨F.lower.map (List.map f), F.diagonal.map f⟩

/-- Numbered rows with their entries replaced. -/
def mapOpen (rows : List (ℕ × List α)) : List (ℕ × List β) := rows.map fun e => (e.1, e.2.map f)

theorem Factors.below_map (F : Factors α) (i : ℕ) : (F.map f).below i = (F.below i).map f := by
  rw [below, below, map, ← List.map_drop, List.filterMap_map, List.map_filterMap]
  simp only [Function.comp_def, List.getElem?_map]

end Map

variable {K : Type} [Field K] [LinearOrder K] [Exact K]

theorem reduce_map_number (m : K) (a b d : List K) :
    reduce (number m) (a.map number) (b.map number) (d.map number) = number (reduce m a b d) := by
  rw [reduce, List.zip_map, List.zip_map, List.foldl_map]
  exact List.foldl_hom number fun _ _ => rfl

theorem extend?_map_number (M : Matrix K) (column : ℕ) (pivotRow diagonal : List K) {pivot : K}
    (hpivot : pivot ≠ 0) (rows : List (ℕ × List K)) :
    extend? (M.map number) column (pivotRow.map number) (diagonal.map number) (number pivot)
        (mapOpen number rows) =
      (extend? M column pivotRow diagonal pivot rows).map (mapOpen number) := by
  induction rows with
  | nil => rfl
  | cons e rows ih =>
    obtain ⟨i, r⟩ := e
    have hcons : mapOpen number ((i, r) :: rows) = (i, r.map number) :: mapOpen number rows := rfl
    rw [hcons, extend?, extend?, Matrix.get?_map, ih]
    cases M.get? i column with
    | none => rfl
    | some m =>
      cases extend? M column pivotRow diagonal pivot rows with
      | none => rfl
      | some extended =>
        simp only [Option.map_some, Option.bind_eq_bind, Option.bind_some, reduce_map_number,
          number_div hpivot, mapOpen, List.map_cons, List.map_append, List.map_nil]

/-- No pivot is zero. -/
def Factors.Invertible (F : Factors K) : Prop := ∀ d ∈ F.diagonal, d ≠ 0

variable {M : Matrix K} {tolerance : K}

/-- What a factorization gives over the field and with checked divisions. -/
inductive SameFactors : Outcome (LdlError K) (Factors K) →
    Outcome (LdlError (Checked K)) (Factors (Checked K)) → Prop where
  | ok {F : Factors K} (hF : F.Invertible) : SameFactors (.ok F) (.ok (F.map number))
  | singular (j : ℕ) (v : K) :
    SameFactors (.error (.singular j v)) (.error (.singular j (number v)))
  | fault : SameFactors .fault .fault

variable [IsStrictOrderedRing K] in
theorem columns_map_number (htol : 0 ≤ tolerance) {bound : ℕ} {F : Factors K}
    (hF : F.Invertible) (rows : List (ℕ × List K)) :
    SameFactors (columns M tolerance bound F rows)
      (columns (M.map number) (number tolerance) bound (F.map number) (mapOpen number rows)) := by
  induction bound generalizing F rows with
  | zero => exact .ok hF
  | succ bound ih =>
    rcases rows with _ | ⟨⟨j, r⟩, rows⟩
    · exact .ok hF
    · obtain ⟨lower, diagonal⟩ := F
      have hopen : mapOpen number ((j, r) :: rows) = (j, r.map number) :: mapOpen number rows := rfl
      rw [hopen, Factors.map, columns, columns, Matrix.get?_map]
      cases M.get? j j with
      | none => exact .fault
      | some m =>
        rw [Option.map_some]
        simp only [Outcome.ofOption, Outcome.ok_bind, reduce_map_number, abs_number, number_mul]
        by_cases hregular : Scalar.abs (reduce m r r diagonal) > tolerance * Scalar.abs m
        · -- a pivot is a divisor only when it is not singular
          have hpivot : reduce m r r diagonal ≠ 0 := by
            intro hzero
            rw [hzero, Exact.abs_eq, Exact.abs_eq, abs_zero] at hregular
            exact absurd hregular (not_lt.mpr (mul_nonneg htol (abs_nonneg m)))
          have hnext : Factors.Invertible ⟨lower ++ [r], diagonal ++ [reduce m r r diagonal]⟩ := by
            intro d hd
            rcases List.mem_append.mp hd with hd | hd
            · exact hF d hd
            · rw [List.mem_singleton.mp hd]
              exact hpivot
          rw [if_pos hregular, if_pos (show number _ > number _ from hregular),
            extend?_map_number _ _ _ _ hpivot]
          cases extend? M j r diagonal (reduce m r r diagonal) rows with
          | none => exact .fault
          | some extended =>
            have hrest := ih hnext extended
            rw [Factors.map, List.map_append, List.map_append] at hrest
            exact hrest
        · rw [if_neg hregular, if_neg (show ¬number _ > number _ from hregular)]
          exact .singular j _

variable [IsStrictOrderedRing K] in
theorem factor_map_number (htol : 0 ≤ tolerance) :
    SameFactors (factor M tolerance) (factor (M.map number) (number tolerance)) := by
  have hrows : mapOpen number ((List.range M.nrows).map fun i => (i, ([] : List K))) =
      (List.range M.nrows).map fun i => (i, []) := by
    rw [mapOpen, List.map_map]
    rfl
  have hcolumns : SameFactors (columns M tolerance M.nrows ⟨[], []⟩ _)
      (columns (M.map number) (number tolerance) M.nrows ⟨[], []⟩ (mapOpen number _)) :=
    columns_map_number htol (fun d hd => absurd hd List.not_mem_nil)
      ((List.range M.nrows).map fun i => (i, []))
  rw [hrows] at hcolumns
  exact hcolumns

namespace Factors

theorem foldl_sub_map_number (a b : List K) (v : K) :
    ((a.map number).zip (b.map number)).foldl (fun s p => s - p.1 * p.2) (number v) =
      number ((a.zip b).foldl (fun s p => s - p.1 * p.2) v) := by
  rw [List.zip_map, List.foldl_map]
  exact List.foldl_hom number fun _ _ => rfl

theorem forward_map_number (solved : List K) (rs : List (List K)) (b : List K) :
    forward (solved.map number) (rs.map (List.map number)) (b.map number) =
      (forward solved rs b).map number := by
  induction rs generalizing solved b with
  | nil => cases b <;> rfl
  | cons r rs ih =>
    cases b with
    | nil => rfl
    | cons v b =>
      rw [List.map_cons, List.map_cons, forward, forward, foldl_sub_map_number, ← ih,
        List.map_append]
      rfl

theorem backward_map_number (F : Factors K) (z : List K) (i : ℕ) (solved : List K) :
    backward (F.map number) (z.map number) i (solved.map number) =
      (backward F z i solved).map number := by
  induction i generalizing solved with
  | zero => rfl
  | succ i ih =>
    rw [backward, backward, List.getElem?_map]
    cases z[i]? with
    | none => exact ih solved
    | some v =>
      rw [Option.map_some]
      dsimp only
      rw [below_map, foldl_sub_map_number, ← ih]
      rfl

theorem zipWith_div_map_number (y : List K) {d : List K} (hd : ∀ v ∈ d, v ≠ 0) :
    List.zipWith (· / ·) (y.map number) (d.map number) =
      (List.zipWith (· / ·) y d).map number := by
  induction y generalizing d with
  | nil => rfl
  | cons a y ih =>
    cases d with
    | nil => rfl
    | cons v d =>
      obtain ⟨hv, hd⟩ := List.forall_mem_cons.mp hd
      rw [List.map_cons, List.map_cons, List.zipWith_cons_cons, List.zipWith_cons_cons,
        List.map_cons, ih hd, number_div hv]

theorem solve_map_number {F : Factors K} (hF : F.Invertible) (b : List K) :
    (F.map number).solve (b.map number) = (F.solve b).map number := by
  have hforward : forward [] (F.map number).lower (b.map number) =
      (forward [] F.lower b).map number := forward_map_number [] F.lower b
  have hdivided := zipWith_div_map_number (forward [] F.lower b) hF
  unfold solve
  rw [hforward]
  dsimp only
  rw [show (F.map number).diagonal = F.diagonal.map number from rfl, hdivided, List.length_map]
  exact backward_map_number F _ _ []

end Factors

end Ldl

/-- The same stage, with numbers for the entries of the factors. -/
def LdlStage.map {α β : Type} (f : α → β) : LdlStage α → LdlStage β
  | fresh => fresh
  | analysed n => analysed n
  | factored n F => factored n (F.map f)

namespace LdlSolver

def map {α β : Type} (f : α → β) (s : LdlSolver α) : LdlSolver β :=
  ⟨f s.tolerance, s.stage.map f, s.factorizations⟩

variable {K : Type} [Field K] [LinearOrder K] [Exact K]

/-- The factors that the solver holds, if any, have no pivot that is zero. -/
def Invertible (s : LdlSolver K) : Prop := ∀ n F, s.stage = .factored n F → F.Invertible

variable {s s' : LdlSolver K} {M : Matrix K}

theorem ensureAnalysed?_map_number (s : LdlSolver K) (n : ℕ) :
    (s.map number).ensureAnalysed? n =
      (s.ensureAnalysed? n).map fun e => (e.1.map number, e.2) := by
  obtain ⟨tolerance, stage, factorizations⟩ := s
  cases stage with
  | fresh =>
    unfold ensureAnalysed? analyse?
    simp only [dimension?, map, LdlStage.map, Option.bind_eq_bind, Option.map_bind,
      Function.comp_def, Option.map_some]
    rfl
  | analysed m => rfl
  | factored m F => rfl

variable [IsStrictOrderedRing K] in
/-- **A factorization** answers over the field what it answers in checked arithmetic, up to the
magnitude of an error, and keeps the same factors. -/
theorem factor?_map_number_cases (htol : 0 ≤ s.tolerance) (M : Matrix K) :
    (s.factor? M = none ∧ (s.map number).factor? (M.map number) = none) ∨
    (∃ e s', s.factor? M = some (.error e, s') ∧
      ∃ e', (s.map number).factor? (M.map number) = some (.error e', s'.map number)) ∨
    ∃ s', s.factor? M = some (.ok (), s') ∧ s'.Invertible ∧
      (s.map number).factor? (M.map number) = some (.ok (), s'.map number) := by
  unfold factor?
  rw [show (M.map number).nrows = M.nrows from rfl, show (M.map number).ncols = M.ncols from rfl]
  by_cases hsquare : M.nrows ≠ M.ncols
  · rw [if_pos hsquare, if_pos hsquare]
    exact Or.inr (Or.inl ⟨_, _, rfl, _, rfl⟩)
  · rw [if_neg hsquare, if_neg hsquare, ensureAnalysed?_map_number]
    cases hsize : s.ensureAnalysed? M.nrows with
    | none => exact Or.inl ⟨rfl, rfl⟩
    | some sized =>
      obtain ⟨analysed, n⟩ := sized
      have hanalysed : 0 ≤ analysed.tolerance := by
        unfold ensureAnalysed? analyse? at hsize
        split at hsize
        · cases hsize
          exact htol
        · simp only [Option.bind_eq_bind, Option.map_bind, Option.bind_eq_some_iff] at hsize
          obtain ⟨k, -, hsize⟩ := hsize
          cases hsize
          exact htol
      rw [Option.map_some, Option.bind_eq_bind, Option.bind_some, Option.bind_eq_bind,
        Option.bind_some]
      dsimp only
      by_cases hdim : M.nrows ≠ n
      · rw [if_pos hdim, if_pos hdim]
        exact Or.inr (Or.inl ⟨_, _, rfl, _, rfl⟩)
      · rw [if_neg hdim, if_neg hdim,
          show (analysed.map number).tolerance = number analysed.tolerance from rfl]
        have hsame := Ldl.factor_map_number (M := M) hanalysed
        generalize Ldl.factor M analysed.tolerance = r at hsame
        generalize Ldl.factor (M.map number) (number analysed.tolerance) = r' at hsame
        cases hsame with
        | fault => exact Or.inl ⟨rfl, rfl⟩
        | singular j v => exact Or.inr (Or.inl ⟨_, _, rfl, _, rfl⟩)
        | @ok F hF =>
          refine Or.inr (Or.inr ⟨_, rfl, ?_, rfl⟩)
          intro m G hG
          cases hG
          exact hF

variable [IsStrictOrderedRing K] in
theorem factor?_map_number (htol : 0 ≤ s.tolerance) (h : s.factor? M = some (.ok (), s')) :
    s'.Invertible ∧ (s.map number).factor? (M.map number) = some (.ok (), s'.map number) := by
  rcases factor?_map_number_cases htol M with
    ⟨hnone, -⟩ | ⟨e, s₁, herror, -⟩ | ⟨s₁, hok, hs₁, hmapped⟩
  · rw [h] at hnone
    cases hnone
  · rw [h] at herror
    cases herror
  · rw [h] at hok
    cases hok
    exact ⟨hs₁, hmapped⟩

theorem solve_map_number (hs : s.Invertible) {b x : List K} (h : s.solve b = .ok x) :
    (s.map number).solve (b.map number) = .ok (x.map number) := by
  obtain ⟨tolerance, stage, factorizations⟩ := s
  cases stage with
  | fresh => cases h
  | analysed n => cases h
  | factored n F =>
    unfold solve at h ⊢
    dsimp only [map, LdlStage.map] at h ⊢
    rw [List.length_map]
    split at h
    · cases h
    · rename_i hlen
      cases h
      rw [if_neg hlen, Ldl.Factors.solve_map_number (hs n F rfl)]

end LdlSolver

end LinProg
