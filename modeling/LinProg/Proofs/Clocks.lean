import LinProg.Proofs.Orders
import LinProg.Solver

/-!
# Clocks

A solve writes the time into its solution, and with a time limit the clock may also end it. Without
one nothing else depends on the clock: `Timed.Agree f x y` says that whatever clocks `x` and `y`
look at, `f` does not see a difference between their results, and `Solver.solve_agree` that a solve
without a limit agrees with itself up to the time (`Solution.untimed`).
-/

namespace LinProg

namespace Timed

variable {β γ δ ε : Type} {f : β → γ} {x y : Timed β}

/-- The results that clocks lead to differ in nothing that `f` sees. -/
def Agree (f : β → γ) (x y : Timed β) : Prop := ∀ b c, x.Yields b → y.Yields c → f b = f c

theorem Agree.done {b c : β} (h : f b = f c) : Agree f (.done b) (.done c) := by
  rintro _ _ rfl rfl
  exact h

theorem Agree.look {next next' : Duration → Timed β}
    (h : ∀ now now', Agree f (next now) (next' now')) : Agree f (.look next) (.look next') := by
  rintro b c ⟨now, hb⟩ ⟨now', hc⟩
  exact h now now' b c hb hc

theorem Agree.bind {g : δ → ε} {k k' : β → Timed δ} (h : Agree f x y)
    (hk : ∀ b c, f b = f c → Agree g (k b) (k' c)) : Agree g (x >>= k) (y >>= k') := by
  intro b c hb hc
  obtain ⟨b', hx, hb⟩ := yields_bind.mp hb
  obtain ⟨c', hy, hc⟩ := yields_bind.mp hc
  exact hk b' c' (h b' c' hx hy) b c hb hc

theorem Agree.now : Agree (fun _ => ()) Timed.now Timed.now := fun _ _ _ _ => rfl

end Timed

variable {α : Type}

/-- Stats without the time. -/
def Stats.untimed (s : Stats α) : Stats α :=
  { s with history := s.history.map Record.untimed, solveTime := .zero }

def Solution.untimed (sol : Solution α) : Solution α := { sol with stats := sol.stats.untimed }

@[simp] theorem Record.untimed_untimed (r : Record α) : r.untimed.untimed = r.untimed := rfl

@[simp] theorem Stats.untimed_untimed (s : Stats α) : s.untimed.untimed = s.untimed := by
  simp [untimed, Function.comp_def]

@[simp] theorem Solution.untimed_untimed (sol : Solution α) :
    sol.untimed.untimed = sol.untimed := by
  simp [untimed]

section Outcome

variable {ε ε' β γ : Type} (f : β → γ)

theorem Outcome.map_ofOption (x : Option β) :
    f <$> (ofOption x : Outcome ε β) = ofOption (x.map f) := by
  cases x with
  | none => rfl
  | some b => rfl

theorem Outcome.map_mapError (g : ε → ε') (x : Outcome ε β) :
    f <$> x.mapError g = (f <$> x).mapError g := by
  cases x with
  | ok b => rfl
  | error e => rfl
  | fault => rfl

variable {f}

theorem Outcome.cases_of_map_eq {x x' : Outcome ε β} (h : f <$> x = f <$> x') :
    (∃ e, x = .error e ∧ x' = .error e) ∨ (x = .fault ∧ x' = .fault) ∨
      ∃ b b', x = .ok b ∧ x' = .ok b' ∧ f b = f b' := by
  cases x with
  | error e =>
    cases x' with
    | error e' =>
      cases h
      exact Or.inl ⟨e, rfl, rfl⟩
    | fault => cases h
    | ok b' => cases h
  | fault =>
    cases x' with
    | error e' => cases h
    | fault => exact Or.inr (Or.inl ⟨rfl, rfl⟩)
    | ok b' => cases h
  | ok b =>
    cases x' with
    | error e' => cases h
    | fault => cases h
    | ok b' => exact Or.inr (Or.inr ⟨b, b', rfl, rfl, Outcome.ok.inj h⟩)

theorem ended_cases_of_map_eq {x x' : Option (ε × β)}
    (h : x.map (Prod.map id f) = x'.map (Prod.map id f)) :
    (x = none ∧ x' = none) ∨
      ∃ e b b', x = some (e, b) ∧ x' = some (e, b') ∧ f b = f b' := by
  rcases x with _ | ⟨e, b⟩
  · rcases x' with _ | ⟨e', b'⟩
    · exact Or.inl ⟨rfl, rfl⟩
    · cases h
  · rcases x' with _ | ⟨e', b'⟩
    · cases h
    · obtain ⟨rfl, hb⟩ : e = e' ∧ f b = f b' := by simpa using h
      exact Or.inr ⟨e, b, b', rfl, rfl, hb⟩

end Outcome

namespace AffineScaling

/-- A solve between two steps, without the time. -/
def Progress.untimed (p : Progress α) : Progress α :=
  { p with history := p.history.map Record.untimed }

theorem Progress.untimed_advanced (p : Progress α) (point : InteriorPoint α) (record : Record α)
    (elapsed : Duration) (effort : Effort) :
    (p.advanced point record elapsed effort).untimed =
      p.untimed.advanced point record.untimed .zero effort := by
  simp [Progress.untimed, Progress.advanced, Record.untimed]

variable [Scalar α] {a : AffineScaling α} {w : Workspace α} {p p' : Progress α}

theorem iterate_agree (hlimit : a.options.maxTime = none) (start start' : Duration) (budget : ℕ)
    (h : p.untimed = p'.untimed) :
    Timed.Agree (Option.map (Prod.map id Progress.untimed)) (iterate a w start budget p)
      (iterate a w start' budget p') := by
  induction budget generalizing p p' with
  | zero =>
    rw [iterate, iterate]
    exact .done (by simp [h])
  | succ budget ih =>
    have hpoint : p'.point = p.point := congrArg (fun q => q.point) h.symm
    have heffort : p'.effort = p.effort := congrArg (fun q => q.effort) h.symm
    have hstep : a.step? w p'.point p'.effort = a.step? w p.point p.effort := by
      rw [hpoint, heffort]
    have hspent : ∀ effort : Effort, Progress.untimed { p with effort := effort } =
        Progress.untimed { p' with effort := effort } := fun effort =>
      congrArg (fun q : Progress α => { q with effort := effort }) h
    have hnext : ∀ point record effort elapsed elapsed',
        (p.advanced point record elapsed effort).untimed =
          (p'.advanced point record elapsed' effort).untimed := by
      intro point record effort elapsed elapsed'
      rw [Progress.untimed_advanced, Progress.untimed_advanced, h]
    rw [iterate, iterate, hstep]
    rcases a.step? w p.point p.effort with _ | ⟨outcome, effort⟩
    · exact .done rfl
    · cases outcome with
      | notApplicable least => exact .done (congrArg (fun q => some (_, q)) (hspent effort))
      | failed why => exact .done (congrArg (fun q => some (_, q)) (hspent effort))
      | converged point record =>
        exact .look fun now now' => .done (by
          simp [hnext point record effort (start.since now) (start'.since now')])
      | advanced point record =>
        refine .look fun now now' => ?_
        rw [outOfTime_of_unlimited hlimit, outOfTime_of_unlimited hlimit]
        exact ih (hnext point record effort _ _)

theorem report?_untimed (status : Status) (solveTime : Duration) :
    (report? w status p solveTime).map Solution.untimed =
      report? w status p.untimed .zero := by
  unfold report?
  cases hobjective : w.objective? p.point.x with
  | none => simp [Progress.untimed, hobjective]
  | some objective =>
    cases hkeeps : keepsIterate status with
    | false =>
      simp [Progress.untimed, Solution.untimed, Stats.untimed, hobjective, Function.comp_def]
    | true =>
      cases hprimal : p.point.primal? with
      | none => simp [Progress.untimed, hobjective, hprimal]
      | some x =>
        cases hslack : p.point.slack? with
        | none => simp [Progress.untimed, hobjective, hprimal, hslack]
        | some y =>
          simp [Progress.untimed, Solution.untimed, Stats.untimed, hobjective, hprimal, hslack]

theorem run_agree (hlimit : a.options.maxTime = none) (point : InteriorPoint α) :
    Timed.Agree (Option.map Solution.untimed) (a.run w point) (a.run w point) := by
  refine Timed.Agree.now.bind fun start start' _ =>
    (iterate_agree hlimit start start' _ rfl).bind fun ended ended' hended =>
      Timed.Agree.now.bind fun now now' _ => .done ?_
  rcases ended_cases_of_map_eq hended with ⟨rfl, rfl⟩ | ⟨status, q, q', rfl, rfl, hq⟩
  · rfl
  · change (report? w status q _).map _ = (report? w status q' _).map _
    rw [report?_untimed, report?_untimed, hq]

theorem solve_agree (hlimit : a.options.maxTime = none) (p : Problem α) (start : List α) :
    Timed.Agree (Solution.untimed <$> ·) (a.solve p start) (a.solve p start) := by
  unfold solve
  split
  · exact .done rfl
  · exact .done rfl
  · exact .done rfl
  · rename_i w point _
    refine (run_agree hlimit point).bind fun r r' hr => .done ?_
    rw [Outcome.map_ofOption, Outcome.map_ofOption, hr]

end AffineScaling

namespace Simplex

/-- A tableau with its record, without the time. -/
def Progress.untimed (p : Progress α) : Progress α := { p with stats := p.stats.untimed }

variable [Scalar α] {p p' : Progress α} {tolerance : α}

theorem Progress.untimed_pivoted (p : Progress α) (T : Tableau α) (row column : ℕ)
    (elapsed : Duration) : (p.pivoted T row column elapsed).untimed =
      p.untimed.pivoted T row column .zero := by
  simp [Progress.untimed, Progress.pivoted, Stats.untimed, Stats.push, Record.untimed,
    Record.pivoted]

theorem pivots_agree (start start' : Duration) (budget : ℕ) (h : p.untimed = p'.untimed) :
    Timed.Agree (Option.map (Prod.map id Progress.untimed)) (pivots tolerance start budget p)
      (pivots tolerance start' budget p') := by
  induction budget generalizing p p' with
  | zero =>
    rw [pivots, pivots]
    exact .done (by simp [h])
  | succ budget ih =>
    have htableau : p.tableau = p'.tableau := congrArg (fun q => q.tableau) h
    rw [pivots, pivots, ← htableau]
    rcases step? tolerance p.tableau with _ | ⟨outcome, T⟩
    · exact .done rfl
    · cases outcome with
      | optimal => exact .done (by simp [h])
      | unbounded column => exact .done (by simp [h])
      | pivoted row column =>
        refine .look fun now now' => ih ?_
        rw [Progress.untimed_pivoted, Progress.untimed_pivoted, h]

theorem report?_untimed (status : Status) (solveTime : Duration) :
    (report? tolerance status p solveTime).map Solution.untimed =
      report? tolerance status p.untimed .zero := by
  unfold report?
  by_cases hoptimal : status = .optimal
  · cases hprimal : p.tableau.primal? tolerance with
    | none => simp [Progress.untimed, hoptimal, hprimal]
    | some x =>
      cases hslack : p.tableau.slack? tolerance with
      | none => simp [Progress.untimed, hoptimal, hprimal, hslack]
      | some y =>
        simp [Progress.untimed, Solution.untimed, Stats.untimed, hoptimal, hprimal, hslack]
  · simp [Progress.untimed, Solution.untimed, Stats.untimed, hoptimal, Function.comp_def]

theorem run_agree (o : Options α) (T : Tableau α) :
    Timed.Agree (Option.map fun r => r.1.untimed) (run o T) (run o T) := by
  refine Timed.Agree.now.bind fun start start' _ =>
    (pivots_agree start start' _ rfl).bind fun ended ended' hended =>
      Timed.Agree.now.bind fun now now' _ => .done ?_
  rcases ended_cases_of_map_eq hended with ⟨rfl, rfl⟩ | ⟨status, q, q', rfl, rfl, hq⟩
  · rfl
  · have htableau : q.tableau = q'.tableau := congrArg (fun r => r.tableau) hq
    have hreport : (report? o.zeroTolerance (finalStatus o.zeroTolerance status q.tableau) q
        (start.since now)).map Solution.untimed = _ := report?_untimed _ _
    rw [hq, ← report?_untimed _ (start'.since now'), htableau] at hreport
    simpa [Option.map_eq_bind, Option.bind_assoc, htableau] using hreport

theorem solve_agree (o : Options α) (p : Problem α) :
    Timed.Agree (Solution.untimed <$> ·) (solve o p) (solve o p) := by
  unfold solve
  split
  · exact .done rfl
  · exact .done rfl
  · rename_i T _
    refine (run_agree o T).bind fun r r' hr => .done ?_
    have hmap : ∀ r : Option (Solution α × Tableau α),
        Solution.untimed <$> (Outcome.ofOption r : Outcome (InputError α) _).bind
            (fun r => .ok r.1) =
          Outcome.ofOption (r.map fun r => r.1.untimed) := by
      intro r
      cases r with
      | none => rfl
      | some r => rfl
    rw [hmap, hmap, hr]

end Simplex

variable [Scalar α]

/-- **A solve without a time limit** has one outcome, up to the time. -/
theorem Solver.solve_agree (s : Solver α) (hlimit : s.options.maxTime = none) (p : Problem α) :
    Timed.Agree (Solution.untimed <$> ·) (s.solve p) (s.solve p) := by
  unfold solve
  split
  · exact .done rfl
  · refine (AffineScaling.solve_agree hlimit p _).bind fun x x' hx => .done ?_
    rw [Outcome.map_mapError, Outcome.map_mapError, hx]
  · refine (Simplex.solve_agree s.options p).bind fun x x' hx => .done ?_
    rw [Outcome.map_mapError, Outcome.map_mapError, hx]

end LinProg
