import LinProg.Exchange.Solution
import LinProg.Proofs.Json.Structures

/-!
# Solutions that were written

What the text of a solution is read as (`Solution.ofText?_pretty`). Numbers that are not finite are
written as null. Null is no value of a number, so one such number among the variables, slacks and
objectives makes the whole text unreadable; where a number may be missing it is read as missing
(`Solution.onlyFinite`).
-/

namespace LinProg

open Json

variable {depth : ℕ}

namespace Duration

variable {d : Duration}

theorem plain_toJson (h : d.secs < 2 ^ 64) : Plain (depth + 1) d.toJson := by
  have hnanos : d.nanos < 2 ^ 64 := (Nat.mod_lt _ (by decide)).trans (by decide)
  refine plain_object (by simp) ?_
  simp only [List.forall_mem_cons, List.not_mem_nil, false_imp_iff, implies_true, and_true]
  exact ⟨plain_count h, plain_count hnanos⟩

theorem secs_add_nanos (d : Duration) : d.secs * 1000000000 + d.nanos = d.nanoseconds := by
  unfold secs nanos
  omega

theorem ofParts?_secs_nanos (h : d.secs < 2 ^ 64) : ofParts? d.secs d.nanos = some d := by
  rw [ofParts?, secs_add_nanos]
  simp only [Size.fit?_eq h, Option.map_some]

theorem ofJson?_toJson (h : d.secs < 2 ^ 64) : ofJson? d.toJson = some d := by
  have hshort : d.nanos < 0x100000000 := (Nat.mod_lt _ (by decide)).trans (by decide)
  have hnanos : d.nanos < 2 ^ 64 := hshort.trans (by decide)
  have hfields : d.toJson.fields? ["secs", "nanos"] =
      some [.given (count d.secs), .given (count d.nanos)] :=
    fields?_object [("secs", count d.secs), ("nanos", count d.nanos)] (by simp)
  have hread : shortCount? (count d.nanos) = some d.nanos := by
    rw [shortCount?, count?_count hnanos, Option.filter_some, if_pos (decide_eq_true hshort)]
  -- which values the members have does not matter for their keys
  obtain ⟨ms, hms, hknown⟩ : ∃ ms, d.toJson = obj ms ∧
      (ms.all fun m => m.1 = some "secs" || m.1 = some "nanos") = true :=
    ⟨_, rfl, by simp⟩
  rw [hms] at hfields ⊢
  unfold ofJson?
  rw [hfields]
  simp only [hknown, Slot.required, if_true, Option.bind_eq_bind, Option.bind_some]
  rw [count?_count h, Option.bind_some, hread, Option.bind_some]
  exact ofParts?_secs_nanos h

end Duration

namespace Status

theorem plain_toJson (s : Status) : Plain (depth + 1) s.toJson := by
  cases s with
  | notApplicable why =>
    refine plain_object (by simp) ?_
    simp only [List.forall_mem_cons, List.not_mem_nil, false_imp_iff, implies_true, and_true]
    exact .text _
  | _ => exact .text _

theorem ofJson?_toJson (s : Status) : ofJson? s.toJson = some s := by
  cases s with
  | notApplicable why => cases why <;> decide +kernel
  | _ => decide +kernel

end Status

namespace Json

section Finite

variable {β γ : Type} {f : β → Json} {read : Json → Option γ} {x : Float}

theorem float?_float (h : x.isFinite = true → Restores x) :
    (float x).float? = if x.isFinite then some x else none := by
  cases hx : x.isFinite with
  | false =>
    rw [float_eq_null hx]
    rfl
  | true => exact h hx

theorem nullable?_float {o : Option Float} (h : ∀ x ∈ o, x.isFinite = true → Restores x) :
    (nullable float o).nullable? Json.float? = some (o.filter Float.isFinite) := by
  cases o with
  | none => rfl
  | some x =>
    cases hx : x.isFinite with
    | false =>
      rw [nullable, float_eq_null hx, Option.filter_some, hx]
      rfl
    | true =>
      obtain ⟨n, hn, -⟩ := exists_float_eq_num hx
      have hread : (float x).float? = some x := h x rfl hx
      rw [Option.filter_some, hx, nullable]
      rw [hn] at hread ⊢
      rw [nullable?, hread]
      · rfl
      · intro hnull
        cases hnull

theorem list?_eq_ite {P : β → Bool} {g : β → γ} {xs : List β}
    (h : ∀ x ∈ xs, read (f x) = if P x then some (g x) else none) :
    (list f xs).list? read = if xs.all P then some (xs.map g) else none := by
  rw [list, list?]
  induction xs with
  | nil => rfl
  | cons x xs ih =>
    obtain ⟨hx, hxs⟩ := List.forall_mem_cons.mp h
    rw [List.map_cons, List.mapM_cons, hx, ih hxs, List.all_cons]
    cases P x <;> cases xs.all P <;> rfl

theorem list?_float {xs : List Float} (h : ∀ x ∈ xs, x.isFinite = true → Restores x) :
    (list float xs).list? Json.float? = if Vec.allFinite xs then some xs else none := by
  have hread := list?_eq_ite (f := float) (P := Float.isFinite) (g := id) fun x hx =>
    float?_float (h x hx)
  rw [List.map_id] at hread
  exact hread

end Finite

end Json

namespace Record

variable {r : Record Float}

/-- The record without the numbers that may be missing and are not finite. -/
def onlyFinite (r : Record Float) : Record Float :=
  { r with
    stepNorm := r.stepNorm.filter Float.isFinite
    minReducedCost := r.minReducedCost.filter Float.isFinite }

/-- The numbers of a record. -/
def numbers (r : Record Float) : List Float :=
  r.objective :: (r.stepNorm.toList ++ r.minReducedCost.toList)

/-- The counts fit words, and so do the seconds. -/
def Words (r : Record Float) : Prop :=
  r.iteration < 2 ^ 64 ∧ (∀ place ∈ r.pivot, place.1 < 2 ^ 64 ∧ place.2 < 2 ^ 64) ∧
    r.elapsed.secs < 2 ^ 64

instance (r : Record Float) : Decidable r.Words := inferInstanceAs (Decidable (_ ∧ _))

theorem onlyFinite_eq_self_iff : r.onlyFinite = r ↔
    ∀ x ∈ r.stepNorm.toList ++ r.minReducedCost.toList, x.isFinite = true := by
  have hfilter : ∀ o : Option Float, o.filter Float.isFinite = o ↔
      ∀ x ∈ o.toList, x.isFinite = true := by
    intro o
    cases o <;> simp
  obtain ⟨iteration, objective, stepNorm, minReducedCost, pivot, elapsed⟩ := r
  rw [List.forall_mem_append, ← hfilter, ← hfilter]
  simp [onlyFinite]

theorem plain_placeToJson {place : ℕ × ℕ} (h : place.1 < 2 ^ 64 ∧ place.2 < 2 ^ 64) :
    Plain (depth + 1) (placeToJson place) := by
  refine .arr ?_
  simp only [List.forall_mem_cons, List.not_mem_nil, false_imp_iff, implies_true, and_true]
  exact ⟨plain_count h.1, plain_count h.2⟩

section Text

variable (hwords : r.Words) (hrestores : ∀ x ∈ r.numbers, x.isFinite = true → Restores x)
include hwords hrestores

theorem plain_toJson : Plain (depth + 2) r.toJson := by
  obtain ⟨hiteration, hpivot, helapsed⟩ := hwords
  refine plain_object (by simp) ?_
  simp only [List.forall_mem_cons, List.not_mem_nil, false_imp_iff, implies_true, and_true]
  refine ⟨plain_count hiteration, plain_float (hrestores _ ?_),
    plain_nullable fun x hx => plain_float (hrestores _ ?_),
    plain_nullable fun x hx => plain_float (hrestores _ ?_),
    plain_nullable fun place hplace => plain_placeToJson (hpivot place hplace),
    Duration.plain_toJson helapsed⟩
  · simp [numbers]
  · simp [numbers, Option.mem_def.mp hx]
  · simp [numbers, Option.mem_def.mp hx]

theorem ofJson?_toJson :
    ofJson? r.toJson = if r.objective.isFinite then some r.onlyFinite else none := by
  obtain ⟨hiteration, hpivot, helapsed⟩ := hwords
  have hfields : r.toJson.fields? ["iteration", "objective", "step_norm", "min_reduced_cost",
      "pivot", "elapsed"] = some [.given (count r.iteration), .given (float r.objective),
        .given (Json.nullable float r.stepNorm), .given (Json.nullable float r.minReducedCost),
        .given (Json.nullable placeToJson r.pivot), .given r.elapsed.toJson] :=
    fields?_object [("iteration", count r.iteration), ("objective", float r.objective),
      ("step_norm", Json.nullable float r.stepNorm),
      ("min_reduced_cost", Json.nullable float r.minReducedCost),
      ("pivot", Json.nullable placeToJson r.pivot), ("elapsed", r.elapsed.toJson)] (by simp)
  have hobjective := float?_float (hrestores r.objective (by simp [numbers]))
  have hnorm := nullable?_float (o := r.stepNorm) fun x hx =>
    hrestores x (by simp [numbers, Option.mem_def.mp hx])
  have hcost := nullable?_float (o := r.minReducedCost) fun x hx =>
    hrestores x (by simp [numbers, Option.mem_def.mp hx])
  have hplace : (Json.nullable placeToJson r.pivot).nullable? placeOfJson? = some r.pivot := by
    refine nullable?_nullable fun place hplace => ⟨by simp [placeToJson], ?_⟩
    obtain ⟨hrow, hcolumn⟩ := hpivot place hplace
    simp [placeToJson, placeOfJson?, count?_count hrow, count?_count hcolumn]
  unfold ofJson?
  rw [hfields]
  cases hfinite : r.objective.isFinite with
  | false => simp [Slot.required, Slot.nullable, count?_count hiteration, hobjective, hfinite]
  | true =>
    simp [Slot.required, Slot.nullable, count?_count hiteration, hobjective, hfinite, hnorm, hcost,
      hplace, Duration.ofJson?_toJson helapsed, onlyFinite]

end Text

end Record

namespace Stats

variable {s : Stats Float}

/-- The record of a solve without the numbers that may be missing and are not finite. -/
def onlyFinite (s : Stats Float) : Stats Float :=
  { s with history := (s.history.toList.map Record.onlyFinite).toArray }

/-- The counts fit words, and so do the seconds. -/
def Words (s : Stats Float) : Prop :=
  (∀ r ∈ s.history.toList, r.Words) ∧ s.solveTime.secs < 2 ^ 64 ∧ s.factorizations < 2 ^ 64 ∧
    s.linearSolves < 2 ^ 64 ∧ s.pivots < 2 ^ 64

instance (s : Stats Float) : Decidable s.Words := inferInstanceAs (Decidable (_ ∧ _))

section Text

variable (hwords : s.Words)
  (hrestores : ∀ r ∈ s.history.toList, ∀ x ∈ r.numbers, x.isFinite = true → Restores x)
include hwords hrestores

theorem plain_toJson : Plain (depth + 4) s.toJson := by
  obtain ⟨hhistory, htime, hfactorizations, hsolves, hpivots⟩ := hwords
  refine plain_object (by simp) ?_
  simp only [List.forall_mem_cons, List.not_mem_nil, false_imp_iff, implies_true, and_true]
  exact ⟨plain_list fun r hr => Record.plain_toJson (hhistory r hr) (hrestores r hr),
    Duration.plain_toJson htime, plain_count hfactorizations, plain_count hsolves,
    plain_count hpivots⟩

theorem ofJson?_toJson : ofJson? s.toJson =
    if s.history.toList.all (·.objective.isFinite) then some s.onlyFinite else none := by
  obtain ⟨hhistory, htime, hfactorizations, hsolves, hpivots⟩ := hwords
  have hfields : s.toJson.fields? ["history", "solve_time", "factorizations", "linear_solves",
      "pivots"] = some [.given (list Record.toJson s.history.toList),
        .given s.solveTime.toJson, .given (count s.factorizations), .given (count s.linearSolves),
        .given (count s.pivots)] :=
    fields?_object [("history", list Record.toJson s.history.toList),
      ("solve_time", s.solveTime.toJson), ("factorizations", count s.factorizations),
      ("linear_solves", count s.linearSolves), ("pivots", count s.pivots)] (by simp)
  have hrecords : (list Record.toJson s.history.toList).list? Record.ofJson? =
      if s.history.toList.all (·.objective.isFinite) then
        some (s.history.toList.map Record.onlyFinite)
      else none :=
    list?_eq_ite fun r hr => Record.ofJson?_toJson (hhistory r hr) (hrestores r hr)
  unfold ofJson?
  rw [hfields]
  cases hfinite : s.history.toList.all (·.objective.isFinite) with
  | false =>
    rw [hfinite] at hrecords
    simp [Slot.required, hrecords]
  | true =>
    rw [hfinite] at hrecords
    simp [Slot.required, hrecords, Duration.ofJson?_toJson htime, count?_count hfactorizations,
      count?_count hsolves, count?_count hpivots, onlyFinite]

end Text

end Stats

namespace Solution

variable {s : Solution Float}

/-- What a text holds as a solution. -/
def ofText? (text : String) : Option (Solution Float) := (Json.parse? text).bind ofJson?

/-- The solution without the numbers that may be missing and are not finite. -/
def onlyFinite (s : Solution Float) : Solution Float := { s with stats := s.stats.onlyFinite }

/-- All numbers of a solution and its record. -/
def numbers (s : Solution Float) : List Float :=
  s.primal ++ s.slack ++ s.objectiveValue :: s.stats.history.toList.flatMap Record.numbers

/-- The counts fit words, and so do the seconds. -/
def Words (s : Solution Float) : Prop := s.iterations < 2 ^ 64 ∧ s.stats.Words

instance (s : Solution Float) : Decidable s.Words := inferInstanceAs (Decidable (_ ∧ _))

/-- The numbers that may not be missing are finite. -/
def Legible (s : Solution Float) : Prop :=
  Vec.allFinite s.primal = true ∧ Vec.allFinite s.slack = true ∧
    s.objectiveValue.isFinite = true ∧
    s.stats.history.toList.all (·.objective.isFinite) = true

instance (s : Solution Float) : Decidable s.Legible := inferInstanceAs (Decidable (_ ∧ _))

theorem onlyFinite_eq_self_iff :
    s.onlyFinite = s ↔ ∀ r ∈ s.stats.history.toList, r.onlyFinite = r := by
  have hmap : s.onlyFinite = s ↔
      s.stats.history.toList.map Record.onlyFinite = s.stats.history.toList := by
    constructor
    · intro h
      have hhistory := congrArg (·.stats.history.toList) h
      exact hhistory
    · intro h
      rw [onlyFinite, Stats.onlyFinite, h]
  rw [hmap]
  nth_rewrite 2 [← List.map_id s.stats.history.toList]
  exact List.map_inj_left

theorem forall_numbers_iff :
    (∀ x ∈ s.numbers, x.isFinite = true) ↔ s.Legible ∧ s.onlyFinite = s := by
  have hrecord : ∀ r : Record Float, (∀ x ∈ r.numbers, x.isFinite = true) ↔
      r.objective.isFinite = true ∧ r.onlyFinite = r := by
    intro r
    rw [Record.numbers, List.forall_mem_cons, Record.onlyFinite_eq_self_iff]
  have hhistory : (∀ x ∈ s.stats.history.toList.flatMap Record.numbers, x.isFinite = true) ↔
      (s.stats.history.toList.all (·.objective.isFinite)) = true ∧ s.onlyFinite = s := by
    rw [onlyFinite_eq_self_iff, List.all_eq_true]
    constructor
    · intro h
      have hall := fun r hr => (hrecord r).mp fun x hx => h x (List.mem_flatMap.mpr ⟨r, hr, hx⟩)
      exact ⟨fun r hr => (hall r hr).1, fun r hr => (hall r hr).2⟩
    · rintro ⟨hobjective, hfinite⟩ x hx
      obtain ⟨r, hr, hx⟩ := List.mem_flatMap.mp hx
      exact (hrecord r).mpr ⟨hobjective r hr, hfinite r hr⟩ x hx
  have hvector : ∀ xs : List Float, (∀ x ∈ xs, x.isFinite = true) ↔ Vec.allFinite xs = true :=
    fun xs => List.all_eq_true.symm
  rw [numbers, List.forall_mem_append, List.forall_mem_append, List.forall_mem_cons, hhistory,
    hvector, hvector, Legible]
  simp only [and_assoc]

section Text

variable (hwords : s.Words) (hrestores : ∀ x ∈ s.numbers, x.isFinite = true → Restores x)
include hrestores

theorem restores_history :
    ∀ r ∈ s.stats.history.toList, ∀ x ∈ r.numbers, x.isFinite = true → Restores x := by
  intro r hr x hx
  refine hrestores x (List.mem_append_right _ (List.mem_cons_of_mem _ ?_))
  exact List.mem_flatMap.mpr ⟨r, hr, hx⟩

include hwords

theorem plain_toJson : Plain (depth + 5) s.toJson := by
  have hstats : Plain (depth + 4) s.stats.toJson :=
    Stats.plain_toJson hwords.2 (restores_history hrestores)
  refine plain_object (by simp) ?_
  simp only [List.forall_mem_cons, List.not_mem_nil, false_imp_iff, implies_true, and_true]
  refine ⟨plain_list fun x hx => plain_float (hrestores x ?_),
    plain_list fun x hx => plain_float (hrestores x ?_), Status.plain_toJson _,
    plain_float (hrestores _ ?_), plain_count hwords.1, hstats⟩
  · simp [numbers, hx]
  · simp [numbers, hx]
  · simp [numbers]

theorem ofJson?_toJson : ofJson? s.toJson = if s.Legible then some s.onlyFinite else none := by
  have hfields : s.toJson.fields? ["primal", "slack", "status", "objective_value", "iterations",
      "stats"] = some [.given (list float s.primal), .given (list float s.slack),
        .given s.status.toJson, .given (float s.objectiveValue), .given (count s.iterations),
        .given s.stats.toJson] :=
    fields?_object [("primal", list float s.primal), ("slack", list float s.slack),
      ("status", s.status.toJson), ("objective_value", float s.objectiveValue),
      ("iterations", count s.iterations), ("stats", s.stats.toJson)] (by simp)
  have hprimal : (list float s.primal).list? Json.float? = _ :=
    list?_float fun x hx => hrestores x (by simp [numbers, hx])
  have hslack : (list float s.slack).list? Json.float? = _ :=
    list?_float fun x hx => hrestores x (by simp [numbers, hx])
  have hobjective := float?_float (hrestores s.objectiveValue (by simp [numbers]))
  have hstats := Stats.ofJson?_toJson hwords.2 (restores_history hrestores)
  unfold ofJson?
  rw [hfields]
  simp only [Option.bind_eq_bind, Option.bind_some, Slot.required]
  rw [hprimal, hslack, Status.ofJson?_toJson, hobjective, count?_count hwords.1, hstats]
  by_cases h : s.Legible
  · obtain ⟨hp, hs, ho, hr⟩ := h
    rw [if_pos hp, if_pos hs, if_pos ho, if_pos hr, if_pos ⟨hp, hs, ho, hr⟩]
    rfl
  · rw [if_neg h]
    -- the first of the four that fails leaves nothing to read
    by_cases hp : Vec.allFinite s.primal = true
    · by_cases hs : Vec.allFinite s.slack = true
      · by_cases ho : s.objectiveValue.isFinite = true
        · have hr : ¬(s.stats.history.toList.all (·.objective.isFinite)) = true :=
            fun hr => h ⟨hp, hs, ho, hr⟩
          rw [if_pos hp, if_pos hs, if_pos ho, if_neg hr]
          rfl
        · rw [if_pos hp, if_pos hs, if_neg ho]
          rfl
      · rw [if_pos hp, if_neg hs]
        rfl
    · rw [if_neg hp]
      rfl

/-- **The text** of a solution is read as the solution without the numbers that may be missing and
are not finite, or not at all if another number is not finite. -/
theorem ofText?_pretty :
    ofText? s.toJson.pretty = if s.Legible then some s.onlyFinite else none := by
  have hplain : Plain 5 s.toJson := plain_toJson hwords hrestores
  rw [ofText?, hplain.parse?_pretty, Option.bind_some, ofJson?_toJson hwords hrestores]

theorem ofText?_pretty_eq_some_iff :
    ofText? s.toJson.pretty = some s ↔ ∀ x ∈ s.numbers, x.isFinite = true := by
  rw [ofText?_pretty hwords hrestores, forall_numbers_iff]
  by_cases h : s.Legible
  · simp [h]
  · simp [h]

end Text

end Solution

end LinProg
