import LinProg.Proofs.Rounded.Numbers
import LinProg.Vec

/-!
# Scans for a least value

Several loops look for the first of the least values in a list: each skips some entries and keeps
the best of the others so far. They differ in what they skip, in the value that an entry counts
with, and in how they compare, and `IsScan` says what they have in common.

* `IsScan.eq_none_iff`, `IsScan.eq_some`: in any arithmetic, a scan finds a value that it does not
  skip, and nothing only where it skips everything.
* `IsScan.lowestIndexWins`: where the values are numbers, it finds the least of them, and the first
  of equal ones.
* `Vec.argmin_eq_some_iff`, `Vec.argmin_eq_none_iff`: the smallest entry of a vector, in which
  entries that are not numbers do not count.
-/

namespace LinProg

variable {α β : Type}

/-- A scan of a list whose entries are numbered from a place on. It skips an entry, or keeps the
best value so far against it, or takes its value as the best. -/
structure IsScan (skips : β → Prop) (valueOf : β → α) (keeps : α → α → Prop)
    (scan : ℕ → Option (ℕ × α) → List β → Option (ℕ × α)) : Prop where
  nil : ∀ i best, scan i best [] = best
  skip : ∀ i best e es, skips e → scan i best (e :: es) = scan (i + 1) best es
  keep : ∀ i k b e es, keeps b (valueOf e) →
    scan i (some (k, b)) (e :: es) = scan (i + 1) (some (k, b)) es
  take : ∀ i best e es, ¬skips e → (∀ k b, best = some (k, b) → ¬keeps b (valueOf e)) →
    scan i best (e :: es) = scan (i + 1) (some (i, valueOf e)) es

namespace IsScan

variable {skips : β → Prop} {valueOf : β → α} {keeps : α → α → Prop}
  {scan : ℕ → Option (ℕ × α) → List β → Option (ℕ × α)} {i k : ℕ} {best : Option (ℕ × α)}
  {es : List β} {b : α}

theorem cons (h : IsScan skips valueOf keeps scan) (i : ℕ) (best : Option (ℕ × α)) (e : β)
    (es : List β) :
    (scan i best (e :: es) = scan (i + 1) best es ∧
      (skips e ∨ ∃ k b, best = some (k, b) ∧ keeps b (valueOf e))) ∨
    (scan i best (e :: es) = scan (i + 1) (some (i, valueOf e)) es ∧
      ¬skips e ∧ ∀ k b, best = some (k, b) → ¬keeps b (valueOf e)) := by
  by_cases hskip : skips e
  · exact Or.inl ⟨h.skip i best e es hskip, Or.inl hskip⟩
  · by_cases hkeep : ∃ k b, best = some (k, b) ∧ keeps b (valueOf e)
    · obtain ⟨k, b, rfl, hb⟩ := hkeep
      exact Or.inl ⟨h.keep i k b e es hb, Or.inr ⟨k, b, rfl, hb⟩⟩
    · have htake : ∀ k b, best = some (k, b) → ¬keeps b (valueOf e) :=
        fun k b hb hkeeps => hkeep ⟨k, b, hb, hkeeps⟩
      exact Or.inr ⟨h.take i best e es hskip htake, hskip, htake⟩

theorem eq_none_iff (h : IsScan skips valueOf keeps scan) :
    scan i best es = none ↔ best = none ∧ ∀ e ∈ es, skips e := by
  induction es generalizing i best with
  | nil => simp [h.nil]
  | cons e es ih =>
    rw [List.forall_mem_cons]
    rcases h.cons i best e es with ⟨heq, hpass⟩ | ⟨heq, he, -⟩
    · rw [heq, ih]
      refine and_congr_right fun hbest => ⟨fun hes => ⟨?_, hes⟩, fun hes => hes.2⟩
      rcases hpass with he | ⟨k, b, hb, -⟩
      · exact he
      · rw [hbest] at hb
        cases hb
    · rw [heq, ih]
      constructor
      · rintro ⟨hsome, -⟩
        cases hsome
      · rintro ⟨-, hskips, -⟩
        exact absurd hskips he

theorem eq_some (h : IsScan skips valueOf keeps scan) (hscan : scan i best es = some (k, b)) :
    best = some (k, b) ∨ i ≤ k ∧ ∃ e, es[k - i]? = some e ∧ ¬skips e ∧ b = valueOf e := by
  induction es generalizing i best with
  | nil =>
    rw [h.nil] at hscan
    exact Or.inl hscan
  | cons e es ih =>
    have hlater : i + 1 ≤ k → (e :: es)[k - i]? = es[k - (i + 1)]? := by
      intro hik
      rw [show k - i = k - (i + 1) + 1 by omega, List.getElem?_cons_succ]
    rcases h.cons i best e es with ⟨heq, -⟩ | ⟨heq, he, -⟩
    · rw [heq] at hscan
      rcases ih hscan with hbest | ⟨hik, e', hget, he'⟩
      · exact Or.inl hbest
      · exact Or.inr ⟨by omega, e', by rw [hlater hik, hget], he'⟩
    · rw [heq] at hscan
      right
      rcases ih hscan with hbest | ⟨hik, e', hget, he'⟩
      · cases hbest
        exact ⟨le_rfl, e, by simp, he, rfl⟩
      · exact ⟨by omega, e', by rw [hlater hik, hget], he'⟩

end IsScan

/-! ### The first of the least values -/

section FirstLeast

variable [Scalar α]

/-- Among the eligible places, `i` is the first of those with the least value. -/
structure FirstLeast (eligible : ℕ → Prop) (value : ℕ → α) (i : ℕ) : Prop where
  mem : eligible i
  le : ∀ j, eligible j → value i ≤ value j
  lt : ∀ j < i, eligible j → value i < value j

theorem firstLeast_iff {eligible : ℕ → Prop} {value : ℕ → α} {i bound : ℕ}
    (hbound : ∀ j, eligible j → j < bound) :
    FirstLeast eligible value i ↔ eligible i ∧
      ∀ j < bound, eligible j → value i ≤ value j ∧ (j < i → value i < value j) := by
  constructor
  · rintro ⟨hi, hle, hlt⟩
    exact ⟨hi, fun j _ hj => ⟨hle j hj, fun hji => hlt j hji hj⟩⟩
  · rintro ⟨hi, hall⟩
    exact ⟨hi, fun j hj => (hall j (hbound j hj) hj).1,
      fun j hji hj => (hall j (hbound j hj) hj).2 hji⟩

/-- A choice among the eligible places by least value and then by lowest index. There is none only
if no place is eligible. -/
structure LowestIndexWins (eligible : ℕ → Prop) (value : ℕ → α) (choice : Option ℕ) : Prop where
  some_iff : ∀ i, choice = some i ↔ FirstLeast eligible value i
  none_iff : choice = none ↔ ∀ i, ¬eligible i

/-- The best of the places before `n`, with its value. -/
inductive Leads (eligible : ℕ → Prop) (value : ℕ → α) (n : ℕ) : Option (ℕ × α) → Prop
  | nothing : (∀ j < n, ¬eligible j) → Leads eligible value n none
  | place {i : ℕ} : FirstLeast (fun j => j < n ∧ eligible j) value i →
      Leads eligible value n (some (i, value i))

variable {eligible : ℕ → Prop} {value : ℕ → α} {i j n : ℕ} {best : Option (ℕ × α)}

namespace Leads

theorem best_eq {k : ℕ} {b : α} (h : Leads eligible value n (some (k, b))) :
    eligible k ∧ b = value k := by
  cases h with
  | place hfirst => exact ⟨hfirst.mem.2, rfl⟩

theorem passed (h : Leads eligible value n best)
    (hpass : eligible n → ∃ k b, best = some (k, b) ∧ b ≤ value n) :
    Leads eligible value (n + 1) best := by
  cases h with
  | nothing hnone =>
    refine .nothing fun j hj hel => ?_
    rcases Nat.lt_succ_iff_lt_or_eq.mp hj with hlt | rfl
    · exact hnone j hlt hel
    · obtain ⟨k, b, hb, -⟩ := hpass hel
      cases hb
  | @place i hfirst =>
    have hin : i < n := hfirst.mem.1
    refine .place ⟨⟨by omega, hfirst.mem.2⟩, ?_, ?_⟩
    · rintro j ⟨hj, hel⟩
      rcases Nat.lt_succ_iff_lt_or_eq.mp hj with hlt | rfl
      · exact hfirst.le j ⟨hlt, hel⟩
      · obtain ⟨k, b, hb, hle⟩ := hpass hel
        cases hb
        exact hle
    · rintro j hji ⟨-, hel⟩
      exact hfirst.lt j hji ⟨by omega, hel⟩

end Leads

variable [OrderedNumbers α]

theorem FirstLeast.not_lt (h : FirstLeast eligible value i) (h' : FirstLeast eligible value j) :
    ¬i < j := by
  intro hij
  have hlt : value j < value i := h'.lt i hij h.mem
  exact (OrderedNumbers.lt_iff.mp hlt).2 (h.le j h'.mem)

theorem FirstLeast.unique (h : FirstLeast eligible value i) (h' : FirstLeast eligible value j) :
    i = j := by
  rcases lt_trichotomy i j with hij | rfl | hji
  · exact absurd hij (h.not_lt h')
  · rfl
  · exact absurd hji (h'.not_lt h)

theorem FirstLeast.of_lt {bound : α} (hbound : Scalar.isNaN bound = false)
    (hnumber : ∀ j, eligible j → Scalar.isNaN (value j) = false)
    (h : FirstLeast (fun j => eligible j ∧ value j < bound) value i) :
    FirstLeast eligible value i := by
  obtain ⟨hi, hlow⟩ := h.mem
  have hhigh : ∀ j, eligible j → ¬value j < bound → value i < value j := by
    intro j hj hnot
    have hle : bound ≤ value j := OrderedNumbers.not_lt_iff (hnumber j hj) hbound |>.mp hnot
    exact OrderedNumbers.lt_of_lt_of_le (hnumber j hj) hlow hle
  refine ⟨hi, fun j hj => ?_, fun j hji hj => ?_⟩
  · by_cases hlt : value j < bound
    · exact h.le j ⟨hj, hlt⟩
    · exact OrderedNumbers.le_of_lt (hhigh j hj hlt)
  · by_cases hlt : value j < bound
    · exact h.lt j hji ⟨hj, hlt⟩
    · exact hhigh j hj hlt

namespace Leads

theorem taken (h : Leads eligible value n best)
    (hnumber : ∀ j, eligible j → Scalar.isNaN (value j) = false) (hel : eligible n)
    (hlt : ∀ k b, best = some (k, b) → value n < b) :
    Leads eligible value (n + 1) (some (n, value n)) := by
  have hbelow : ∀ j < n, eligible j → value n < value j := by
    intro j hj hj'
    cases h with
    | nothing hnone => exact absurd hj' (hnone j hj)
    | @place i hfirst =>
      exact OrderedNumbers.lt_of_lt_of_le (hnumber j hj') (hlt i _ rfl) (hfirst.le j ⟨hj, hj'⟩)
  refine .place ⟨⟨by omega, hel⟩, ?_, ?_⟩
  · rintro j ⟨hj, hj'⟩
    rcases Nat.lt_succ_iff_lt_or_eq.mp hj with hjn | rfl
    · exact OrderedNumbers.le_of_lt (hbelow j hjn hj')
    · exact OrderedNumbers.le_refl (hnumber j hj')
  · rintro j hj ⟨-, hj'⟩
    exact hbelow j hj hj'

/-- Once all places are scanned, the best is the choice. -/
theorem lowestIndexWins (h : Leads eligible value n best) (hall : ∀ j, eligible j → j < n) :
    LowestIndexWins eligible value (best.map (·.1)) := by
  cases h with
  | nothing hnone =>
    have hnot : ∀ j, ¬eligible j := fun j hj => hnone j (hall j hj) hj
    refine ⟨fun i => ?_, iff_of_true rfl hnot⟩
    exact iff_of_false nofun fun hi => hnot i hi.mem
  | @place i hfirst =>
    have hleast : FirstLeast eligible value i :=
      ⟨hfirst.mem.2, fun j hj => hfirst.le j ⟨hall j hj, hj⟩,
        fun j hji hj => hfirst.lt j hji ⟨hall j hj, hj⟩⟩
    refine ⟨fun j => ⟨?_, ?_⟩, iff_of_false nofun fun hnot => hnot i hleast.mem⟩
    · rintro ⟨⟩
      exact hleast
    · intro hj
      exact congrArg some (hleast.unique hj)

end Leads

namespace IsScan

variable {skips : β → Prop} {valueOf : β → α} {keeps : α → α → Prop}
  {scan : ℕ → Option (ℕ × α) → List β → Option (ℕ × α)} {es : List β}

theorem leads (h : IsScan skips valueOf keeps scan)
    (hkeeps : ∀ {a b}, Scalar.isNaN a = false → Scalar.isNaN b = false → (keeps a b ↔ a ≤ b))
    (hnumber : ∀ j, eligible j → Scalar.isNaN (value j) = false)
    (hes : ∀ k e, es[k]? = some e → (eligible (n + k) ↔ ¬skips e) ∧ value (n + k) = valueOf e)
    (hbest : Leads eligible value n best) :
    Leads eligible value (n + es.length) (scan n best es) := by
  induction es generalizing n best with
  | nil =>
    rw [h.nil]
    exact hbest
  | cons e es ih =>
    obtain ⟨hel, hvalue⟩ : (eligible n ↔ ¬skips e) ∧ value n = valueOf e := hes 0 e rfl
    have hlater : ∀ k e', es[k]? = some e' →
        (eligible (n + 1 + k) ↔ ¬skips e') ∧ value (n + 1 + k) = valueOf e' := by
      intro k e' hk
      rw [Nat.add_assoc, Nat.add_comm 1 k]
      exact hes (k + 1) e' hk
    have hbestNumber : ∀ k b, best = some (k, b) → Scalar.isNaN b = false := by
      rintro k b rfl
      obtain ⟨hk, rfl⟩ := hbest.best_eq
      exact hnumber k hk
    rw [List.length_cons, Nat.add_comm es.length, ← Nat.add_assoc]
    rcases h.cons n best e es with ⟨heq, hpass⟩ | ⟨heq, hnot, hbeats⟩
    · rw [heq]
      refine ih hlater (hbest.passed fun hn => ?_)
      obtain ⟨k, b, hb, hle⟩ := hpass.resolve_left (hel.mp hn)
      rw [← hvalue] at hle
      exact ⟨k, b, hb, (hkeeps (hbestNumber k b hb) (hnumber n hn)).mp hle⟩
    · rw [heq, ← hvalue]
      have hn : eligible n := hel.mpr hnot
      refine ih hlater (hbest.taken hnumber hn fun k b hb => ?_)
      have hnle : ¬b ≤ value n := by
        rw [← hkeeps (hbestNumber k b hb) (hnumber n hn), hvalue]
        exact hbeats k b hb
      exact OrderedNumbers.lt_iff.mpr ⟨⟨hnumber n hn, hbestNumber k b hb⟩, hnle⟩

/-- **The lowest index wins** in a scan of numbers, whichever way it compares them. -/
theorem lowestIndexWins (h : IsScan skips valueOf keeps scan)
    (hkeeps : ∀ {a b}, Scalar.isNaN a = false → Scalar.isNaN b = false → (keeps a b ↔ a ≤ b))
    (hnumber : ∀ j, eligible j → Scalar.isNaN (value j) = false)
    (hall : ∀ j, eligible j → j < es.length)
    (hes : ∀ j e, es[j]? = some e → (eligible j ↔ ¬skips e) ∧ value j = valueOf e) :
    LowestIndexWins eligible value ((scan 0 none es).map (·.1)) := by
  have hstart : Leads eligible value 0 none := .nothing fun j hj => absurd hj (Nat.not_lt_zero j)
  have hend : Leads eligible value (0 + es.length) (scan 0 none es) :=
    h.leads hkeeps hnumber (fun k e hk => by rw [Nat.zero_add]; exact hes k e hk) hstart
  rw [Nat.zero_add] at hend
  exact hend.lowestIndexWins hall

end IsScan

end FirstLeast

/-! ### Smallest entries -/

namespace Vec

variable [Scalar α]

theorem argminFrom_isScan :
    IsScan (fun v : α => Scalar.isNaN v = true) (fun v => v) (fun b v => ¬v < b) argminFrom where
  nil _ _ := rfl
  skip i best v vs hv := by simp [argminFrom, hv]
  keep i k b v vs hb := by simp [argminFrom, hb]
  take i best v vs hv hb := by
    rcases best with _ | ⟨k, b⟩
    · simp [argminFrom, hv]
    · simp [argminFrom, hv, not_not.mp (hb k b rfl)]

theorem argmin_eq_none_iff {x : List α} :
    argmin x = none ↔ ∀ v ∈ x, Scalar.isNaN v = true := by
  rw [argmin, argminFrom_isScan.eq_none_iff, and_iff_right rfl]

theorem getElem?_of_argmin {x : List α} {i : ℕ} {v : α} (h : argmin x = some (i, v)) :
    x[i]? = some v := by
  rcases argminFrom_isScan.eq_some h with hnone | ⟨-, w, hw, -, rfl⟩
  · cases hnone
  · exact hw

variable [OrderedNumbers α]

theorem argmin_lowestIndexWins (x : List α) :
    LowestIndexWins (fun j => j < x.length ∧ Scalar.isNaN (x.getD j 0) = false) (x.getD · 0)
      ((argmin x).map (·.1)) := by
  refine argminFrom_isScan.lowestIndexWins (fun ha hb => ?_) (fun j hj => hj.2) (fun j hj => hj.1)
    fun j v hv => ?_
  · exact OrderedNumbers.not_lt_iff hb ha
  · obtain ⟨hj, rfl⟩ := List.getElem?_eq_some_iff.mp hv
    rw [List.getD_eq_getElem _ _ hj, and_iff_right hj, Bool.not_eq_true]
    exact ⟨Iff.rfl, rfl⟩

/-- **The smallest entry** is a number, no number is smaller, and none before it is equal. -/
theorem argmin_eq_some_iff {x : List α} {i : ℕ} {v : α} :
    argmin x = some (i, v) ↔ x[i]? = some v ∧
      FirstLeast (fun j => j < x.length ∧ Scalar.isNaN (x.getD j 0) = false) (x.getD · 0) i := by
  rw [← (argmin_lowestIndexWins x).some_iff, Option.map_eq_some_iff]
  constructor
  · intro h
    exact ⟨getElem?_of_argmin h, (i, v), h, rfl⟩
  · rintro ⟨hget, ⟨k, w⟩, h, rfl⟩
    rw [getElem?_of_argmin h, Option.some.injEq] at hget
    rw [h, hget]

end Vec

end LinProg
