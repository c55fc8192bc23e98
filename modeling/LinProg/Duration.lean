import LinProg.Outcome
import LinProg.Size

/-!
# Durations and time

A duration is a whole number of nanoseconds. A `Timed` computation may look at a clock while it
runs; what it does with the readings is part of the value, and the clock is not. `Timed.runFrom`
gives it the readings of a clock that is known in advance, and `Timed.Yields` says which results
some clock leads to.
-/

namespace LinProg

/-- A span of time. -/
structure Duration where
  /-- Its length in nanoseconds. -/
  nanoseconds : Nat
  deriving Repr, DecidableEq

namespace Duration

def zero : Duration := ⟨0⟩

def seconds (n : Nat) : Duration := ⟨n * 1000000000⟩

/-- The whole seconds of a duration. -/
def secs (d : Duration) : Nat := d.nanoseconds / 1000000000

/-- The nanoseconds that are left after the whole seconds. -/
def nanos (d : Duration) : Nat := d.nanoseconds % 1000000000

/-- Seconds and nanoseconds together. A billion nanoseconds or more carry into the seconds, whose
count has to fit 64 bits. -/
def ofParts? (secs nanos : Nat) : Option Duration :=
  let d : Duration := ⟨secs * 1000000000 + nanos⟩
  (Size.fit? d.secs).map fun _ => d

/-- The time from `start` to `now`. -/
def since (start now : Duration) : Duration := ⟨now.nanoseconds - start.nanoseconds⟩

/-- `d` is longer than `limit`. -/
def exceeds (d limit : Duration) : Bool := limit.nanoseconds < d.nanoseconds

end Duration

/-- A computation that may look at a clock. -/
inductive Timed (β : Type) where
  | done (b : β)
  /-- Goes on with the time that the clock shows. -/
  | look (next : Duration → Timed β)

namespace Timed

variable {β γ : Type}

protected def bind (x : Timed β) (f : β → Timed γ) : Timed γ :=
  match x with
  | done b => f b
  | look next => look fun now => (next now).bind f

instance : Monad Timed where
  pure := done
  bind := Timed.bind

@[simp] theorem pure_eq (b : β) : (pure b : Timed β) = done b := rfl

@[simp] theorem done_bind (b : β) (f : β → Timed γ) : (done b >>= f) = f b := rfl

@[simp] theorem look_bind (next : Duration → Timed β) (f : β → Timed γ) :
    (look next >>= f) = look fun now => next now >>= f := rfl

def now : Timed Duration := look done

/-- The result under a clock whose readings are given in advance, from the `i`-th on. -/
def runFrom (clock : Nat → Duration) (i : Nat) : Timed β → β
  | done b => b
  | look next => runFrom clock (i + 1) (next (clock i))

/-- The result under a clock whose readings are given in advance. -/
def run (clock : Nat → Duration) (x : Timed β) : β := x.runFrom clock 0

/-- Some clock leads to the result `b`. -/
def Yields : Timed β → β → Prop
  | done b', b => b' = b
  | look next, b => ∃ now, (next now).Yields b

theorem yields_done {b c : β} : (done b).Yields c ↔ b = c := Iff.rfl

theorem yields_runFrom (clock : Nat → Duration) (i : Nat) (x : Timed β) :
    x.Yields (x.runFrom clock i) := by
  induction x generalizing i with
  | done b => rfl
  | look next ih => exact ⟨clock i, ih _ _⟩

theorem exists_yields_ok {ε : Type} {x : Timed (Outcome ε β)} {P : β → Prop}
    [DecidablePred P]
    (h : (match x.runFrom (fun _ => .zero) 0 with
      | .ok b => decide (P b)
      | _ => false) = true) : ∃ b, x.Yields (.ok b) ∧ P b := by
  have hyields := yields_runFrom (fun _ => .zero) 0 x
  cases hx : x.runFrom (fun _ => .zero) 0 with
  | error e =>
    rw [hx] at h
    cases h
  | fault =>
    rw [hx] at h
    cases h
  | ok b =>
    rw [hx] at hyields h
    exact ⟨b, hyields, of_decide_eq_true h⟩

theorem yields_bind {x : Timed β} {f : β → Timed γ} {c : γ} :
    (x >>= f).Yields c ↔ ∃ b, x.Yields b ∧ (f b).Yields c := by
  induction x with
  | done b => simp [Yields]
  | look next ih => simp only [look_bind, Yields, ih]; grind

end Timed

end LinProg
