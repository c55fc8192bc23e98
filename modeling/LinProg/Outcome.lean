/-!
# Outcomes

An operation gives a result, is refused with an error of the domain, or breaks down: a `fault` is
an index outside of its list, two lengths that should agree and do not, a size that does not fit a
machine word, or storage that there is no room for. An operation that can break down but is never
refused gives an `Option`.
-/

namespace LinProg

/-- A result, a refusal, or a breakdown. -/
inductive Outcome (ε α : Type) where
  | ok (a : α)
  | error (e : ε)
  /-- The operation broke down. -/
  | fault
  deriving Repr

namespace Outcome

variable {ε ε' α β : Type}

/-- Goes on with a result and stops at anything else. -/
protected def bind (x : Outcome ε α) (f : α → Outcome ε β) : Outcome ε β :=
  match x with
  | ok a => f a
  | error e => error e
  | fault => fault

instance : Monad (Outcome ε) where
  pure := ok
  bind := Outcome.bind

@[simp] theorem pure_eq (a : α) : (pure a : Outcome ε α) = ok a := rfl

@[simp] theorem ok_bind (a : α) (f : α → Outcome ε β) : (ok a >>= f) = f a := rfl

@[simp] theorem error_bind (e : ε) (f : α → Outcome ε β) : (error e >>= f) = error e := rfl

@[simp] theorem fault_bind (f : α → Outcome ε β) : (fault >>= f) = fault := rfl

/-- A missing value is a breakdown. -/
def ofOption : Option α → Outcome ε α
  | some a => ok a
  | none => fault

/-- An operation that never breaks down. -/
def ofExcept : Except ε α → Outcome ε α
  | .ok a => ok a
  | .error e => error e

/-- Restates the reason of a refusal. -/
def mapError (f : ε → ε') : Outcome ε α → Outcome ε' α
  | ok a => ok a
  | error e => error (f e)
  | fault => fault

/-- Refuses with `e` unless `p` holds. -/
def check (p : Prop) [Decidable p] (e : ε) : Outcome ε Unit := if p then ok () else error e

theorem bind_eq_ok {x : Outcome ε α} {f : α → Outcome ε β} {b : β} :
    (x >>= f) = ok b ↔ ∃ a, x = ok a ∧ f a = ok b := by
  cases x <;> simp

theorem bind_eq_error {x : Outcome ε α} {f : α → Outcome ε β} {e : ε} :
    (x >>= f) = error e ↔ x = error e ∨ ∃ a, x = ok a ∧ f a = error e := by
  cases x <;> simp

theorem bind_eq_fault {x : Outcome ε α} {f : α → Outcome ε β} :
    (x >>= f) = fault ↔ x = fault ∨ ∃ a, x = ok a ∧ f a = fault := by
  cases x <;> simp

@[simp] theorem ofOption_eq_ok {x : Option α} {a : α} :
    (ofOption x : Outcome ε α) = ok a ↔ x = some a := by
  cases x <;> simp [ofOption]

@[simp] theorem ofOption_eq_fault {x : Option α} :
    (ofOption x : Outcome ε α) = fault ↔ x = none := by
  cases x <;> simp [ofOption]

@[simp] theorem ofOption_ne_error {x : Option α} {e : ε} : ofOption x ≠ error e := by
  cases x <;> simp [ofOption]

@[simp] theorem ofExcept_eq_ok {x : Except ε α} {a : α} : ofExcept x = ok a ↔ x = .ok a := by
  cases x <;> simp [ofExcept]

@[simp] theorem ofExcept_eq_error {x : Except ε α} {e : ε} :
    ofExcept x = error e ↔ x = .error e := by
  cases x <;> simp [ofExcept]

@[simp] theorem ofExcept_ne_fault {x : Except ε α} : ofExcept x ≠ fault := by
  cases x <;> simp [ofExcept]

@[simp] theorem mapError_eq_ok {f : ε → ε'} {x : Outcome ε α} {a : α} :
    x.mapError f = ok a ↔ x = ok a := by
  cases x <;> simp [mapError]

@[simp] theorem mapError_eq_error {f : ε → ε'} {x : Outcome ε α} {e : ε'} :
    x.mapError f = error e ↔ ∃ c, x = error c ∧ f c = e := by
  cases x <;> simp [mapError]

@[simp] theorem mapError_eq_fault {f : ε → ε'} {x : Outcome ε α} :
    x.mapError f = fault ↔ x = fault := by
  cases x <;> simp [mapError]

@[simp] theorem mapError_id (x : Outcome ε α) : x.mapError id = x := by cases x <;> rfl

theorem bind_ok_unit (x : Outcome ε Unit) : (x >>= fun _ => ok ()) = x := by cases x <;> rfl

@[simp] theorem check_eq_ok {p : Prop} [Decidable p] {e : ε} {u : Unit} :
    check p e = ok u ↔ p := by
  by_cases h : p <;> simp [check, h]

@[simp] theorem check_eq_error {p : Prop} [Decidable p] {e c : ε} :
    check p e = error c ↔ ¬p ∧ e = c := by
  by_cases h : p <;> simp [check, h]

@[simp] theorem check_ne_fault {p : Prop} [Decidable p] {e : ε} : check p e ≠ fault := by
  by_cases h : p <;> simp [check, h]

end Outcome

end LinProg
