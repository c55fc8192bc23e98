import LinProg.Proofs.Exact.Vectors

/-!
# Exact arithmetic with checked divisions

In a field a division by zero gives zero. `Checked K` has one more element for it, `undefined`, that
takes the place of the values that are no numbers: it is not finite, it differs from everything and
every operation on it gives it again. On numbers the operations are those of the field, so a vector
of numbers has the products and norms it has in exact arithmetic.
-/

namespace LinProg

/-- A number of a field, or the result of a division by zero. -/
inductive Checked (K : Type) where
  | number (a : K)
  | undefined

namespace Checked

section Operations

variable {K : Type}

/-- An operation on numbers; there is no result when one of the two is undefined. -/
def lift₂ (f : K → K → Checked K) : Checked K → Checked K → Checked K
  | number a, number b => f a b
  | _, _ => undefined

def lift (f : K → K) : Checked K → Checked K
  | number a => number (f a)
  | undefined => undefined

/-- A relation between numbers, which undefined values are not in. -/
def Relates (r : K → K → Prop) : Checked K → Checked K → Prop
  | number a, number b => r a b
  | _, _ => False

instance (r : K → K → Prop) [∀ a b, Decidable (r a b)] : ∀ a b, Decidable (Relates r a b)
  | number a, number b => inferInstanceAs (Decidable (r a b))
  | number _, undefined => isFalse id
  | undefined, _ => isFalse id

/-- The number, zero if there is none. -/
def value [Zero K] : Checked K → K
  | number a => a
  | undefined => 0

end Operations

variable {K : Type} [Field K] [LinearOrder K] [Exact K]

instance : Scalar (Checked K) where
  zero := number 0
  one := number 1
  add := lift₂ fun a b => number (a + b)
  sub := lift₂ fun a b => number (a - b)
  mul := lift₂ fun a b => number (a * b)
  div := lift₂ fun a b => if b = 0 then undefined else number (a / b)
  neg := lift (-·)
  lt := Relates (· < ·)
  le := Relates (· ≤ ·)
  beq a b := decide (Relates (· = ·) a b)
  ofScientific mantissa negative exponent :=
    number (OfScientific.ofScientific mantissa negative exponent)
  decidableLT := inferInstanceAs (∀ a b, Decidable (Relates (· < ·) a b))
  decidableLE := inferInstanceAs (∀ a b, Decidable (Relates (· ≤ ·) a b))
  abs := lift (|·|)
  sqrt := lift Exact.sqrt
  isFinite
    | number _ => true
    | undefined => false
  epsilon := number Exact.epsilon
  bytes := 0

theorem stores (n : ℕ) : Scalar.Stores (Checked K) n := by
  simp [Scalar.Stores, Scalar.bytes]

theorem zero_eq : (0 : Checked K) = number 0 := rfl

theorem one_eq : (1 : Checked K) = number 1 := rfl

@[simp] theorem number_add (a b : K) : number a + number b = number (a + b) := rfl

@[simp] theorem number_mul (a b : K) : number a * number b = number (a * b) := rfl

theorem number_div {b : K} (hb : b ≠ 0) (a : K) : number a / number b = number (a / b) :=
  if_neg hb

theorem mul_one_add_div_zero (a b : K) :
    number a * (1 + number b / number 0) = (undefined : Checked K) := by
  have hdiv : (number b / number 0 : Checked K) = undefined := if_pos rfl
  rw [hdiv]
  rfl

@[simp] theorem number_lt {a b : K} : number a < number b ↔ a < b := Iff.rfl

@[simp] theorem number_le {a b : K} : number a ≤ number b ↔ a ≤ b := Iff.rfl

@[simp] theorem abs_number (a : K) : Scalar.abs (number a) = number |a| := rfl

@[simp] theorem sqrt_number (a : K) : Scalar.sqrt (number a) = number (Scalar.sqrt a) := rfl

theorem epsilon_eq : (Scalar.epsilon : Checked K) = number Scalar.epsilon := rfl

@[simp] theorem isNaN_number (a : K) : Scalar.isNaN (number a) = false := by
  have heq : (number a == number a) = true := decide_eq_true (show Relates (· = ·) _ _ from rfl)
  rw [Scalar.isNaN, heq]
  rfl

@[simp] theorem max_number (a b : K) :
    Scalar.max (number a) (number b) = number (Scalar.max a b) := by
  simp only [Scalar.max, isNaN_number, Exact.isNaN_eq_false, number_lt, apply_ite number]

theorem eq_number_of_isFinite {a : Checked K} (h : Scalar.isFinite a = true) :
    a = number a.value := by
  cases a with
  | number a => rfl
  | undefined => cases h

end Checked

namespace Vec

open Checked

variable {K : Type} [Field K] [LinearOrder K] [Exact K]

theorem map_value_of_allFinite {x : List (Checked K)} (h : allFinite x = true) :
    x = (x.map Checked.value).map number := by
  rw [List.map_map]
  refine (List.map_id x).symm.trans (List.map_congr_left fun a ha => ?_)
  exact eq_number_of_isFinite (List.all_eq_true.mp h a ha)

@[simp] theorem allFinite_map_number (x : List K) : allFinite (x.map number) = true := by
  rw [allFinite, List.all_map]
  exact List.all_eq_true.mpr fun _ _ => rfl

omit [Field K] [LinearOrder K] [Exact K] in
theorem zipWith_map_number {f : Checked K → Checked K → Checked K} {g : K → K → K}
    (h : ∀ a b, f (number a) (number b) = number (g a b)) (x y : List K) :
    List.zipWith f (x.map number) (y.map number) = (List.zipWith g x y).map number := by
  rw [List.zipWith_map, List.map_zipWith]
  simp only [h]

@[simp] theorem dot_map_number (x y : List K) :
    dot (x.map number) (y.map number) = number (dot x y) := by
  rw [dot, List.zip_map, List.foldl_map, zero_eq]
  exact List.foldl_hom number fun _ _ => rfl

theorem dot?_map_number (x y : List K) :
    dot? (x.map number) (y.map number) = (dot? x y).map number := by
  simp only [dot?, List.length_map, dot_map_number, apply_ite (Option.map number), Option.map_some,
    Option.map_none]

@[simp] theorem normInf_map_number (x : List K) :
    normInf (x.map number) = number (normInf x) := by
  have habs : (x.map number).map Scalar.abs = (x.map Scalar.abs).map number := by
    rw [List.map_map, List.map_map]
    rfl
  rw [normInf, habs, List.foldl_map, zero_eq]
  exact List.foldl_hom number fun a b => max_number a b

theorem distance2?_map_number (x y : List K) :
    distance2? (x.map number) (y.map number) = (distance2? x y).map number := by
  have hsum : squaredDistance (x.map number) (y.map number) = number (squaredDistance x y) := by
    rw [squaredDistance, List.zip_map, List.foldl_map, zero_eq]
    exact List.foldl_hom number fun _ _ => rfl
  simp only [distance2?, List.length_map, hsum, sqrt_number, apply_ite (Option.map number),
    Option.map_some, Option.map_none]

theorem axpy?_map_number (a : K) (x y : List K) :
    axpy? (number a) (x.map number) (y.map number) = (axpy? a x y).map (List.map number) := by
  have haxpy : axpy (number a) (x.map number) (y.map number) = (axpy a x y).map number :=
    zipWith_map_number (fun _ _ => rfl) x y
  simp only [axpy?, List.length_map, haxpy, apply_ite (Option.map (List.map number)),
    Option.map_some, Option.map_none]

theorem argmin_map_number (x : List K) :
    argmin (x.map number) = (argmin x).map fun e => (e.1, number e.2) := by
  have hscan : ∀ (i : ℕ) (best : Option (ℕ × K)),
      argminFrom i (best.map fun e => (e.1, number e.2)) (x.map number) =
        (argminFrom i best x).map fun e => (e.1, number e.2) := by
    induction x with
    | nil => exact fun i best => rfl
    | cons v x ih =>
      intro i best
      rw [List.map_cons]
      unfold argminFrom
      rw [← ih]
      cases best with
      | none => simp
      | some b => simp [apply_ite (Option.map fun e : ℕ × K => (e.1, number e.2))]
  exact hscan 0 none

end Vec

end LinProg
