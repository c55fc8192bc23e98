import LinProg.Proofs.Rounded.Formats

/-!
# Values that have overflowed

In the machine formats an infinity, or what is not a number, leaves no finite difference to anything
and no finite quotient by anything (`LastingOverflow`). So what once has overflowed can be compared
and copied, but no subtraction and no division makes it finite again. Exact arithmetic has the laws,
as all its values are finite.
-/

open Float.Model (Format UnpackedFloat)

namespace LinProg

/-- Subtractions and divisions give no finite result for a first operand that is not finite. -/
class LastingOverflow (α : Type) [Scalar α] : Prop where
  isFinite_zero : Scalar.isFinite (0 : α) = true
  isFinite_of_sub : ∀ {a b : α}, Scalar.isFinite (a - b) = true → Scalar.isFinite a = true
  isFinite_of_div : ∀ {a b : α}, Scalar.isFinite (a / b) = true → Scalar.isFinite a = true

instance {K : Type} [Field K] [LinearOrder K] [Exact K] : LastingOverflow K where
  isFinite_zero := rfl
  isFinite_of_sub := fun _ => rfl
  isFinite_of_div := fun _ => rfl

namespace Unpacked

variable {S : Format} {x y : UnpackedFloat}

theorem isFinite_of_sub (h : (x.sub S y).isFinite = true) : x.isFinite = true := by
  cases x with
  | notANumber => cases y <;> cases h
  | infinity s =>
    cases y with
    | infinity s' =>
      revert h
      simp only [UnpackedFloat.sub]
      split <;> nofun
    | notANumber => cases h
    | zero s' => cases h
    | finite s' m e hm => cases h
  | zero s => rfl
  | finite s m e hm => rfl

theorem isFinite_of_div (h : (x.div S y).isFinite = true) : x.isFinite = true := by
  cases x with
  | notANumber => cases y <;> cases h
  | infinity s => cases y <;> cases h
  | zero s => rfl
  | finite s m e hm => rfl

end Unpacked

/-- A format that has room for the numbers that are not finite. -/
class PacksInfinities (α : Type) [Scalar α] [Packed α] : Prop where
  isFinite_of_pack : ∀ {x : UnpackedFloat},
    (Packed.unpack (Packed.pack x : α)).isFinite = true → x.isFinite = true

instance {α : Type} [Scalar α] [Packed α] [PacksInfinities α] : LastingOverflow α where
  isFinite_zero := by rw [Packed.isFinite_eq, Packed.zero_eq, Packed.unpack_zero]; rfl
  isFinite_of_sub := by
    intro a b h
    rw [Packed.isFinite_eq, Packed.sub_eq] at h
    rw [Packed.isFinite_eq]
    exact Unpacked.isFinite_of_sub (PacksInfinities.isFinite_of_pack h)
  isFinite_of_div := by
    intro a b h
    rw [Packed.isFinite_eq, Packed.div_eq] at h
    rw [Packed.isFinite_eq]
    exact Unpacked.isFinite_of_div (PacksInfinities.isFinite_of_pack h)

instance : PacksInfinities Float where
  isFinite_of_pack := by
    intro x h
    cases x with
    | notANumber => cases h
    | infinity s => cases s <;> cases h
    | zero s => rfl
    | finite s m e hm => rfl

instance : PacksInfinities Float32 where
  isFinite_of_pack := by
    intro x h
    cases x with
    | notANumber => cases h
    | infinity s => cases s <;> cases h
    | zero s => rfl
    | finite s m e hm => rfl

end LinProg
