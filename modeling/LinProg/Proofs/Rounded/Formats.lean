import LinProg.Proofs.Rounded.Zeros

/-!
# Zeros in the machine formats

The two machine formats work on unpacked numbers and round when they pack a result (`Packed`). Zeros
are never rounded, so what the operations do with them can be read off the unpacked numbers:
`Float` and `Float32` have the laws of `OrderedZeros`.

Packing rounds, so unpacking does not undo it in general. It does for the negative of a number that
was packed before, which has the same bits but for the sign (`Unpacked.unpack_pack_neg`).
-/

open Float.Model (Format UnpackedFloat)

namespace LinProg

namespace Unpacked

open Float.Model.UnpackedFloat

variable {S : Format}

theorem unpack_packComponents_neg (s : Sign) (e : BitVec S.exponentBits)
    (m : BitVec S.mantissaBitsWithoutImplicit) :
    unpack S (packComponents S (-s) e m) = (unpack S (packComponents S s e m)).neg := by
  unfold unpack
  simp only [unpackMantissa_packComponents, unpackExponent_packComponents,
    unpackSign_packComponents, Sign.ofBitVec_toBitVec]
  split_ifs <;> rfl

theorem pack_neg {x : UnpackedFloat} (hx : x ≠ .notANumber) :
    ∃ s e m, pack S x = packComponents S s e m ∧
      pack S x.neg = packComponents S (-s) e m := by
  cases x with
  | notANumber => exact absurd rfl hx
  | infinity s => exact ⟨s, _, _, rfl, rfl⟩
  | zero s => exact ⟨s, _, _, rfl, rfl⟩
  | finite s m e hm =>
    simp only [neg, pack]
    split_ifs
    · exact ⟨s, _, _, rfl, rfl⟩
    · exact ⟨s, _, _, rfl, rfl⟩
    · exact ⟨s, _, _, rfl, rfl⟩

theorem unpack_pack_neg {b : BitVec S.numBits} (hb : S.Valid b)
    (hS : 2 ≤ S.exponentBits) :
    unpack S (pack S (unpack S b).neg) = (unpack S b).neg := by
  by_cases hx : unpack S b = .notANumber
  · rw [hx]
    exact unpack_packedNaN
  · obtain ⟨s, e, m, hpack, hneg⟩ := pack_neg (S := S) hx
    rw [pack_unpack_of_valid hb hS] at hpack
    rw [hneg, unpack_packComponents_neg, ← hpack]

variable {x y : UnpackedFloat}

theorem beq_zero_iff {s : Sign} : x.beq (.zero s) = true ↔ ∃ s', x = .zero s' := by
  cases x with
  | zero s' => simp [UnpackedFloat.beq, UnpackedFloat.compare]
  | notANumber => simp [UnpackedFloat.beq, UnpackedFloat.compare]
  | infinity s' => cases s' <;> simp [UnpackedFloat.beq, UnpackedFloat.compare]
  | finite s' m e hm => cases s' <;> simp [UnpackedFloat.beq, UnpackedFloat.compare]

theorem compare_swap (x y : UnpackedFloat) : y.compare x = (x.compare y).map Ordering.swap := by
  cases x with
  | notANumber => cases y <;> rfl
  | zero s =>
    cases y with
    | notANumber => rfl
    | zero s' => rfl
    | infinity s' => cases s' <;> rfl
    | finite s' m' e' hm' => cases s' <;> rfl
  | infinity s =>
    cases y with
    | notANumber => rfl
    | zero s' => cases s <;> rfl
    | infinity s' => cases s <;> cases s' <;> rfl
    | finite s' m' e' hm' => cases s <;> rfl
  | finite s m e hm =>
    cases y with
    | notANumber => rfl
    | zero s' => cases s <;> rfl
    | infinity s' => cases s <;> cases s' <;> rfl
    | finite s' m' e' hm' =>
      have hswap : (compare e' e).then (compare m' m) =
          ((compare e e').then (compare m m')).swap := by
        rw [Ordering.swap_then, Int.compare_swap, Nat.compare_swap]
      cases s <;> cases s' <;> simp [UnpackedFloat.compare, hswap]

theorem not_le_of_lt (h : x.lt y = true) : ¬y.le x = true := by
  have hlt : x.compare y = some .lt := beq_iff_eq.mp h
  rw [UnpackedFloat.le, compare_swap, hlt]
  decide

theorem zero_le_of_zero_le {s s' : Sign} (h : (UnpackedFloat.zero s).le x = true) :
    (UnpackedFloat.zero s').le x = true := by
  cases x with
  | notANumber => cases h
  | zero s'' => rfl
  | infinity s'' =>
    cases s'' with
    | negative => cases h
    | positive => rfl
  | finite s'' m e hm =>
    cases s'' with
    | negative => cases h
    | positive => rfl

theorem neg_le_zero {s s' : Sign} (h : (UnpackedFloat.zero s).le x = true) :
    x.neg.le (.zero s') = true := by
  cases x with
  | notANumber => cases h
  | zero s'' => rfl
  | infinity s'' =>
    cases s'' with
    | negative => cases h
    | positive => rfl
  | finite s'' m e hm =>
    cases s'' with
    | negative => cases h
    | positive => rfl

theorem eq_finite {s : Sign} (hx : x.isFinite = true) (hne : x.beq (.zero s) = false) :
    ∃ s' m e hm, x = .finite s' m e hm := by
  cases x with
  | notANumber => cases hx
  | infinity s' => cases hx
  | zero s' => cases hne
  | finite s' m e hm => exact ⟨s', m, e, hm, rfl⟩

theorem mul_zero_of_isFinite {s : Sign} (hx : x.isFinite = true) :
    ∃ s', x.mul S (.zero s) = .zero s' := by
  cases x with
  | notANumber => cases hx
  | infinity s' => cases hx
  | zero s' => exact ⟨_, rfl⟩
  | finite s' m e hm => exact ⟨_, rfl⟩

theorem sub_zero_of_isFinite {s : Sign} (hx : x.isFinite = true) :
    x.sub S (.zero s) = x ∨ (∃ s', x = .zero s') ∧ ∃ s', x.sub S (.zero s) = .zero s' := by
  cases x with
  | notANumber => cases hx
  | infinity s' => cases hx
  | zero s' =>
    right
    refine ⟨⟨s', rfl⟩, ?_⟩
    cases s <;> cases s' <;> exact ⟨_, rfl⟩
  | finite s' m e hm => exact Or.inl rfl

end Unpacked

open Unpacked

/-- A machine format: the operations are those on unpacked numbers, with the result packed. -/
class Packed (α : Type) [Scalar α] where
  format : Format
  unpack : α → UnpackedFloat
  pack : UnpackedFloat → α
  pack_unpack : ∀ a, pack (unpack a) = a
  unpack_zero : ∀ s, unpack (pack (.zero s)) = .zero s
  unpack_neg : ∀ a : α, unpack (-a) = (unpack a).neg
  zero_eq : 0 = pack (.zero .positive)
  /-- One is a positive number. -/
  unpack_one : ∃ m e hm, unpack 1 = .finite .positive m e hm
  abs_one_sub_one : Scalar.abs (1 - 1 : α) = 0
  neg_eq : ∀ a : α, -a = pack (unpack a).neg
  abs_eq : ∀ a : α, Scalar.abs a = pack (unpack a).abs
  sub_eq : ∀ a b : α, a - b = pack ((unpack a).sub format (unpack b))
  mul_eq : ∀ a b : α, a * b = pack ((unpack a).mul format (unpack b))
  div_eq : ∀ a b : α, a / b = pack ((unpack a).div format (unpack b))
  isFinite_eq : ∀ a : α, Scalar.isFinite a = (unpack a).isFinite
  beq_eq : ∀ a b : α, (a == b) = (unpack a).beq (unpack b)
  le_iff : ∀ a b : α, a ≤ b ↔ (unpack a).le (unpack b) = true
  lt_iff : ∀ a b : α, a < b ↔ (unpack a).lt (unpack b) = true

namespace Packed

variable {α : Type} [Scalar α] [Packed α]

theorem isZero_iff {z : α} : (z == 0) = true ↔ ∃ s, z = pack (.zero s) := by
  rw [beq_eq, zero_eq, unpack_zero, beq_zero_iff]
  constructor
  · rintro ⟨s, hs⟩
    exact ⟨s, by rw [← pack_unpack z, hs]⟩
  · rintro ⟨s, rfl⟩
    exact ⟨s, unpack_zero s⟩

instance exactZeros : ExactZeros α where
  zero_isZero := isZero_iff.mpr ⟨.positive, zero_eq⟩
  one_notZero := by
    obtain ⟨m, e, hm, hone⟩ := @unpack_one α _ _
    rw [beq_eq, hone, zero_eq, unpack_zero]
    rfl
  div_isZero := by
    intro z v hz hv hne
    obtain ⟨s, rfl⟩ := isZero_iff.mp hz
    rw [isFinite_eq] at hv
    rw [beq_eq, zero_eq, unpack_zero] at hne
    obtain ⟨s', m, e, hm, hview⟩ := eq_finite hv hne
    exact isZero_iff.mpr ⟨s / s', by rw [div_eq, unpack_zero, hview]; rfl⟩
  mul_isZero := by
    intro v z hv hz
    obtain ⟨s, rfl⟩ := isZero_iff.mp hz
    rw [isFinite_eq] at hv
    obtain ⟨s', hmul⟩ := mul_zero_of_isFinite (S := format α) (s := s) hv
    exact isZero_iff.mpr ⟨s', by rw [mul_eq, unpack_zero, hmul]⟩
  sub_isZero := by
    intro v z hv hz
    obtain ⟨s, rfl⟩ := isZero_iff.mp hz
    rw [isFinite_eq] at hv
    rw [sub_eq, unpack_zero]
    rcases sub_zero_of_isFinite (S := format α) (s := s) hv with hsub | ⟨⟨s', hv'⟩, s'', hsub⟩
    · left
      rw [hsub, pack_unpack]
    · right
      rw [hsub]
      exact ⟨isZero_iff.mpr ⟨s', by rw [← hv', pack_unpack]⟩, isZero_iff.mpr ⟨s'', rfl⟩⟩

instance orderedZeros : OrderedZeros α where
  abs_isZero := by
    intro z hz
    obtain ⟨s, rfl⟩ := isZero_iff.mp hz
    rw [abs_eq, unpack_zero, zero_eq]
    rfl
  abs_isZero_sub_one := by
    intro z hz
    obtain ⟨s, rfl⟩ := isZero_iff.mp hz
    obtain ⟨m, e, hm, hone⟩ := @unpack_one α _ _
    have hneg : pack (.zero s) - 1 = (-1 : α) := by
      rw [sub_eq, unpack_zero, hone, neg_eq, hone]
      rfl
    rw [hneg, abs_eq, unpack_neg, hone, ← pack_unpack (1 : α), hone]
    rfl
  abs_one_sub_one := abs_one_sub_one
  not_le_of_lt := by
    intro a b h
    rw [le_iff]
    exact Unpacked.not_le_of_lt ((lt_iff a b).mp h)
  isZero_le := by
    intro z t hz ht
    obtain ⟨s, rfl⟩ := isZero_iff.mp hz
    rw [le_iff, zero_eq, unpack_zero] at ht
    rw [le_iff, unpack_zero]
    exact zero_le_of_zero_le ht
  neg_le_isZero := by
    intro z t hz ht
    obtain ⟨s, rfl⟩ := isZero_iff.mp hz
    rw [le_iff, zero_eq, unpack_zero] at ht
    rw [le_iff, unpack_neg, unpack_zero]
    exact neg_le_zero ht

end Packed

instance : Packed Float where
  format := .binary64
  unpack a := a.toModel.unpack
  pack x := .ofModel (.pack x)
  pack_unpack a := a.ofBits_toBits
  unpack_zero _ := Float.Model.UnpackedFloat.unpack_packedZero
  unpack_neg a := unpack_pack_neg a.toModel.valid (by decide)
  zero_eq := by decide +kernel
  unpack_one := ⟨_, _, _, rfl⟩
  abs_one_sub_one := by decide +kernel
  neg_eq _ := rfl
  abs_eq _ := rfl
  sub_eq _ _ := rfl
  mul_eq _ _ := rfl
  div_eq _ _ := rfl
  isFinite_eq _ := rfl
  beq_eq _ _ := rfl
  le_iff _ _ := decide_eq_true_iff
  lt_iff _ _ := decide_eq_true_iff

instance : Packed Float32 where
  format := .binary32
  unpack a := a.toModel.unpack
  pack x := .ofModel (.pack x)
  pack_unpack a := a.ofBits_toBits
  unpack_zero _ := Float.Model.UnpackedFloat.unpack_packedZero
  unpack_neg a := unpack_pack_neg a.toModel.valid (by decide)
  zero_eq := by decide +kernel
  unpack_one := ⟨_, _, _, rfl⟩
  abs_one_sub_one := by decide +kernel
  neg_eq _ := rfl
  abs_eq _ := rfl
  sub_eq _ _ := rfl
  mul_eq _ _ := rfl
  div_eq _ _ := rfl
  isFinite_eq _ := rfl
  beq_eq _ _ := rfl
  le_iff _ _ := decide_eq_true_iff
  lt_iff _ _ := decide_eq_true_iff

end LinProg
