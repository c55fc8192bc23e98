import LinProg.Proofs.Rounded.Formats

/-!
# Ranges of numbers

How far an operation on numbers of 64 bits can carry: `Below k x` bounds the magnitude of a finite
number by `2^k`, and each operation has its bound. A result with a bound inside of the format has
not overflowed (`Below.isFinite`).
-/

open Float.Model (Format UnpackedFloat)

namespace LinProg

namespace Unpacked

open Float.Model.UnpackedFloat

/-- A finite number of a magnitude less than `2^k`. -/
def Within (k : ℤ) : UnpackedFloat → Prop
  | .zero _ => True
  | .finite _ m e _ => ∃ l : ℕ, m < 2 ^ l ∧ l + e ≤ k
  | _ => False

section Rounding

variable {S : Format} {s : Sign} {m l : ℕ} {e k : ℤ}

theorem mantissa_shiftRight (x : ExtendedMantissa) (n : ℕ) :
    (x >>> n).mantissa = x.mantissa / 2 ^ n := by
  change (n.repeat ExtendedMantissa.shiftRightOne x).mantissa = _
  induction n with
  | zero => simp [Nat.repeat]
  | succ n ih =>
    rw [Nat.repeat, ExtendedMantissa.shiftRightOne, ih, Nat.div_div_eq_div_mul, pow_succ]

theorem roundedMantissa_le (x : ExtendedMantissa) : x.roundedMantissa ≤ x.mantissa + 1 := by
  obtain ⟨mantissa, roundBit, stickyBit⟩ := x
  cases roundBit <;> cases stickyBit <;>
    simp only [ExtendedMantissa.roundedMantissa, ExtendedMantissa.accuracy,
      Accuracy.roundToNearestEven] <;> omega

theorem mantissa_ofMantissaAndAccuracy (m : ℕ) (acc : Accuracy) :
    (ExtendedMantissa.ofMantissaAndAccuracy m acc).mantissa = m := by
  unfold ExtendedMantissa.ofMantissaAndAccuracy
  split <;> rfl

theorem targetExponent_of_div_eq_zero (hm : m < 2 ^ l)
    (hl : l < (S.targetExponent (Float.Model.totalExponent m e) - e).toNat) :
    S.targetExponent (Float.Model.totalExponent m e) = S.minExponent := by
  have hlog : m.log2 ≤ l := by
    rcases Nat.eq_zero_or_pos m with rfl | hpos
    · simp
    · exact ((Nat.log2_lt hpos.ne').mpr hm).le
  have hbits : 1 ≤ S.mantissaBits := Nat.le_add_right 1 _
  unfold Format.targetExponent Float.Model.totalExponent at *
  omega

theorem within_roundWithAccuracy (hm : m < 2 ^ l) (hk : l + e ≤ k) (hmin : S.minExponent ≤ k)
    (acc : Accuracy) : Within (k + 1) (roundWithAccuracy S s m e acc) := by
  let j := (S.targetExponent (Float.Model.totalExponent m e) - e).toNat
  let x := ExtendedMantissa.ofMantissaAndAccuracy m acc >>> j
  let r := x.roundedMantissa
  let e₁ := e + j
  let j' := (S.targetExponent (Float.Model.totalExponent r e₁) - e₁).toNat
  let y := ExtendedMantissa.ofMantissaAndAccuracy r .exact >>> j'
  have hr : r ≤ m / 2 ^ j + 1 := by
    have hle := roundedMantissa_le x
    rwa [mantissa_shiftRight, mantissa_ofMantissaAndAccuracy] at hle
  -- the carry is the only thing that makes the bound grow
  have hround : ∃ l' : ℕ, r < 2 ^ l' ∧ l' + e₁ ≤ k + 1 := by
    rcases Nat.lt_or_ge l j with hlj | hjl
    · have hzero : m / 2 ^ j = 0 :=
        Nat.div_eq_of_lt (hm.trans_le (Nat.pow_le_pow_right (by decide) hlj.le))
      have htarget := targetExponent_of_div_eq_zero (S := S) (e := e) hm hlj
      refine ⟨1, by omega, ?_⟩
      simp only [e₁, j, htarget] at hlj ⊢
      omega
    · have hlt : m / 2 ^ j < 2 ^ (l - j) := by
        rw [Nat.div_lt_iff_lt_mul (by positivity), ← pow_add, Nat.sub_add_cancel hjl]
        exact hm
      refine ⟨l - j + 1, ?_, ?_⟩
      · rw [pow_succ]
        have hpos : 0 < 2 ^ (l - j) := by positivity
        omega
      · simp only [e₁]
        omega
  obtain ⟨l', hr', hk'⟩ := hround
  have hy : y.mantissa = r / 2 ^ j' := by
    rw [mantissa_shiftRight, mantissa_ofMantissaAndAccuracy]
  change Within (k + 1) (if h : y.mantissa = 0 then .zero s
    else .finite s y.mantissa (e₁ + j') (Nat.pos_of_ne_zero h))
  split
  · trivial
  · rename_i hne
    rw [hy] at hne
    have hj' : j' ≤ l' := by
      by_contra hlt
      exact hne (Nat.div_eq_of_lt (hr'.trans_le (Nat.pow_le_pow_right (by decide) (by omega))))
    refine ⟨l' - j', ?_, by omega⟩
    rw [hy, Nat.div_lt_iff_lt_mul (by positivity), ← pow_add, Nat.sub_add_cancel hj']
    exact hr'

end Rounding

section Operations

variable {x y : UnpackedFloat} {a k : ℤ}

theorem Within.mul (hx : Within a x) (hy : Within k y) (hmin : -1074 ≤ a + k) :
    Within (a + k + 1) (x.mul .binary64 y) := by
  cases x with
  | infinity s => exact hx.elim
  | notANumber => exact hx.elim
  | zero s =>
    cases y with
    | infinity s' => exact hy.elim
    | notANumber => exact hy.elim
    | zero s' => trivial
    | finite s' m' e' hm' => trivial
  | finite s m e hm =>
    cases y with
    | infinity s' => exact hy.elim
    | notANumber => exact hy.elim
    | zero s' => trivial
    | finite s' m' e' hm' =>
      obtain ⟨l, hl, ha⟩ := hx
      obtain ⟨l', hl', hk⟩ := hy
      have hmul : m * m' < 2 ^ (l + l') := by
        rw [pow_add]
        exact Nat.mul_lt_mul'' hl hl'
      exact within_roundWithAccuracy hmul (by push_cast; omega) hmin .exact

theorem Within.div {s' : Sign} {m' : ℕ} {e' c : ℤ} {hm' : 0 < m'} (hx : Within a x) (hc : c ≤ e')
    (hmin : -1074 ≤ a - c) : Within (a - c + 1) (x.div .binary64 (.finite s' m' e' hm')) := by
  cases x with
  | infinity s => exact hx.elim
  | notANumber => exact hx.elim
  | zero s => trivial
  | finite s m e hm =>
    obtain ⟨l, hl, ha⟩ := hx
    let target := min (e - e') (Format.targetExponent .binary64
      (Float.Model.totalExponent m e - Float.Model.totalExponent m' e'))
    let shift := (e - e' - target).toNat
    have hshift : target + shift = e - e' := by
      have hle : target ≤ e - e' := min_le_left _ _
      omega
    have hquotient : m <<< shift / m' < 2 ^ (l + shift) := by
      refine (Nat.div_le_self _ _).trans_lt ?_
      rw [Nat.shiftLeft_eq, pow_add]
      exact Nat.mul_lt_mul_of_pos_right hl (by positivity)
    exact within_roundWithAccuracy hquotient (by push_cast; omega) hmin _

theorem within_ofNat {n l : ℕ} (h : n < 2 ^ l) : Within (l + 1) (ofNat .binary64 n) := by
  unfold ofNat ofInt UnpackedFloat.normalize
  split
  · rename_i hlt
    have hneg := compare_lt_iff_lt.mp hlt
    omega
  · trivial
  · let target := Format.targetExponent .binary64
      (Float.Model.totalExponent (n : ℤ).toNat 0)
    let shift := (0 - target).toNat
    have hshift : (n : ℤ).toNat <<< shift < 2 ^ (l + shift) := by
      rw [Int.toNat_natCast, Nat.shiftLeft_eq, pow_add]
      exact Nat.mul_lt_mul_of_pos_right h (by positivity)
    exact within_roundWithAccuracy (k := l) hshift (by push_cast; omega) (by
      have hpos : (0 : ℤ) ≤ l := by positivity
      exact le_trans (by decide) hpos) .exact

theorem within_unpack_packComponents (s : Sign) {b : ℕ} (hb : b + 1 < 2 ^ 11) (m : BitVec 52)
    (hlow : -1022 ≤ k) (hk : b ≠ 0 → (b : ℤ) - 1022 ≤ k) :
    Within k (unpack .binary64 (packComponents .binary64 s (BitVec.ofNat 11 b) m)) := by
  have hspecial : BitVec.ofNat 11 b ≠ -1#11 := by
    intro heq
    have hnat := congrArg BitVec.toNat heq
    simp at hnat
    omega
  have hm : m.toNat < 2 ^ 52 := m.isLt
  unfold unpack
  simp only [unpackMantissa_packComponents, unpackExponent_packComponents]
  rw [if_neg hspecial]
  split
  · split
    · trivial
    · rename_i hzero _
      have hb0 : b = 0 := by
        have hnat := congrArg BitVec.toNat hzero
        simp at hnat
        omega
      subst hb0
      exact ⟨52, hm, hlow⟩
  · rename_i hne
    have hb0 : b ≠ 0 := by
      rintro rfl
      exact hne rfl
    have hmod : b % 2 ^ 11 = b := Nat.mod_eq_of_lt (by omega)
    have hlt : (1#1 ++ m).toNat < 2 ^ 53 := (1#1 ++ m).isLt
    refine ⟨53, hlt, ?_⟩
    have hbias : (Format.exponentBias .binary64 : ℤ) = 1023 := by decide
    rw [BitVec.toNat_ofNat, hmod, hbias]
    have hle := hk hb0
    push_cast
    omega

theorem Within.unpack_pack (h : Within k x) (hlow : -1022 ≤ k) (hhigh : k ≤ 971) :
    Within k (unpack .binary64 (pack .binary64 x)) := by
  cases x with
  | infinity s => exact h.elim
  | notANumber => exact h.elim
  | zero s =>
    change Within k (unpack .binary64 (packedZero .binary64 s))
    rw [unpack_packedZero]
    trivial
  | finite s m e hm =>
    obtain ⟨l, hl, hk⟩ := h
    have hbias : (Format.exponentBias .binary64 : ℤ) = 1023 := by decide
    let b := (e + (Format.exponentBias .binary64 : ℤ) + (52 : ℕ)).toNat
    have hb : b + 1 < 2 ^ 11 := by
      simp only [b, hbias]
      omega
    unfold pack
    rw [if_neg (not_le.mpr hb)]
    split
    · rename_i hnormal
      refine within_unpack_packComponents s hb _ hlow fun hb0 => ?_
      have hlog : m.log2 = 52 := by
        have hbits : Format.mantissaBits .binary64 = 53 := rfl
        omega
      have hl' : 52 < l := by
        rw [← hlog]
        exact (Nat.log2_lt hm.ne').mpr hl
      simp only [b, hbias] at hb0 ⊢
      omega
    · exact within_unpack_packComponents s (b := 0) (by decide) _ hlow fun hb0 => absurd rfl hb0

end Operations

end Unpacked

open Unpacked

/-- The number is finite and of a magnitude less than `2^k`. -/
def Below (k : ℤ) (x : Float) : Prop := Within k (Packed.unpack x)

section Below

variable {x y : Float} {a k : ℤ}

theorem Below.isFinite (h : Below k x) : x.isFinite = true := by
  have hfinite : (Packed.unpack x).isFinite = true := by
    revert h
    unfold Below
    cases Packed.unpack x with
    | infinity s => exact False.elim
    | notANumber => exact False.elim
    | zero s => exact fun _ => rfl
    | finite s m e hm => exact fun _ => rfl
  exact (Packed.isFinite_eq x).trans hfinite

theorem below_pack {x : UnpackedFloat} (h : Within k x) (hlow : -1022 ≤ k) (hhigh : k ≤ 971) :
    Below k (Packed.pack x) := h.unpack_pack hlow hhigh

theorem below_zero : Below k (0 : Float) := by
  have hzero : (0 : Float) = Packed.pack (.zero .positive) := by decide +kernel
  rw [Below, hzero, Packed.unpack_zero]
  trivial

theorem Below.mul (hx : Below a x) (hy : Below k y) (hlow : -1022 ≤ a + k)
    (hhigh : a + k < 971) : Below (a + k + 1) (x * y) := by
  have hmul : x * y = Packed.pack ((Packed.unpack x).mul .binary64 (Packed.unpack y)) := rfl
  rw [hmul]
  exact below_pack (Within.mul hx hy (by omega)) (by omega) (by omega)

/-- The last place of a number that is not zero is at least `2^c`. -/
def Above (c : ℤ) (x : Float) : Prop :=
  ∃ s m e hm, Packed.unpack x = .finite s m e hm ∧ c ≤ e

theorem Below.div {c : ℤ} (hx : Below a x) (hy : Above c y) (hlow : -1022 ≤ a - c)
    (hhigh : a - c < 971) : Below (a - c + 1) (x / y) := by
  obtain ⟨s, m, e, hm, hview, hc⟩ := hy
  have hdiv : x / y = Packed.pack ((Packed.unpack x).div .binary64 (Packed.unpack y)) := rfl
  rw [hdiv, hview]
  exact below_pack (Within.div hx hc (by omega)) (by omega) (by omega)

theorem below_toFloat (n : UInt64) : Below 65 n.toFloat :=
  below_pack (within_ofNat n.toNat_lt) (by decide) (by decide)

end Below

end LinProg
