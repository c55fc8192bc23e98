import LinProg.Proofs.Json.Numerals
import LinProg.Proofs.Rounded.Ranges
import LinProg.Proofs.Rows
import LinProg.Json.Fields

/-!
# What numbers in texts stand for

Whatever is read as a number is finite (`Numeral.isFinite_of_float?`), and so is whatever is written
as one (`Numeral.isSome_ofFloat?`). Every count of 64 bits can be read as a number too
(`Numeral.exists_float?_ofNat`). A number is *restored* if what is written for it is read as the
same number; what is not finite never is (`Json.Restores.isFinite`).
-/

namespace LinProg

theorem Float.isFinite_neg (x : Float) : (-x).isFinite = x.isFinite := by
  have hneg : (Packed.unpack (-x)).isFinite = (Packed.unpack x).isFinite := by
    rw [Packed.unpack_neg]
    cases Packed.unpack x <;> rfl
  exact hneg

namespace Numeral

/-- The exponent of the last place of a number that is not zero. -/
def lastPlace? (x : Float) : Option ℤ :=
  match Packed.unpack x with
  | .finite _ _ e _ => some e
  | _ => none

theorem above_of_lastPlace? {x : Float} {c : ℤ} (h : (lastPlace? x).any (c ≤ ·) = true) :
    Above c x := by
  unfold lastPlace? at h
  cases hview : Packed.unpack x with
  | finite s m e hm =>
    rw [hview] at h
    exact ⟨s, m, e, hm, hview, by simpa using h⟩
  | infinity s =>
    rw [hview] at h
    cases h
  | notANumber =>
    rw [hview] at h
    cases h
  | zero s =>
    rw [hview] at h
    cases h

theorem above_tenTo {k : ℤ} (h0 : 0 ≤ k) (h308 : k ≤ 308) : Above (-60) (tenTo k) := by
  obtain ⟨n, rfl⟩ := Int.eq_ofNat_of_zero_le h0
  have hall : ∀ n < 309, (lastPlace? (tenTo (n : ℕ))).any (-60 ≤ ·) = true := by decide +kernel
  exact above_of_lastPlace? (hall n (by omega))

theorem isFinite_of_scale? {x y : Float} {e : ℤ} (hx : Below 65 x) (h : scale? x e = some y) :
    y.isFinite = true := by
  unfold scale? at h
  split at h
  · cases h
    exact hx.isFinite
  · split at h
    · cases h
    · split at h
      · dsimp only at h
        split at h
        · cases h
          assumption
        · cases h
      · split at h
        · cases h
          exact (hx.div (above_tenTo (by omega) (by omega)) (by omega) (by omega)).isFinite
        · split at h
          · cases h
            have honce := hx.div (above_tenTo (k := 308) (by decide) le_rfl) (by decide) (by decide)
            exact (honce.div (above_tenTo (by omega) (by omega)) (by omega) (by omega)).isFinite
          · cases h
            exact (below_zero (k := 0)).isFinite

theorem isFinite_of_float? {n : Numeral} {x : Float} (h : n.float? = some x) :
    x.isFinite = true := by
  obtain ⟨e, w, y, hy, rfl⟩ : ∃ e w y, scale? (UInt64.ofNat w).toFloat e = some y ∧
      (if n.negative then -y else y) = x := by
    unfold float? at h
    dsimp only at h
    split at h
    · simp only [Option.bind_eq_bind, Option.bind_eq_some_iff, Option.some.injEq] at h
      obtain ⟨_, -, y, hy, hx⟩ := h
      exact ⟨_, _, y, hy, hx⟩
    · simp only [Option.bind_eq_bind, Option.bind_eq_some_iff, Option.some.injEq] at h
      obtain ⟨_, -, y, hy, hx⟩ := h
      exact ⟨_, _, y, hy, hx⟩
  have hfinite := isFinite_of_scale? (below_toFloat _) hy
  split
  · rw [Float.isFinite_neg]
    exact hfinite
  · exact hfinite

section Count

/-- A digit more. -/
def next (n : ℕ) (c : Char) : ℕ := 10 * n + (c.toNat - '0'.toNat)

theorem le_foldl_next (word : ℕ) (ds : List Char) : word ≤ ds.foldl next word := by
  induction ds generalizing word with
  | nil => exact le_rfl
  | cons c ds ih =>
    have hnext : word ≤ next word c := by
      unfold next
      omega
    exact hnext.trans (ih _)

theorem extend_cons (word : ℕ) (c : Char) (ds : List Char) :
    extend word (c :: ds) = match Size.fit? (10 * word + Decimal.digitsValue [c]) with
      | some word => extend word ds
      | none => (word, c :: ds) := by
  -- the equations that Lean makes for `extend` compute with the size of a word
  delta extend
  rfl

theorem extend_eq {word : ℕ} {ds : List Char} (h : ds.foldl next word < 2 ^ 64) :
    extend word ds = (ds.foldl next word, []) := by
  induction ds generalizing word with
  | nil => rfl
  | cons c ds ih =>
    rw [List.foldl_cons] at h ⊢
    have hword : 10 * word + Decimal.digitsValue [c] = next word c := by
      simp [Decimal.digitsValue, next]
    rw [extend_cons, hword, Size.fit?_eq ((le_foldl_next _ ds).trans_lt h)]
    exact ih h

theorem exists_scale?_zero {x : Float} (hx : Below 65 x) : ∃ y, scale? x 0 = some y := by
  have hone : tenTo 0 = (1 : UInt64).toFloat := by decide +kernel
  have hfinite : (x * tenTo 0).isFinite = true := by
    rw [hone]
    exact (hx.mul (below_toFloat 1) (by decide) (by decide)).isFinite
  unfold scale?
  split
  · exact ⟨x, rfl⟩
  · rw [if_neg (by decide), if_pos le_rfl]
    dsimp only
    rw [if_pos hfinite]
    exact ⟨_, rfl⟩

theorem exists_float?_ofNat {n : ℕ} (h : n < 2 ^ 64) : ∃ x, (ofNat n).float? = some x := by
  have hvalue : (Nat.toDigits 10 n).foldl next 0 = n := Decimal.digitsValue_toDigits n
  have hextend : extend 0 (Nat.toDigits 10 n) = (n, []) := by
    rw [extend_eq (hvalue.symm ▸ h), hvalue]
  obtain ⟨y, hy⟩ := exists_scale?_zero (below_toFloat (UInt64.ofNat n))
  have hnil : extend n [] = (n, []) := rfl
  refine ⟨y, ?_⟩
  simp [float?, ofNat, hextend, hnil, hy]

end Count

section Written

open Float.Model.UnpackedFloat

theorem isFinite_unpack_iff {S : Float.Model.Format} {b : BitVec S.numBits} :
    (unpack S b).isFinite = true ↔ unpackExponent b ≠ -1#S.exponentBits := by
  unfold unpack
  dsimp only
  split
  · rename_i h
    split <;> simp [h, Float.Model.UnpackedFloat.isFinite]
  · rename_i h
    split
    · split <;> simp [h, Float.Model.UnpackedFloat.isFinite]
    · simp [h, Float.Model.UnpackedFloat.isFinite]

theorem isSome_ofFloat? (x : Float) : (ofFloat? x).isSome = x.isFinite := by
  have hexponent : (@unpackExponent .binary64 x.toBits.toBitVec).toNat =
      x.toBits.toNat / 2 ^ 52 % 2 ^ 11 := by
    simp [unpackExponent, BitVec.extractLsb_toNat, Nat.shiftRight_eq_div_pow]
  have hspecial : @unpackExponent .binary64 x.toBits.toBitVec = -1#11 ↔
      x.toBits.toNat / 2 ^ 52 % 2 ^ 11 = 2047 := by
    rw [← hexponent, ← BitVec.toNat_inj]
    rfl
  have hfinite : x.isFinite = true ↔ x.toBits.toNat / 2 ^ 52 % 2 ^ 11 ≠ 2047 :=
    isFinite_unpack_iff.trans (not_congr hspecial)
  have hwritten : (ofFloat? x).isSome = true ↔ x.toBits.toNat / 2 ^ 52 % 2 ^ 11 ≠ 2047 := by
    have hview : Binary.unpack x = BinaryFormat.binary64.unpack x.toBits.toNat := rfl
    have hfraction : BinaryFormat.binary64.exponentPlace = 2 ^ 52 := by decide
    have hbits : BinaryFormat.binary64.specialExponent = 2047 := by decide
    unfold ofFloat?
    rw [hview, BinaryFormat.unpack, hfraction, hbits]
    split
    · rename_i h
      refine iff_of_false ?_ (not_not.mpr h)
      split <;> simp [ofUnpacked?]
    · rename_i h
      refine iff_of_true ?_ h
      split <;> rfl
  rw [Bool.eq_iff_iff, hwritten, hfinite]

end Written

end Numeral

namespace Json

/-- The number is read back as it is written. -/
def Restores (x : Float) : Prop := (float x).float? = some x

instance (x : Float) : Decidable (Restores x) := inferInstanceAs (Decidable (_ = _))

theorem float_eq_null {x : Float} (h : x.isFinite = false) : float x = null := by
  rw [← Numeral.isSome_ofFloat?, Option.isSome_eq_false_iff, Option.isNone_iff_eq_none] at h
  rw [float, h]

theorem exists_float_eq_num {x : Float} (h : x.isFinite = true) :
    ∃ n, float x = num n ∧ n.WellFormed := by
  rw [← Numeral.isSome_ofFloat?, Option.isSome_iff_exists] at h
  obtain ⟨n, hn⟩ := h
  exact ⟨n, by rw [float, hn], Numeral.wellFormed_of_ofFloat? hn⟩

theorem Restores.isFinite {x : Float} (h : Restores x) : x.isFinite = true := by
  unfold Restores float at h
  split at h
  · exact Numeral.isFinite_of_float? h
  · cases h

end Json

end LinProg
