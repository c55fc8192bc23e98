import LinProg.Proofs.Rounded.Formats

/-!
# What is not a number

In the machine formats a value that is not a number is in no comparison, and all others are ordered
linearly (`OrderedNumbers`): an unpacked number has a `rank`, and numbers are compared by it. So the
largest of some values, in which those that are not numbers do not count, is within a bound if all
the numbers among them are (`foldl_max_le_iff`).

Only a difference of two infinities is not a number without one of the two being none
(`OrderedNumbers.isNaN_sub`).
-/

open Float.Model (Format UnpackedFloat)

namespace LinProg

/-- Arithmetic in which numbers are ordered linearly, and what is not a number is never the smaller
or the larger of two values. -/
class OrderedNumbers (α : Type) [Scalar α] : Prop where
  isNaN_zero : Scalar.isNaN (0 : α) = false
  lt_iff : ∀ {a b : α},
    a < b ↔ (Scalar.isNaN a = false ∧ Scalar.isNaN b = false) ∧ ¬b ≤ a
  le_total : ∀ {a b : α}, Scalar.isNaN a = false → Scalar.isNaN b = false → a ≤ b ∨ b ≤ a
  le_trans : ∀ {a b c : α}, a ≤ b → b ≤ c → a ≤ c
  isNaN_abs : ∀ a : α, Scalar.isNaN (Scalar.abs a) = Scalar.isNaN a
  isNaN_sub : ∀ (a : α) {b : α}, Scalar.isFinite b = true →
    Scalar.isNaN (a - b) = Scalar.isNaN a

namespace OrderedNumbers

variable {α : Type} [Scalar α] [OrderedNumbers α] {a b c : α}

theorem le_refl (ha : Scalar.isNaN a = false) : a ≤ a := (le_total ha ha).elim id id

theorem le_of_lt (h : a < b) : a ≤ b := by
  obtain ⟨⟨ha, hb⟩, hnot⟩ := lt_iff.mp h
  exact (le_total ha hb).resolve_right hnot

theorem lt_of_lt_of_le (hc : Scalar.isNaN c = false) (hab : a < b) (hbc : b ≤ c) : a < c := by
  obtain ⟨⟨ha, -⟩, hnot⟩ := lt_iff.mp hab
  exact lt_iff.mpr ⟨⟨ha, hc⟩, fun hca => hnot (le_trans hbc hca)⟩

theorem not_lt_iff (ha : Scalar.isNaN a = false) (hb : Scalar.isNaN b = false) :
    ¬a < b ↔ b ≤ a := by
  rw [lt_iff, and_iff_right ⟨ha, hb⟩, not_not]

end OrderedNumbers

/-- In exact arithmetic every value is a number. -/
instance orderedNumbers_exact {K : Type} [Field K] [LinearOrder K] [Exact K] :
    OrderedNumbers K where
  isNaN_zero := Exact.isNaN_eq_false 0
  lt_iff := by
    intro a b
    rw [Exact.isNaN_eq_false, Exact.isNaN_eq_false, and_iff_right ⟨rfl, rfl⟩]
    exact lt_iff_not_ge
  le_total := fun _ _ => le_total _ _
  le_trans := fun hab hbc => le_trans hab hbc
  isNaN_abs := fun a => by rw [Exact.isNaN_eq_false, Exact.isNaN_eq_false]
  isNaN_sub := fun a b _ => by rw [Exact.isNaN_eq_false, Exact.isNaN_eq_false]

/-! ### Largest values -/

section Largest

variable {α : Type} [Scalar α] [OrderedNumbers α] {a b c : α}

namespace Scalar

theorem isNaN_max (ha : isNaN a = false) : isNaN (Scalar.max a b) = false := by
  unfold Scalar.max
  rw [ha, Bool.false_or]
  split
  · rename_i hlt
    exact (OrderedNumbers.lt_iff.mp (of_decide_eq_true hlt)).1.2
  · exact ha

theorem max_le_iff (ha : isNaN a = false) :
    Scalar.max a b ≤ c ↔ a ≤ c ∧ (isNaN b = true ∨ b ≤ c) := by
  unfold Scalar.max
  rw [ha, Bool.false_or]
  split
  · rename_i hdec
    have hlt : a < b := of_decide_eq_true hdec
    have hab : a ≤ b := OrderedNumbers.le_of_lt hlt
    rw [(OrderedNumbers.lt_iff.mp hlt).1.2]
    exact ⟨fun h => ⟨OrderedNumbers.le_trans hab h, Or.inr h⟩, fun h => h.2.resolve_left nofun⟩
  · rename_i hdec
    refine ⟨fun h => ⟨h, ?_⟩, fun h => h.1⟩
    rcases hb : isNaN b with _ | _
    · have hba : b ≤ a :=
        (OrderedNumbers.not_lt_iff ha hb).mp fun hlt => hdec (decide_eq_true hlt)
      exact Or.inr (OrderedNumbers.le_trans hba h)
    · exact Or.inl rfl

end Scalar

theorem foldl_max_le_iff (l : List α) (ha : Scalar.isNaN a = false) :
    l.foldl Scalar.max a ≤ c ↔ a ≤ c ∧ ∀ v ∈ l, Scalar.isNaN v = true ∨ v ≤ c := by
  induction l generalizing a with
  | nil => simp
  | cons v l ih =>
    rw [List.foldl_cons, ih (Scalar.isNaN_max ha), Scalar.max_le_iff ha, List.forall_mem_cons,
      and_assoc]

end Largest

/-! ### Ranks -/

namespace Unpacked

open Float.Model.UnpackedFloat

variable {x y : UnpackedFloat}

/-- Where a number stands among the others: by its sign and kind first, then by exponent and
mantissa. -/
def rank : UnpackedFloat → ℤ ×ₗ ℤ ×ₗ ℤ
  | .infinity .negative => toLex (-2, toLex (0, 0))
  | .finite .negative m e _ => toLex (-1, toLex (-e, -m))
  | .zero _ | .notANumber => toLex (0, toLex (0, 0))
  | .finite .positive m e _ => toLex (1, toLex (e, m))
  | .infinity .positive => toLex (2, toLex (0, 0))

theorem compare_toLex (a b c a' b' c' : ℤ) :
    compare (toLex (a, toLex (b, c))) (toLex (a', toLex (b', c'))) =
      (compare a a').then ((compare b b').then (compare c c')) := by
  simp only [Prod.Lex.compare_def, compareLex, compareOn, ofLex_toLex]

theorem compare_neg (a b : ℤ) : compare (-a) (-b) = (compare a b).swap := by
  have hanti : StrictAnti fun v : ℤ => -v := fun _ _ => neg_lt_neg
  rw [Int.compare_swap, ← cmp_eq_compare, ← cmp_eq_compare]
  exact hanti.cmp_map_eq a b

theorem compare_natCast (m n : ℕ) : compare (m : ℤ) n = compare m n := by
  rw [← cmp_eq_compare, ← cmp_eq_compare]
  exact Nat.strictMono_cast.cmp_map_eq m n

theorem compare_eq (hx : x ≠ .notANumber) (hy : y ≠ .notANumber) :
    x.compare y = some (compare (rank x) (rank y)) := by
  cases x with
  | notANumber => exact absurd rfl hx
  | infinity s =>
    cases y with
    | notANumber => exact absurd rfl hy
    | infinity s' => cases s <;> cases s' <;> rfl
    | zero s' => cases s <;> rfl
    | finite s' m e hm => cases s <;> cases s' <;> rfl
  | zero s =>
    cases y with
    | notANumber => exact absurd rfl hy
    | infinity s' => cases s' <;> rfl
    | zero s' => rfl
    | finite s' m e hm => cases s' <;> rfl
  | finite s m e hm =>
    cases y with
    | notANumber => exact absurd rfl hy
    | infinity s' => cases s <;> cases s' <;> rfl
    | zero s' => cases s <;> rfl
    | finite s' m' e' hm' =>
      cases s <;> cases s' <;>
        simp only [rank, compare_toLex, compare_neg, compare_natCast, UnpackedFloat.compare,
          Ordering.swap_then] <;> rfl

theorem compare_eq_none (h : ¬(x ≠ .notANumber ∧ y ≠ .notANumber)) : x.compare y = none := by
  rw [not_and_or, not_not, not_not] at h
  rcases h with rfl | rfl
  · rfl
  · cases x <;> rfl

theorem le_iff_rank :
    x.le y = true ↔ (x ≠ .notANumber ∧ y ≠ .notANumber) ∧ rank x ≤ rank y := by
  unfold UnpackedFloat.le
  by_cases h : x ≠ .notANumber ∧ y ≠ .notANumber
  · rw [compare_eq h.1 h.2, and_iff_right h, Option.any_some, Ordering.isLE_iff_ne_gt]
    exact compare_le_iff_le
  · rw [compare_eq_none h]
    exact iff_of_false nofun fun hle => h hle.1

theorem lt_iff_rank :
    x.lt y = true ↔ (x ≠ .notANumber ∧ y ≠ .notANumber) ∧ rank x < rank y := by
  unfold UnpackedFloat.lt
  by_cases h : x ≠ .notANumber ∧ y ≠ .notANumber
  · rw [compare_eq h.1 h.2, and_iff_right h, beq_iff_eq, Option.some.injEq]
    exact compare_lt_iff_lt
  · rw [compare_eq_none h]
    exact iff_of_false nofun fun hlt => h hlt.1

theorem beq_self_iff : x.beq x = true ↔ x ≠ .notANumber := by
  unfold UnpackedFloat.beq
  by_cases hx : x = .notANumber
  · subst hx
    exact iff_of_false nofun fun h => h rfl
  · rw [compare_eq hx hx, beq_iff_eq, Option.some.injEq]
    exact iff_of_true (compare_eq_iff_eq.mpr rfl) hx

/-! ### Results that are numbers -/

section Results

variable {S : Format}

theorem roundWithAccuracy_ne_notANumber {s : Sign} {m : ℕ} {e : ℤ} {acc : Accuracy} :
    roundWithAccuracy S s m e acc ≠ .notANumber := by
  unfold roundWithAccuracy
  dsimp only
  split
  · nofun
  · nofun

theorem normalize_ne_notANumber {m e : ℤ} {s : Sign} :
    UnpackedFloat.normalize S m e s ≠ .notANumber := by
  unfold UnpackedFloat.normalize
  split
  · exact roundWithAccuracy_ne_notANumber
  · nofun
  · exact roundWithAccuracy_ne_notANumber

theorem sub_eq_notANumber_iff (hy : y.isFinite = true) :
    x.sub S y = .notANumber ↔ x = .notANumber := by
  constructor
  · contrapose!
    intro hx
    cases y with
    | notANumber => cases hy
    | infinity s' => cases hy
    | zero s' =>
      cases x with
      | notANumber => exact absurd rfl hx
      | infinity s => nofun
      | zero s => cases s <;> cases s' <;> nofun
      | finite s m e hm => nofun
    | finite s' m' e' hm' =>
      cases x with
      | notANumber => exact absurd rfl hx
      | infinity s => nofun
      | zero s => nofun
      | finite s m e hm => exact normalize_ne_notANumber
  · rintro rfl
    rfl

theorem abs_eq_notANumber_iff : x.abs = .notANumber ↔ x = .notANumber := by
  cases x <;> simp [UnpackedFloat.abs]

theorem unpack_packComponents_ne_notANumber {s : Sign} {e : BitVec S.exponentBits}
    {m : BitVec S.mantissaBitsWithoutImplicit} (h : e = -1#_ → m = 0#_) :
    unpack S (packComponents S s e m) ≠ .notANumber := by
  unfold unpack
  simp only [unpackMantissa_packComponents, unpackExponent_packComponents]
  split
  · rename_i he
    rw [if_pos (h he)]
    nofun
  · split
    · split
      · nofun
      · nofun
    · nofun

/-- Packing makes no number to what is none: a mantissa next to the largest exponent is that of an
infinity. -/
theorem unpack_pack_eq_notANumber_iff :
    unpack S (pack S x) = .notANumber ↔ x = .notANumber := by
  constructor
  · contrapose!
    intro hx
    cases x with
    | notANumber => exact absurd rfl hx
    | infinity s => exact unpack_packComponents_ne_notANumber fun _ => rfl
    | zero s => exact unpack_packComponents_ne_notANumber fun _ => rfl
    | finite s m e hm =>
      unfold pack
      dsimp only
      split
      · exact unpack_packComponents_ne_notANumber fun _ => rfl
      · rename_i hroom
        split
        · refine unpack_packComponents_ne_notANumber fun he => ?_
          have hnat := congrArg BitVec.toNat he
          rw [BitVec.toNat_ofNat, Nat.mod_eq_of_lt (by omega), BitVec.neg_one_eq_allOnes,
            BitVec.toNat_allOnes] at hnat
          omega
        · refine unpack_packComponents_ne_notANumber fun he => ?_
          have hnat := congrArg BitVec.toNat he
          have hpow : 2 ^ 1 ≤ 2 ^ S.exponentBits := Nat.pow_le_pow_right (by decide) S.he
          rw [BitVec.neg_one_eq_allOnes, BitVec.toNat_allOnes, BitVec.toNat_zero] at hnat
          omega
  · rintro rfl
    exact unpack_packedNaN

end Results

end Unpacked

/-- A format in which numbers stay numbers, and only these. -/
class PacksNumbers (α : Type) [Scalar α] [Packed α] : Prop where
  eq_notANumber_iff : ∀ {x : UnpackedFloat},
    Packed.unpack (Packed.pack x : α) = .notANumber ↔ x = .notANumber

instance : PacksNumbers Float := ⟨Unpacked.unpack_pack_eq_notANumber_iff⟩

instance : PacksNumbers Float32 := ⟨Unpacked.unpack_pack_eq_notANumber_iff⟩

section Packed

variable {α : Type} [Scalar α] [Packed α]

theorem Packed.isNaN_eq_false_iff {a : α} :
    Scalar.isNaN a = false ↔ Packed.unpack a ≠ .notANumber := by
  rw [Scalar.isNaN, Bool.not_eq_false', Packed.beq_eq, Unpacked.beq_self_iff]

theorem Packed.isNaN_iff {a : α} : Scalar.isNaN a = true ↔ Packed.unpack a = .notANumber := by
  rw [← not_iff_not, Bool.not_eq_true, Packed.isNaN_eq_false_iff]

theorem Packed.isNaN_neg (a : α) : Scalar.isNaN (-a) = Scalar.isNaN a := by
  rw [Bool.eq_iff_iff, Packed.isNaN_iff, Packed.isNaN_iff, Packed.unpack_neg]
  cases Packed.unpack a <;> simp [UnpackedFloat.neg]

theorem Packed.isNaN_of_le {a b : α} (h : a ≤ b) :
    Scalar.isNaN a = false ∧ Scalar.isNaN b = false := by
  rw [Packed.le_iff, Unpacked.le_iff_rank] at h
  rw [Packed.isNaN_eq_false_iff, Packed.isNaN_eq_false_iff]
  exact h.1

theorem Packed.isNaN_of_nonneg {t : α} (h : 0 ≤ t) :
    Scalar.isNaN t = false ∧ Scalar.isNaN (-t) = false := by
  rw [Packed.isNaN_neg]
  exact ⟨(Packed.isNaN_of_le h).2, (Packed.isNaN_of_le h).2⟩

variable [PacksNumbers α]

instance orderedNumbers_packed : OrderedNumbers α where
  isNaN_zero := by
    rw [Packed.isNaN_eq_false_iff, Packed.zero_eq, Packed.unpack_zero]
    nofun
  lt_iff := by
    intro a b
    rw [Packed.isNaN_eq_false_iff, Packed.isNaN_eq_false_iff, Packed.lt_iff, Packed.le_iff,
      Unpacked.lt_iff_rank, Unpacked.le_iff_rank]
    refine and_congr_right fun h => ?_
    rw [and_iff_right h.symm, not_le]
  le_total := by
    intro a b ha hb
    rw [Packed.isNaN_eq_false_iff] at ha hb
    rw [Packed.le_iff, Packed.le_iff, Unpacked.le_iff_rank, Unpacked.le_iff_rank,
      and_iff_right ⟨ha, hb⟩, and_iff_right ⟨hb, ha⟩]
    exact le_total _ _
  le_trans := by
    intro a b c hab hbc
    rw [Packed.le_iff, Unpacked.le_iff_rank] at hab hbc ⊢
    exact ⟨⟨hab.1.1, hbc.1.2⟩, hab.2.trans hbc.2⟩
  isNaN_abs := by
    intro a
    rw [Bool.eq_iff_iff, Packed.isNaN_iff, Packed.isNaN_iff, Packed.abs_eq,
      PacksNumbers.eq_notANumber_iff, Unpacked.abs_eq_notANumber_iff]
  isNaN_sub := by
    intro a b hb
    rw [Packed.isFinite_eq] at hb
    rw [Bool.eq_iff_iff, Packed.isNaN_iff, Packed.isNaN_iff, Packed.sub_eq,
      PacksNumbers.eq_notANumber_iff, Unpacked.sub_eq_notANumber_iff hb]

end Packed

end LinProg
