import Mathlib
import LinProg.Json.Reader

/-!
# Numbers in texts

What is written for a number is read back digit by digit (`Json.numeral?_chars`), as long as the
number is one that the grammar has (`Numeral.WellFormed`) and what follows it cannot be taken for a
part of it. All that is written is well formed: counts (`Numeral.wellFormed_ofNat`) and finite
numbers (`Numeral.wellFormed_of_ofFloat?`).
-/

namespace LinProg

namespace Decimal

/-- Decimal digits and nothing else. -/
def AllDigits (cs : List Char) : Prop := ∀ c ∈ cs, c.isDigit = true

/-- The text does not begin with a digit. -/
def EndsDigits (cs : List Char) : Prop := ∀ c rest, cs = c :: rest → c.isDigit = false

section Digits

variable {ds rest : List Char} {c : Char} {n : ℕ}

theorem spanDigits_append (hds : AllDigits ds) (hrest : EndsDigits rest) :
    spanDigits (ds ++ rest) = (ds, rest) := by
  have hstop : rest.takeWhile Char.isDigit = [] ∧ rest.dropWhile Char.isDigit = rest := by
    cases rest with
    | nil => exact ⟨rfl, rfl⟩
    | cons c rest =>
      have hc := hrest c rest rfl
      simp [hc]
  rw [spanDigits, List.span_eq_takeWhile_dropWhile, List.takeWhile_append_of_pos hds,
    List.dropWhile_append_of_pos hds, hstop.1, hstop.2, List.append_nil]

theorem allDigits_toDigits (n : ℕ) : AllDigits (Nat.toDigits 10 n) :=
  fun _ hc => Nat.isDigit_of_mem_toDigits (by decide) (by decide) hc

theorem digitsValue_toDigits (n : ℕ) : digitsValue (Nat.toDigits 10 n) = n :=
  Nat.ofDigitChars_toDigits (by decide) (by decide)

theorem exists_toDigits_eq_cons (hn : 0 < n) :
    ∃ c cs, Nat.toDigits 10 n = c :: cs ∧ c ≠ '0' := by
  induction n using Nat.strong_induction_on with
  | h n ih =>
    rw [Nat.toDigits_eq_if (by decide)]
    split
    · rename_i hlt
      refine ⟨_, [], rfl, ?_⟩
      interval_cases n <;> decide
    · rename_i hge
      obtain ⟨c, cs, hdigits, hc⟩ := ih (n / 10) (by omega) (by omega)
      exact ⟨c, cs ++ [Nat.digitChar (n % 10)], by rw [hdigits]; rfl, hc⟩

end Digits

/-- The digits of a decimal: no zero at the front, unless zero is all there is. -/
def Normal (d : Decimal) : Prop :=
  d = ⟨['0'], 1⟩ ∨ ∃ c cs, d.digits = c :: cs ∧ c ≠ '0' ∧ AllDigits (c :: cs)

theorem normal_ofCoefficient (c : ℕ) (g : ℤ) : (ofCoefficient c g).Normal := by
  unfold ofCoefficient
  dsimp only
  split
  · exact Or.inl rfl
  · rename_i hkept
    right
    let ds := Nat.toDigits 10 c
    have hprefix : ds.rdropWhile (· == '0') <+: ds := List.rdropWhile_prefix _ _
    obtain ⟨k, ks, hk⟩ := List.exists_cons_of_ne_nil (l := ds.rdropWhile (· == '0'))
      (by simpa [List.rdropWhile, ds] using hkept)
    have hc : 0 < c := by
      rw [Nat.pos_iff_ne_zero]
      rintro rfl
      exact hkept (by simp)
    obtain ⟨a, as, hds, ha⟩ := exists_toDigits_eq_cons hc
    obtain ⟨rest, hrest⟩ := hprefix
    rw [hk] at hrest
    have hka : k = a := by
      have hhead := hrest.trans hds
      exact (List.cons.inj hhead).1
    refine ⟨k, ks, hk, hka ▸ ha, fun d hd => allDigits_toDigits c d ?_⟩
    change d ∈ ds
    rw [← hrest]
    exact List.mem_append_left rest hd

theorem normal_shortest (f : BinaryFormat) (tie : Tie) (m : ℕ) (q : ℤ) :
    (shortest f tie m q).Normal := by
  unfold shortest
  split
  · exact Or.inl rfl
  · dsimp only
    generalize hfound : List.findSome? _ _ = found
    cases found with
    | none => exact normal_ofCoefficient _ _
    | some d =>
      obtain ⟨k, -, hk⟩ := List.exists_of_findSome?_eq_some hfound
      obtain ⟨c, -, rfl⟩ := Option.map_eq_some_iff.mp hk
      exact normal_ofCoefficient _ _

/-- Digits that may stand before a point: zero, or none in front. -/
def Whole (cs : List Char) : Prop :=
  cs = ['0'] ∨ ∃ c rest, cs = c :: rest ∧ c ≠ '0' ∧ AllDigits (c :: rest)

theorem allDigits_zeros (k : ℕ) : AllDigits (List.replicate k '0') := by
  intro c hc
  rw [List.eq_of_mem_replicate hc]
  rfl

section Split

variable {d : Decimal} (hd : d.Normal)
include hd

theorem Normal.allDigits : AllDigits d.digits := by
  rcases hd with rfl | ⟨c, cs, hds, -, hall⟩
  · exact allDigits_zeros 1
  · rwa [hds]

theorem Normal.whole_split : Whole d.split.1 := by
  unfold split
  split
  · exact Or.inl rfl
  · rename_i hpoint
    obtain ⟨k, hk⟩ : ∃ k, d.point.toNat = k + 1 := ⟨d.point.toNat - 1, by omega⟩
    rcases hd with rfl | ⟨c, cs, hds, hc, hall⟩
    · exact Or.inl rfl
    · right
      refine ⟨c, cs.take k ++ List.replicate (k + 1 - (c :: cs).length) '0', ?_, hc, ?_⟩
      · simp only [hk, hds, List.take_succ_cons, List.cons_append]
      · intro a ha
        rw [← List.cons_append, List.mem_append] at ha
        rcases ha with ha | ha
        · exact hall a (List.mem_cons.mpr ((List.mem_cons.mp ha).imp_right List.mem_of_mem_take))
        · exact allDigits_zeros _ a ha

theorem Normal.allDigits_split : AllDigits d.split.2 := by
  unfold split
  split
  · intro c hc
    rcases List.mem_append.mp hc with hc | hc
    · exact allDigits_zeros _ c hc
    · exact hd.allDigits c hc
  · exact fun c hc => hd.allDigits c (List.mem_of_mem_drop hc)

theorem Normal.whole_take_one : Whole (d.digits.take 1) := by
  rcases hd with rfl | ⟨c, cs, hds, hc, hall⟩
  · exact Or.inl rfl
  · right
    refine ⟨c, [], by rw [hds]; rfl, hc, ?_⟩
    rintro a ha
    rw [List.mem_singleton.mp ha]
    exact hall c List.mem_cons_self

end Split

/-- The text does not go on with a digit or a point. -/
def EndsWhole (cs : List Char) : Prop := ∀ c rest, cs = c :: rest → c.isDigit = false ∧ c ≠ '.'

end Decimal

namespace Numeral

open Decimal

/-- A number that the grammar has, with a sign in front of its exponent. -/
structure WellFormed (n : Numeral) : Prop where
  whole : Whole n.whole
  fraction : AllDigits n.fraction
  exponent : n.exponent = [] ∨ ∃ sign ds, n.exponent = sign :: ds ∧ (sign = '-' ∨ sign = '+') ∧
    ds ≠ [] ∧ AllDigits ds

theorem wellFormed_ofNat (k : ℕ) : (ofNat k).WellFormed where
  whole := by
    rcases Nat.eq_zero_or_pos k with rfl | hk
    · exact Or.inl rfl
    · obtain ⟨c, cs, hdigits, hc⟩ := exists_toDigits_eq_cons hk
      exact Or.inr ⟨c, cs, hdigits, hc, hdigits ▸ allDigits_toDigits k⟩
  fraction := nofun
  exponent := Or.inl rfl

theorem wellFormed_ofDecimal (negative : Bool) {d : Decimal} (hd : d.Normal) :
    (ofDecimal negative d).WellFormed := by
  unfold ofDecimal
  split
  · refine ⟨hd.whole_split, ?_, Or.inl rfl⟩
    dsimp only
    split
    · exact allDigits_zeros 1
    · exact hd.allDigits_split
  · refine ⟨hd.whole_take_one, fun c hc => hd.allDigits c (List.mem_of_mem_drop hc),
      Or.inr ⟨_, _, rfl, ?_, Nat.toDigits_ne_nil, allDigits_toDigits _⟩⟩
    split
    · exact Or.inl rfl
    · exact Or.inr rfl

theorem wellFormed_of_ofFloat? {x : Float} {n : Numeral} (h : ofFloat? x = some n) :
    n.WellFormed := by
  unfold ofFloat? ofUnpacked? at h
  split at h
  · cases h
    exact wellFormed_ofDecimal _ (normal_shortest _ _ _ _)
  · cases h

theorem count?_ofNat (k : ℕ) : (ofNat k).count? = Size.fit? k := by
  unfold count? ofNat
  dsimp only
  rw [digitsValue_toDigits]
  rfl

end Numeral

namespace Json

open Decimal

/-- What follows cannot be taken for a part of a number. -/
def EndsNumber (cs : List Char) : Prop :=
  ∀ c rest, cs = c :: rest → c.isDigit = false ∧ c ≠ '.' ∧ c ≠ 'e' ∧ c ≠ 'E'

section Parts

variable {fraction exponent rest : List Char}

theorem fraction?_append (hfraction : AllDigits fraction) (hrest : EndsWhole rest) :
    fraction? ((if fraction.isEmpty then [] else '.' :: fraction) ++ rest) =
      some (fraction, rest) := by
  cases fraction with
  | nil =>
    cases rest with
    | nil => rfl
    | cons c rest =>
      obtain ⟨-, hpoint⟩ := hrest c rest rfl
      rw [List.isEmpty_nil, if_pos rfl, List.nil_append, fraction?]
      intro rest' heq
      exact hpoint (List.cons.inj heq).1
  | cons d ds =>
    have hspan := spanDigits_append hfraction fun c r h => (hrest c r h).1
    rw [List.isEmpty_cons, if_neg (by decide), List.cons_append, fraction?, hspan]

theorem exponent?_append (hexponent : exponent = [] ∨ ∃ sign ds, exponent = sign :: ds ∧
      (sign = '-' ∨ sign = '+') ∧ ds ≠ [] ∧ AllDigits ds) (hrest : EndsNumber rest) :
    exponent? ((if exponent.isEmpty then [] else 'e' :: exponent) ++ rest) =
      some (exponent, rest) := by
  rcases hexponent with rfl | ⟨sign, ds, rfl, hsign, hds, hall⟩
  · cases rest with
    | nil => rfl
    | cons c rest =>
      obtain ⟨-, -, he, hE⟩ := hrest c rest rfl
      simp [exponent?, he, hE]
  · have hspan := spanDigits_append hall fun c r h => (hrest c r h).1
    obtain ⟨d, ds, rfl⟩ := List.exists_cons_of_ne_nil hds
    rw [List.cons_append] at hspan
    rcases hsign with rfl | rfl
    · simp [exponent?, hspan]
    · simp [exponent?, hspan]

end Parts

theorem numeral?_chars {n : Numeral} (hn : n.WellFormed) {rest : List Char}
    (hrest : EndsNumber rest) : numeral? (n.chars ++ rest) = some (n, rest) := by
  obtain ⟨negative, whole, fraction, exponent⟩ := n
  obtain ⟨hwhole, hfraction, hexponent⟩ := hn
  dsimp only at hwhole hfraction hexponent
  let e := (if exponent.isEmpty then [] else 'e' :: exponent) ++ rest
  let f := (if fraction.isEmpty then [] else '.' :: fraction) ++ e
  have he : exponent? e = some (exponent, rest) := exponent?_append hexponent hrest
  have hends : EndsWhole e := by
    cases exponent with
    | nil => exact fun c r h => ⟨(hrest c r h).1, (hrest c r h).2.1⟩
    | cons sign ds =>
      intro c r h
      obtain ⟨rfl, -⟩ := List.cons.inj h
      decide
  have hf : fraction? f = some (fraction, e) := fraction?_append hfraction hends
  have hendsf : EndsDigits f := by
    cases fraction with
    | nil => exact fun c r h => (hends c r h).1
    | cons d ds =>
      intro c r h
      obtain ⟨rfl, -⟩ := List.cons.inj h
      decide
  -- the sign is read first, and no whole part begins like one
  have hchars : Numeral.chars ⟨negative, whole, fraction, exponent⟩ ++ rest =
      (if negative then ['-'] else []) ++ (whole ++ f) := by
    simp [Numeral.chars, e, f]
  rw [hchars]
  rcases hwhole with rfl | ⟨c, cs, rfl, hc, hall⟩
  · cases negative with
    | false => simp [numeral?, hf, he]
    | true => simp [numeral?, hf, he]
  · have hspan := spanDigits_append hall hendsf
    rw [List.cons_append] at hspan
    have hminus : c ≠ '-' := by
      rintro rfl
      exact absurd (hall '-' List.mem_cons_self) (by decide)
    cases negative with
    | false => simp [numeral?, hminus, hc, hspan, hf, he]
    | true => simp [numeral?, hc, hspan, hf, he]

end Json

end LinProg
