import LinProg.Decimal.Shortest

/-!
# Numbers in messages

Three ways to write a number for a reader.

* `Binary.plain`: shortest digits, never an exponent, a point only where digits follow it, and a
  tie between two shortest decimals going away from zero.
* `Binary.fixed`: a given number of places, rounded from the exact value, a half to the even side.
* `Binary.scientific`: one digit, a point, a given number of places and the exponent.
-/

namespace LinProg

namespace Decimal

/-- The digits before and after the point of a positional form. -/
def split (d : Decimal) : List Char × List Char :=
  if d.point ≤ 0 then (['0'], List.replicate (-d.point).toNat '0' ++ d.digits)
  else
    let k := d.point.toNat
    (d.digits.take k ++ List.replicate (k - d.digits.length) '0', d.digits.drop k)

/-- The positional form, with a point only where digits follow it. -/
def positional (d : Decimal) : List Char :=
  match d.split with
  | (whole, []) => whole
  | (whole, fraction) => whole ++ '.' :: fraction

/-- The quotient rounded to the nearest integer, a half to the even one. -/
def roundDiv (num den : Nat) : Nat :=
  let c := num / den
  let r := num % den
  if 2 * r < den || (2 * r == den && c % 2 == 0) then c else c + 1

/-- `m · 2^q · 10^s` as a quotient. -/
def scaled (m : Nat) (q s : Int) : Nat × Nat :=
  (m * power 2 q * power 10 s, power 2 (-q) * power 10 (-s))

/-- Digits filled up with zeros in front. -/
def padded (width n : Nat) : List Char :=
  let ds := Nat.toDigits 10 n
  List.replicate (width - ds.length) '0' ++ ds

/-- `m · 2^q` with a given number of places. -/
def fixed (places m : Nat) (q : Int) : List Char :=
  let (num, den) := scaled m q places
  let n := roundDiv num den
  let whole := Nat.toDigits 10 (n / power 10 places)
  if places = 0 then whole else whole ++ '.' :: padded places (n % power 10 places)

/-- `m · 2^q` as one digit, a given number of places and an exponent. -/
def scientific (places m : Nat) (q : Int) : List Char :=
  let e := if m = 0 then 1 else magnitude m q
  let (num, den) := scaled m q (places + 1 - e)
  let n := roundDiv num den
  let (n, e) := if n = power 10 (places + 1) then (n / 10, e + 1) else (n, e)
  let mantissa :=
    Nat.toDigits 10 (n / power 10 places) ++ '.' :: padded places (n % power 10 places)
  mantissa ++ 'e' :: (toString (e - 1)).toList

end Decimal

namespace Unpacked

/-- Text of a number, given how magnitudes are written. -/
def text (magnitude : Nat → Int → List Char) : Unpacked → String
  | nan => "NaN"
  | infinite negative => if negative then "-inf" else "inf"
  | finite negative m q =>
    String.ofList (if negative then '-' :: magnitude m q else magnitude m q)

end Unpacked

namespace Binary

variable {α : Type} [Binary α]

/-- Shortest digits of the number's own format. -/
def plain (x : α) : String :=
  (unpack x).text fun m q => ((Decimal.shortest (format α) .away m q).positional)

/-- Shortest digits of the same value as a number of 64 bits. -/
def plainWide (x : α) : String :=
  (unpack x).text fun m q => ((Decimal.shortest .binary64 .away m q).positional)

/-- A given number of places after the point. -/
def fixed (places : Nat) (x : α) : String := (unpack x).text (Decimal.fixed places)

/-- One digit, a given number of places and an exponent. -/
def scientific (places : Nat) (x : α) : String := (unpack x).text (Decimal.scientific places)

end Binary

end LinProg
