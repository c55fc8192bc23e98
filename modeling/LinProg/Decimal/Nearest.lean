import LinProg.Decimal.Layout
import LinProg.Size

/-!
# Reading decimals

The binary number nearest to a decimal, a tie going to the even significand.

* `Decimal.nearest`: the significand and exponent nearest to a quotient.
* `Decimal.read`: the number of 64 bits nearest to written digits with an exponent.
* `Decimal.float?`: a whole text as a number, infinities and NaN by name included.
-/

namespace LinProg

namespace Decimal

/-- The largest `e` with `2^e ≤ num / den`, for positive numbers. -/
def log2Quotient (num den : Nat) : Int :=
  let e : Int := (num.log2 : Int) - den.log2
  if den * power 2 e ≤ num * power 2 (-e) then e else e - 1

/-- Significand and exponent nearest to `num / den`, both positive. The significand may have come
up to the next power of two, and nothing bounds the exponent from above. -/
def nearest (f : BinaryFormat) (num den : Nat) : Nat × Int :=
  let q := max f.minExponent (log2Quotient num den - (f.precision - 1 : Nat))
  (roundDiv (num * power 2 (-q)) (den * power 2 q), q)

def digitsValue (ds : List Char) : Nat := ds.foldl (fun n c => 10 * n + (c.toNat - '0'.toNat)) 0

/-- The number of 64 bits nearest to `digits · 10^e`. Far beyond the format's range on either side
the power of ten is not computed: the result is infinite or zero. -/
def read (negative : Bool) (digits : List Char) (e : Int) : Float :=
  let c := digitsValue digits
  let top := digits.length + e
  let f := BinaryFormat.binary64
  let bits :=
    if c = 0 ∨ top < -400 then f.pack negative 0 f.minExponent
    else if 400 < (digitCount c : Int) + e then
      f.pack negative 0 (f.minExponent + f.specialExponent)
    else
      let (m, q) := nearest f (c * power 10 e) (power 10 (-e))
      f.pack negative m q
  Float.ofBits (UInt64.ofNat bits)

/-- Decimal digits at the front, and the rest. -/
def spanDigits (cs : List Char) : List Char × List Char := cs.span Char.isDigit

/-- A sign at the front, true for minus, and the rest. -/
def spanSign : List Char → Bool × List Char
  | '-' :: cs => (true, cs)
  | '+' :: cs => (false, cs)
  | cs => (false, cs)

/-- A signed whole number that fills the text. -/
def exponent? (cs : List Char) : Option Int :=
  let (negative, cs) := spanSign cs
  match spanDigits cs with
  | ([], _) => none
  | (ds, []) => some (if negative then -(digitsValue ds : Int) else digitsValue ds)
  | _ => none

/-- The number of 64 bits that a text names: digits with an optional sign, point and exponent, at
least one digit in all, or the name of an infinity or of NaN in either case of letters. -/
def float? (s : String) : Option Float :=
  let (negative, cs) := spanSign s.toList
  let name := String.ofList (cs.map Char.toLower)
  if name = "nan" then some (0.0 / 0.0)
  else if name = "inf" ∨ name = "infinity" then some (if negative then -1.0 / 0.0 else 1.0 / 0.0)
  else
    let (whole, cs) := spanDigits cs
    let (fraction, cs) := match cs with
      | '.' :: cs => spanDigits cs
      | cs => ([], cs)
    let e := match cs with
      | [] => some 0
      | c :: cs => if c = 'e' ∨ c = 'E' then exponent? cs else none
    if whole.isEmpty && fraction.isEmpty then none
    else e.map fun e => read negative (whole ++ fraction) (e - fraction.length)

/-- The count of 64 bits that a text names: digits with an optional plus sign. -/
def count? (s : String) : Option Nat :=
  let cs := match s.toList with
    | '+' :: cs => cs
    | cs => cs
  match spanDigits cs with
  | ([], _) => none
  | (ds, []) => Size.fit? (digitsValue ds)
  | _ => none

end Decimal

end LinProg
