import LinProg.Decimal.Binary

/-!
# Shortest decimal digits

The fewest decimal digits that read back as a given binary number, and of those the nearest to it.

A finite number is rounded to by the decimals between its two midpoints, the ends included when its
significand is even. For one digit, two digits and so on, `Decimal.shortest` tries the number's two
neighbours on the grid of decimals of that length; the first grid with a hit decides. All
arithmetic is exact. Where the number lies halfway between two hits, a `Tie` says which is taken.
-/

namespace LinProg

/-- The decimal `0.d₁d₂…dₙ · 10^point`. -/
structure Decimal where
  digits : List Char
  /-- How many of them stand before the point. -/
  point : Int
  deriving Repr, DecidableEq

namespace Decimal

/-- `b` to the power `e`, and one for a negative `e`: as a fraction, `b^e` is
`power b e / power b (-e)`. -/
def power (b : Nat) (e : Int) : Nat := Nat.pow b e.toNat

/-- The number of decimal digits of `n`. -/
def digitCount (n : Nat) : Nat := (Nat.toDigits 10 n).length

/-- The least `e` with `m · 2^q < 10^e`, for a positive `m`: the decimal expansion of a binary
number ends, and its digits can be counted. -/
def magnitude (m : Nat) (q : Int) : Int :=
  if 0 ≤ q then digitCount (m * power 2 q)
  else (digitCount (m * power 5 (-q)) : Int) + q

/-- The decimal `c · 10^g`, without the zeros that end it. -/
def ofCoefficient (c : Nat) (g : Int) : Decimal :=
  let ds := Nat.toDigits 10 c
  let kept := (ds.reverse.dropWhile (· == '0')).reverse
  if kept.isEmpty then ⟨['0'], 1⟩ else ⟨kept, ds.length + g⟩

/-- The decimals that round to one binary number, in quarters of its last place. -/
structure Interval where
  low : Nat
  middle : Nat
  high : Nat
  /-- The ends belong to it. -/
  closed : Bool

/-- The interval of `m · 2^q`: half a place to both sides, but only a quarter below a power of
two, where the numbers begin to lie closer. -/
def Interval.around (f : BinaryFormat) (m : Nat) (q : Int) : Interval where
  low := if m = f.exponentPlace ∧ f.minExponent < q then 4 * m - 1 else 4 * m - 2
  middle := 4 * m
  high := 4 * m + 2
  closed := m % 2 == 0

/-- `x` lies in the interval scaled by `b`. -/
def Interval.holds (i : Interval) (b x : Nat) : Bool :=
  if i.closed then i.low * b ≤ x && x ≤ i.high * b else i.low * b < x && x < i.high * b

/-- Which of two equally near neighbours is taken. -/
inductive Tie where
  | even
  /-- The one that is farther from zero. -/
  | away
  deriving Repr, DecidableEq

/-- A number halfway between `c` and `c + 1` goes down to `c`. -/
def Tie.goesDown (t : Tie) (c : Nat) : Bool :=
  match t with
  | even => c % 2 == 0
  | away => false

/-- The better neighbour of the number among the multiples of `10^g`, if one rounds to it. With
`a` and `b` as scales, `c · 10^g` is `c · a` and a quarter of a last place is `b`. -/
def neighbour? (tie : Tie) (i : Interval) (q g : Int) : Option Nat :=
  let a := power 10 g * power 2 (2 - q)
  let b := power 10 (-g) * power 2 (q - 2)
  let c := i.middle * b / a
  let below := i.middle * b - c * a
  let above := (c + 1) * a - i.middle * b
  match i.holds b (c * a), i.holds b ((c + 1) * a) with
  | true, true => some (if below < above || (below == above && tie.goesDown c) then c else c + 1)
  | true, false => some c
  | false, true => some (c + 1)
  | false, false => none

/-- The shortest decimal of `m · 2^q` in a format. Seventeen digits are always enough. -/
def shortest (f : BinaryFormat) (tie : Tie) (m : Nat) (q : Int) : Decimal :=
  if m = 0 then ⟨['0'], 1⟩
  else
    let (m, q) := f.fit m q
    let i := Interval.around f m q
    let e := magnitude m q
    let found := (List.range 17).findSome? fun k =>
      let g := e - (k + 1 : Nat)
      (neighbour? tie i q g).map fun c => ofCoefficient c g
    found.getD (ofCoefficient (m * power 5 (-q) * power 2 q) (min q 0))

end Decimal

end LinProg
