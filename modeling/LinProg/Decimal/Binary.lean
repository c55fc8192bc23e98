/-!
# Binary formats

What a binary floating-point number stands for, apart from how it is stored: `Unpacked` is a sign
with `m · 2^q`, an infinity, or no number. A `BinaryFormat` says which `m` and `q` its finite
numbers have, and `Binary α` reads the numbers of `α`.

* `BinaryFormat.unpack`, `BinaryFormat.pack`: between bits and numbers.
* `BinaryFormat.fit`: the same value with as long a significand as the format has.
-/

namespace LinProg

/-- A binary format: the finite numbers are `m · 2^q` with `m < 2^precision` and
`minExponent ≤ q`, where `m` has its full length unless `q` is `minExponent`. -/
structure BinaryFormat where
  precision : Nat
  exponentBits : Nat
  /-- The exponent of the last place of the smallest numbers. -/
  minExponent : Int
  deriving Repr

def BinaryFormat.binary64 : BinaryFormat := ⟨53, 11, -1074⟩

def BinaryFormat.binary32 : BinaryFormat := ⟨24, 8, -149⟩

/-- A number taken apart. -/
inductive Unpacked where
  | nan
  | infinite (negative : Bool)
  /-- The number `m · 2^q`, or its negative. -/
  | finite (negative : Bool) (m : Nat) (q : Int)
  deriving Repr, DecidableEq

namespace BinaryFormat

/-- The place value of the stored exponent. -/
def exponentPlace (f : BinaryFormat) : Nat := 1 <<< (f.precision - 1)

/-- The place value of the sign. -/
def signPlace (f : BinaryFormat) : Nat := 1 <<< (f.precision - 1 + f.exponentBits)

/-- The stored exponent that marks infinities and values that are not numbers. -/
def specialExponent (f : BinaryFormat) : Nat := 1 <<< f.exponentBits - 1

/-- The number that bits stand for. -/
def unpack (f : BinaryFormat) (bits : Nat) : Unpacked :=
  let fraction := bits % f.exponentPlace
  let exponent := bits / f.exponentPlace % (f.specialExponent + 1)
  let negative := bits / f.signPlace % 2 = 1
  if exponent = f.specialExponent then
    if fraction = 0 then .infinite negative else .nan
  else if exponent = 0 then .finite negative fraction f.minExponent
  else .finite negative (fraction + f.exponentPlace) (f.minExponent + (exponent - 1))

/-- The bits of `m · 2^q`. A significand that rounding has brought to the next power of two needs
no special case: the carry moves into the stored exponent. Too large a number becomes infinite. -/
def pack (f : BinaryFormat) (negative : Bool) (m : Nat) (q : Int) : Nat :=
  let magnitude := (q - f.minExponent).toNat * f.exponentPlace + m
  min magnitude (f.specialExponent * f.exponentPlace) + (if negative then f.signPlace else 0)

/-- The number with as long a significand as the format has room for; the value stays. -/
def fit (f : BinaryFormat) (m : Nat) (q : Int) : Nat × Int :=
  let room := min (f.precision - (m.log2 + 1)) (q - f.minExponent).toNat
  (m <<< room, q - room)

end BinaryFormat

/-- Number types in a binary format. -/
class Binary (α : Type) where
  format : BinaryFormat
  unpack : α → Unpacked

instance : Binary Float where
  format := .binary64
  unpack x := BinaryFormat.binary64.unpack x.toBits.toNat

instance : Binary Float32 where
  format := .binary32
  unpack x := BinaryFormat.binary32.unpack x.toBits.toNat

end LinProg
