import LinProg.Decimal.Nearest

/-!
# JSON values

A value keeps a number as it is written (`Numeral`) and a string as far as it names characters: the
grammar lets an escape name half of a surrogate pair, and a string in which one stands alone has
no text. An object is its members in order, repeated keys included.

* `Numeral.float?`, `Numeral.count?`: what a number stands for.
* `Numeral.ofFloat?`: how a number is written.

A number is read in two roundings: its digits make a word of 64 bits, which is rounded to a float,
and the float is scaled by a power of ten. So the result can lie a last place or two beside the
nearest float. It is the nearest for a word below `2^53` and a scale of at most `10^22` either way.
-/

namespace LinProg

/-- A number as it is written. -/
structure Numeral where
  negative : Bool
  whole : List Char
  /-- The digits after the point, none if there is no point. -/
  fraction : List Char
  /-- The exponent with its sign, empty if there is none. -/
  exponent : List Char
  deriving Repr, DecidableEq

namespace Numeral

/-- Appends digits to a word of 64 bits as long as it has room, and returns those left over. -/
def extend (word : Nat) : List Char → Nat × List Char
  | [] => (word, [])
  | c :: cs =>
    match Size.fit? (10 * word + Decimal.digitsValue [c]) with
    | some word => extend word cs
    | none => (word, c :: cs)

/-- The float nearest to `10^e`. -/
def tenTo (e : Int) : Float := Decimal.read false ['1'] e

/-- `x · 10^e`, scaled in one step up and in at most two steps down; none beyond the largest float.
Two steps of the greatest scale bring every word down to zero. -/
def scale? (x : Float) (e : Int) : Option Float :=
  if x == 0 then some x
  else if 308 < e then none
  else if 0 ≤ e then
    let y := x * tenTo e
    if y.isFinite then some y else none
  else if -308 ≤ e then some (x / tenTo (-e))
  else if -616 ≤ e then some (x / tenTo 308 / tenTo (-e - 308))
  else some 0

/-- The float that it stands for, if that is finite. Whole digits that the word has no room for
move the point; such digits after the point are dropped. -/
def float? (n : Numeral) : Option Float := do
  let e ← if n.exponent.isEmpty then some 0 else Decimal.exponent? n.exponent
  let (word, extra) := extend 0 n.whole
  let (word, dropped) := extend word n.fraction
  let e := e + extra.length - (n.fraction.length - dropped.length : Nat)
  let x ← scale? (UInt64.ofNat word).toFloat e
  some (if n.negative then -x else x)

/-- The count that it stands for: digits alone, and no more than 64 bits hold. -/
def count? (n : Numeral) : Option Nat :=
  if !n.negative && n.fraction.isEmpty && n.exponent.isEmpty then
    Size.fit? (Decimal.digitsValue n.whole)
  else none

def ofNat (n : Nat) : Numeral := ⟨false, Nat.toDigits 10 n, [], []⟩

/-- A decimal: positional when the point lies less than five places before the digits and at most
sixteen places into them, with at least one digit after it; otherwise with one digit before the
point and a signed exponent. -/
def ofDecimal (negative : Bool) (d : Decimal) : Numeral :=
  if -5 < d.point ∧ d.point ≤ 16 then
    let (whole, fraction) := d.split
    ⟨negative, whole, if fraction.isEmpty then ['0'] else fraction, []⟩
  else
    let e := d.point - 1
    let sign := if e < 0 then '-' else '+'
    ⟨negative, d.digits.take 1, d.digits.drop 1, sign :: Nat.toDigits 10 e.natAbs⟩

/-- A finite number, with the fewest digits to which no other number of 64 bits is nearer, a tie
between two such decimals going to the even one. -/
def ofUnpacked? : Unpacked → Option Numeral
  | .finite negative m q => some (ofDecimal negative (Decimal.shortest .binary64 .even m q))
  | _ => none

/-- A finite number of 64 bits. -/
def ofFloat? (x : Float) : Option Numeral := ofUnpacked? (Binary.unpack x)

def chars (n : Numeral) : List Char :=
  (if n.negative then ['-'] else []) ++ n.whole ++
    (if n.fraction.isEmpty then [] else '.' :: n.fraction) ++
    (if n.exponent.isEmpty then [] else 'e' :: n.exponent)

end Numeral

inductive Json where
  | null
  | bool (b : Bool)
  | num (n : Numeral)
  /-- A string, without text if half of a surrogate pair stands alone in it. -/
  | str (text : Option String)
  | arr (elements : List Json)
  /-- An object; a key is like a string. -/
  | obj (members : List (Option String × Json))
  deriving Repr

namespace Json

def text (s : String) : Json := str (some s)

def count (n : Nat) : Json := num (.ofNat n)

/-- A number of 64 bits; null if it is not finite. -/
def float (x : Float) : Json :=
  match Numeral.ofFloat? x with
  | some n => num n
  | none => null

def list {β : Type} (f : β → Json) (xs : List β) : Json := arr (xs.map f)

/-- A value, or null for none. -/
def nullable {β : Type} (f : β → Json) : Option β → Json
  | some b => f b
  | none => null

def object (members : List (String × Json)) : Json := obj (members.map fun (k, v) => (some k, v))

end Json

end LinProg
