import LinProg.Json.Value

/-!
# Reading JSON

`Json.parse?` reads a text that is one JSON value and nothing else. Readers take a value off the
front of the characters and give the rest.

Neither the range of a number nor the depth of nesting is checked here, and neither is the pairing
of surrogates: the grammar lets them pass, and `Json.plain?` checks them for a whole value. It also
leaves only the last of repeated keys.
-/

namespace LinProg.Json

def skipBlanks : List Char → List Char
  | c :: cs => if c = ' ' ∨ c = '\n' ∨ c = '\t' ∨ c = '\r' then skipBlanks cs else c :: cs
  | [] => []

/-- The value of a hexadecimal digit. -/
def hexValue? (c : Char) : Option Nat :=
  if c.isDigit then some (c.toNat - '0'.toNat)
  else if 'a' ≤ c ∧ c ≤ 'f' then some (c.toNat - 'a'.toNat + 10)
  else if 'A' ≤ c ∧ c ≤ 'F' then some (c.toNat - 'A'.toNat + 10)
  else none

/-- What stands for one character, or half of one, in a string. -/
inductive Piece where
  | char (c : Char)
  /-- A code unit named by an escape. -/
  | unit (n : Nat)
  deriving Repr, DecidableEq

/-- The character of a short escape. -/
def shortEscape? (c : Char) : Option Char :=
  if c = '"' ∨ c = '\\' ∨ c = '/' then some c
  else if c = 'b' then some (Char.ofNat 8)
  else if c = 'f' then some (Char.ofNat 12)
  else if c = 'n' then some '\n'
  else if c = 'r' then some '\r'
  else if c = 't' then some '\t'
  else none

/-- The pieces of a string up to its closing quote, and the rest. -/
def pieces? : List Char → Option (List Piece × List Char)
  | [] => none
  | '"' :: cs => some ([], cs)
  | '\\' :: 'u' :: a :: b :: c :: d :: cs => do
    let unit := (((← hexValue? a) * 16 + (← hexValue? b)) * 16 + (← hexValue? c)) * 16 +
      (← hexValue? d)
    let (ps, cs) ← pieces? cs
    return (.unit unit :: ps, cs)
  | '\\' :: e :: cs => do
    let c ← shortEscape? e
    let (ps, cs) ← pieces? cs
    return (.char c :: ps, cs)
  | c :: cs =>
    if c.toNat < 32 then none
    else do
      let (ps, cs) ← pieces? cs
      return (.char c :: ps, cs)

/-- `n` is the first half of a surrogate pair. -/
def isHighSurrogate (n : Nat) : Bool := 0xD800 ≤ n && n < 0xDC00

/-- `n` is the second half of a surrogate pair. -/
def isLowSurrogate (n : Nat) : Bool := 0xDC00 ≤ n && n < 0xE000

/-- The characters that pieces stand for, if each half of a surrogate pair has its other half. -/
def characters? : List Piece → Option (List Char)
  | [] => some []
  | .char c :: ps => (characters? ps).map (c :: ·)
  | .unit n :: .unit m :: ps =>
    if isHighSurrogate n && isLowSurrogate m then
      (characters? ps).map (Char.ofNat (0x10000 + (n - 0xD800) * 0x400 + (m - 0xDC00)) :: ·)
    else if isHighSurrogate n || isLowSurrogate n then none
    else (characters? (.unit m :: ps)).map (Char.ofNat n :: ·)
  | .unit n :: ps =>
    if isHighSurrogate n || isLowSurrogate n then none
    else (characters? ps).map (Char.ofNat n :: ·)

/-- A string after its opening quote, and the rest. -/
def string? (cs : List Char) : Option (Option String × List Char) := do
  let (ps, cs) ← pieces? cs
  return ((characters? ps).map String.ofList, cs)

/-- The digits after a point, if there is one, and the rest. -/
def fraction? : List Char → Option (List Char × List Char)
  | '.' :: cs =>
    match Decimal.spanDigits cs with
    | ([], _) => none
    | (ds, cs) => some (ds, cs)
  | cs => some ([], cs)

/-- An exponent with its sign, if there is one, and the rest. -/
def exponent? : List Char → Option (List Char × List Char)
  | c :: cs =>
    if c = 'e' ∨ c = 'E' then
      let (sign, cs) := match cs with
        | '-' :: cs => (['-'], cs)
        | '+' :: cs => (['+'], cs)
        | cs => ([], cs)
      match Decimal.spanDigits cs with
      | ([], _) => none
      | (ds, cs) => some (sign ++ ds, cs)
    else some ([], c :: cs)
  | [] => some ([], [])

/-- A number, and the rest. A zero in front of other digits is not part of it. -/
def numeral? (cs : List Char) : Option (Numeral × List Char) := do
  let (negative, cs) := match cs with
    | '-' :: cs => (true, cs)
    | cs => (false, cs)
  let (whole, cs) ← match cs with
    | '0' :: cs => some (['0'], cs)
    | cs =>
      match Decimal.spanDigits cs with
      | ([], _) => none
      | (ds, cs) => some (ds, cs)
  let (fraction, cs) ← fraction? cs
  let (exponent, cs) ← exponent? cs
  return (⟨negative, whole, fraction, exponent⟩, cs)

mutual

/-- A value after blanks, and the rest. The bound exceeds the depth of the recursion. -/
def value? : Nat → List Char → Option (Json × List Char)
  | 0, _ => none
  | bound + 1, cs =>
    match skipBlanks cs with
    | 'n' :: 'u' :: 'l' :: 'l' :: cs => some (null, cs)
    | 't' :: 'r' :: 'u' :: 'e' :: cs => some (bool true, cs)
    | 'f' :: 'a' :: 'l' :: 's' :: 'e' :: cs => some (bool false, cs)
    | '"' :: cs => (string? cs).map fun (s, cs) => (str s, cs)
    | '[' :: cs =>
      match skipBlanks cs with
      | ']' :: cs => some (arr [], cs)
      | cs => (elements? bound cs).map fun (vs, cs) => (arr vs, cs)
    | '{' :: cs =>
      match skipBlanks cs with
      | '}' :: cs => some (obj [], cs)
      | cs => (members? bound cs).map fun (ms, cs) => (obj ms, cs)
    | cs => (numeral? cs).map fun (n, cs) => (num n, cs)

/-- One element or more, with the end of the array. -/
def elements? : Nat → List Char → Option (List Json × List Char)
  | 0, _ => none
  | bound + 1, cs => do
    let (v, cs) ← value? bound cs
    match skipBlanks cs with
    | ']' :: cs => return ([v], cs)
    | ',' :: cs =>
      let (vs, cs) ← elements? bound cs
      return (v :: vs, cs)
    | _ => none

/-- One member or more, with the end of the object. -/
def members? : Nat → List Char → Option (List (Option String × Json) × List Char)
  | 0, _ => none
  | bound + 1, cs =>
    match skipBlanks cs with
    | '"' :: cs => do
      let (k, cs) ← string? cs
      match skipBlanks cs with
      | ':' :: cs =>
        let (v, cs) ← value? bound cs
        match skipBlanks cs with
        | '}' :: cs => return ([(k, v)], cs)
        | ',' :: cs =>
          let (ms, cs) ← members? bound cs
          return ((k, v) :: ms, cs)
        | _ => none
      | _ => none
    | _ => none

end

/-- The value that a text consists of. Between two steps of the recursion a character is read. -/
def parse? (s : String) : Option Json := do
  let cs := s.toList
  let (v, rest) ← value? (2 * cs.length + 2) cs
  if (skipBlanks rest).isEmpty then some v else none

/-- The deepest nesting of a value that `plain?` accepts. -/
def depthLimit : Nat := 127

/-- Puts a member into an object, in place of an earlier one with the same key. -/
def putMember (ms : List (Option String × Json)) (k : Option String) (v : Json) :
    List (Option String × Json) :=
  ms.filter (fun m => m.1 != k) ++ [(k, v)]

mutual

/-- The value with the last of repeated keys only, if its strings have texts, its numbers are in
range, and it is nested at most `depth` deep. -/
def plainWithin? (depth : Nat) : Json → Option Json
  | null => some null
  | bool b => some (bool b)
  | num n => n.float?.map fun _ => num n
  | str s => s.map text
  | arr vs =>
    match depth with
    | 0 => none
    | depth + 1 => (plainElements? depth vs).map arr
  | obj ms =>
    match depth with
    | 0 => none
    | depth + 1 => (plainMembers? depth ms []).map obj

def plainElements? (depth : Nat) : List Json → Option (List Json)
  | [] => some []
  | v :: vs => do
    let v ← plainWithin? depth v
    let vs ← plainElements? depth vs
    return v :: vs

/-- The members of an object; `before` holds those that have been read. -/
def plainMembers? (depth : Nat) : List (Option String × Json) → List (Option String × Json) →
    Option (List (Option String × Json))
  | [], before => some before
  | (k, v) :: ms, before => do
    let k ← k
    let v ← plainWithin? depth v
    plainMembers? depth ms (putMember before (some k) v)

end

/-- The value with the last of repeated keys only, if nothing in it is out of bounds. -/
def plain? (v : Json) : Option Json := plainWithin? depthLimit v

end LinProg.Json
