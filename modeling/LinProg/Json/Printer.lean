import LinProg.Json.Value

/-!
# Writing JSON

The compact text of a value, without any blanks, and the pretty one, with one element or member a
line and two blanks more for each level.
-/

namespace LinProg.Json

def hexDigit (n : Nat) : Char := Nat.digitChar n

def escape (c : Char) : List Char :=
  if c = '"' then ['\\', '"']
  else if c = '\\' then ['\\', '\\']
  else if c = '\n' then ['\\', 'n']
  else if c = '\r' then ['\\', 'r']
  else if c = '\t' then ['\\', 't']
  else if c.toNat = 8 then ['\\', 'b']
  else if c.toNat = 12 then ['\\', 'f']
  else if c.toNat < 32 then
    ['\\', 'u', '0', '0', hexDigit (c.toNat / 16), hexDigit (c.toNat % 16)]
  else [c]

/-- A string in quotes. One without text is written as if it were empty. -/
def quoted (s : Option String) : List Char :=
  '"' :: ((s.getD "").toList.flatMap escape ++ ['"'])

/-- What is written for values without parts. -/
def atom : Json → List Char
  | null => ['n', 'u', 'l', 'l']
  | bool true => ['t', 'r', 'u', 'e']
  | bool false => ['f', 'a', 'l', 's', 'e']
  | num n => n.chars
  | str s => quoted s
  | arr _ => ['[', ']']
  | obj _ => ['{', '}']

mutual

/-- The text of a value without blanks. -/
def compactChars : Json → List Char
  | arr (v :: vs) => '[' :: (compactChars v ++ compactElements vs)
  | obj ((k, v) :: ms) => '{' :: (quoted k ++ ':' :: (compactChars v ++ compactMembers ms))
  | v => atom v

/-- The elements after the first, and the end of the array. -/
def compactElements : List Json → List Char
  | [] => [']']
  | v :: vs => ',' :: (compactChars v ++ compactElements vs)

/-- The members after the first, and the end of the object. -/
def compactMembers : List (Option String × Json) → List Char
  | [] => ['}']
  | (k, v) :: ms => ',' :: (quoted k ++ ':' :: (compactChars v ++ compactMembers ms))

end

/-- A new line at a level. -/
def newLine (level : Nat) : List Char := '\n' :: List.replicate (2 * level) ' '

mutual

/-- The text of a value at a level, one element or member a line. -/
def prettyChars (level : Nat) : Json → List Char
  | arr (v :: vs) =>
    '[' :: (newLine (level + 1) ++ prettyChars (level + 1) v ++ prettyElements level vs)
  | obj ((k, v) :: ms) =>
    '{' :: (newLine (level + 1) ++ quoted k ++ ':' :: ' ' :: prettyChars (level + 1) v ++
      prettyMembers level ms)
  | v => atom v

/-- The elements after the first, and the end of the array. -/
def prettyElements (level : Nat) : List Json → List Char
  | [] => newLine level ++ [']']
  | v :: vs => ',' :: (newLine (level + 1) ++ prettyChars (level + 1) v ++ prettyElements level vs)

/-- The members after the first, and the end of the object. -/
def prettyMembers (level : Nat) : List (Option String × Json) → List Char
  | [] => newLine level ++ ['}']
  | (k, v) :: ms =>
    ',' :: (newLine (level + 1) ++ quoted k ++ ':' :: ' ' :: prettyChars (level + 1) v ++
      prettyMembers level ms)

end

def compact (v : Json) : String := String.ofList v.compactChars

def pretty (v : Json) : String := String.ofList (v.prettyChars 0)

end LinProg.Json
