import LinProg.Text.Blank

/-!
# Quoted names

A name in double quotes, as messages show it. Quotes and backslashes are escaped, and so is every
character that leaves no mark of its own.
-/

namespace LinProg.Text

/-- A character of a quoted name. -/
def escape (c : Char) : List Char :=
  if c = '"' then ['\\', '"']
  else if c = '\\' then ['\\', '\\']
  else if c = '\n' then ['\\', 'n']
  else if c = '\r' then ['\\', 'r']
  else if c = '\t' then ['\\', 't']
  else if c.toNat = 0 then ['\\', '0']
  else if isBlank c then ['\\', 'u', '\x7b'] ++ Nat.toDigits 16 c.toNat ++ ['\x7d']
  else [c]

def quoted (s : String) : String := String.ofList ('"' :: (s.toList.flatMap escape ++ ['"']))

end LinProg.Text
