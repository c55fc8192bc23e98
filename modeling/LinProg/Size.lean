/-!
# Sizes

Counts and indices are words of 64 bits. A sum or product that does not fit is a breakdown.
-/

namespace LinProg.Size

/-- A count that fits a word. -/
def fit? (n : Nat) : Option Nat := if n < 0x10000000000000000 then some n else none

def add? (a b : Nat) : Option Nat := fit? (a + b)

def mul? (a b : Nat) : Option Nat := fit? (a * b)

end LinProg.Size
