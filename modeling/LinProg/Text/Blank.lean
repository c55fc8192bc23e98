import LinProg.Text.Joining
import LinProg.Text.Unassigned

/-!
# Characters that cannot be seen

A character is blank when it leaves no mark of its own on a line: a control, a format character, a
blank other than the space, a filler, a private character, a number to which no character is
assigned, or a mark that only changes the character before it.
-/

namespace LinProg.Text

/-- Controls, format characters, separators other than the space, fillers, private characters. -/
def invisibleRanges : List (Nat × Nat) :=
  [(0x00, 0x1F), (0x7F, 0xA0), (0xAD, 0xAD), (0x0600, 0x0605), (0x061C, 0x061C), (0x06DD, 0x06DD),
   (0x070F, 0x070F), (0x0890, 0x0891), (0x08E2, 0x08E2), (0x115F, 0x1160), (0x1680, 0x1680),
   (0x180E, 0x180E), (0x2000, 0x200F), (0x2028, 0x202F), (0x205F, 0x2064), (0x2066, 0x206F),
   (0x3000, 0x3000), (0x3164, 0x3164), (0xD800, 0xF8FF), (0xFEFF, 0xFEFF), (0xFFA0, 0xFFA0),
   (0xFFF9, 0xFFFB), (0x110BD, 0x110BD), (0x110CD, 0x110CD), (0x13430, 0x1343F), (0x1BCA0, 0x1BCA3),
   (0x1D173, 0x1D17A), (0xE0001, 0xE0001), (0xE0020, 0xE007F), (0xF0000, 0xFFFFD),
   (0x100000, 0x10FFFD)]

/-- A number lies in one of the ranges. -/
def inRanges (ranges : List (Nat × Nat)) (n : Nat) : Bool :=
  ranges.any fun r => r.1 ≤ n && n ≤ r.2

/-- A character leaves no mark of its own. -/
def isBlank (c : Char) : Bool :=
  inRanges invisibleRanges c.toNat || inRanges joiningRanges c.toNat ||
    inRanges unassignedRanges c.toNat

end LinProg.Text
