import CompactSql.Text.Unassigned
import CompactSql.Text.GraphemeExtend

/-!
# Unprintable characters

A character is unprintable when it has no shape of its own on a line: controls,
separators other than the space, format characters, private use, unassigned
code points, letters that show nothing, and marks that would join the character
before them.
-/

namespace CompactSql.Text

def control : List (Nat × Nat) := [(0x00, 0x1F), (0x7F, 0x9F)]

def separator : List (Nat × Nat) := [
    (0xA0, 0xA0), (0x1680, 0x1680), (0x2000, 0x200A), (0x2028, 0x2029),
    (0x202F, 0x202F), (0x205F, 0x205F), (0x3000, 0x3000)]

def format : List (Nat × Nat) := [
    (0xAD, 0xAD), (0x0600, 0x0605), (0x061C, 0x061C), (0x06DD, 0x06DD),
    (0x070F, 0x070F), (0x0890, 0x0891), (0x08E2, 0x08E2), (0x180E, 0x180E),
    (0x200B, 0x200F), (0x202A, 0x202E), (0x2060, 0x2064), (0x2066, 0x206F),
    (0xFEFF, 0xFEFF), (0xFFF9, 0xFFFB), (0x110BD, 0x110BD), (0x110CD, 0x110CD),
    (0x13430, 0x1343F), (0x1BCA0, 0x1BCA3), (0x1D173, 0x1D17A),
    (0xE0001, 0xE0001), (0xE0020, 0xE007F)]

def privateUse : List (Nat × Nat) := [
    (0xE000, 0xF8FF), (0xF0000, 0xFFFFD), (0x100000, 0x10FFFD)]

/-- The fillers of Hangul: letters that hold the place of a missing part of a
syllable and leave it blank. -/
def filler : List (Nat × Nat) := [
    (0x115F, 0x1160), (0x3164, 0x3164), (0xFFA0, 0xFFA0)]

/-- The sound marks of half-width Katakana: they extend a grapheme, but have a
column of their own and so can be seen anywhere. -/
def halfWidthMark : List (Nat × Nat) := [(0xFF9E, 0xFF9F)]

def inRanges (ranges : List (Nat × Nat)) (code : Nat) : Bool :=
  ranges.any fun (first, last) => first ≤ code && code ≤ last

def isJoiningMark (code : Nat) : Bool :=
  inRanges graphemeExtend code && !inRanges halfWidthMark code

/-- Letters, digits and signs of ASCII are settled without the tables. -/
def isUnprintable (c : Char) : Bool :=
  let code := c.toNat
  if 0x20 ≤ code && code < 0x7F then
    false
  else
    inRanges control code || inRanges separator code || inRanges format code ||
      inRanges privateUse code || inRanges filler code ||
      isJoiningMark code || inRanges unassigned code

end CompactSql.Text
