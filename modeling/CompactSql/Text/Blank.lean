/-!
# Blank characters

`isBlank` holds of the twenty-five characters that separate tokens and that a
blank line is made of: the white space of Unicode.
-/

namespace CompactSql.Text

def isBlank (c : Char) : Bool :=
  let code := c.toNat
  (0x09 ≤ code && code ≤ 0x0D) || code == 0x20 || code == 0x85 || code == 0xA0 ||
    code == 0x1680 || (0x2000 ≤ code && code ≤ 0x200A) || code == 0x2028 ||
    code == 0x2029 || code == 0x202F || code == 0x205F || code == 0x3000

/-- A text is blank when it has no character but blanks; the empty text is. -/
def isBlankText (text : List Char) : Bool :=
  text.all isBlank

end CompactSql.Text
