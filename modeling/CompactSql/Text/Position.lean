/-!
# Positions in a text

A position is a line and a column, both counted from one; a column counts
characters.  `Position.ofOffset` is the position of the first character at or
after a byte offset, or the position just after the text.
-/

namespace CompactSql.Text

structure Position where
  line : Nat
  column : Nat
  deriving DecidableEq, Repr

namespace Position

def start : Position := ⟨1, 1⟩

def step (position : Position) (c : Char) : Position :=
  if c = '\n' then ⟨position.line + 1, 1⟩
  else ⟨position.line, position.column + 1⟩

/-- Walks over the characters that begin before `remaining` bytes are up. -/
def seek (position : Position) : Nat → List Char → Position
  | _, [] => position
  | 0, _ :: _ => position
  | remaining + 1, c :: text =>
      (position.step c).seek (remaining + 1 - c.utf8Size) text

def ofOffset (text : List Char) (offset : Nat) : Position :=
  start.seek offset text

end Position

end CompactSql.Text
