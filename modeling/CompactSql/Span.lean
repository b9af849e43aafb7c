import CompactSql.Text.Position

/-!
# Spans

A span is a range of bytes of a text, its end not included.
-/

namespace CompactSql

structure Span where
  start : Nat
  stop : Nat
  deriving DecidableEq, Repr

namespace Span

def point (offset : Nat) : Span := ⟨offset, offset⟩

def length (span : Span) : Nat := span.stop - span.start

def isEmpty (span : Span) : Bool := span.start == span.stop

/-- The smallest span that covers both. -/
def merge (first second : Span) : Span :=
  ⟨min first.start second.start, max first.stop second.stop⟩

def position (span : Span) (text : List Char) : Text.Position :=
  Text.Position.ofOffset text span.start

end Span

end CompactSql
