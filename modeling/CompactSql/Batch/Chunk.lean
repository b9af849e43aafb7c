import CompactSql.Text.Blank
import CompactSql.Text.Lines

/-!
# Chunks

A chunk is a text to check and the number of the line it begins on.  A batch is
one chunk, or has one for every line that is not blank.
-/

namespace CompactSql.Batch

structure Chunk where
  line : Nat
  text : String
  deriving DecidableEq, Repr

namespace Chunk

def ofLines (number : Nat) : List (List Char) → List Chunk
  | [] => []
  | line :: others =>
      if Text.isBlankText line then ofLines (number + 1) others
      else ⟨number, String.ofList line⟩ :: ofLines (number + 1) others

def ofText (eachLine : Bool) (text : String) : List Chunk :=
  if eachLine then ofLines 1 (Text.lines text.toList) else [⟨1, text⟩]

end Chunk

end CompactSql.Batch
