import CompactSql.Batch.Chunk
import CompactSql.Proofs.Text.Lines

/-!
# Lines that are written and split again

A line that has no line feed, and no carriage return at its end, is found again
when a line feed is written behind it.
-/

namespace CompactSql.Text

theorem newline_notMem_lines (text : List Char) : ∀ line ∈ lines text, '\n' ∉ line := by
  induction text using lines_induction with
  | nil => exact fun line none => absurd none List.not_mem_nil
  | last line noFeed nonempty =>
      rw [lines_of_noFeed noFeed nonempty]
      exact List.forall_mem_singleton.mpr noFeed
  | row line rest noFeed ih =>
      rw [lines_append_feed noFeed]
      exact List.forall_mem_cons.mpr ⟨fun feed => noFeed (chomp_subset line _ feed), ih⟩

structure Endable (line : List Char) : Prop where
  noFeed : '\n' ∉ line
  noReturn : line.getLast? ≠ some '\r'

theorem lines_of_endable {line : List Char} (h : Endable line) (rest : List Char) :
    lines (line ++ '\n' :: rest) = line :: lines rest := by
  rw [lines_append_feed h.noFeed, chomp_eq h.noReturn]

end CompactSql.Text
