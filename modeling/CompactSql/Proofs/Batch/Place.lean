import CompactSql.Batch.Chunk
import CompactSql.Proofs.Text.Lines

/-!
# Where chunks stand

A chunk stands in its text behind whole lines, and its line is counted by the line feeds
before it.
-/

namespace CompactSql.Batch

open Text (EndsLine chomp)

/-- The chunk stands in the text between these two parts of it, the first of them made up
of the lines before the line of the chunk. -/
structure Chunk.Stands (chunk : Chunk) (text before after : List Char) : Prop where
  split : text = before ++ (chunk.text.toList ++ after)
  ends : EndsLine before
  line : chunk.line = 1 + before.count '\n'

namespace Chunk

variable {chunk : Chunk} {text before after : List Char} {number : Nat}

theorem mem_ofLines_cons {line : List Char} {others : List (List Char)} :
    chunk ∈ ofLines number (line :: others) ↔
      (Text.isBlankText line = false ∧ chunk = ⟨number, String.ofList line⟩) ∨
        chunk ∈ ofLines (number + 1) others := by
  rw [ofLines]
  split
  · next blank => simp [blank]
  · next solid => simp [Bool.eq_false_iff.mpr solid]

theorem ofLines_stands (member : chunk ∈ ofLines number (Text.lines text)) :
    ∃ before after, text = before ++ (chunk.text.toList ++ after) ∧ EndsLine before ∧
      chunk.line = number + before.count '\n' ∧ '\n' ∉ chunk.text.toList ∧
      lineAt (chunk.text.toList ++ after) 1 = chunk.text.toList := by
  induction text using Text.lines_induction generalizing number with
  | nil => cases member
  | last line noFeed nonempty =>
      rw [Text.lines_of_noFeed noFeed nonempty, mem_ofLines_cons] at member
      obtain ⟨-, rfl⟩ := member.resolve_right List.not_mem_nil
      have chars : (String.ofList line).toList = line := String.toList_ofList
      refine ⟨[], [], ?_, .inl rfl, rfl, ?_⟩ <;> rw [chars]
      · simp
      · exact ⟨noFeed, by rw [List.append_nil, Text.lineAt_of_noFeed noFeed]⟩
  | row line rest noFeed ih =>
      rw [Text.lines_append_feed noFeed, mem_ofLines_cons] at member
      rcases member with ⟨-, rfl⟩ | later
      · obtain ⟨ending, split, -⟩ := Text.chomp_split line
        have chars : (String.ofList (chomp line)).toList = chomp line := String.toList_ofList
        refine ⟨[], ending ++ '\n' :: rest, ?_, .inl rfl, rfl, ?_⟩ <;> rw [chars]
        · rw [List.nil_append, ← List.append_assoc, ← split]
        · refine ⟨fun feed => noFeed (Text.chomp_subset line _ feed), ?_⟩
          rw [← List.append_assoc, ← split, Text.lineAt_append_feed noFeed]
      · obtain ⟨before, after, rfl, ends, number', inner, whole⟩ := ih later
        refine ⟨line ++ '\n' :: before, after, by simp, ends.cons line, ?_, inner, whole⟩
        rw [number', List.count_append, List.count_cons_self,
          List.count_eq_zero_of_not_mem noFeed]
        omega

/-- A chunk stands behind whole lines, and its lines are those of the text from there. -/
theorem ofText_stands {text : String} {eachLine : Bool} (member : chunk ∈ ofText eachLine text) :
    ∃ before after, chunk.Stands text.toList before after ∧
      ∀ number, 0 < number → number ≤ 1 + chunk.text.toList.count '\n' →
        lineAt text.toList (before.count '\n' + number) = lineAt chunk.text.toList number := by
  unfold ofText at member
  cases eachLine with
  | false =>
      obtain rfl := List.mem_singleton.mp member
      exact ⟨[], [], ⟨by simp, .inl rfl, rfl⟩, fun number _ _ => by simp⟩
  | true =>
      obtain ⟨before, after, split, ends, line, noFeed, whole⟩ := ofLines_stands member
      refine ⟨before, after, ⟨split, ends, line⟩, ?_⟩
      intro number positive least
      rw [List.count_eq_zero_of_not_mem noFeed] at least
      obtain rfl : number = 1 := by omega
      rw [split, ends.lineAt _ positive, whole, Text.lineAt_of_noFeed noFeed]

end Chunk

end CompactSql.Batch
