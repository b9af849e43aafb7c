import CompactSql.Proofs.Text.Lines
import Mathlib.Data.List.Induction

/-!
# Positions and offsets

The position at a byte offset is read off the text before it: lines are counted by line
feeds, columns in characters since the last of them.
-/

namespace CompactSql.Text

namespace Position

/-- The position just behind a text. -/
def behind (text : List Char) : Position :=
  ⟨1 + text.count '\n', 1 + (text.reverse.takeWhile (· != '\n')).length⟩

theorem step_behind (text : List Char) (c : Char) :
    (behind text).step c = behind (text ++ [c]) := by
  by_cases feed : c = '\n'
  · simp [step, behind, feed, Nat.add_assoc]
  · have other : (c != '\n') = true := by simp [feed]
    simp [step, behind, feed, other, Nat.add_comm 1]

theorem line_pos (text : List Char) (offset : Nat) : 0 < (ofOffset text offset).line := by
  have onward (position : Position) : position.line ≤ (position.seek offset text).line := by
    induction position, offset, text using seek.induct with
    | case1 | case2 => simp [seek]
    | case3 position remaining c text ih =>
        rw [seek]
        refine Nat.le_trans ?_ ih
        unfold step
        split
        · exact Nat.le_succ _
        · exact Nat.le_refl _
  exact onward start

theorem seek_append (position : Position) (before after : List Char) :
    position.seek (byteLength before) (before ++ after) = before.foldl step position := by
  induction before generalizing position with
  | nil => cases after <;> rfl
  | cons c before ih =>
      obtain ⟨width, positive⟩ := Nat.exists_eq_succ_of_ne_zero (Nat.ne_of_gt c.utf8Size_pos)
      have bytes : byteLength (c :: before) = (width + byteLength before) + 1 := by
        rw [byteLength_cons, positive]
        omega
      have left : width + byteLength before + 1 - c.utf8Size = byteLength before := by omega
      rw [bytes, List.cons_append, seek, left, ih, List.foldl_cons]

theorem foldl_step (text : List Char) : text.foldl step start = behind text := by
  induction text using List.reverseRecOn with
  | nil => rfl
  | append_singleton text c ih =>
      rw [List.foldl_append, ih, List.foldl_cons, List.foldl_nil, step_behind]

theorem ofOffset_append (before after : List Char) :
    ofOffset (before ++ after) (byteLength before) = behind before := by
  rw [ofOffset, seek_append, foldl_step]

private theorem behind_of_endsLine {before : List Char} (ends : EndsLine before) :
    behind before = ⟨1 + before.count '\n', 1⟩ := by
  rcases ends with rfl | last
  · rfl
  · obtain ⟨front, rfl⟩ := List.getLast?_eq_some_iff.mp last
    simp [behind]

theorem behind_append {before : List Char} (ends : EndsLine before) (text : List Char) :
    behind (before ++ text) =
      ⟨before.count '\n' + (behind text).line, (behind text).column⟩ := by
  induction text using List.reverseRecOn with
  | nil =>
      rw [List.append_nil, behind_of_endsLine ends]
      simp [behind, Nat.add_comm]
  | append_singleton text c ih =>
      rw [← List.append_assoc, ← step_behind, ih, ← step_behind]
      by_cases feed : c = '\n'
      · simp [step, feed, Nat.add_assoc]
      · simp [step, feed]

theorem behind_of_noFeed {tail : List Char} (noFeed : '\n' ∉ tail) :
    behind tail = ⟨1, 1 + tail.length⟩ := by
  have other : ∀ c ∈ tail.reverse, (c != '\n') = true := by
    intro c member
    refine bne_iff_ne.mpr ?_
    rintro rfl
    exact noFeed (List.mem_reverse.mp member)
  have whole : (tail.reverse ++ []).takeWhile (· != '\n') =
      tail.reverse ++ [].takeWhile (· != '\n') := List.takeWhile_append_of_pos other
  rw [List.append_nil, List.takeWhile_nil, List.append_nil] at whole
  simp [behind, whole, List.count_eq_zero_of_not_mem noFeed]

end Position

end CompactSql.Text
