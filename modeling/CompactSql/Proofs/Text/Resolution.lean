import CompactSql.Span
import CompactSql.Proofs.Text.Position
import Mathlib.Data.Prod.Lex
import Mathlib.Order.Bounds.Defs
import Mathlib.Order.Monotone.Defs

/-!
# How offsets are resolved

An offset may lie inside a character or past the end of the text.  The walk that looks for
its position goes over the characters that begin before it, and so it ends at the first
boundary that is not before the offset.  Each character moves a position on in the order in
which a text is read, and for this no two boundaries have one position.
-/

namespace CompactSql

namespace Text

/-- The offsets at which the bytes of a text can be cut between two of its characters. -/
def boundaries (text : String) : Set Nat :=
  {offset | String.Pos.Raw.IsValid text ⟨offset⟩}

theorem byteLength_eq (text : List Char) : byteLength text = (String.ofList text).utf8ByteSize := by
  induction text with
  | nil => rfl
  | cons c text ih =>
      rw [byteLength_cons, ih, String.ofList_cons, String.utf8ByteSize_append,
        String.utf8ByteSize_singleton]

private theorem byteLength_toList (text : String) : byteLength text.toList = text.utf8ByteSize := by
  rw [byteLength_eq, String.ofList_toList]

theorem mem_boundaries_iff {text : String} {offset : Nat} : offset ∈ boundaries text ↔
    ∃ before after, text.toList = before ++ after ∧ offset = byteLength before := by
  refine String.Pos.Raw.isValid_iff_exists_take_toList.trans ?_
  simp only [← byteLength_eq]
  constructor
  · rintro ⟨count, cut⟩
    exact ⟨_, _, (List.take_append_drop count text.toList).symm, cut⟩
  · rintro ⟨before, after, split, cut⟩
    exact ⟨before.length, by rw [split, List.take_left, cut]⟩

/-- The boundary that an offset is resolved to: the first that is not before it, and the end
of the text when the offset lies beyond. -/
structure Resolves (text : String) (offset boundary : Nat) : Prop where
  inside : offset ≤ text.utf8ByteSize →
    IsLeast {stop | stop ∈ boundaries text ∧ offset ≤ stop} boundary
  beyond : text.utf8ByteSize < offset → boundary = text.utf8ByteSize

structure Walked (offset : Nat) (before after : List Char) : Prop where
  begun : ∀ front c inside, before = front ++ c :: inside → byteLength front < offset
  ended : after = [] ∨ offset ≤ byteLength before

namespace Walked

variable {offset : Nat} {before after : List Char}

theorem nil (ended : after = [] ∨ offset = 0) : Walked offset [] after := by
  refine ⟨?_, ended.imp_right Nat.le_of_eq⟩
  intro front c inside split
  cases front <;> cases split

theorem cons {c : Char} (walked : Walked (offset - c.utf8Size) before after)
    (positive : 0 < offset) : Walked offset (c :: before) after := by
  constructor
  · intro front d inside split
    cases front with
    | nil => exact positive
    | cons _ front =>
        obtain ⟨rfl, others⟩ := List.cons.inj split
        have begun := walked.begun front d inside others
        rw [byteLength_cons]
        omega
  · refine walked.ended.imp_right fun ended => ?_
    rw [byteLength_cons]
    omega

private theorem resolves {text : String} (walked : Walked offset before after)
    (split : text.toList = before ++ after) : Resolves text offset (byteLength before) := by
  have size : text.utf8ByteSize = byteLength before + byteLength after := by
    rw [← byteLength_toList, split, byteLength_append]
  refine ⟨fun inside => ⟨⟨?_, ?_⟩, ?_⟩, fun beyond => ?_⟩
  · exact mem_boundaries_iff.mpr ⟨before, after, split, rfl⟩
  · rcases walked.ended with rfl | ended
    · rwa [size, byteLength_nil, Nat.add_zero] at inside
    · exact ended
  · rintro stop ⟨boundary, reached⟩
    obtain ⟨front, back, split', rfl⟩ := mem_boundaries_iff.mp boundary
    -- A shorter beginning would end where a character of the walk begins.
    by_contra short
    obtain ⟨inner, rfl⟩ := exists_append_of_byteLength_le (split'.symm.trans split)
      (Nat.le_of_not_le short)
    cases inner with
    | nil => exact short (by simp)
    | cons c inner => exact Nat.not_lt.mpr reached (walked.begun front c inner rfl)
  · rcases walked.ended with rfl | ended
    · rw [size, byteLength_nil, Nat.add_zero]
    · omega

end Walked

namespace Position

theorem exists_walked (position : Position) (offset : Nat) (text : List Char) :
    ∃ before after, text = before ++ after ∧ Walked offset before after ∧
      position.seek offset text = before.foldl step position := by
  induction position, offset, text using seek.induct with
  | case1 => exact ⟨[], [], rfl, .nil (.inl rfl), by rw [seek]; rfl⟩
  | case2 position c text => exact ⟨[], c :: text, rfl, .nil (.inr rfl), rfl⟩
  | case3 position remaining c text ih =>
      obtain ⟨before, after, rfl, walked, found⟩ := ih
      exact ⟨c :: before, after, rfl, walked.cons (Nat.succ_pos _), by rw [seek, found]; rfl⟩

example : [0, 1, 2, 3, 5, 7, 99].map (ofOffset "é\n𝄞".toList) =
    [⟨1, 1⟩, ⟨1, 2⟩, ⟨1, 2⟩, ⟨2, 1⟩, ⟨2, 2⟩, ⟨2, 2⟩, ⟨2, 2⟩] := by decide

def key (position : Position) : ℕ ×ₗ ℕ := toLex (position.line, position.column)

theorem key_lt_step (position : Position) (c : Char) : position.key < (position.step c).key := by
  refine Prod.Lex.toLex_lt_toLex.mpr ?_
  unfold step
  split
  · exact .inl (Nat.lt_succ_self _)
  · exact .inr ⟨rfl, Nat.lt_succ_self _⟩

private theorem key_le_foldl (position : Position) (text : List Char) :
    position.key ≤ (text.foldl step position).key := by
  induction text generalizing position with
  | nil => exact le_rfl
  | cons c text ih => exact (key_lt_step position c).le.trans (ih (position.step c))

private theorem key_behind_lt (front : List Char) (c : Char) (inner : List Char) :
    (behind front).key < (behind (front ++ c :: inner)).key := by
  have further : behind (front ++ c :: inner) = inner.foldl step ((behind front).step c) := by
    rw [← foldl_step, List.foldl_append, foldl_step, List.foldl_cons]
  rw [further]
  exact (key_lt_step _ c).trans_le (key_le_foldl _ inner)

theorem strictMonoOn_key (text : String) :
    StrictMonoOn (fun offset => (ofOffset text.toList offset).key) (boundaries text) := by
  intro first member second member' less
  obtain ⟨front, back, split, rfl⟩ := mem_boundaries_iff.mp member
  obtain ⟨front', back', split', rfl⟩ := mem_boundaries_iff.mp member'
  obtain ⟨inner, rfl⟩ := exists_append_of_byteLength_le (split.symm.trans split') less.le
  cases inner with
  | nil => exact absurd less (by simp)
  | cons c inner =>
      have place : ofOffset text.toList (byteLength front) = behind front := by
        rw [split, ofOffset_append]
      have place' : ofOffset text.toList (byteLength (front ++ c :: inner)) =
          behind (front ++ c :: inner) := by
        rw [split', ofOffset_append]
      simp only [place, place']
      exact key_behind_lt front c inner

end Position

end Text

open Text (Position Resolves boundaries byteLength)

/-- A span of any text begins at the position behind what stands before the boundary that its
start is resolved to, and on the boundaries positions are in the order of the offsets, so that
each tells its offset. -/
theorem Span.position_resolves (text : String) :
    (∀ span : Span, ∃ before after, text.toList = before ++ after ∧
      Resolves text span.start (byteLength before) ∧
      span.position text.toList = .behind before) ∧
    StrictMonoOn (fun offset => ((point offset).position text.toList).key) (boundaries text) ∧
    Set.InjOn (fun offset => (point offset).position text.toList) (boundaries text) := by
  have ordered := Position.strictMonoOn_key text
  refine ⟨fun span => ?_, ordered, fun first member second member' same => ?_⟩
  · obtain ⟨before, after, split, walked, found⟩ :=
      Position.exists_walked .start span.start text.toList
    exact ⟨before, after, split, walked.resolves split, found.trans (Position.foldl_step before)⟩
  · exact ordered.injOn member member' (congrArg Position.key same)

end CompactSql
