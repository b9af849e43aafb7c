import CompactSql.Proofs.Batch.Place
import CompactSql.Proofs.Mark
import CompactSql.Proofs.Text.Position

/-!
# Where diagnostics point

A chunk is checked by itself, but its diagnostic speaks of the whole text: the line and
the column are those of the whole text, the excerpt is its line, and the carets stand
under what the span has on that line.
-/

namespace CompactSql

open Batch (Chunk)
open Text (EndsLine Position chomp)

private theorem lineAt_of_trim {tail piece back : List Char} (noFeed : '\n' ∉ tail)
    (trim : Trim piece back) :
    ∃ more, lineAt (tail ++ (piece ++ back)) 1 = tail ++ (lineAt piece 1 ++ more) := by
  by_cases feed : '\n' ∈ piece
  · obtain ⟨line, rest, rfl, first⟩ := List.eq_append_cons_of_mem feed
    have nonempty : line ≠ [] := by
      rintro rfl
      obtain ⟨c, more, split, solid⟩ := trim.first
      obtain ⟨rfl, -⟩ := List.cons.inj split
      cases solid
    have noFeed' : '\n' ∉ tail ++ line := by simp [noFeed, first]
    refine ⟨[], ?_⟩
    rw [List.append_assoc, List.cons_append, ← List.append_assoc,
      Text.lineAt_append_feed noFeed', Text.lineAt_append_feed first,
      Text.chomp_append tail nonempty, List.append_nil]
  · rw [Text.lineAt_of_noFeed feed]
    by_cases feed' : '\n' ∈ back
    · obtain ⟨line, rest, rfl, first⟩ := List.eq_append_cons_of_mem feed'
      -- the piece ends with no blank, so no return of its own belongs to the line end
      have kept : ∃ more, chomp (piece ++ line) = piece ++ more := by
        by_cases empty : line = []
        · have last : piece.getLast? ≠ some '\r' := fun last => by
            have solid := (trim.last.resolve_left (by simp)) _ last
            cases solid
          exact ⟨[], by rw [empty, List.append_nil, Text.chomp_eq last]⟩
        · exact ⟨_, Text.chomp_append piece empty⟩
      obtain ⟨more, split⟩ := kept
      obtain ⟨c, others, rfl, -⟩ := trim.first
      have noFeed' : '\n' ∉ tail ++ (c :: others ++ line) := by
        simpa [noFeed, first] using feed
      refine ⟨more, ?_⟩
      rw [← List.append_assoc (c :: others), ← List.append_assoc tail,
        Text.lineAt_append_feed noFeed', Text.chomp_append tail (by simp), split]
    · refine ⟨back, Text.lineAt_of_noFeed ?_⟩
      simp [noFeed, feed, feed']

theorem length_lineAt_pos {piece back : List Char} (trim : Trim piece back) :
    0 < (lineAt piece 1).length := by
  obtain ⟨c, more, rfl, solid⟩ := trim.first
  by_cases feed : '\n' ∈ c :: more
  · obtain ⟨line, rest, split, first⟩ := List.eq_append_cons_of_mem feed
    rw [split, Text.lineAt_append_feed first]
    cases line with
    | nil =>
        obtain ⟨rfl, -⟩ := List.cons.inj split
        cases solid
    | cons d line =>
        obtain ⟨rfl, -⟩ := List.cons.inj split
        have other : c ≠ '\r' := by
          rintro rfl
          cases solid
        rw [Text.chomp_cons (.inl other)]
        exact Nat.zero_lt_succ _
  · rw [Text.lineAt_of_noFeed feed]
    exact Nat.zero_lt_succ _

/-- The rows that show a failure at this position of the whole text: the message, the line
and the column, an empty row, the excerpt behind the number of its line, and as many carets
as the width says, from the column on. -/
def Failure.rows (failure : Failure) (place : Position) (excerpt : List Char) (width : Nat) :
    List (List Char) :=
  let number := (toString place.line).toList
  let margin := List.replicate number.length ' '
  let severity := if failure.isLexical then "lex error" else "error"
  [severity.toList ++ ": ".toList ++ failure.message.toList,
    margin ++ "--> ".toList ++ number ++ ":".toList ++ (toString place.column).toList,
    margin ++ " |".toList,
    number ++ " | ".toList ++ excerpt,
    margin ++ " | ".toList ++ List.replicate (place.column - 1) ' ' ++ List.replicate width '^']

def Failure.shown (failure : Failure) (place : Position) (excerpt : List Char) (width : Nat) :
    String :=
  String.ofList ((failure.rows place excerpt width).flatMap (· ++ ['\n']))

theorem Failure.diagnostic_eq (failure : Failure) (text : String) (firstLine : Nat) :
    failure.diagnostic text firstLine =
      failure.shown ⟨firstLine + (failure.span.position text.toList).line - 1,
          (failure.span.position text.toList).column⟩
        (lineAt text.toList (failure.span.position text.toList).line)
        (max 1 (failure.span.firstLineLength text.toList)) := by
  have feed : "\n".toList = ['\n'] := rfl
  have bar : " |\n".toList = " |".toList ++ ['\n'] := rfl
  unfold diagnostic shown rows
  refine String.toList_injective ?_
  simp only [String.toList_append, String.toList_ofList, toList_spaces, toList_carets,
    String.length_toList, List.flatMap_cons, List.flatMap_nil, List.append_assoc,
    List.append_nil, feed, bar]

/-- So many carets from the column on are under the first line of the piece in the
excerpt; under no piece at all there is one, just behind the excerpt. -/
def Underlines (excerpt piece : List Char) (column width : Nat) : Prop :=
  if piece = [] then width = 1 ∧ column = excerpt.length + 1
  else 0 < width ∧ (excerpt.drop (column - 1)).take width = lineAt piece 1 ∧
    width = (lineAt piece 1).length

theorem underlines_of_marks {failure : Failure} {text front piece back : List Char}
    (marks : failure.Marks text front piece back) :
    Underlines (lineAt text (Position.behind front).line) piece (Position.behind front).column
      (max 1 (lineAt piece 1).length) := by
  obtain ⟨before, tail, rfl, ends, noFeed⟩ := Text.exists_endsLine front
  have place : Position.behind (before ++ tail) = ⟨before.count '\n' + 1, 1 + tail.length⟩ := by
    rw [Position.behind_append ends, Position.behind_of_noFeed noFeed]
  rw [marks.cuts.split, place, List.append_assoc, ends.lineAt _ Nat.one_pos]
  rcases marks.trim with ⟨rfl, rfl⟩ | trim
  · rw [Underlines, if_pos rfl, List.append_nil, List.append_nil, Text.lineAt_of_noFeed noFeed]
    exact ⟨rfl, Nat.add_comm _ _⟩
  · obtain ⟨more, line⟩ := lineAt_of_trim noFeed trim
    have positive := length_lineAt_pos trim
    have nonempty : piece ≠ [] := by
      obtain ⟨c, others, rfl, -⟩ := trim.first
      exact List.cons_ne_nil _ _
    have width : max 1 (lineAt piece 1).length = (lineAt piece 1).length := by omega
    rw [Underlines, if_neg nonempty, width, line, Nat.add_sub_cancel_left, List.drop_left,
      List.take_left]
    exact ⟨positive, rfl, rfl⟩

/-- The failure is told as one of the whole text: its span is cut out of the chunk, the
position is the one of the whole text where the span begins, the excerpt is the line there,
and the carets are under what the span has on that line. -/
def Failure.Pinpointed (failure : Failure) (chunk : Chunk) (text : List Char) : Prop :=
  ∃ before after front piece back width,
    chunk.Stands text before after ∧
    failure.span.Cuts chunk.text.toList front piece back ∧
    Position.ofOffset text (Text.byteLength before + failure.span.start) =
      .behind (before ++ front) ∧
    failure.diagnostic chunk.text chunk.line =
      failure.shown (.behind (before ++ front))
        (lineAt text (Position.behind (before ++ front)).line) width ∧
    Underlines (lineAt text (Position.behind (before ++ front)).line) piece
      (Position.behind (before ++ front)).column width

/-- The diagnostic of a chunk shows where in the whole text the chunk was rejected. -/
theorem diagnostic_pinpoints (text : String) (eachLine : Bool) (chunk : Chunk)
    (member : chunk ∈ Chunk.ofText eachLine text) (failure : Failure)
    (rejected : parse chunk.text = .error failure) :
    failure.Pinpointed chunk text.toList := by
  obtain ⟨before, after, stands, sameLine⟩ := Chunk.ofText_stands member
  obtain ⟨front, piece, back, marks⟩ := parse_marks rejected
  have cuts := marks.cuts
  -- whole lines stand before the chunk: they are counted, and columns stay
  have inside : Position.behind (before ++ front) =
      ⟨before.count '\n' + (Position.behind front).line, (Position.behind front).column⟩ :=
    Position.behind_append stands.ends front
  have column : (Position.behind (before ++ front)).column = (Position.behind front).column := by
    rw [inside]
  have excerpt : lineAt text.toList (Position.behind (before ++ front)).line =
      lineAt chunk.text.toList (Position.behind front).line := by
    rw [inside]
    refine sameLine _ (Nat.lt_of_lt_of_le Nat.one_pos (Nat.le_add_right _ _)) ?_
    rw [cuts.split, List.count_append]
    exact Nat.add_le_add_left (Nat.le_add_right _ _) _
  have position : failure.span.position chunk.text.toList = Position.behind front := by
    rw [Span.position, cuts.start_eq, cuts.split, Position.ofOffset_append]
  have slice : failure.span.firstLineLength chunk.text.toList = (lineAt piece 1).length := by
    rw [Span.firstLineLength, Text.slice?_of_append front piece back cuts.split cuts.start_eq
      cuts.stop_eq]
  have number : chunk.line + (Position.behind front).line - 1 =
      (Position.behind (before ++ front)).line := by
    rw [stands.line, inside]
    simp only
    omega
  refine ⟨before, after, front, piece, back, max 1 (lineAt piece 1).length, stands, cuts, ?_,
    ?_, ?_⟩
  · rw [stands.split, cuts.split, cuts.start_eq, ← Text.byteLength_append, List.append_assoc,
      ← List.append_assoc before, Position.ofOffset_append]
  · rw [Failure.diagnostic_eq, position, slice, number, ← excerpt, ← column]
  · rw [excerpt, column]
    exact underlines_of_marks marks

/-- The second line of a text, behind one with a character of two bytes and a carriage
return, is rejected at the name without a keyword before it. -/
theorem diagnostic_pinpoints_second_line :
    ⟨2, "DELETE t"⟩ ∈ Chunk.ofText true "SELECT 'é' FROM t\r\nDELETE t\n" ∧
      parse "DELETE t" =
        .error ⟨.unexpected (.keyword .FROM) (.identifier "t"), ⟨7, 8⟩⟩ ∧
      Failure.Pinpointed ⟨.unexpected (.keyword .FROM) (.identifier "t"), ⟨7, 8⟩⟩
        ⟨2, "DELETE t"⟩ "SELECT 'é' FROM t\r\nDELETE t\n".toList := by
  have member : ⟨2, "DELETE t"⟩ ∈ Chunk.ofText true "SELECT 'é' FROM t\r\nDELETE t\n" := by
    decide
  have rejected : parse "DELETE t" =
      .error ⟨.unexpected (.keyword .FROM) (.identifier "t"), ⟨7, 8⟩⟩ := by decide +kernel
  exact ⟨member, rejected, diagnostic_pinpoints _ _ _ member _ rejected⟩

end CompactSql
