import CompactSql.Proofs.Rejection
import CompactSql.Proofs.Token.Partition

/-!
# What a failure marks

The span of a failure is cut out of the text between two characters.  It is the end of the
text, or it begins at a character that is no blank and ends at one, so that no line ends
inside it without being part of it.
-/

namespace CompactSql

open Token (Kind)
open Token.Lexeme (longest)

/-- The span covers this piece of the text. -/
structure Span.Cuts (span : Span) (text front piece back : List Char) : Prop where
  split : text = front ++ (piece ++ back)
  start_eq : span.start = Text.byteLength front
  stop_eq : span.stop = Text.byteLength front + Text.byteLength piece

/-- The piece has no blank at its ends; only where the text ends anything may end it. -/
structure Trim (piece back : List Char) : Prop where
  first : ∃ c more, piece = c :: more ∧ Text.isBlank c = false
  last : back = [] ∨ ∀ c, piece.getLast? = some c → Text.isBlank c = false

namespace Token.Kind.Covers

variable {kind : Kind} {piece : List Char}

theorem first (h : kind.Covers piece) : ∃ c more, piece = c :: more ∧ Text.isBlank c = false := by
  obtain ⟨solid, -, -⟩ := h
  exact ⟨_, _, rfl, solid⟩

theorem last (h : kind.Covers piece) (closed : kind ≠ .fault .unterminatedString) :
    ∀ c, piece.getLast? = some c → Text.isBlank c = false := by
  obtain ⟨solid, -, alone⟩ := h
  next first more =>
  have single : ∀ c, [first].getLast? = some c → Text.isBlank c = false := by
    rintro _ ⟨⟩
    exact solid
  have compared {strict orEqual : Kind}
      (alone : Lexeme.comparison strict orEqual first more = ⟨kind, first :: more, []⟩) :
      ∀ c, (first :: more).getLast? = some c → Text.isBlank c = false := by
    rcases Lexeme.comparison_alone alone with ⟨-, rfl⟩ | ⟨-, rfl⟩
    · exact single
    · rintro _ ⟨⟩
      rfl
  have running {p : Char → Bool} {ofText : List Char → Kind}
      (inside : ∀ c, p c = true → Text.isBlank c = false)
      (alone : Lexeme.run p ofText first more = ⟨kind, first :: more, []⟩) :
      ∀ c, (first :: more).getLast? = some c → Text.isBlank c = false := by
    intro c last
    rcases List.mem_cons.mp (List.mem_of_getLast? last) with rfl | member
    · exact solid
    · exact inside c ((Lexeme.run_alone alone).1 c member)
  -- one case for each sort of lexeme; only an open string may end with a blank
  revert alone
  apply Lexeme.longest_cases (P := fun lexeme => lexeme = ⟨kind, first :: more, []⟩ →
    ∀ c, (first :: more).getLast? = some c → Text.isBlank c = false)
  · rintro _ _ ⟨⟩
    exact single
  · exact fun _ => compared
  · exact fun _ => compared
  · rintro - alone
    unfold Lexeme.quoted at alone
    split at alone
    · cases alone
      intro c last
      obtain rfl : '\'' = c := by simpa [List.getLast?_cons] using last
      rfl
    · cases alone
      exact absurd rfl closed
  · exact fun _ => running fun c digit =>
      Lexeme.isBlank_of_isWordChar (Lexeme.isWordChar_of_isDigit digit)
  · exact fun _ => running fun c => Lexeme.isBlank_of_isWordChar
  · rintro ⟨⟩
    exact single

end Token.Kind.Covers

/-- The span of a failure is the end of the text or a piece without blanks at its ends. -/
structure Failure.Marks (failure : Failure) (text front piece back : List Char) : Prop where
  cuts : failure.span.Cuts text front piece back
  trim : (piece = [] ∧ back = []) ∨ Trim piece back

variable {text : List Char} {pieces : List Token} {failure : Failure}

theorem Tiled.cuts {token : Token} (tiled : Tiled 0 text pieces) (member : token ∈ pieces) :
    ∃ front piece back, token.span.Cuts text front piece back ∧ token.kind.Covers piece := by
  obtain ⟨front, piece, back, split, span, covers⟩ := tiled.covers token member
  rw [Nat.zero_add] at span
  exact ⟨front, piece, back, ⟨split, by rw [span], by rw [span]⟩, covers⟩

private theorem marks_end (span : failure.span = .point (Text.byteLength text)) :
    failure.Marks text text [] [] :=
  ⟨⟨by simp, by rw [span]; rfl, by rw [span]; rfl⟩, .inl ⟨rfl, rfl⟩⟩

private theorem marks_token {token : Token} (tiled : Tiled 0 text pieces) (member : token ∈ pieces)
    (stop : token.kind = .fault .unterminatedString → token.span.stop = Text.byteLength text)
    (span : failure.span = token.span) :
    ∃ front piece back, failure.Marks text front piece back := by
  obtain ⟨front, piece, back, cuts, covers⟩ := tiled.cuts member
  refine ⟨front, piece, back, ⟨by rwa [span], .inr ⟨covers.first, ?_⟩⟩⟩
  by_cases unclosed : token.kind = .fault .unterminatedString
  · left
    have whole := stop unclosed
    rw [cuts.stop_eq, cuts.split, Text.byteLength_append, Text.byteLength_append] at whole
    exact Text.eq_nil_of_byteLength (by omega)
  · exact .inr (covers.last unclosed)

private theorem marks_merge {first second : Token} (tiled : Tiled 0 text pieces)
    (sound : ∀ token ∈ pieces, ∀ cause, token.kind ≠ .fault cause)
    (member : first ∈ pieces) (member' : second ∈ pieces)
    (order : first.span.stop ≤ second.span.start)
    (span : failure.span = ⟨first.span.start, second.span.stop⟩) :
    ∃ front piece back, failure.Marks text front piece back := by
  obtain ⟨front, piece, back, cuts, covers⟩ := tiled.cuts member
  obtain ⟨front', piece', back', cuts', covers'⟩ := tiled.cuts member'
  obtain ⟨inner, rfl⟩ : ∃ inner, front' = (front ++ piece) ++ inner := by
    have same : (front ++ piece) ++ back = front' ++ (piece' ++ back') := by
      rw [List.append_assoc, ← cuts.split, ← cuts'.split]
    refine Text.exists_append_of_byteLength_le same ?_
    rwa [Text.byteLength_append, ← cuts.stop_eq, ← cuts'.start_eq]
  refine ⟨front, piece ++ (inner ++ piece'), back', ⟨⟨?_, ?_, ?_⟩, .inr ⟨?_, .inr ?_⟩⟩⟩
  · rw [cuts'.split]
    simp
  · rw [span]
    exact cuts.start_eq
  · rw [span, cuts'.stop_eq]
    simp [Nat.add_assoc]
  · obtain ⟨c, more, rfl, solid⟩ := covers.first
    exact ⟨c, _, rfl, solid⟩
  · intro c last
    obtain ⟨d, more, rfl, -⟩ := covers'.first
    refine covers'.last (sound second member' _) c ?_
    simpa [List.getLast?_append, List.getLast?_cons] using last

theorem parse_marks {text : String} (rejected : parse text = .error failure) :
    ∃ front piece back, failure.Marks text.toList front piece back := by
  cases cut : tokenize text with
  | error fault =>
      rw [parse_of_fault cut] at rejected
      obtain rfl := Except.error.inj rejected
      obtain ⟨pieces, token, cause, tiled, member, kind, rfl, stop⟩ := tokenize_fault cut
      exact marks_token tiled member (fun unclosed => stop (by simpa [kind] using unclosed)) rfl
  | ok tokens =>
      have placed := tokenize_placed cut
      rw [parse_of_tokenize cut] at rejected
      obtain ⟨pieces, rfl, tiled, sound⟩ := tokenize_tiled cut
      let ending : Token := ⟨.eof, .point (Text.byteLength text.toList)⟩
      -- a token is marked, or the list of a table from one parenthesis to the other
      rcases statement_reported placed rejected with points | list
      · obtain ⟨index, token, found, -, -, span⟩ := points
        rcases List.mem_append.mp (List.mem_of_getElem? found) with inner | last
        · exact marks_token tiled inner (fun unclosed => absurd unclosed (sound token inner _))
            span
        · obtain rfl : token = ending := List.mem_singleton.mp last
          exact ⟨_, _, _, marks_end span⟩
      · obtain ⟨create, table, name, opening, inner, closing, rest, split, fieldless, -, -, -,
          span⟩ := list
        have inside {token : Token} (among : token ∈ pieces ++ [ending])
            (notEnd : token.kind ≠ .eof) : token ∈ pieces := by
          rcases List.mem_append.mp among with inner | last
          · exact inner
          · obtain rfl : token = ending := List.mem_singleton.mp last
            exact absurd rfl notEnd
        have order := placed.pairwise
        rw [split] at order
        simp only [List.pairwise_cons, List.mem_cons, List.mem_append] at order
        obtain ⟨-, -, -, behind, -⟩ := order
        exact marks_merge tiled sound
          (inside (by rw [split]; simp) (by rw [fieldless.opening]; decide))
          (inside (by rw [split]; simp) (by rw [fieldless.closing]; decide))
          (behind closing (.inr (.inl rfl))).2 span

end CompactSql
