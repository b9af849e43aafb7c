import CompactSql.Token.Dump
import CompactSql.Proofs.Token.Requests

/-!
# Rows of a dump

A row has a span in a column of ten characters and, behind a blank, what the token is.  No
blank is in a span, so the column ends at the first one and the text of the row can be read
back; and by its text the row of a fault is told from all others.
-/

namespace CompactSql

open Token (Fault Kind)

namespace Dump

def column (span : Span) : List Char :=
  (toString span.start).toList ++ ['.', '.'] ++ (toString span.stop).toList

def row (span : Span) (text : List Char) : List Char :=
  column span ++ List.replicate (10 - (column span).length) ' ' ++ [' '] ++ text ++ ['\n']

/-- The texts of the faults that there are in a stream. -/
inductive FaultText : List Char → Prop
  | unexpectedCharacter (c : Char) :
      FaultText ("Unexpected character: ".toList ++ [c])
  | integerTooLarge (digits : List Char) :
      FaultText ("Invalid integer ".toList ++ digits ++
        ": number too large to fit in target type".toList)
  | unterminatedString : FaultText "Unterminated string literal".toList

def TellsFault (line : List Char) : Prop :=
  ∃ span text, line = row span text ∧ FaultText text

theorem toList_dumpLine_eq (token : Token) :
    token.dumpLine.toList = row token.span token.kind.describe.toList := by
  have width : token.span.describe.length = (column token.span).length := by
    rw [← String.length_toList, Span.toList_describe, column, List.append_assoc]
    rfl
  rw [Token.toList_dumpLine, toList_padRight, width, Span.toList_describe, row, column]
  simp only [List.append_assoc, List.cons_append, List.nil_append]

theorem toList_dumpTokens_eq (text : String) :
    (dumpTokens text).toList =
      ((Lexer.ofText text).stream.map fun token =>
        row token.span token.kind.describe.toList).flatten := by
  rw [toList_dumpTokens, ← List.flatMap_def]
  simp only [toList_dumpLine_eq]

private theorem blank_notMem_column (span : Span) : ' ' ∉ column span := by
  have digits (n : Nat) : ' ' ∉ (toString n).toList := by
    intro blank
    have member : ' ' ∈ Nat.toDigits 10 n := by simpa using blank
    have digit := Nat.isDigit_of_mem_toDigits (by decide) (by decide) member
    cases digit
  simp only [column, List.mem_append, not_or]
  exact ⟨⟨digits _, by decide⟩, digits _⟩

private theorem takeWhile_row (span : Span) (text : List Char) :
    (row span text).takeWhile (· != ' ') = column span := by
  have inside : ∀ c ∈ column span, (c != ' ') = true := by
    intro c member
    refine bne_iff_ne.mpr ?_
    rintro rfl
    exact blank_notMem_column span member
  have stopped : (List.replicate (10 - (column span).length) ' ' ++
      ([' '] ++ (text ++ ['\n']))).takeWhile (· != ' ') = [] := by
    cases 10 - (column span).length <;> rfl
  rw [row, List.append_assoc, List.append_assoc, List.append_assoc,
    List.takeWhile_append_of_pos inside, stopped, List.append_nil]

theorem row_text_inj {span span' : Span} {text text' : List Char}
    (same : row span text = row span' text') : text = text' := by
  have columns : column span = column span' := by
    rw [← takeWhile_row span text, same, takeWhile_row]
  rw [row, row, columns] at same
  exact List.append_cancel_left (List.append_cancel_right same)

private theorem FaultText.head {text : List Char} (h : FaultText text) :
    text.head? = some 'U' ∨ text.head? = some 'I' := by
  cases h with
  | unexpectedCharacter => exact .inl rfl
  | integerTooLarge => exact .inr rfl
  | unterminatedString => exact .inl rfl

private theorem fault_of_faultText {kind : Kind} (h : FaultText kind.describe.toList) :
    ∃ cause, kind = .fault cause := by
  -- only the messages of faults begin with a capital
  have capital := h.head
  cases kind with
  | fault cause => exact ⟨cause, rfl⟩
  | _ => simp [Kind.describe] at capital

private theorem faultText_of_covers {cause : Fault} {piece : List Char}
    (covers : (Kind.fault cause).Covers piece) : FaultText cause.message.toList := by
  obtain ⟨-, -, alone⟩ := covers
  rcases Token.Lexeme.fault_cases (congrArg Token.Lexeme.kind alone) with
    rfl | ⟨digits, rfl⟩ | ⟨rfl, -, -⟩
  · next c more =>
    have spelled : (Fault.unexpectedCharacter c).message.toList =
        "Unexpected character: ".toList ++ [c] := by
      unfold Fault.message
      simp only [String.toList_append, Char.toString, String.toList_singleton]
    rw [spelled]
    exact .unexpectedCharacter c
  · have spelled : (Fault.integerTooLarge digits).message.toList = "Invalid integer ".toList ++
        digits ++ ": number too large to fit in target type".toList := by
      unfold Fault.message
      simp only [String.toList_append, String.toList_ofList]
    rw [spelled]
    exact .integerTooLarge digits
  · exact .unterminatedString

/-- A dump has the row of a fault if there is a fault among the tokens. -/
theorem tellsFault_iff (text : String) :
    (∃ token ∈ (Lexer.ofText text).stream,
      TellsFault (row token.span token.kind.describe.toList)) ↔
      ∃ token ∈ (Lexer.ofText text).stream, token.Faulty := by
  obtain ⟨tokens, whole, tiled, -⟩ := (Lexer.ofText text).stream_tiled
  refine exists_congr fun token => and_congr_right fun member => ⟨?_, ?_⟩
  · rintro ⟨span, told, same, faultText⟩
    rw [← row_text_inj same] at faultText
    exact fault_of_faultText faultText
  · rintro ⟨cause, fault⟩
    refine ⟨_, _, rfl, ?_⟩
    rw [whole, List.mem_append, List.mem_singleton] at member
    rcases member with inner | rfl
    · obtain ⟨front, piece, back, -, -, covers⟩ := tiled.covers token inner
      rw [fault] at covers ⊢
      exact faultText_of_covers covers
    · cases fault

end Dump

end CompactSql
