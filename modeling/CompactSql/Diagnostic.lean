import CompactSql.Failure
import CompactSql.Text.Lines
import CompactSql.Text.Offset

/-!
# Diagnostics

A diagnostic shows a failure with the line it begins on and carets under the
part of its span that lies on that line; an empty span gets one caret.
-/

namespace CompactSql

def spaces (count : Nat) : String := String.ofList (List.replicate count ' ')

def carets (count : Nat) : String := String.ofList (List.replicate count '^')

@[simp] theorem toList_spaces (count : Nat) :
    (spaces count).toList = List.replicate count ' ' :=
  String.toList_ofList

@[simp] theorem toList_carets (count : Nat) :
    (carets count).toList = List.replicate count '^' :=
  String.toList_ofList

/-- The line of a text with this number, or nothing past the last line. -/
def lineAt (text : List Char) (number : Nat) : List Char :=
  (Text.lines text).getD (number - 1) []

def Span.firstLineLength (span : Span) (text : List Char) : Nat :=
  match Text.slice? text span.start span.stop with
  | none => 0
  | some piece => (lineAt piece 1).length

/-- `firstLine` is the number that the first line of `text` has in the whole
input. -/
def Failure.diagnostic (failure : Failure) (text : String) (firstLine : Nat) :
    String :=
  let source := text.toList
  let place := failure.span.position source
  let number := toString (firstLine + place.line - 1)
  let gutter := spaces number.length
  let severity := if failure.isLexical then "lex error" else "error"
  severity ++ ": " ++ failure.message ++ "\n" ++
    gutter ++ "--> " ++ number ++ ":" ++ toString place.column ++ "\n" ++
    gutter ++ " |\n" ++
    number ++ " | " ++ String.ofList (lineAt source place.line) ++ "\n" ++
    gutter ++ " | " ++ spaces (place.column - 1) ++
    carets (max 1 (failure.span.firstLineLength source)) ++ "\n"

end CompactSql
