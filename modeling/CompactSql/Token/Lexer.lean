import CompactSql.Text.Blank
import CompactSql.Text.Offset
import CompactSql.Text.Quoted
import CompactSql.Failure

/-!
# Cutting a text into tokens

A lexer is a place in a text.  `Lexer.next` skips blanks and takes the longest
lexeme there; at the end of the text it gives the end token again and again.
`Lexer.stream` is all that repeated calls give up to the first end token, and
`Lexer.tokenize` is the same walk stopped by the first fault.
-/

namespace CompactSql

namespace Token

/-- A piece at the front of a text: its kind, its characters and what follows. -/
structure Lexeme where
  kind : Kind
  text : List Char
  rest : List Char
  deriving DecidableEq, Repr

def isWordStart (c : Char) : Bool := c.isAlpha || c == '_'

def isWordChar (c : Char) : Bool := c.isAlphanum || c == '_'

def Kind.ofWord (word : List Char) : Kind :=
  match Keyword.ofWord? word with
  | some reserved => .keyword reserved
  | none => .identifier (String.ofList word)

/-- Integers end at the largest signed number of 64 bits. -/
def Kind.ofDigits (digits : List Char) : Kind :=
  let value := Nat.ofDigitChars 10 digits 0
  if value < 0x8000000000000000 then .integer (Int64.ofNat value)
  else .fault (.integerTooLarge digits)

def Kind.ofSymbol? : Char → Option Kind
  | '(' => some .leftParen
  | ')' => some .rightParen
  | ',' => some .comma
  | '.' => some .dot
  | '+' => some .plus
  | '-' => some .minus
  | '*' => some .star
  | '/' => some .slash
  | '=' => some .eq
  | _ => none

namespace Lexeme

def run (p : Char → Bool) (ofText : List Char → Kind) (first : Char)
    (rest : List Char) : Lexeme :=
  let text := first :: rest.takeWhile p
  ⟨ofText text, text, rest.dropWhile p⟩

def comparison (strict orEqual : Kind) (sign : Char) : List Char → Lexeme
  | '=' :: rest => ⟨orEqual, [sign, '='], rest⟩
  | rest => ⟨strict, [sign], rest⟩

/-- The string behind an opening quote; without a closing quote the fault takes
the whole text that is left. -/
def quoted (text : List Char) : Lexeme :=
  match Text.close? text with
  | some (raw, rest) =>
      ⟨.string (String.ofList raw), '\'' :: raw ++ ['\''], rest⟩
  | none => ⟨.fault .unterminatedString, '\'' :: text, []⟩

def longest (first : Char) (rest : List Char) : Lexeme :=
  match Kind.ofSymbol? first with
  | some kind => ⟨kind, [first], rest⟩
  | none =>
      if first = '<' then comparison .lt .ltEq first rest
      else if first = '>' then comparison .gt .gtEq first rest
      else if first = '\'' then quoted rest
      else if first.isDigit then run Char.isDigit .ofDigits first rest
      else if isWordStart first then run isWordChar .ofWord first rest
      else ⟨.fault (.unexpectedCharacter first), [first], rest⟩

theorem length_rest_longest (first : Char) (rest : List Char) :
    (longest first rest).rest.length ≤ rest.length := by
  have dropped (p : Char → Bool) : (rest.dropWhile p).length ≤ rest.length :=
    (List.dropWhile_sublist p).length_le
  have compared (strict orEqual : Kind) (sign : Char) :
      (comparison strict orEqual sign rest).rest.length ≤
        rest.length := by
    unfold comparison
    split
    · exact Nat.le_succ _
    · exact Nat.le_refl _
  have closed : (quoted rest).rest.length ≤ rest.length := by
    unfold quoted
    split
    · next raw after hclose =>
        rw [Text.eq_append_of_close? hclose]
        simp
        omega
    · exact Nat.zero_le _
  unfold longest
  split
  · exact Nat.le_refl _
  · split
    · exact compared _ _ _
    · split
      · exact compared _ _ _
      · split
        · exact closed
        · split
          · exact dropped _
          · split
            · exact dropped _
            · exact Nat.le_refl _

end Lexeme

end Token

/-- A place in a text: the bytes before it and the characters behind it. -/
structure Lexer where
  offset : Nat
  rest : List Char
  deriving DecidableEq, Repr

namespace Lexer

def ofText (text : String) : Lexer := ⟨0, text.toList⟩

def skipBlanks (lexer : Lexer) : Lexer :=
  ⟨lexer.offset + Text.byteLength (lexer.rest.takeWhile Text.isBlank),
    lexer.rest.dropWhile Text.isBlank⟩

def next (lexer : Lexer) : Token × Lexer :=
  let place := lexer.skipBlanks
  match place.rest with
  | [] => (⟨.eof, .point place.offset⟩, place)
  | first :: rest =>
      let lexeme := Token.Lexeme.longest first rest
      let stop := place.offset + Text.byteLength lexeme.text
      (⟨lexeme.kind, ⟨place.offset, stop⟩⟩, ⟨stop, lexeme.rest⟩)

theorem next_of_nil {lexer : Lexer} (h : lexer.skipBlanks.rest = []) :
    lexer.next =
      (⟨.eof, .point lexer.skipBlanks.offset⟩, lexer.skipBlanks) := by
  simp [next, h]

theorem next_of_cons {lexer : Lexer} {first : Char} {rest : List Char}
    (h : lexer.skipBlanks.rest = first :: rest) :
    lexer.next =
      let lexeme := Token.Lexeme.longest first rest
      let stop := lexer.skipBlanks.offset + Text.byteLength lexeme.text
      (⟨lexeme.kind, ⟨lexer.skipBlanks.offset, stop⟩⟩, ⟨stop, lexeme.rest⟩) := by
  simp [next, h]

theorem next_rest_length {lexer : Lexer} (h : lexer.next.1.isEof = false) :
    lexer.next.2.rest.length < lexer.rest.length := by
  have skipped : lexer.skipBlanks.rest.length ≤ lexer.rest.length :=
    (List.dropWhile_sublist _).length_le
  cases hrest : lexer.skipBlanks.rest with
  | nil => simp [next_of_nil hrest, Token.isEof] at h
  | cons first rest =>
      have shorter := Token.Lexeme.length_rest_longest first rest
      rw [hrest, List.length_cons] at skipped
      rw [next_of_cons hrest]
      exact Nat.lt_of_lt_of_le (Nat.lt_succ_of_le shorter) skipped

/-- The tokens up to the first end token, which is included. -/
def stream (lexer : Lexer) : List Token :=
  if _ : lexer.next.1.isEof then [lexer.next.1]
  else lexer.next.1 :: stream lexer.next.2
termination_by lexer.rest.length
decreasing_by exact next_rest_length (by simp_all)

/-- The tokens up to the end, or the first fault on the way; and the place
behind the last token that was looked at. -/
def tokenize (lexer : Lexer) : Except Failure (List Token) × Lexer :=
  if _ : lexer.next.1.isEof then (.ok [lexer.next.1], lexer.next.2)
  else
    match lexer.next.1.kind with
    | .fault cause =>
        (.error ⟨.lexical cause, lexer.next.1.span⟩, lexer.next.2)
    | _ =>
        let (tokens, place) := tokenize lexer.next.2
        (tokens.map (lexer.next.1 :: ·), place)
termination_by lexer.rest.length
decreasing_by exact next_rest_length (by simp_all)

end Lexer

def tokenize (text : String) : Except Failure (List Token) :=
  (Lexer.ofText text).tokenize.1

end CompactSql
