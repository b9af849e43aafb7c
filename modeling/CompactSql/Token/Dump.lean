import CompactSql.Token.Lexer

/-!
# Dumps of tokens

One line for every token of a text, faults and the end token included: the span
in a column of ten characters, and what the token is.
-/

namespace CompactSql

def padRight (width : Nat) (text : String) : String :=
  text ++ String.ofList (List.replicate (width - text.length) ' ')

@[simp] theorem toList_padRight (width : Nat) (text : String) :
    (padRight width text).toList =
      text.toList ++ List.replicate (width - text.length) ' ' := by
  simp [padRight]

def Span.describe (span : Span) : String :=
  toString span.start ++ ".." ++ toString span.stop

@[simp] theorem Span.toList_describe (span : Span) :
    span.describe.toList =
      (toString span.start).toList ++ '.' :: '.' :: (toString span.stop).toList := by
  simp [describe]

def Token.dumpLine (token : Token) : String :=
  padRight 10 token.span.describe ++ " " ++ token.kind.describe ++ "\n"

@[simp] theorem Token.toList_dumpLine (token : Token) :
    token.dumpLine.toList =
      (padRight 10 token.span.describe).toList ++
        ' ' :: (token.kind.describe.toList ++ ['\n']) := by
  simp [dumpLine]

def dumpTokens (text : String) : String :=
  String.join ((Lexer.ofText text).stream.map Token.dumpLine)

theorem toList_dumpTokens (text : String) :
    (dumpTokens text).toList =
      (Lexer.ofText text).stream.flatMap fun token => token.dumpLine.toList := by
  rw [dumpTokens, String.toList_join, List.flatMap_map]

end CompactSql
