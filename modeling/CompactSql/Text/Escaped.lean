import CompactSql.Text.Unprintable

/-!
# Escaped strings

The form in which an outline and a log line show a string: between double
quotes, on one line, and with every character that could not be told apart by
eye written as its code point.
-/

namespace CompactSql.Text

def hexDigits (code : Nat) : List Char :=
  Nat.toDigits 16 code

def escapeChar (c : Char) : List Char :=
  match c with
  | '\x00' => ['\\', '0']
  | '\t' => ['\\', 't']
  | '\r' => ['\\', 'r']
  | '\n' => ['\\', 'n']
  | '"' => ['\\', '"']
  | '\\' => ['\\', '\\']
  | c =>
      if isUnprintable c then
        '\\' :: 'u' :: '{' :: hexDigits c.toNat ++ ['}']
      else
        [c]

def escape (text : String) : String :=
  String.ofList ('"' :: text.toList.flatMap escapeChar ++ ['"'])

end CompactSql.Text
