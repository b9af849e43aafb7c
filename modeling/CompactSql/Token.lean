import CompactSql.Span
import CompactSql.Keyword

/-!
# Tokens

A token is a kind and the span it covers.  A piece of text that is no token of
the dialect is a token as well, whose kind tells what is wrong with it, so that
a dump of the tokens can go on behind it.
-/

namespace CompactSql

namespace Token

inductive Fault where
  | unexpectedCharacter (c : Char)
  | integerTooLarge (digits : List Char)
  | unterminatedString
  | other (message : String)
  deriving DecidableEq, Repr

namespace Fault

def message : Fault → String
  | unexpectedCharacter c => "Unexpected character: " ++ c.toString
  | integerTooLarge digits =>
      "Invalid integer " ++ String.ofList digits ++
        ": number too large to fit in target type"
  | unterminatedString => "Unterminated string literal"
  | other message => message

end Fault

/-- The kind of a token; a string is kept raw, its quotes still doubled. -/
inductive Kind where
  | integer (value : Int64)
  | string (raw : String)
  | identifier (name : String)
  | keyword (word : Keyword)
  | plus | minus | star | slash
  | eq | lt | ltEq | gt | gtEq
  | leftParen | rightParen | comma | dot
  | eof
  | fault (cause : Fault)
  deriving DecidableEq, Repr

namespace Kind

def describe : Kind → String
  | integer value => "integer " ++ toString value.toInt
  | string raw => "string '" ++ raw ++ "'"
  | identifier name => "identifier " ++ name
  | keyword word => "keyword " ++ word.text
  | plus => "'+'"
  | minus => "'-'"
  | star => "'*'"
  | slash => "'/'"
  | eq => "'='"
  | lt => "'<'"
  | ltEq => "'<='"
  | gt => "'>'"
  | gtEq => "'>='"
  | leftParen => "'('"
  | rightParen => "')'"
  | comma => "','"
  | dot => "'.'"
  | eof => "end of input"
  | fault cause => cause.message

def keyword? : Kind → Option Keyword
  | keyword word => some word
  | _ => none

end Kind

end Token

structure Token where
  kind : Token.Kind
  span : Span
  deriving DecidableEq, Repr

def Token.isEof (token : Token) : Bool := token.kind = .eof

end CompactSql
