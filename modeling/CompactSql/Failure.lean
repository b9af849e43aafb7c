import CompactSql.Token

/-!
# Failures

A failure says what is wrong with a text and which span it concerns.  Its
message, what was expected and what was found are read off the complaint.
-/

namespace CompactSql

/-- What a rule was ready to read. -/
inductive Expectation where
  | keyword (word : Keyword)
  | symbol (kind : Token.Kind)
  | identifier
  | integer
  | string
  | literal
  | value
  | fieldName
  | comparison
  | statement
  | endOfInput
  | other (text : String)
  deriving DecidableEq, Repr

def Expectation.text : Expectation → String
  | keyword word => word.text
  | symbol kind => kind.describe
  | identifier => "identifier"
  | integer => "integer"
  | string => "string"
  | literal => "integer or string literal"
  | value => "value"
  | fieldName => "field name"
  | comparison => "comparison operator or BETWEEN"
  | statement => "SELECT, INSERT, UPDATE, DELETE or CREATE"
  | endOfInput => "end of input"
  | other text => text

inductive Complaint where
  | lexical (fault : Token.Fault)
  | unexpected (expected : Expectation) (found : Token.Kind)
  | trailing (found : Token.Kind)
  | noFields
  | other (message : String)
  deriving DecidableEq, Repr

namespace Complaint

def isLexical : Complaint → Bool
  | lexical _ => true
  | _ => false

def message : Complaint → String
  | lexical fault => fault.message
  | unexpected expected .eof =>
      "Unexpected end of input: expected " ++ expected.text
  | unexpected expected found =>
      "Unexpected token: expected " ++ expected.text ++ ", found " ++ found.describe
  | trailing found =>
      "Unexpected trailing input starting with " ++ found.describe
  | noFields => "CREATE TABLE requires at least one field"
  | other message => message

def expected? : Complaint → Option Expectation
  | unexpected expected _ => some expected
  | trailing _ => some .endOfInput
  | _ => none

def found? : Complaint → Option Token.Kind
  | unexpected _ found => some found
  | trailing found => some found
  | _ => none

end Complaint

structure Failure where
  complaint : Complaint
  span : Span
  deriving DecidableEq, Repr

namespace Failure

def unexpected (expected : Expectation) (found : Token) : Failure :=
  ⟨.unexpected expected found.kind, found.span⟩

def trailing (found : Token) : Failure :=
  ⟨.trailing found.kind, found.span⟩

def isLexical (failure : Failure) : Bool := failure.complaint.isLexical

def message (failure : Failure) : String := failure.complaint.message

def describe (failure : Failure) : String :=
  failure.message ++ " at position " ++ toString failure.span.start ++ ".." ++
    toString failure.span.stop

end Failure

instance decidableEqExcept {ε α : Type} [DecidableEq ε] [DecidableEq α] :
    DecidableEq (Except ε α)
  | .ok first, .ok second => decidable_of_iff (first = second) (by simp)
  | .error first, .error second => decidable_of_iff (first = second) (by simp)
  | .ok _, .error _ => .isFalse (by simp)
  | .error _, .ok _ => .isFalse (by simp)

end CompactSql
