import CompactSql.Token.Lexer
import CompactSql.Grammar.Statement

/-!
# Reading a text

A text is cut into tokens and the tokens are read by a rule of the grammar, as
a statement, as an arithmetic expression or as a condition.  The whole text has
to take part.
-/

namespace CompactSql

open Grammar (Reading Rule)

def readStatement (tokens : List Token) : Reading Statement :=
  Grammar.statement.run tokens

def readExpression (tokens : List Token) : Reading Expr :=
  (Rule.complete Grammar.arithmetic).run tokens

def readCondition (tokens : List Token) : Reading Expr :=
  (Rule.complete Grammar.condition).run tokens

def parse (text : String) : Except Failure Statement := do
  (readStatement (← tokenize text)).result

def parseExpression (text : String) : Except Failure Expr := do
  (readExpression (← tokenize text)).result

def parseCondition (text : String) : Except Failure Expr := do
  (readCondition (← tokenize text)).result

theorem parse_of_tokenize {text : String} {tokens : List Token}
    (h : tokenize text = .ok tokens) :
    parse text = (readStatement tokens).result := by
  simp [parse, h, bind, Except.bind]

theorem parse_of_fault {text : String} {failure : Failure}
    (h : tokenize text = .error failure) : parse text = .error failure := by
  simp [parse, h, bind, Except.bind]

def readsAs {α : Type} [DecidableEq α] (reading : Except Failure α)
    (tree : α) : Bool :=
  match reading with
  | .ok read => read = tree
  | .error _ => false

end CompactSql
