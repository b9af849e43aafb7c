import CompactSql.Proofs.Printing.Statement

/-!
# Well-formed trees

The types of trees also hold trees that no text stands for: with names that are no
names, with operators of a loose tier below those of a tighter one, or with clauses
that the grammar never puts together.  The checks here are on trees alone; they
accept a tree exactly if its kinds can be written and the grammar derives it from them.
-/

namespace CompactSql

open Grammar Grammar.Derivation
open Token (Kind isWordStart isWordChar)
open Token.Kind (commas inParens)

/-- Does the text start like a word and go on like one, and is it no keyword? -/
def isName (name : String) : Bool :=
  match name.toList with
  | [] => false
  | first :: rest =>
      isWordStart first && rest.all isWordChar && (Keyword.ofWord? (first :: rest)).isNone

/-- Integers have no sign; strings are unrestricted. -/
def Literal.isUnsigned : Literal → Bool
  | .integer value => decide (0 ≤ value.toInt)
  | .string _ => true

def BinaryOp.isProduct : BinaryOp → Bool
  | mul | div => true
  | _ => false

def BinaryOp.isSum : BinaryOp → Bool
  | add | sub => true
  | _ => false

namespace Expr

mutual

def isValue : Expr → Bool
  | literal value => value.isUnsigned
  | identifier name => isName name
  | field table name => isName table && isName name
  | call name args => isName name && areValues args
  | binary _ _ _ => false
  | between _ _ _ => false

def areValues : List Expr → Bool
  | [] => true
  | first :: others => first.isValue && areValues others

end

/-- Operands with operators of one tier between them, grouped to the left. -/
def isChain (tier : BinaryOp → Bool) (operand : Expr → Bool) : Expr → Bool
  | binary op left right =>
      (tier op && isChain tier operand left && operand right) ||
        operand (binary op left right)
  | expr => operand expr

def isTerm : Expr → Bool := isChain BinaryOp.isProduct isValue

def isArithmetic : Expr → Bool := isChain BinaryOp.isSum isTerm

def isPredicate : Expr → Bool
  | binary op left right => op.isComparison && left.isArithmetic && right.isArithmetic
  | between subject lower upper =>
      subject.isArithmetic && lower.isArithmetic && upper.isArithmetic
  | _ => false

def isCondition : Expr → Bool := isChain BinaryOp.isLogical isPredicate

def isGroupField : Expr → Bool
  | identifier name => isName name
  | field table name => isName table && isName name
  | _ => false

end Expr

def SelectItem.areListed : List SelectItem → Bool
  | [] => false
  | [wildcard] => true
  | items => items.all fun
      | wildcard => false
      | expr value => value.isArithmetic

def Join.isWellFormed (join : Join) : Bool :=
  isName join.table && join.condition.isCondition

/-- `HAVING` needs a grouping to stand behind. -/
def Selection.isWellFormed (selection : Selection) : Bool :=
  SelectItem.areListed selection.items &&
    isName selection.source.table && selection.source.joins.all Join.isWellFormed &&
    selection.condition.all Expr.isCondition &&
    selection.groupBy.all Expr.isGroupField &&
    selection.having.all Expr.isCondition &&
    (selection.having.isNone || !selection.groupBy.isEmpty) &&
    selection.orderBy.all fun key => key.expr.isArithmetic

def areNames (names : List String) : Bool := !names.isEmpty && names.all isName

def Insertion.isWellFormed (insertion : Insertion) : Bool :=
  isName insertion.table && insertion.fields.all areNames &&
    !insertion.rows.isEmpty &&
    insertion.rows.all fun row => !row.isEmpty && row.all Literal.isUnsigned

def Assignment.isWellFormed (assignment : Assignment) : Bool :=
  isName assignment.field && assignment.value.isArithmetic

def Update.isWellFormed (update : Update) : Bool :=
  isName update.table &&
    !update.assignments.isEmpty && update.assignments.all Assignment.isWellFormed &&
    update.condition.all Expr.isCondition

def Deletion.isWellFormed (deletion : Deletion) : Bool :=
  isName deletion.table && deletion.condition.all Expr.isCondition

def IndexDefinition.isWellNamed (index : IndexDefinition) : Bool :=
  index.name.all isName && index.table.all isName && index.method.all isName &&
    areNames index.fields

/-- The indexes of a table are about the table itself. -/
def TableDefinition.isWellFormed (table : TableDefinition) : Bool :=
  isName table.table && areNames table.fields &&
    table.indexes.all fun index => index.isInline && index.isWellNamed

def Statement.isWellFormed : Statement → Bool
  | select selection => selection.isWellFormed
  | insert insertion => insertion.isWellFormed
  | update change => change.isWellFormed
  | delete deletion => deletion.isWellFormed
  | createTable table => table.isWellFormed
  | createIndex index => !index.isInline && index.isWellNamed

end CompactSql
