import CompactSql.Expr
import CompactSql.Outline

/-!
# Expressions as outlines
-/

namespace CompactSql

def BinaryOp.name : BinaryOp → String
  | add => "Add"
  | sub => "Sub"
  | mul => "Mul"
  | div => "Div"
  | eq => "Eq"
  | lt => "Lt"
  | gt => "Gt"
  | ltEq => "LtEq"
  | gtEq => "GtEq"
  | and => "And"
  | or => "Or"

def Outline.identifier (name : String) : Outline :=
  record "Identifier" [("name", quoted name)]

def Literal.outline : Literal → Outline
  | integer value => .tuple "Integer" [.integer value]
  | string text => .tuple "String" [.quoted text]

namespace Expr

mutual

def outline : Expr → Outline
  | literal value => .tuple "Literal" [value.outline]
  | identifier name => .tuple "Identifier" [.identifier name]
  | field table name =>
      .tuple "QualifiedField"
        [.record "QualifiedField"
          [("table", .identifier table), ("field", .identifier name)]]
  | call name args =>
      .tuple "Function"
        [.record "FunctionCall"
          [("name", .identifier name), ("args", .list (outlines args))]]
  | binary op left right =>
      .record "Binary"
        [("left", left.outline), ("op", .leaf op.name), ("right", right.outline)]
  | between subject lower upper =>
      .record "Ternary"
        [("op", .leaf "Between"), ("subject", subject.outline),
          ("start", lower.outline), ("end", upper.outline)]

def outlines : List Expr → List Outline
  | [] => []
  | first :: others => first.outline :: outlines others

end

end Expr

end CompactSql
