import CompactSql.Expr.Outline
import CompactSql.Json

/-!
# Expressions as JSON

Names are bare strings; every other node is an object with its constructor as
the only member.
-/

namespace CompactSql

def Literal.json : Literal → Json
  | integer value => .tagged "Integer" (.integer value)
  | string text => .tagged "String" (.string text)

namespace Expr

mutual

def json : Expr → Json
  | literal value => .tagged "Literal" value.json
  | identifier name => .tagged "Identifier" (.string name)
  | field table name =>
      .tagged "QualifiedField"
        (.object [("table", .string table), ("field", .string name)])
  | call name args =>
      .tagged "Function"
        (.object [("name", .string name), ("args", .array (jsons args))])
  | binary op left right =>
      .tagged "Binary"
        (.object
          [("left", left.json), ("op", .string op.name), ("right", right.json)])
  | between subject lower upper =>
      .tagged "Ternary"
        (.object
          [("op", .string "Between"), ("subject", subject.json),
            ("start", lower.json), ("end", upper.json)])

def jsons : List Expr → List Json
  | [] => []
  | first :: others => first.json :: jsons others

end

end Expr

end CompactSql
