import CompactSql.Expr
import CompactSql.Text.Listing

/-!
# Expressions as SQL

The canonical text of an expression: single spaces around operators, a comma
and a space between arguments, and no parentheses but those of a call.
-/

namespace CompactSql

def Literal.toSql : Literal → String
  | .integer value => toString value.toInt
  | .string text => String.ofList (Text.quote text.toList)

namespace Expr

mutual

def toSql : Expr → String
  | literal value => value.toSql
  | identifier name => name
  | field table name => table ++ "." ++ name
  | call name args => name ++ "(" ++ Text.commaSeparated (allToSql args) ++ ")"
  | binary op left right => left.toSql ++ " " ++ op.text ++ " " ++ right.toSql
  | between subject lower upper =>
      subject.toSql ++ " BETWEEN " ++ lower.toSql ++ " AND " ++ upper.toSql

def allToSql : List Expr → List String
  | [] => []
  | first :: others => first.toSql :: allToSql others

end

theorem allToSql_eq_map (exprs : List Expr) :
    allToSql exprs = exprs.map toSql := by
  induction exprs with
  | nil => rfl
  | cons first others ih => simp [allToSql, ih]

end Expr

end CompactSql
