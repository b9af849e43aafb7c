import CompactSql.Text.Quoted

/-!
# Expressions

Values, operators and `BETWEEN`.  The type holds every tree that the operators
can build; which of them the dialect can write is a matter of the grammar.
Equality of expressions is decidable.
-/

namespace CompactSql

inductive Literal where
  | integer (value : Int64)
  | string (text : String)
  deriving DecidableEq, Repr

/-- The string that the raw text of a string token stands for. -/
def Literal.ofRaw (raw : String) : Literal :=
  .string (String.ofList (Text.collapse raw.toList))

inductive BinaryOp where
  | add | sub | mul | div
  | eq | lt | gt | ltEq | gtEq
  | and | or
  deriving DecidableEq, Repr

namespace BinaryOp

def text : BinaryOp → String
  | add => "+"
  | sub => "-"
  | mul => "*"
  | div => "/"
  | eq => "="
  | lt => "<"
  | gt => ">"
  | ltEq => "<="
  | gtEq => ">="
  | and => "AND"
  | or => "OR"

def isComparison : BinaryOp → Bool
  | eq | lt | gt | ltEq | gtEq => true
  | _ => false

def isLogical : BinaryOp → Bool
  | and | or => true
  | _ => false

/-- How tightly an operator binds; operators of one precedence group to the
left, and `AND` binds no tighter than `OR`. -/
def precedence : BinaryOp → Nat
  | mul | div => 20
  | add | sub => 10
  | eq | lt | gt | ltEq | gtEq => 5
  | and | or => 1

end BinaryOp

inductive Expr where
  | literal (value : Literal)
  | identifier (name : String)
  | field (table name : String)
  | call (name : String) (args : List Expr)
  | binary (op : BinaryOp) (left right : Expr)
  | between (subject lower upper : Expr)
  deriving Repr

namespace Expr

mutual

def same : Expr → Expr → Bool
  | literal first, literal second => first = second
  | identifier first, identifier second => first = second
  | field table name, field table' name' => table = table' && name = name'
  | call name args, call name' args' => name = name' && sameAll args args'
  | binary op left right, binary op' left' right' =>
      op = op' && same left left' && same right right'
  | between subject lower upper, between subject' lower' upper' =>
      same subject subject' && same lower lower' && same upper upper'
  | _, _ => false

def sameAll : List Expr → List Expr → Bool
  | [], [] => true
  | first :: others, first' :: others' =>
      same first first' && sameAll others others'
  | _, _ => false

end

mutual

theorem same_iff (first second : Expr) :
    same first second = true ↔ first = second := by
  cases first with
  | literal value => cases second <;> simp [same]
  | identifier name => cases second <;> simp [same]
  | field table name => cases second <;> simp [same]
  | call name args =>
      cases second with
      | call name' args' => simp [same, sameAll_iff args args']
      | _ => simp [same]
  | binary op left right =>
      cases second with
      | binary op' left' right' =>
          simp [same, same_iff left left', same_iff right right', and_assoc]
      | _ => simp [same]
  | between subject lower upper =>
      cases second with
      | between subject' lower' upper' =>
          simp [same, same_iff subject subject', same_iff lower lower',
            same_iff upper upper', and_assoc]
      | _ => simp [same]

theorem sameAll_iff (first second : List Expr) :
    sameAll first second = true ↔ first = second := by
  cases first with
  | nil => cases second <;> simp [sameAll]
  | cons head tail =>
      cases second with
      | nil => simp [sameAll]
      | cons head' tail' =>
          simp [sameAll, same_iff head head', sameAll_iff tail tail']

end

instance : DecidableEq Expr := fun first second =>
  decidable_of_iff _ (same_iff first second)

end Expr

end CompactSql
