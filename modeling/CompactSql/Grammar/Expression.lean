import CompactSql.Expr
import CompactSql.Grammar.Rule

/-!
# Rules for expressions

Values, arithmetic, predicates, and conditions.  Operators are read by climbing
their binding powers: those of one power group to the left, and `AND` and `OR`
share a power.
-/

namespace CompactSql.Grammar

open Rule

def nameOf : Token.Kind → Option String
  | .identifier name => some name
  | _ => none

def integerOf : Token.Kind → Option Literal
  | .integer value => some (.integer value)
  | _ => none

def stringOf : Token.Kind → Option Literal
  | .string raw => some (.ofRaw raw)
  | _ => none

def identifier : Rule String := read .identifier nameOf

def literal : Rule Literal :=
  read .literal fun kind => (integerOf kind).or (stringOf kind)

def qualifiedField : Rule Expr := do
  let table ← identifier
  symbol .dot
  let name ← identifier
  return .field table name

def plainField : Rule Expr := do
  return .identifier (← identifier)

def callRest (argument : Rule Expr) (name : String) : Rule Expr := do
  match ← readIf (ofKind .rightParen) with
  | some _ => return .call name []
  | none =>
      let args ← commaList argument
      symbol .rightParen
      return .call name args

def call (argument : Rule Expr) : Rule Expr := do
  let name ← identifier
  symbol .leftParen
  callRest argument name

/-- A field, a call, a name, an integer or a string.  The arguments of a call
are values themselves, and they lie behind the place where the call begins. -/
def valueAt (cursor : Cursor) : Outcome Expr :=
  firstOf .value
    [("qualified field", qualifiedField),
      ("function call", call fun place =>
        if _ : place.rest.length < cursor.rest.length then valueAt place
        else unexpected .value place),
      ("identifier", plainField),
      ("integer", do return .literal (← read .integer integerOf)),
      ("string", do return .literal (← read .string stringOf))]
    cursor
termination_by cursor.rest.length

def value : Rule Expr := valueAt

/-- How tightly an operator holds the operand before it and the one behind it.
One that holds the second more tightly groups to the left. -/
structure BindingPower where
  left : Nat
  right : Nat
  deriving DecidableEq, Repr

def arithmeticPower : Token.Kind → Option BindingPower
  | .plus | .minus => some ⟨10, 11⟩
  | .star | .slash => some ⟨20, 21⟩
  | _ => none

def logicalPower : Token.Kind → Option BindingPower
  | .keyword .AND | .keyword .OR => some ⟨1, 2⟩
  | _ => none

def binaryOp : Token.Kind → Option BinaryOp
  | .plus => some .add
  | .minus => some .sub
  | .star => some .mul
  | .slash => some .div
  | .eq => some .eq
  | .lt => some .lt
  | .ltEq => some .ltEq
  | .gt => some .gt
  | .gtEq => some .gtEq
  | .keyword .AND => some .and
  | .keyword .OR => some .or
  | _ => none

def comparisonOp (kind : Token.Kind) : Option BinaryOp :=
  (binaryOp kind).filter BinaryOp.isComparison

/-- Goes on behind the operand `left` for as long as an operator is next that
holds it at least as tightly as `minimum`; its right operand is read in the same
way, held by the operator.  An operand that takes no token would be the last. -/
def climbAt (power : Token.Kind → Option BindingPower) (operand : Rule Expr)
    (minimum : Nat) (left : Expr) (cursor : Cursor) : Outcome Expr :=
  match power cursor.current.kind, binaryOp cursor.current.kind with
  | some held, some op =>
      if held.left < minimum then ⟨[], .ok (left, cursor)⟩
      else
        match operand cursor.advance with
        | ⟨trail, .error failure⟩ => ⟨trail, .error failure⟩
        | ⟨trail, .ok (first, inside)⟩ =>
            if _ : inside.rest.length < cursor.rest.length then
              match climbAt power operand held.right first inside with
              | ⟨trail', .error failure⟩ => ⟨trail ++ trail', .error failure⟩
              | ⟨trail', .ok (right, after)⟩ =>
                  if _ : after.rest.length < cursor.rest.length then
                    (climbAt power operand minimum (.binary op left right)
                      after).behind (trail ++ trail')
                  else
                    ⟨trail ++ trail', .ok (.binary op left right, after)⟩
            else
              ⟨trail, .ok (.binary op left first, inside)⟩
  | _, _ => ⟨[], .ok (left, cursor)⟩
termination_by cursor.rest.length

def climbFrom (power : Token.Kind → Option BindingPower) (operand : Rule Expr)
    (minimum : Nat) (left : Expr) : Rule Expr :=
  climbAt power operand minimum left

def climb (power : Token.Kind → Option BindingPower) (operand : Rule Expr)
    (minimum : Nat) : Rule Expr := do
  let first ← operand
  climbFrom power operand minimum first

def arithmetic : Rule Expr := climb arithmeticPower value 0

/-- A comparison or a range test.  Both begin with an arithmetic expression; it
is read once, and the token behind it decides. -/
def predicate : Rule Expr := do
  let subject ← arithmetic
  match ← readIf comparisonOp with
  | some op => return .binary op subject (← arithmetic)
  | none =>
      match ← readIf (ofKeyword .BETWEEN) with
      | some _ =>
          let lower ← arithmetic
          keyword .AND
          let upper ← arithmetic
          return .between subject lower upper
      | none => unexpected .comparison

def condition : Rule Expr := climb logicalPower predicate 0

end CompactSql.Grammar
