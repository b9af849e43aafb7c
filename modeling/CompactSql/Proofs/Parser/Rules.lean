import CompactSql.Proofs.Grammar.Climbing
import CompactSql.Proofs.Parser.Code
import CompactSql.Statement
import CompactSql.Grammar.Statement

/-!
# Rules as code

The rules of the grammar as code that moves a cursor: calls of values and right operands of
operators run the code they stand in again, lists and operators are loops, and alternatives
go back.  A request rewinds the parser it is made to and reads its whole input.
-/

namespace CompactSql.Parser

open Grammar (BindingPower TableEntry arithmeticPower comparisonOp held integerOf logicalPower
  nameOf stringOf)
open Grammar.Rule (ofKeyword ofKind)

namespace Code

def identifier : Code String := expect .identifier nameOf

def optionalIdentifier : Code (Option String) := optional identifier

def literal : Code Literal :=
  expect .literal fun kind => (integerOf kind).or (stringOf kind)

def qualifiedField : Code Expr := do
  let table ← identifier
  symbol .dot
  let name ← identifier
  return .field table name

def plainField : Code Expr := do
  return .identifier (← identifier)

def integerValue : Code Expr := do
  return .literal (← expect .integer integerOf)

def stringValue : Code Expr := do
  return .literal (← expect .string stringOf)

def arguments (argument : Code Expr) : Code (List Expr) := do
  if ← check (ofKind .rightParen) then return [] else commaList argument

def call (argument : Code Expr) : Code Expr := do
  let name ← identifier
  symbol .leftParen
  let args ← arguments argument
  symbol .rightParen
  return .call name args

def valueAlternatives (argument : Code Expr) : List (Code Expr) :=
  [qualifiedField, call argument, plainField, integerValue, stringValue]

/-- The arguments of a call are values themselves. -/
def value : Code Expr
  | 0, _ => .unfinished
  | bound + 1, parser =>
      firstOf .value (valueAlternatives fun _ => value bound) (bound + 1) parser

/-- An operator that goes on from `minimum` and its right operand, `right` giving the code
for one that is held so tightly. -/
def climbTurn (power : Token.Kind → Option BindingPower) (right : Nat → Code Expr)
    (minimum : Nat) : Expr → Code (Turn Expr Expr) :=
  leadTurn (held power minimum) (fun (_, holds) => right holds) fun (op, _) => .binary op

def climbWithin (power : Token.Kind → Option BindingPower) (operand : Code Expr) :
    Nat → Nat → Parser → Run Expr
  | 0, _, _ => .unfinished
  | bound + 1, minimum, parser =>
      (operand >>= looped (climbTurn power (fun holds _ => climbWithin power operand bound holds)
        minimum)) (bound + 1) parser

def climb (power : Token.Kind → Option BindingPower) (operand : Code Expr) (minimum : Nat) :
    Code Expr := fun bound => climbWithin power operand bound minimum

def arithmetic (minimum : Nat) : Code Expr := climb arithmeticPower value minimum

def predicate : Code Expr := do
  let subject ← arithmetic 0
  match ← eat comparisonOp with
  | some op => return .binary op subject (← arithmetic 0)
  | none =>
      match ← eat (ofKeyword .BETWEEN) with
      | some _ =>
          let lower ← arithmetic 0
          keyword .AND
          let upper ← arithmetic 0
          return .between subject lower upper
      | none => unexpected .comparison

def condition (minimum : Nat) : Code Expr := climb logicalPower predicate minimum

def selectItems : Code (List SelectItem) := do
  match ← eat (ofKind .star) with
  | some _ => return [.wildcard]
  | none => return (← commaList (arithmetic 0)).map .expr

def join : Code Join := do
  keyword .JOIN
  let table ← identifier
  keyword .ON
  return ⟨table, ← condition 0⟩

def tableSource : Code TableSource := do
  keyword .FROM
  let table ← identifier
  let joins ← repeated (ofKeyword .LEFT) fun _ => join
  return ⟨table, joins⟩

def optionalWhere : Code (Option Expr) := ledBy .WHERE (condition 0)

def groupField : Code Expr := firstOf .fieldName [qualifiedField, plainField]

def grouping : Code (List Expr × Option Expr) := do
  match ← eat (ofKeyword .GROUP) with
  | none => return ([], none)
  | some _ =>
      keyword .BY
      let fields ← commaList groupField
      return (fields, ← ledBy .HAVING (condition 0))

def sortKey : Code SortKey := do
  let expr ← arithmetic 0
  match ← eat (ofKeyword .DESC) with
  | some _ => return ⟨expr, false⟩
  | none =>
      let _ ← eat (ofKeyword .ASC)
      return ⟨expr, true⟩

def sorting : Code (List SortKey) := do
  let keys ← ledBy .ORDER do
    keyword .BY
    commaList sortKey
  return keys.getD []

def nameList : Code (List String) := commaList identifier

def names : Code (List String) := do
  symbol .leftParen
  let names ← nameList
  symbol .rightParen
  return names

def row : Code (List Literal) := do
  symbol .leftParen
  let values ← commaList literal
  symbol .rightParen
  return values

def assignment : Code Assignment := do
  let field ← identifier
  symbol .eq
  return ⟨field, ← arithmetic 0⟩

def optionalUsing : Code (Option String) := ledBy .USING identifier

def selection : Code Selection := do
  keyword .SELECT
  let items ← selectItems
  let source ← tableSource
  let condition ← optionalWhere
  let (groupBy, having) ← grouping
  let orderBy ← sorting
  return ⟨items, source, condition, groupBy, having, orderBy⟩

def fieldNames : Code (Option (List String)) := do
  if ← check (ofKind .leftParen) then return some (← names) else return none

def insertion : Code Insertion := do
  keyword .INSERT
  keyword .INTO
  let table ← identifier
  let fields ← fieldNames
  keyword .VALUES
  return ⟨table, fields, ← commaList row⟩

def update : Code Update := do
  keyword .UPDATE
  let table ← identifier
  keyword .SET
  let assignments ← commaList assignment
  return ⟨table, assignments, ← optionalWhere⟩

def deletion : Code Deletion := do
  keyword .DELETE
  let _ ← eat (ofKind .star)
  keyword .FROM
  let table ← identifier
  return ⟨table, ← optionalWhere⟩

def inlineIndex : Code IndexDefinition := do
  keyword .INDEX
  let name ← optionalIdentifier
  let method ← optionalUsing
  return ⟨name, none, method, ← names⟩

def tableEntry : Code TableEntry := do
  if ← check (ofKeyword .INDEX) then return .index (← inlineIndex)
  else return .field (← identifier)

def checkFields (table : String) (opening : Span) (entries : List TableEntry) :
    Code TableDefinition := do
  let fields := entries.filterMap TableEntry.field?
  if fields.isEmpty then fail ⟨.noFields, opening.merge (← previous).span⟩
  else return ⟨table, fields, entries.filterMap TableEntry.index?⟩

def tableDefinition : Code TableDefinition := do
  keyword .CREATE
  keyword .TABLE
  let table ← identifier
  let opening ← current
  symbol .leftParen
  let entries ← commaList tableEntry
  symbol .rightParen
  checkFields table opening.span entries

def indexDefinition : Code IndexDefinition := do
  keyword .CREATE
  keyword .INDEX
  let name ← optionalIdentifier
  keyword .ON
  let table ← identifier
  let method ← optionalUsing
  return ⟨name, some table, method, ← names⟩

def statementAlternatives : List (Code Statement) :=
  [complete (.select <$> selection), complete (.insert <$> insertion),
    complete (.update <$> update), complete (.delete <$> deletion),
    complete (.createTable <$> tableDefinition), complete (.createIndex <$> indexDefinition)]

def statement : Code Statement := firstOf .statement statementAlternatives

end Code

/-- What a parser can be asked for. -/
inductive Request where
  | statement
  | expression
  | condition
  deriving DecidableEq, Repr

namespace Request

abbrev Tree : Request → Type
  | statement => Statement
  | expression | condition => Expr

def code : (request : Request) → Code request.Tree
  | statement => .read .statement
  | expression => .read (.complete (.arithmetic 0))
  | condition => .read (.complete (.condition 0))

structure Answer where
  request : Request
  result : Except Failure request.Tree

def serve : List Request → Code (List Answer)
  | [] => pure []
  | request :: others => do
      let result ← request.code.caught
      let answers ← serve others
      return ⟨request, result⟩ :: answers

end Request

end CompactSql.Parser
