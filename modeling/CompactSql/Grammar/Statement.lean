import CompactSql.Statement
import CompactSql.Grammar.Expression

/-!
# Rules for statements

The clauses and the six statements.  The alternatives of `statement` each reach
to the end of the input.
-/

namespace CompactSql.Grammar

open Rule

def selectItems : Rule (List SelectItem) := do
  match ← readIf (ofKind .star) with
  | some _ => return [.wildcard]
  | none => return (← commaList arithmetic).map .expr

def join : Rule Join := do
  keyword .JOIN
  let table ← identifier
  keyword .ON
  return ⟨table, ← condition⟩

def tableSource : Rule TableSource := do
  keyword .FROM
  let table ← identifier
  let joins ← repeated (ofKeyword .LEFT) fun _ => join
  return ⟨table, joins⟩

def groupField : Rule Expr :=
  firstOf .fieldName
    [("qualified field", qualifiedField), ("identifier", plainField)]

def grouping : Rule (List Expr × Option Expr) := do
  match ← readIf (ofKeyword .GROUP) with
  | none => return ([], none)
  | some _ =>
      keyword .BY
      let fields ← commaList groupField
      return (fields, ← ledBy .HAVING condition)

def sortKey : Rule SortKey := do
  let expr ← arithmetic
  match ← readIf (ofKeyword .DESC) with
  | some _ => return ⟨expr, false⟩
  | none =>
      let _ ← readIf (ofKeyword .ASC)
      return ⟨expr, true⟩

def sorting : Rule (List SortKey) := do
  let keys ← ledBy .ORDER do
    keyword .BY
    commaList sortKey
  return keys.getD []

def namesInside : Rule (List String) := do
  let names ← commaList identifier
  symbol .rightParen
  return names

def names : Rule (List String) := do
  symbol .leftParen
  namesInside

def row : Rule (List Literal) := do
  symbol .leftParen
  let values ← commaList literal
  symbol .rightParen
  return values

def assignment : Rule Assignment := do
  let field ← identifier
  symbol .eq
  return ⟨field, ← arithmetic⟩

def selection : Rule Selection := do
  keyword .SELECT
  let items ← selectItems
  let source ← tableSource
  let condition ← ledBy .WHERE condition
  let (groupBy, having) ← grouping
  let orderBy ← sorting
  return ⟨items, source, condition, groupBy, having, orderBy⟩

def fieldNames : Rule (Option (List String)) := do
  match ← readIf (ofKind .leftParen) with
  | none => return none
  | some _ => return some (← namesInside)

def insertion : Rule Insertion := do
  keyword .INSERT
  keyword .INTO
  let table ← identifier
  let fields ← fieldNames
  keyword .VALUES
  return ⟨table, fields, ← commaList row⟩

def update : Rule Update := do
  keyword .UPDATE
  let table ← identifier
  keyword .SET
  let assignments ← commaList assignment
  return ⟨table, assignments, ← ledBy .WHERE condition⟩

/-- `DELETE * FROM` means `DELETE FROM`. -/
def deletion : Rule Deletion := do
  keyword .DELETE
  let _ ← readIf (ofKind .star)
  keyword .FROM
  let table ← identifier
  return ⟨table, ← ledBy .WHERE condition⟩

def inlineIndex : Rule IndexDefinition := do
  let name ← readIf nameOf
  let method ← ledBy .USING identifier
  return ⟨name, none, method, ← names⟩

inductive TableEntry where
  | field (name : String)
  | index (definition : IndexDefinition)
  deriving DecidableEq, Repr

namespace TableEntry

def field? : TableEntry → Option String
  | field name => some name
  | index _ => none

def index? : TableEntry → Option IndexDefinition
  | field _ => none
  | index definition => some definition

@[simp] theorem field?_field (name : String) : (field name).field? = some name := rfl

@[simp] theorem field?_index (definition : IndexDefinition) :
    (index definition).field? = none := rfl

@[simp] theorem index?_field (name : String) : (field name).index? = none := rfl

@[simp] theorem index?_index (definition : IndexDefinition) :
    (index definition).index? = some definition := rfl

end TableEntry

def tableEntry : Rule TableEntry := do
  match ← ledBy .INDEX inlineIndex with
  | some index => return .index index
  | none => return .field (← identifier)

/-- A table without a field is refused, with the span of its list. -/
def checkFields (table : String) (entries : List TableEntry) (span : Span) :
    Rule TableDefinition :=
  let fields := entries.filterMap TableEntry.field?
  if fields.isEmpty then fail ⟨.noFields, span⟩
  else return ⟨table, fields, entries.filterMap TableEntry.index?⟩

/-- Fields and indexes may be mixed; the parentheses belong to the list. -/
def tableDefinition : Rule TableDefinition := do
  keyword .CREATE
  keyword .TABLE
  let table ← identifier
  let opening ← here
  symbol .leftParen
  let entries ← commaList tableEntry
  let closing ← here
  symbol .rightParen
  checkFields table entries (opening.merge closing)

def indexDefinition : Rule IndexDefinition := do
  keyword .CREATE
  keyword .INDEX
  let name ← readIf nameOf
  keyword .ON
  let table ← identifier
  let method ← ledBy .USING identifier
  return ⟨name, some table, method, ← names⟩

def statement : Rule Statement :=
  firstOf .statement
    [("SELECT", complete (.select <$> selection)),
      ("INSERT", complete (.insert <$> insertion)),
      ("UPDATE", complete (.update <$> update)),
      ("DELETE", complete (.delete <$> deletion)),
      ("CREATE TABLE", complete (.createTable <$> tableDefinition)),
      ("CREATE INDEX", complete (.createIndex <$> indexDefinition))]

end CompactSql.Grammar
