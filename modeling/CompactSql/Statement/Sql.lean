import CompactSql.Statement
import CompactSql.Expr.Sql

/-!
# Statements as SQL

The canonical text of a statement: keywords in capitals, clauses in the order
of the grammar, a direction behind every sort key, and the indexes of a table
behind its fields.
-/

namespace CompactSql

open Text (commaSeparated)

def parenthesized (texts : List String) : String :=
  "(" ++ commaSeparated texts ++ ")"

def clauseSql (lead : String) : Option Expr → String
  | none => ""
  | some expr => lead ++ expr.toSql

def listClauseSql (lead : String) : List String → String
  | [] => ""
  | texts => lead ++ commaSeparated texts

def SelectItem.toSql : SelectItem → String
  | wildcard => "*"
  | expr value => value.toSql

def Join.toSql (join : Join) : String :=
  " LEFT JOIN " ++ join.table ++ " ON " ++ join.condition.toSql

def TableSource.toSql (source : TableSource) : String :=
  "FROM " ++ source.table ++ String.join (source.joins.map Join.toSql)

def SortKey.toSql (key : SortKey) : String :=
  key.expr.toSql ++ if key.ascending then " ASC" else " DESC"

def Selection.toSql (selection : Selection) : String :=
  "SELECT " ++ commaSeparated (selection.items.map SelectItem.toSql) ++ " " ++
    selection.source.toSql ++
    clauseSql " WHERE " selection.condition ++
    listClauseSql " GROUP BY " (selection.groupBy.map Expr.toSql) ++
    clauseSql " HAVING " selection.having ++
    listClauseSql " ORDER BY " (selection.orderBy.map SortKey.toSql)

def Insertion.toSql (insertion : Insertion) : String :=
  let fields :=
    match insertion.fields with
    | none => ""
    | some names => " " ++ parenthesized names
  let rows := insertion.rows.map fun row => parenthesized (row.map Literal.toSql)
  "INSERT INTO " ++ insertion.table ++ fields ++ " VALUES " ++ commaSeparated rows

def Assignment.toSql (assignment : Assignment) : String :=
  assignment.field ++ " = " ++ assignment.value.toSql

def Update.toSql (update : Update) : String :=
  "UPDATE " ++ update.table ++ " SET " ++
    commaSeparated (update.assignments.map Assignment.toSql) ++
    clauseSql " WHERE " update.condition

def Deletion.toSql (deletion : Deletion) : String :=
  "DELETE FROM " ++ deletion.table ++ clauseSql " WHERE " deletion.condition

def optionalWord (lead : String) : Option String → String
  | none => ""
  | some word => lead ++ word ++ " "

def IndexDefinition.toSql (index : IndexDefinition) : String :=
  (if index.isInline then "" else "CREATE ") ++ "INDEX " ++
    optionalWord "" index.name ++ optionalWord "ON " index.table ++
    optionalWord "USING " index.method ++ parenthesized index.fields

def TableDefinition.toSql (table : TableDefinition) : String :=
  let indexes := table.indexes.map fun index => ", " ++ index.toSql
  "CREATE TABLE " ++ table.table ++ " (" ++ commaSeparated table.fields ++
    String.join indexes ++ ")"

def Statement.toSql : Statement → String
  | select selection => selection.toSql
  | insert insertion => insertion.toSql
  | update change => change.toSql
  | delete deletion => deletion.toSql
  | createTable table => table.toSql
  | createIndex index => index.toSql

end CompactSql
