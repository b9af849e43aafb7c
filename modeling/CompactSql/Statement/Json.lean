import CompactSql.Statement
import CompactSql.Expr.Json

/-!
# Statements as JSON
-/

namespace CompactSql

def SelectItem.json : SelectItem → Json
  | wildcard => .string "Wildcard"
  | expr value => .tagged "Expr" value.json

def Join.json (join : Join) : Json :=
  .object [("table", .string join.table), ("condition", join.condition.json)]

def TableSource.json (source : TableSource) : Json :=
  .object
    [("table", .string source.table),
      ("joins", .array (source.joins.map Join.json))]

def SortKey.json (key : SortKey) : Json :=
  .object [("expr", key.expr.json), ("ascending", .bool key.ascending)]

def Selection.json (selection : Selection) : Json :=
  .object
    [("items", .array (selection.items.map SelectItem.json)),
      ("from", selection.source.json),
      ("where_clause", .ofOption Expr.json selection.condition),
      ("group_by", .array (selection.groupBy.map Expr.json)),
      ("having", .ofOption Expr.json selection.having),
      ("order_by", .array (selection.orderBy.map SortKey.json))]

def Json.names (names : List String) : Json := array (names.map string)

def Insertion.json (insertion : Insertion) : Json :=
  .object
    [("table", .string insertion.table),
      ("fields", .ofOption Json.names insertion.fields),
      ("rows", .array (insertion.rows.map fun row =>
        .array (row.map Literal.json)))]

def Assignment.json (assignment : Assignment) : Json :=
  .object
    [("field", .string assignment.field), ("value", assignment.value.json)]

def Update.json (update : Update) : Json :=
  .object
    [("table", .string update.table),
      ("assignments", .array (update.assignments.map Assignment.json)),
      ("where_clause", .ofOption Expr.json update.condition)]

def Deletion.json (deletion : Deletion) : Json :=
  .object
    [("table", .string deletion.table),
      ("where_clause", .ofOption Expr.json deletion.condition)]

def IndexDefinition.json (index : IndexDefinition) : Json :=
  .object
    [("name", .ofOption .string index.name),
      ("table", .ofOption .string index.table),
      ("method", .ofOption .string index.method),
      ("fields", .names index.fields)]

def TableDefinition.json (table : TableDefinition) : Json :=
  .object
    [("table", .string table.table), ("fields", .names table.fields),
      ("indexes", .array (table.indexes.map IndexDefinition.json))]

def Statement.json : Statement → Json
  | select selection => .tagged "Select" selection.json
  | insert insertion => .tagged "Insert" insertion.json
  | update change => .tagged "Update" change.json
  | delete deletion => .tagged "Delete" deletion.json
  | createTable table => .tagged "CreateTable" table.json
  | createIndex index => .tagged "CreateIndex" index.json

end CompactSql
