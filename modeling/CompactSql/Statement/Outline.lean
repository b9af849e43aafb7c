import CompactSql.Statement
import CompactSql.Expr.Outline

/-!
# Statements as outlines
-/

namespace CompactSql

def SelectItem.outline : SelectItem → Outline
  | wildcard => .leaf "Wildcard"
  | expr value => .tuple "Expr" [value.outline]

def Join.outline (join : Join) : Outline :=
  .record "Join"
    [("table", .identifier join.table), ("condition", join.condition.outline)]

def TableSource.outline (source : TableSource) : Outline :=
  .record "FromClause"
    [("table", .identifier source.table),
      ("joins", .list (source.joins.map Join.outline))]

def SortKey.outline (key : SortKey) : Outline :=
  .record "OrderItem"
    [("expr", key.expr.outline), ("ascending", .bool key.ascending)]

def Selection.outline (selection : Selection) : Outline :=
  .record "SelectStatement"
    [("items", .list (selection.items.map SelectItem.outline)),
      ("from", selection.source.outline),
      ("where_clause", .option Expr.outline selection.condition),
      ("group_by", .list (selection.groupBy.map Expr.outline)),
      ("having", .option Expr.outline selection.having),
      ("order_by", .list (selection.orderBy.map SortKey.outline))]

def Outline.names (names : List String) : Outline :=
  list (names.map identifier)

def Insertion.outline (insertion : Insertion) : Outline :=
  .record "InsertStatement"
    [("table", .identifier insertion.table),
      ("fields", .option Outline.names insertion.fields),
      ("rows", .list (insertion.rows.map fun row =>
        .list (row.map Literal.outline)))]

def Assignment.outline (assignment : Assignment) : Outline :=
  .record "UpdateAssignment"
    [("field", .identifier assignment.field), ("value", assignment.value.outline)]

def Update.outline (update : Update) : Outline :=
  .record "UpdateStatement"
    [("table", .identifier update.table),
      ("assignments", .list (update.assignments.map Assignment.outline)),
      ("where_clause", .option Expr.outline update.condition)]

def Deletion.outline (deletion : Deletion) : Outline :=
  .record "DeleteStatement"
    [("table", .identifier deletion.table),
      ("where_clause", .option Expr.outline deletion.condition)]

def IndexDefinition.outline (index : IndexDefinition) : Outline :=
  .record "CreateIndexSpec"
    [("name", .option Outline.identifier index.name),
      ("table", .option Outline.identifier index.table),
      ("method", .option Outline.identifier index.method),
      ("fields", .names index.fields)]

def TableDefinition.outline (table : TableDefinition) : Outline :=
  .record "CreateTableStatement"
    [("table", .identifier table.table), ("fields", .names table.fields),
      ("indexes", .list (table.indexes.map IndexDefinition.outline))]

def Statement.outline : Statement → Outline
  | select selection => .tuple "Select" [selection.outline]
  | insert insertion => .tuple "Insert" [insertion.outline]
  | update change => .tuple "Update" [change.outline]
  | delete deletion => .tuple "Delete" [deletion.outline]
  | createTable table => .tuple "CreateTable" [table.outline]
  | createIndex index => .tuple "CreateIndex" [index.outline]

end CompactSql
