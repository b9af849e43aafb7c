import CompactSql.Expr

/-!
# Statements

The six statements of the dialect.  As with expressions, the types also hold
trees that no text stands for.
-/

namespace CompactSql

inductive SelectItem where
  | wildcard
  | expr (value : Expr)
  deriving DecidableEq, Repr

structure Join where
  table : String
  condition : Expr
  deriving DecidableEq, Repr

structure TableSource where
  table : String
  joins : List Join
  deriving DecidableEq, Repr

structure SortKey where
  expr : Expr
  ascending : Bool
  deriving DecidableEq, Repr

/-- What `SELECT` asks for; the list of all fields is the item `*` alone. -/
structure Selection where
  items : List SelectItem
  source : TableSource
  condition : Option Expr
  groupBy : List Expr
  having : Option Expr
  orderBy : List SortKey
  deriving DecidableEq, Repr

structure Insertion where
  table : String
  fields : Option (List String)
  rows : List (List Literal)
  deriving DecidableEq, Repr

structure Assignment where
  field : String
  value : Expr
  deriving DecidableEq, Repr

structure Update where
  table : String
  assignments : List Assignment
  condition : Option Expr
  deriving DecidableEq, Repr

structure Deletion where
  table : String
  condition : Option Expr
  deriving DecidableEq, Repr

/-- An index on a table, or without one where the table that is being created
is meant. -/
structure IndexDefinition where
  name : Option String
  table : Option String
  method : Option String
  fields : List String
  deriving DecidableEq, Repr

def IndexDefinition.isInline (index : IndexDefinition) : Bool :=
  index.table.isNone

structure TableDefinition where
  table : String
  fields : List String
  indexes : List IndexDefinition
  deriving DecidableEq, Repr

inductive Statement where
  | select (selection : Selection)
  | insert (insertion : Insertion)
  | update (change : Update)
  | delete (deletion : Deletion)
  | createTable (table : TableDefinition)
  | createIndex (index : IndexDefinition)
  deriving DecidableEq, Repr

end CompactSql
