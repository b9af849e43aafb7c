import CompactSql.Proofs.Printing.WellFormed

/-!
# Other leaves

A relabeling gives other names, other integers and other strings.  It acts on kinds of
tokens, on every type of tree, and on what a failure has found; nothing but the leaves
changes.
-/

namespace CompactSql

open Token (Kind)

def Token.Kind.isLeaf : Kind → Bool
  | identifier _ => true
  | integer _ => true
  | string _ => true
  | _ => false

/-- What the leaves of a tree are turned into: names into names, and integers without a
sign into integers without a sign. -/
structure Relabeling where
  name : String → String
  integer : Int64 → Int64
  string : String → String
  isName_name : ∀ text, isName text = true → isName (name text) = true
  unsigned_integer : ∀ value, 0 ≤ value.toInt → 0 ≤ (integer value).toInt

namespace Relabeling

variable (σ : Relabeling)

def literal : Literal → Literal
  | .integer value => .integer (σ.integer value)
  | .string text => .string (σ.string text)

/-- The raw text of a string is read, and the other string is written. -/
def kind : Kind → Kind
  | .identifier name => .identifier (σ.name name)
  | .integer value => .integer (σ.integer value)
  | .string raw => (σ.literal (.ofRaw raw)).kind
  | kind => kind

theorem kind_eq_iff {kind found : Kind} (h : kind.isLeaf = false) :
    σ.kind found = kind ↔ found = kind := by
  cases found with
  | identifier name | integer value | string raw =>
      constructor <;>
        · rintro rfl
          cases h
  | _ => exact Iff.rfl

theorem ofKind_kind {kind : Kind} (h : kind.isLeaf = false) (found : Kind) :
    Grammar.Rule.ofKind kind (σ.kind found) = Grammar.Rule.ofKind kind found := by
  simp only [Grammar.Rule.ofKind, σ.kind_eq_iff h]

def complaint : Complaint → Complaint
  | .unexpected expected found => .unexpected expected (σ.kind found)
  | .trailing found => .trailing (σ.kind found)
  | complaint => complaint

theorem isLexical_complaint (complaint : Complaint) :
    (σ.complaint complaint).isLexical = complaint.isLexical := by
  cases complaint <;> rfl

mutual

def expr : Expr → Expr
  | .literal value => .literal (σ.literal value)
  | .identifier name => .identifier (σ.name name)
  | .field table name => .field (σ.name table) (σ.name name)
  | .call name args => .call (σ.name name) (exprs args)
  | .binary op left right => .binary op (expr left) (expr right)
  | .between subject lower upper => .between (expr subject) (expr lower) (expr upper)

def exprs : List Expr → List Expr
  | [] => []
  | first :: others => expr first :: exprs others

end

theorem exprs_eq_map (args : List Expr) : σ.exprs args = args.map σ.expr := by
  induction args with
  | nil => rfl
  | cons first others ih => simp [exprs, ih]

def item : SelectItem → SelectItem
  | .wildcard => .wildcard
  | .expr value => .expr (σ.expr value)

def join (join : Join) : Join := ⟨σ.name join.table, σ.expr join.condition⟩

def source (source : TableSource) : TableSource :=
  ⟨σ.name source.table, source.joins.map σ.join⟩

def sortKey (key : SortKey) : SortKey := ⟨σ.expr key.expr, key.ascending⟩

def selection (selection : Selection) : Selection :=
  ⟨selection.items.map σ.item, σ.source selection.source, selection.condition.map σ.expr,
    selection.groupBy.map σ.expr, selection.having.map σ.expr,
    selection.orderBy.map σ.sortKey⟩

def insertion (insertion : Insertion) : Insertion :=
  ⟨σ.name insertion.table, insertion.fields.map (List.map σ.name),
    insertion.rows.map (List.map σ.literal)⟩

def assignment (assignment : Assignment) : Assignment :=
  ⟨σ.name assignment.field, σ.expr assignment.value⟩

def update (change : Update) : Update :=
  ⟨σ.name change.table, change.assignments.map σ.assignment, change.condition.map σ.expr⟩

def deletion (deletion : Deletion) : Deletion :=
  ⟨σ.name deletion.table, deletion.condition.map σ.expr⟩

def index (index : IndexDefinition) : IndexDefinition :=
  ⟨index.name.map σ.name, index.table.map σ.name, index.method.map σ.name,
    index.fields.map σ.name⟩

def table (table : TableDefinition) : TableDefinition :=
  ⟨σ.name table.table, table.fields.map σ.name, table.indexes.map σ.index⟩

def statement : Statement → Statement
  | .select selection => .select (σ.selection selection)
  | .insert insertion => .insert (σ.insertion insertion)
  | .update change => .update (σ.update change)
  | .delete deletion => .delete (σ.deletion deletion)
  | .createTable table => .createTable (σ.table table)
  | .createIndex index => .createIndex (σ.index index)

end Relabeling

end CompactSql
