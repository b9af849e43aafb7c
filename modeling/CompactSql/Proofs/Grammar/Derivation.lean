import CompactSql.Grammar.Statement
import CompactSql.Proofs.Grammar.Language

/-!
# The grammar

The context-free grammar of the dialect, as a relation between rows of token
kinds and the trees they derive.  Operators of one tier recurse on the left.
What a condition is, the statements take as a parameter.
-/

namespace CompactSql.Grammar.Derivation

variable {α : Type}

/-- `item {, item}` -/
inductive Listed (item : Language α) : Language (List α)
  | one {row : List Token.Kind} {value : α} :
      item row value → Listed item row [value]
  | more {row others : List Token.Kind} {value : α} {values : List α} :
      item row value → Listed item others values →
      Listed item (row ++ .comma :: others) (value :: values)

/-- `( item {, item} )` -/
inductive Parenthesized (item : Language α) : Language (List α)
  | list {row : List Token.Kind} {values : List α} :
      Listed item row values →
      Parenthesized item (.leftParen :: (row ++ [.rightParen])) values

/-- `[lead item]` -/
inductive Optional (lead : List Token.Kind) (item : Language α) : Language (Option α)
  | absent : Optional lead item [] none
  | present {row : List Token.Kind} {value : α} :
      item row value → Optional lead item (lead ++ row) (some value)

inductive Name : Language String
  | name (name : String) : Name [.identifier name] name

inductive Literal : Language CompactSql.Literal
  | integer (value : Int64) : Literal [.integer value] (.integer value)
  | string (raw : String) : Literal [.string raw] (.ofRaw raw)

/-- `operand | chain operator operand` -/
inductive Chain (operator : Token.Kind → Option BinaryOp) (operand : Language Expr) :
    Language Expr
  | operand {row : List Token.Kind} {value : Expr} :
      operand row value → Chain operator operand row value
  | step {row others : List Token.Kind} {kind : Token.Kind} {op : BinaryOp}
      {left right : Expr} :
      Chain operator operand row left → operator kind = some op →
      operand others right →
      Chain operator operand (row ++ kind :: others) (.binary op left right)

def productOp : Token.Kind → Option BinaryOp
  | .star => some .mul
  | .slash => some .div
  | _ => none

def sumOp : Token.Kind → Option BinaryOp
  | .plus => some .add
  | .minus => some .sub
  | _ => none

def comparisonSign : Token.Kind → Option BinaryOp
  | .eq => some .eq
  | .lt => some .lt
  | .gt => some .gt
  | .ltEq => some .ltEq
  | .gtEq => some .gtEq
  | _ => none

def logicalOp : Token.Kind → Option BinaryOp
  | .keyword .AND => some .and
  | .keyword .OR => some .or
  | _ => none

inductive Value : Language Expr
  | field (table name : String) :
      Value [.identifier table, .dot, .identifier name] (.field table name)
  | emptyCall (name : String) :
      Value [.identifier name, .leftParen, .rightParen] (.call name [])
  | call (name : String) {row : List Token.Kind} {args : List Expr} :
      Listed Value row args →
      Value (.identifier name :: .leftParen :: (row ++ [.rightParen]))
        (.call name args)
  | identifier (name : String) : Value [.identifier name] (.identifier name)
  | integer (value : Int64) : Value [.integer value] (.literal (.integer value))
  | string (raw : String) : Value [.string raw] (.literal (.ofRaw raw))

def Term : Language Expr := Chain productOp Value

def Arithmetic : Language Expr := Chain sumOp Term

inductive Predicate : Language Expr
  | comparison {row others : List Token.Kind} {kind : Token.Kind} {op : BinaryOp}
      {left right : Expr} :
      Arithmetic row left → comparisonSign kind = some op → Arithmetic others right →
      Predicate (row ++ kind :: others) (.binary op left right)
  | between {row first last : List Token.Kind} {subject lower upper : Expr} :
      Arithmetic row subject → Arithmetic first lower → Arithmetic last upper →
      Predicate
        (row ++ .keyword .BETWEEN :: (first ++ .keyword .AND :: last))
        (.between subject lower upper)

def Condition : Language Expr := Chain logicalOp Predicate

inductive SelectItems : Language (List SelectItem)
  | all : SelectItems [.star] [.wildcard]
  | exprs {row : List Token.Kind} {values : List Expr} :
      Listed Arithmetic row values → SelectItems row (values.map .expr)

inductive GroupField : Language Expr
  | field (table name : String) :
      GroupField [.identifier table, .dot, .identifier name] (.field table name)
  | identifier (name : String) : GroupField [.identifier name] (.identifier name)

inductive SortKey : Language CompactSql.SortKey
  | plain {row : List Token.Kind} {expr : Expr} :
      Arithmetic row expr → SortKey row ⟨expr, true⟩
  | ascending {row : List Token.Kind} {expr : Expr} :
      Arithmetic row expr → SortKey (row ++ [.keyword .ASC]) ⟨expr, true⟩
  | descending {row : List Token.Kind} {expr : Expr} :
      Arithmetic row expr → SortKey (row ++ [.keyword .DESC]) ⟨expr, false⟩

inductive Sorting : Language (List CompactSql.SortKey)
  | none : Sorting [] []
  | keys {row : List Token.Kind} {keys : List CompactSql.SortKey} :
      Listed SortKey row keys →
      Sorting (.keyword .ORDER :: .keyword .BY :: row) keys

inductive Assignment : Language CompactSql.Assignment
  | set (field : String) {row : List Token.Kind} {value : Expr} :
      Arithmetic row value →
      Assignment (.identifier field :: .eq :: row) ⟨field, value⟩

inductive TableEntry : Language Grammar.TableEntry
  | field (name : String) : TableEntry [.identifier name] (.field name)
  | index {first second third : List Token.Kind} {name method : Option String}
      {fields : List String} :
      Optional [] Name first name → Optional [.keyword .USING] Name second method →
      Parenthesized Name third fields →
      TableEntry (.keyword .INDEX :: (first ++ second ++ third))
        (.index ⟨name, none, method, fields⟩)

section

variable (logic : Language Expr)

/-- `{LEFT JOIN id ON logic}` -/
inductive Joins : Language (List Join)
  | none : Joins [] []
  | join (table : String) {row rows : List Token.Kind} {condition : Expr}
      {joins : List Join} :
      logic row condition → Joins rows joins →
      Joins
        (.keyword .LEFT :: .keyword .JOIN :: .identifier table :: .keyword .ON ::
          (row ++ rows))
        (⟨table, condition⟩ :: joins)

inductive Grouping : Language (List Expr × Option Expr)
  | none : Grouping [] ([], none)
  | fields {row rest : List Token.Kind} {fields : List Expr} {having : Option Expr} :
      Listed GroupField row fields → Optional [.keyword .HAVING] logic rest having →
      Grouping (.keyword .GROUP :: .keyword .BY :: (row ++ rest)) (fields, having)

inductive Selection : Language CompactSql.Selection
  | select (table : String) {first joining filter group order : List Token.Kind}
      {items : List SelectItem} {joins : List Join} {condition having : Option Expr}
      {fields : List Expr} {keys : List CompactSql.SortKey} :
      SelectItems first items → Joins logic joining joins →
      Optional [.keyword .WHERE] logic filter condition →
      Grouping logic group (fields, having) → Sorting order keys →
      Selection
        (.keyword .SELECT :: (first ++ .keyword .FROM :: .identifier table ::
          (joining ++ filter ++ group ++ order)))
        ⟨items, ⟨table, joins⟩, condition, fields, having, keys⟩

inductive Insertion : Language CompactSql.Insertion
  | insert (table : String) {first second : List Token.Kind}
      {fields : Option (List String)} {rows : List (List CompactSql.Literal)} :
      Optional [] (Parenthesized Name) first fields →
      Listed (Parenthesized Literal) second rows →
      Insertion
        (.keyword .INSERT :: .keyword .INTO :: .identifier table ::
          (first ++ .keyword .VALUES :: second))
        ⟨table, fields, rows⟩

inductive Update : Language CompactSql.Update
  | update (table : String) {first filter : List Token.Kind}
      {assignments : List CompactSql.Assignment} {condition : Option Expr} :
      Listed Assignment first assignments →
      Optional [.keyword .WHERE] logic filter condition →
      Update
        (.keyword .UPDATE :: .identifier table :: .keyword .SET :: (first ++ filter))
        ⟨table, assignments, condition⟩

inductive Deletion : Language CompactSql.Deletion
  | plain (table : String) {filter : List Token.Kind} {condition : Option Expr} :
      Optional [.keyword .WHERE] logic filter condition →
      Deletion (.keyword .DELETE :: .keyword .FROM :: .identifier table :: filter)
        ⟨table, condition⟩
  | starred (table : String) {filter : List Token.Kind} {condition : Option Expr} :
      Optional [.keyword .WHERE] logic filter condition →
      Deletion
        (.keyword .DELETE :: .star :: .keyword .FROM :: .identifier table :: filter)
        ⟨table, condition⟩

/-- At least one entry is a plain field. -/
inductive TableDefinition : Language CompactSql.TableDefinition
  | create (table : String) {row : List Token.Kind}
      {entries : List Grammar.TableEntry} :
      Listed TableEntry row entries →
      entries.filterMap Grammar.TableEntry.field? ≠ [] →
      TableDefinition
        (.keyword .CREATE :: .keyword .TABLE :: .identifier table :: .leftParen ::
          (row ++ [.rightParen]))
        ⟨table, entries.filterMap Grammar.TableEntry.field?,
          entries.filterMap Grammar.TableEntry.index?⟩

inductive IndexDefinition : Language CompactSql.IndexDefinition
  | create (table : String) {first second third : List Token.Kind}
      {name method : Option String} {fields : List String} :
      Optional [] Name first name → Optional [.keyword .USING] Name second method →
      Parenthesized Name third fields →
      IndexDefinition
        (.keyword .CREATE :: .keyword .INDEX :: (first ++ .keyword .ON ::
          .identifier table :: (second ++ third)))
        ⟨name, some table, method, fields⟩

inductive Statement : Language CompactSql.Statement
  | select {row : List Token.Kind} {selection : CompactSql.Selection} :
      Selection logic row selection → Statement row (.select selection)
  | insert {row : List Token.Kind} {insertion : CompactSql.Insertion} :
      Insertion row insertion → Statement row (.insert insertion)
  | update {row : List Token.Kind} {change : CompactSql.Update} :
      Update logic row change → Statement row (.update change)
  | delete {row : List Token.Kind} {deletion : CompactSql.Deletion} :
      Deletion logic row deletion → Statement row (.delete deletion)
  | createTable {row : List Token.Kind} {table : CompactSql.TableDefinition} :
      TableDefinition row table → Statement row (.createTable table)
  | createIndex {row : List Token.Kind} {index : CompactSql.IndexDefinition} :
      IndexDefinition row index → Statement row (.createIndex index)

end

end CompactSql.Grammar.Derivation
