import CompactSql.Statement.Sql
import CompactSql.Proofs.Token.Spelling

/-!
# The kinds of a tree

The kinds that the text of a tree is cut into, written from the tree.  They are what
the text spells for every tree whose names, numbers and strings can be written,
whether or not the grammar derives it.
-/

namespace CompactSql

open Text (commaSeparated)
open Token (Kind)

namespace Token.Kind

def commas : List (List Kind) → List Kind
  | [] => []
  | [row] => row
  | row :: rows => row ++ .comma :: commas rows

def inParens (row : List Kind) : List Kind :=
  .leftParen :: (row ++ [.rightParen])

end Token.Kind

open Token.Kind (commas inParens)

def Literal.kind : Literal → Kind
  | .integer value => .integer value
  | .string text => .string (String.ofList (Text.double text.toList))

theorem ofRaw_double (text : String) :
    Literal.ofRaw (String.ofList (Text.double text.toList)) = .string text := by
  rw [Literal.ofRaw, String.toList_ofList, Text.collapse_double, String.ofList_toList]

def BinaryOp.kind : BinaryOp → Kind
  | .add => .plus
  | .sub => .minus
  | .mul => .star
  | .div => .slash
  | .eq => .eq
  | .lt => .lt
  | .gt => .gt
  | .ltEq => .ltEq
  | .gtEq => .gtEq
  | .and => .keyword .AND
  | .or => .keyword .OR

namespace Expr

mutual

def kinds : Expr → List Kind
  | literal value => [value.kind]
  | identifier name => [.identifier name]
  | field table name => [.identifier table, .dot, .identifier name]
  | call name args => .identifier name :: inParens (commas (allKinds args))
  | binary op left right => left.kinds ++ op.kind :: right.kinds
  | between subject lower upper =>
      subject.kinds ++ .keyword .BETWEEN :: (lower.kinds ++ .keyword .AND :: upper.kinds)

def allKinds : List Expr → List (List Kind)
  | [] => []
  | first :: others => first.kinds :: allKinds others

end

theorem allKinds_eq_map (exprs : List Expr) : allKinds exprs = exprs.map kinds := by
  induction exprs with
  | nil => rfl
  | cons first others ih => simp [allKinds, ih]

end Expr

/-! ## Kinds of statements -/

def clauseKinds (word : Keyword) : Option Expr → List Kind
  | none => []
  | some expr => .keyword word :: expr.kinds

def listClauseKinds (lead : List Kind) : List (List Kind) → List Kind
  | [] => []
  | rows => lead ++ commas rows

def optionalName (lead : List Kind) : Option String → List Kind
  | none => []
  | some name => lead ++ [.identifier name]

@[simp] theorem optionalName_none (lead : List Kind) : optionalName lead none = [] := rfl

@[simp] theorem optionalName_some (lead : List Kind) (name : String) :
    optionalName lead (some name) = lead ++ [.identifier name] := rfl

def nameKinds (name : String) : List Kind := [.identifier name]

def SelectItem.kinds : SelectItem → List Kind
  | wildcard => [.star]
  | expr value => value.kinds

def Join.kinds (join : Join) : List Kind :=
  .keyword .LEFT :: .keyword .JOIN :: .identifier join.table :: .keyword .ON ::
    join.condition.kinds

def SortKey.kinds (key : SortKey) : List Kind :=
  key.expr.kinds ++ [.keyword (if key.ascending then .ASC else .DESC)]

def TableSource.kinds (source : TableSource) : List Kind :=
  .keyword .FROM :: .identifier source.table :: source.joins.flatMap Join.kinds

def Selection.kinds (selection : Selection) : List Kind :=
  .keyword .SELECT :: (commas (selection.items.map SelectItem.kinds) ++
    (selection.source.kinds ++ (clauseKinds .WHERE selection.condition ++
      (listClauseKinds [.keyword .GROUP, .keyword .BY] (selection.groupBy.map Expr.kinds) ++
        (clauseKinds .HAVING selection.having ++
          listClauseKinds [.keyword .ORDER, .keyword .BY]
            (selection.orderBy.map SortKey.kinds))))))

def rowKinds (row : List Literal) : List Kind :=
  inParens (commas (row.map fun value => [value.kind]))

def Insertion.kinds (insertion : Insertion) : List Kind :=
  .keyword .INSERT :: .keyword .INTO :: .identifier insertion.table ::
    ((match insertion.fields with
      | none => []
      | some names => inParens (commas (names.map nameKinds))) ++
      .keyword .VALUES :: commas (insertion.rows.map rowKinds))

def Assignment.kinds (assignment : Assignment) : List Kind :=
  .identifier assignment.field :: .eq :: assignment.value.kinds

def Update.kinds (update : Update) : List Kind :=
  .keyword .UPDATE :: .identifier update.table :: .keyword .SET ::
    (commas (update.assignments.map Assignment.kinds) ++
      clauseKinds .WHERE update.condition)

def Deletion.kinds (deletion : Deletion) : List Kind :=
  .keyword .DELETE :: .keyword .FROM :: .identifier deletion.table ::
    clauseKinds .WHERE deletion.condition

def IndexDefinition.kinds (index : IndexDefinition) : List Kind :=
  (if index.isInline then [] else [.keyword .CREATE]) ++ .keyword .INDEX ::
    (optionalName [] index.name ++ optionalName [.keyword .ON] index.table ++
      optionalName [.keyword .USING] index.method ++
      inParens (commas (index.fields.map nameKinds)))

def TableDefinition.kinds (table : TableDefinition) : List Kind :=
  .keyword .CREATE :: .keyword .TABLE :: .identifier table.table ::
    inParens (commas (table.fields.map nameKinds) ++
      table.indexes.flatMap fun index => .comma :: index.kinds)

def Statement.kinds : Statement → List Kind
  | select selection => selection.kinds
  | insert insertion => insertion.kinds
  | update change => change.kinds
  | delete deletion => deletion.kinds
  | createTable table => table.kinds
  | createIndex index => index.kinds

/-! ## Rows that can be written -/

namespace Writable

@[simp] theorem commas {rows : List (List Kind)} :
    Writable (Kind.commas rows) ↔ ∀ row ∈ rows, Writable row := by
  induction rows with
  | nil => simp [Kind.commas]
  | cons row rows ih =>
      cases rows with
      | nil => simp [Kind.commas]
      | cons other others => simp [Kind.commas, ih]

@[simp] theorem inParens {row : List Kind} :
    Writable (Kind.inParens row) ↔ Writable row := by
  simp [Kind.inParens]

end Writable

theorem Spells.commaSeparated {α : Type} {print : α → String} {row : α → List Kind}
    {values : List α} (each : ∀ value ∈ values, Spells (print value) (row value)) :
    Spells (Text.commaSeparated (values.map print)) (commas (values.map row)) := by
  have comma : Sealed ", " [.comma] := (Sealed.symbol ',' rfl).append .space
  induction values with
  | nil => exact .nil
  | cons value values ih =>
      have first := each value List.mem_cons_self
      cases values with
      | nil => exact first
      | cons other others =>
          have more := ih fun value member => each value (List.mem_cons_of_mem _ member)
          simpa [Text.commaSeparated, commas] using
            (first.sealedBy comma rfl).andSpells more

theorem Spells.listing {α : Type} {print : α → String} {row : α → List Kind}
    (each : ∀ value, Writable (row value) → Spells (print value) (row value))
    {values : List α} (written : Writable (commas (values.map row))) :
    Spells (Text.commaSeparated (values.map print)) (commas (values.map row)) := by
  rw [Writable.commas, List.forall_mem_map] at written
  exact .commaSeparated fun value member => each value (written value member)

theorem Spells.inParens {text : String} {row : List Kind} (h : Spells text row) :
    Sealed ("(" ++ text ++ ")") (inParens row) :=
  ((Sealed.symbol '(' rfl).andSpells h).sealedBy (Sealed.symbol ')' rfl) rfl

theorem Literal.toSql_eq (value : Literal) : value.toSql = value.kind.spelling := by
  cases value with
  | integer value => rfl
  | string text =>
      simp [Literal.toSql, Literal.kind, Kind.spelling, Text.quote, String.append_assoc]

theorem Literal.spells (value : Literal) (written : value.kind.Written) :
    Spells value.toSql [value.kind] := by
  rw [value.toSql_eq]
  exact Spells.kind value.kind written

theorem BinaryOp.spells (op : BinaryOp) : Spells op.text [op.kind] := by
  have sign : op.kind.spelling = op.text := by cases op <;> rfl
  have written : op.kind.Written := by cases op <;> trivial
  exact sign ▸ Spells.kind op.kind written

mutual

theorem Expr.spells (expr : Expr) (written : Writable expr.kinds) :
    Spells expr.toSql expr.kinds := by
  cases expr with
  | literal value => exact value.spells (by simpa [Expr.kinds] using written)
  | identifier name =>
      have named : (Kind.identifier name).Written := by simpa [Expr.kinds] using written
      exact Spells.name named
  | field table name =>
      simp only [Expr.kinds, Writable.cons] at written
      exact ((Spells.name written.1).sealedBy
        (Sealed.symbol '.' rfl) rfl).andSpells (.name written.2.2.1)
  | call name args =>
      simp only [Expr.kinds, Writable.cons, Writable.inParens, Writable.commas,
        Expr.allKinds_eq_map, List.forall_mem_map] at written
      have inside := Spells.commaSeparated (Expr.all_spell args written.2)
      have whole := (Spells.name written.1).sealedBy inside.inParens
        (by simp [isFresh, Token.isWordChar])
      simpa [Expr.toSql, Expr.kinds, Expr.allToSql_eq_map, Expr.allKinds_eq_map,
        Kind.spelling, String.append_assoc] using whole.spells
  | binary op left right =>
      simp only [Expr.kinds, Writable.append, Writable.cons] at written
      have front := (Expr.spells left written.1).sealedBy .space rfl
      have sign := (front.andSpells op.spells).sealedBy .space rfl
      simpa [Expr.toSql, Expr.kinds] using
        sign.andSpells (Expr.spells right written.2.2)
  | between subject lower upper =>
      simp only [Expr.kinds, Writable.append, Writable.cons] at written
      have opening : Sealed " BETWEEN " [.keyword .BETWEEN] :=
        Sealed.space.append (.keyword .BETWEEN)
      have middle : Sealed " AND " [.keyword .AND] := Sealed.space.append (.keyword .AND)
      have front := (Expr.spells subject written.1).sealedBy opening rfl
      have range := (front.andSpells (Expr.spells lower written.2.2.1)).sealedBy middle rfl
      simpa [Expr.toSql, Expr.kinds] using
        range.andSpells (Expr.spells upper written.2.2.2.2)

theorem Expr.all_spell (exprs : List Expr)
    (written : ∀ expr ∈ exprs, Writable expr.kinds) :
    ∀ expr ∈ exprs, Spells expr.toSql expr.kinds := by
  cases exprs with
  | nil => simp
  | cons first others =>
      rw [List.forall_mem_cons] at written ⊢
      exact ⟨Expr.spells first written.1, Expr.all_spell others written.2⟩

end

/-! ## Clauses -/

/-- The text spells the row, and nothing before it is glued to it. -/
structure Trails (text : String) (row : List Kind) : Prop where
  spells : Spells text row
  fresh : Fresh text.toList

theorem Spells.trailed {text others : String} {row more : List Kind} (h : Spells text row)
    (h' : Trails others more) : Spells (text ++ others) (row ++ more) :=
  h.append h'.spells h'.fresh

namespace Trails

theorem nil : Trails "" [] := ⟨.nil, rfl⟩

theorem append {text others : String} {row more : List Kind} (h : Trails text row)
    (h' : Trails others more) : Trails (text ++ others) (row ++ more) :=
  ⟨h.spells.trailed h', by simpa using h.fresh.append h'.fresh⟩

theorem spaced {text : String} {row : List Kind} (h : Spells text row) :
    Trails (" " ++ text) row :=
  ⟨Sealed.space.andSpells h, by simp [Fresh, isFresh, Token.isWordChar]⟩

theorem led {lead text : String} {row : List Kind} {first : List Kind}
    (opening : Sealed (" " ++ lead) first) (h : Spells text row) :
    Trails (" " ++ lead ++ text) (first ++ row) :=
  ⟨opening.andSpells h, by simp [Fresh, isFresh, Token.isWordChar]⟩

theorem clause (word : Keyword) {condition : Option Expr}
    (written : Writable (clauseKinds word condition)) :
    Trails (clauseSql (" " ++ (word.text ++ " ")) condition)
      (clauseKinds word condition) := by
  cases condition with
  | none => exact nil
  | some expr =>
      simp only [clauseKinds, Writable.cons] at written
      exact led (Sealed.space.append (.keyword word)) (expr.spells written.2)

variable {α : Type} {print : α → String} {row : α → List Kind}

theorem listClause (word : Keyword)
    (each : ∀ value, Writable (row value) → Spells (print value) (row value))
    {values : List α}
    (written : Writable (listClauseKinds [.keyword word, .keyword .BY] (values.map row))) :
    Trails (listClauseSql (" " ++ (word.text ++ " " ++ "BY ")) (values.map print))
      (listClauseKinds [.keyword word, .keyword .BY] (values.map row)) := by
  have lead : Sealed (word.text ++ " " ++ "BY ") [.keyword word, .keyword .BY] :=
    (Sealed.keyword word).append (.keyword .BY)
  cases values with
  | nil => exact nil
  | cons value values =>
      exact led (Sealed.space.append lead) (.listing each (Writable.append.mp written).2)

theorem join {values : List α}
    (each : ∀ value, Writable (row value) → Trails (print value) (row value))
    (written : Writable (values.flatMap row)) :
    Trails (String.join (values.map print)) (values.flatMap row) := by
  induction values with
  | nil => exact nil
  | cons value values ih =>
      rw [List.flatMap_cons, Writable.append] at written
      rw [List.map_cons, String.join_cons, List.flatMap_cons]
      exact (each value written.1).append (ih written.2)

end Trails

private theorem Join.trails (join : Join) (written : Writable join.kinds) :
    Trails join.toSql join.kinds := by
  simp only [Join.kinds, Writable.cons] at written
  have opening : Sealed " LEFT JOIN " [.keyword .LEFT, .keyword .JOIN] :=
    Sealed.space.append ((Sealed.keyword .LEFT).append (.keyword .JOIN))
  have middle : Sealed " ON " [.keyword .ON] := Sealed.space.append (.keyword .ON)
  have table := (opening.andSpells (.name written.2.2.1)).sealedBy
    middle rfl
  refine ⟨table.andSpells (join.condition.spells written.2.2.2.2), ?_⟩
  simp [Join.toSql, Fresh, isFresh, Token.isWordChar]

theorem SelectItem.spells (item : SelectItem) (written : Writable item.kinds) :
    Spells item.toSql item.kinds := by
  cases item with
  | wildcard => exact .kind .star trivial
  | expr value => exact value.spells written

theorem SortKey.spells (key : SortKey) (written : Writable key.kinds) :
    Spells key.toSql key.kinds := by
  simp only [SortKey.kinds, Writable.append] at written
  have direction : Trails (if key.ascending then " ASC" else " DESC")
      [.keyword (if key.ascending then .ASC else .DESC)] := by
    have word (word : Keyword) : Trails (" " ++ word.text) [.keyword word] :=
      .spaced (.kind (.keyword word) trivial)
    cases key.ascending with
    | false => exact word .DESC
    | true => exact word .ASC
  exact (key.expr.spells written.1).trailed direction

theorem Assignment.spells (assignment : Assignment) (written : Writable assignment.kinds) :
    Spells assignment.toSql assignment.kinds := by
  simp only [Assignment.kinds, Writable.cons] at written
  have sign : Sealed " = " [.eq] :=
    Sealed.space.append ((Sealed.symbol '=' rfl).append .space)
  exact ((Spells.name written.1).sealedBy sign rfl).andSpells
    (assignment.value.spells written.2.2)

theorem names_spell {names : List String} (written : Writable (commas (names.map nameKinds))) :
    Spells (commaSeparated names) (commas (names.map nameKinds)) := by
  have each (name : String) (written : Writable (nameKinds name)) :
      Spells (id name) (nameKinds name) := .name (Writable.cons.mp written).1
  simpa using Spells.listing each written

theorem parenthesized_names {names : List String}
    (written : Writable (inParens (commas (names.map nameKinds)))) :
    Sealed (parenthesized names) (inParens (commas (names.map nameKinds))) :=
  (names_spell (Writable.inParens.mp written)).inParens

private theorem optionalWord_seals {lead : String} {first : List Kind} (opening : Sealed lead first)
    {word : Option String} (written : Writable (optionalName first word)) :
    Sealed (optionalWord lead word) (optionalName first word) := by
  cases word with
  | none => exact .nil
  | some name =>
      simp only [optionalName, Writable.append, Writable.cons] at written
      simpa [optionalName, optionalWord] using
        (opening.andSpells (.name written.2.1)).sealedBy .space rfl

theorem TableSource.spells (source : TableSource) (written : Writable source.kinds) :
    Spells source.toSql source.kinds := by
  simp only [TableSource.kinds, Writable.cons] at written
  have front : Spells ("FROM " ++ source.table) [.keyword .FROM, .identifier source.table] :=
    (Sealed.keyword .FROM).andSpells (.name written.2.1)
  exact front.trailed (.join Join.trails written.2.2)

theorem Selection.spells (selection : Selection) (written : Writable selection.kinds) :
    Spells selection.toSql selection.kinds := by
  simp only [Selection.kinds, Writable.cons, Writable.append] at written
  obtain ⟨-, items, source, filter, grouped, having, order⟩ := written
  have front : Sealed "SELECT " [.keyword .SELECT] := .keyword .SELECT
  have filtering : Trails (clauseSql " WHERE " selection.condition) _ := .clause .WHERE filter
  have grouping : Trails (listClauseSql " GROUP BY " _) _ :=
    .listClause .GROUP Expr.spells grouped
  have selecting : Trails (clauseSql " HAVING " selection.having) _ :=
    .clause .HAVING having
  have sorting : Trails (listClauseSql " ORDER BY " _) _ :=
    .listClause .ORDER SortKey.spells order
  have listed := (front.andSpells (.listing SelectItem.spells items)).sealedBy .space rfl
  have whole := ((((listed.andSpells (selection.source.spells source)).trailed
    filtering).trailed grouping).trailed selecting).trailed sorting
  unfold Selection.toSql Selection.kinds
  simpa using whole

theorem row_spells (values : List Literal) (written : Writable (rowKinds values)) :
    Spells (parenthesized (values.map Literal.toSql)) (rowKinds values) := by
  have each (value : Literal) (written : Writable [value.kind]) :
      Spells value.toSql [value.kind] := value.spells (Writable.cons.mp written).1
  exact (Spells.listing each (Writable.inParens.mp written)).inParens.spells

theorem Insertion.spells (insertion : Insertion) (written : Writable insertion.kinds) :
    Spells insertion.toSql insertion.kinds := by
  obtain ⟨table, fields, rows⟩ := insertion
  simp only [Insertion.kinds, Writable.cons, Writable.append] at written
  obtain ⟨-, -, tableWritten, fieldsWritten, -, rowsWritten⟩ := written
  have front : Spells ("INSERT INTO " ++ table) _ :=
    ((Sealed.keyword .INSERT).append (.keyword .INTO)).andSpells (.name tableWritten)
  have values : Sealed " VALUES " [.keyword .VALUES] :=
    Sealed.space.append (.keyword .VALUES)
  cases fields with
  | none =>
      have whole := (front.sealedBy values rfl).andSpells (.listing row_spells rowsWritten)
      unfold Insertion.toSql Insertion.kinds
      simpa using whole
  | some names =>
      have listed := front.sealedBy (Sealed.space.append (parenthesized_names fieldsWritten))
        (by simp [isFresh, Token.isWordChar])
      have whole := (listed.append values).andSpells (.listing row_spells rowsWritten)
      unfold Insertion.toSql Insertion.kinds
      simpa using whole

theorem Update.spells (update : Update) (written : Writable update.kinds) :
    Spells update.toSql update.kinds := by
  simp only [Update.kinds, Writable.cons, Writable.append] at written
  obtain ⟨-, table, -, assignments, filter⟩ := written
  have front : Sealed "UPDATE " [.keyword .UPDATE] := .keyword .UPDATE
  have middle : Sealed " SET " [.keyword .SET] := Sealed.space.append (.keyword .SET)
  have filtering : Trails (clauseSql " WHERE " update.condition) _ := .clause .WHERE filter
  have named := (front.andSpells (.name table)).sealedBy middle rfl
  have whole := (named.andSpells (.listing Assignment.spells assignments)).trailed filtering
  unfold Update.toSql Update.kinds
  simpa using whole

theorem Deletion.spells (deletion : Deletion) (written : Writable deletion.kinds) :
    Spells deletion.toSql deletion.kinds := by
  simp only [Deletion.kinds, Writable.cons] at written
  obtain ⟨-, -, table, filter⟩ := written
  have front : Sealed "DELETE FROM " [.keyword .DELETE, .keyword .FROM] :=
    (Sealed.keyword .DELETE).append (.keyword .FROM)
  have filtering : Trails (clauseSql " WHERE " deletion.condition) _ := .clause .WHERE filter
  unfold Deletion.toSql Deletion.kinds
  simpa using
    (front.andSpells (.name table)).trailed filtering

theorem IndexDefinition.spells (index : IndexDefinition) (written : Writable index.kinds) :
    Spells index.toSql index.kinds := by
  simp only [IndexDefinition.kinds, Writable.cons, Writable.append] at written
  obtain ⟨-, -, ⟨⟨name, table⟩, method⟩, fields⟩ := written
  have front : Sealed ((if index.isInline then "" else "CREATE ") ++ "INDEX ")
      ((if index.isInline then [] else [.keyword .CREATE]) ++ [.keyword .INDEX]) := by
    split
    · exact Sealed.nil.append (.keyword .INDEX)
    · exact (Sealed.keyword .CREATE).append (.keyword .INDEX)
  have subject : Sealed (optionalWord "ON " index.table) _ :=
    optionalWord_seals (.keyword .ON) table
  have way : Sealed (optionalWord "USING " index.method) _ :=
    optionalWord_seals (.keyword .USING) method
  have whole := (((front.append (optionalWord_seals .nil name)).append subject).append
    way).append (parenthesized_names fields)
  unfold IndexDefinition.toSql IndexDefinition.kinds
  simpa using whole.spells

theorem TableDefinition.spells (table : TableDefinition) (written : Writable table.kinds) :
    Spells table.toSql table.kinds := by
  simp only [TableDefinition.kinds, Writable.cons, Writable.append, Writable.inParens]
    at written
  obtain ⟨-, -, name, fields, indexes⟩ := written
  have front : Sealed "CREATE TABLE " [.keyword .CREATE, .keyword .TABLE] :=
    (Sealed.keyword .CREATE).append (.keyword .TABLE)
  have opening : Sealed " (" [.leftParen] := Sealed.space.append (.symbol '(' rfl)
  have closing : Sealed ")" [.rightParen] := .symbol ')' rfl
  have comma : Sealed ", " [.comma] := (Sealed.symbol ',' rfl).append .space
  have each (index : IndexDefinition) (written : Writable (.comma :: index.kinds)) :
      Trails (", " ++ index.toSql) (.comma :: index.kinds) :=
    ⟨comma.andSpells (index.spells (Writable.cons.mp written).2),
      by simp [Fresh, isFresh, Token.isWordChar]⟩
  have named := (front.andSpells (.name name)).sealedBy opening rfl
  have inside := (named.andSpells (names_spell fields)).trailed (.join each indexes)
  have whole := inside.sealedBy closing rfl
  unfold TableDefinition.toSql TableDefinition.kinds
  simpa [inParens] using whole.spells

/-- The text of a statement spells its kinds. -/
theorem Statement.spells (statement : Statement) (written : Writable statement.kinds) :
    Spells statement.toSql statement.kinds := by
  cases statement with
  | select selection => exact selection.spells written
  | insert insertion => exact insertion.spells written
  | update change => exact change.spells written
  | delete deletion => exact deletion.spells written
  | createTable table => exact table.spells written
  | createIndex index => exact index.spells written

end CompactSql
