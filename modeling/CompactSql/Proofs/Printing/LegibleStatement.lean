import CompactSql.Proofs.Printing.Legible

/-!
# Well-formed statements are derived from their own kinds

The clauses and the statements, clause by clause as the grammar puts them together.
-/

namespace CompactSql

open Grammar Grammar.Derivation
open Token (Kind)
open Token.Kind (commas inParens)

theorem legible_name (name : String) (h : isName name = true) :
    Legible Name (nameKinds name) name :=
  ⟨Writable.cons.mpr ⟨isName_iff.mp h, .nil⟩, .name name⟩

theorem isName_of_derived (row : List Kind) (name : String) (h : Name row name)
    (written : Writable row) : isName name = true := by
  cases h
  exact isName_iff.mpr (Writable.cons.mp written).1

theorem legible_names {names : List String} (h : areNames names = true) :
    Legible (Parenthesized Name) (inParens (commas (names.map nameKinds))) names := by
  simp only [areNames, Bool.and_eq_true, Bool.not_eq_true', List.all_eq_true] at h
  exact (Legible.listed (List.isEmpty_eq_false_iff.mp h.1)
    fun name member => legible_name name (h.2 name member)).parenthesized

theorem areNames_of_derived (row : List Kind) (names : List String)
    (h : Parenthesized Name row names) (written : Writable row) : areNames names = true := by
  have checked := all_of_parenthesized isName_of_derived h written
  simp [areNames, checked]

theorem legible_optionalName (lead : List Kind) (written : Writable lead)
    {name : Option String} (h : name.all isName = true) :
    Legible (Optional lead Name) (optionalName lead name) name := by
  cases name with
  | none => exact ⟨.nil, .absent⟩
  | some name =>
      have named := legible_name name h
      exact ⟨Writable.append.mpr ⟨written, named.written⟩, .present named.derived⟩

theorem legible_clause (word : Keyword) {condition : Option Expr}
    (h : condition.all Expr.isCondition = true) :
    Legible (Optional [.keyword word] Condition) (clauseKinds word condition) condition := by
  cases condition with
  | none => exact ⟨.nil, .absent⟩
  | some expr =>
      have legible := expr.legible_condition h
      exact ⟨Writable.cons.mpr ⟨trivial, legible.written⟩, .present legible.derived⟩

theorem exprs_of_listed {items : List SelectItem}
    (h : items.all (fun | .wildcard => false | .expr value => value.isArithmetic) = true) :
    ∃ values : List Expr, items = values.map .expr ∧
      ∀ value ∈ values, value.isArithmetic = true := by
  induction items with
  | nil => exact ⟨[], rfl, by simp⟩
  | cons item items ih =>
      simp only [List.all_cons, Bool.and_eq_true] at h
      obtain ⟨values, rfl, each⟩ := ih h.2
      cases item with
      | wildcard => cases h.1
      | expr value => exact ⟨value :: values, rfl, List.forall_mem_cons.mpr ⟨h.1, each⟩⟩

theorem legible_items {items : List SelectItem} (h : SelectItem.areListed items = true) :
    Legible SelectItems (commas (items.map SelectItem.kinds)) items := by
  unfold SelectItem.areListed at h
  split at h
  · cases h
  · exact ⟨by simp [commas, SelectItem.kinds], .all⟩
  · next nonempty _ =>
      obtain ⟨values, rfl, each⟩ := exprs_of_listed h
      have listed : Legible (Listed Arithmetic) _ values :=
        .listed (by simpa using nonempty)
          fun value member => value.legible_arithmetic (each value member)
      rw [List.map_map]
      exact ⟨listed.written, .exprs listed.derived⟩

theorem areListed_of_derived {row : List Kind} {items : List SelectItem}
    (h : SelectItems row items) (written : Writable row) :
    SelectItem.areListed items = true := by
  cases h with
  | all => rfl
  | @exprs _ values listed =>
      obtain ⟨nonempty, each⟩ :=
        all_of_listed Expr.isArithmetic_of_derived listed written
      unfold SelectItem.areListed
      split
      · next empty => simp [List.map_eq_nil_iff.mp empty] at nonempty
      · rfl
      · rw [List.all_map]
        exact each

theorem legible_joins {joins : List Join} (h : joins.all Join.isWellFormed = true) :
    Legible (Joins Condition) (joins.flatMap Join.kinds) joins := by
  induction joins with
  | nil => exact ⟨.nil, .none⟩
  | cons join joins ih =>
      simp only [List.all_cons, Join.isWellFormed, Bool.and_eq_true, isName_iff] at h
      have condition := join.condition.legible_condition h.1.2
      have others := ih h.2
      refine ⟨?_, .join join.table condition.derived others.derived⟩
      simp only [List.flatMap_cons, Join.kinds, Writable.append, Writable.cons]
      exact ⟨⟨trivial, trivial, h.1.1, trivial, condition.written⟩, others.written⟩

theorem joins_of_derived {row : List Kind} {joins : List Join}
    (h : Joins Condition row joins) :
    Writable row → joins.all Join.isWellFormed = true := by
  induction h with
  | none => exact fun _ => rfl
  | join table member _ ih =>
      intro written
      simp only [Writable.cons, Writable.append] at written
      have condition := Expr.isCondition_of_derived _ _ member written.2.2.2.2.1
      simp [Join.isWellFormed, isName_iff.mpr written.2.2.1, condition, ih written.2.2.2.2.2]

theorem legible_groupField (field : Expr) (h : field.isGroupField = true) :
    Legible GroupField field.kinds field := by
  cases field with
  | identifier name => exact ⟨by simpa [Expr.kinds] using isName_iff.mp h, .identifier name⟩
  | field table name =>
      simp only [Expr.isGroupField, Bool.and_eq_true, isName_iff] at h
      exact ⟨by simpa [Expr.kinds] using h, .field table name⟩
  | literal _ | call _ _ | binary _ _ _ | between _ _ _ => cases h

theorem isGroupField_of_derived (row : List Kind) (field : Expr) (h : GroupField row field)
    (written : Writable row) : field.isGroupField = true := by
  cases h with
  | identifier name => exact isName_iff.mpr (Writable.cons.mp written).1
  | field table name =>
      simp only [Writable.cons] at written
      simp [Expr.isGroupField, isName_iff.mpr written.1, isName_iff.mpr written.2.2.1]

theorem legible_grouping {fields : List Expr} {having : Option Expr}
    (each : fields.all Expr.isGroupField = true)
    (condition : having.all Expr.isCondition = true)
    (behind : (having.isNone || !fields.isEmpty) = true) :
    Legible (Grouping Condition)
      (listClauseKinds [.keyword .GROUP, .keyword .BY] (fields.map Expr.kinds) ++
        clauseKinds .HAVING having) (fields, having) := by
  have filter := legible_clause .HAVING condition
  by_cases empty : fields = []
  · subst empty
    obtain rfl : having = none := by simpa using behind
    exact ⟨.nil, .none⟩
  · have listed := Legible.listed empty fun field member =>
      legible_groupField field (List.all_eq_true.mp each field member)
    rw [listClauseKinds_eq _ (by simpa using empty)]
    refine ⟨?_, .fields listed.derived filter.derived⟩
    simp [listed.written, filter.written]

theorem grouping_of_derived {row : List Kind} {fields : List Expr} {having : Option Expr}
    (h : Grouping Condition row (fields, having)) (written : Writable row) :
    fields.all Expr.isGroupField = true ∧ having.all Expr.isCondition = true ∧
      (having.isNone || !fields.isEmpty) = true := by
  cases h with
  | none => exact ⟨rfl, rfl, rfl⟩
  | fields listed filter =>
      simp only [Writable.cons, Writable.append] at written
      obtain ⟨nonempty, each⟩ := all_of_listed isGroupField_of_derived listed written.2.2.1
      have condition := all_of_optional Expr.isCondition_of_derived filter written.2.2.2
      exact ⟨each, condition, by simp [nonempty]⟩

theorem legible_sortKey (key : CompactSql.SortKey) (h : key.expr.isArithmetic = true) :
    Legible Derivation.SortKey key.kinds key := by
  have legible := key.expr.legible_arithmetic h
  obtain ⟨expr, ascending⟩ := key
  cases ascending with
  | false => exact ⟨by simp [SortKey.kinds, legible.written], .descending legible.derived⟩
  | true => exact ⟨by simp [SortKey.kinds, legible.written], .ascending legible.derived⟩

theorem sortKey_of_derived (row : List Kind) (key : CompactSql.SortKey)
    (h : Derivation.SortKey row key) (written : Writable row) :
    key.expr.isArithmetic = true := by
  cases h with
  | plain member => exact Expr.isArithmetic_of_derived _ _ member written
  | ascending member | descending member =>
      exact Expr.isArithmetic_of_derived _ _ member (Writable.append.mp written).1

theorem legible_sorting {keys : List CompactSql.SortKey}
    (h : keys.all (fun key => key.expr.isArithmetic) = true) :
    Legible Sorting
      (listClauseKinds [.keyword .ORDER, .keyword .BY] (keys.map SortKey.kinds)) keys := by
  by_cases empty : keys = []
  · subst empty
    exact ⟨.nil, .none⟩
  · have listed := Legible.listed empty fun key member =>
      legible_sortKey key (List.all_eq_true.mp h key member)
    rw [listClauseKinds_eq _ (by simpa using empty)]
    exact ⟨by simp [listed.written], .keys listed.derived⟩

theorem sorting_of_derived {row : List Kind} {keys : List CompactSql.SortKey}
    (h : Sorting row keys) (written : Writable row) :
    keys.all (fun key => key.expr.isArithmetic) = true := by
  cases h with
  | none => rfl
  | keys listed =>
      simp only [Writable.cons] at written
      exact (all_of_listed sortKey_of_derived listed written.2.2).2

/-! ## Statements -/

theorem legible_selection {selection : CompactSql.Selection}
    (h : selection.isWellFormed = true) :
    Legible (Derivation.Selection Condition) selection.kinds selection := by
  simp only [Selection.isWellFormed, Bool.and_eq_true] at h
  obtain ⟨⟨⟨⟨⟨⟨⟨items, table⟩, joins⟩, condition⟩, fields⟩, having⟩, behind⟩, keys⟩ := h
  have listed := legible_items items
  have joined := legible_joins joins
  have filtered := legible_clause .WHERE condition
  have grouped := legible_grouping fields having behind
  have sorted := legible_sorting keys
  constructor
  · have grouping := Writable.append.mp grouped.written
    simp only [Selection.kinds, TableSource.kinds, Writable.cons, Writable.append]
    exact ⟨trivial, listed.written, ⟨trivial, isName_iff.mp table, joined.written⟩,
      filtered.written, grouping.1, grouping.2, sorted.written⟩
  · have derived := Derivation.Selection.select selection.source.table listed.derived
      joined.derived filtered.derived grouped.derived sorted.derived
    simpa [Selection.kinds, TableSource.kinds] using derived

theorem selection_of_derived {row : List Kind} {selection : CompactSql.Selection}
    (h : Derivation.Selection Condition row selection) (written : Writable row) :
    selection.isWellFormed = true := by
  cases h with
  | select table listed joined filtered grouped sorted =>
      simp only [Writable.cons, Writable.append] at written
      obtain ⟨-, first, -, name, ⟨⟨joining, filter⟩, group⟩, order⟩ := written
      obtain ⟨fields, having, behind⟩ := grouping_of_derived grouped group
      have condition := all_of_optional Expr.isCondition_of_derived filtered filter
      simp only [Selection.isWellFormed, areListed_of_derived listed first,
        isName_iff.mpr name, joins_of_derived joined joining, condition, fields, having,
        behind, sorting_of_derived sorted order, Bool.and_self]

theorem legible_row (values : List CompactSql.Literal)
    (h : (!values.isEmpty && values.all Literal.isUnsigned) = true) :
    Legible (Parenthesized Derivation.Literal) (rowKinds values) values := by
  simp only [Bool.and_eq_true, Bool.not_eq_true', List.all_eq_true] at h
  refine (Legible.listed (List.isEmpty_eq_false_iff.mp h.1) ?_).parenthesized
  intro value member
  exact ⟨Writable.cons.mpr ⟨isUnsigned_iff.mp (h.2 value member), .nil⟩,
    (literal_derived value).1⟩

theorem row_of_derived (row : List Kind) (values : List CompactSql.Literal)
    (h : Parenthesized Derivation.Literal row values) (written : Writable row) :
    (!values.isEmpty && values.all Literal.isUnsigned) = true := by
  have checked := all_of_parenthesized isUnsigned_of_derived h written
  simp [checked]

theorem legible_insertion {insertion : CompactSql.Insertion}
    (h : insertion.isWellFormed = true) :
    Legible Derivation.Insertion insertion.kinds insertion := by
  obtain ⟨table, fields, rows⟩ := insertion
  simp only [Insertion.isWellFormed, Bool.and_eq_true, Bool.not_eq_true', isName_iff] at h
  obtain ⟨⟨⟨tableNamed, fieldsNamed⟩, nonempty⟩, each⟩ := h
  have listed := Legible.listed (List.isEmpty_eq_false_iff.mp nonempty) fun row member =>
    legible_row row (List.all_eq_true.mp each row member)
  cases fields with
  | none =>
      refine ⟨?_, .insert table .absent listed.derived⟩
      simp [Insertion.kinds, tableNamed, listed.written]
  | some names =>
      have named := legible_names fieldsNamed
      refine ⟨?_, .insert table (.present named.derived) listed.derived⟩
      simp only [Insertion.kinds, Writable.cons, Writable.append]
      exact ⟨trivial, trivial, tableNamed, named.written, trivial, listed.written⟩

theorem insertion_of_derived {row : List Kind} {insertion : CompactSql.Insertion}
    (h : Derivation.Insertion row insertion) (written : Writable row) :
    insertion.isWellFormed = true := by
  cases h with
  | insert table named listed =>
      simp only [Writable.cons, Writable.append] at written
      obtain ⟨-, -, name, first, -, second⟩ := written
      have fields := all_of_optional areNames_of_derived named first
      obtain ⟨nonempty, each⟩ := all_of_listed row_of_derived listed second
      simp [Insertion.isWellFormed, isName_iff.mpr name, fields, nonempty, each]

theorem legible_assignment (assignment : CompactSql.Assignment)
    (h : assignment.isWellFormed = true) :
    Legible Derivation.Assignment assignment.kinds assignment := by
  simp only [Assignment.isWellFormed, Bool.and_eq_true, isName_iff] at h
  have value := assignment.value.legible_arithmetic h.2
  refine ⟨?_, .set assignment.field value.derived⟩
  simp only [Assignment.kinds, Writable.cons]
  exact ⟨h.1, trivial, value.written⟩

theorem assignment_of_derived (row : List Kind) (assignment : CompactSql.Assignment)
    (h : Derivation.Assignment row assignment) (written : Writable row) :
    assignment.isWellFormed = true := by
  cases h with
  | set field member =>
      simp only [Writable.cons] at written
      simp [Assignment.isWellFormed, isName_iff.mpr written.1,
        Expr.isArithmetic_of_derived _ _ member written.2.2]

theorem legible_update {change : CompactSql.Update} (h : change.isWellFormed = true) :
    Legible (Derivation.Update Condition) change.kinds change := by
  simp only [Update.isWellFormed, Bool.and_eq_true, Bool.not_eq_true', isName_iff] at h
  obtain ⟨⟨⟨table, nonempty⟩, each⟩, condition⟩ := h
  have listed := Legible.listed (List.isEmpty_eq_false_iff.mp nonempty) fun assignment member =>
    legible_assignment assignment (List.all_eq_true.mp each assignment member)
  have filtered := legible_clause .WHERE condition
  refine ⟨?_, .update change.table listed.derived filtered.derived⟩
  simp only [Update.kinds, Writable.cons, Writable.append]
  exact ⟨trivial, table, trivial, listed.written, filtered.written⟩

theorem update_of_derived {row : List Kind} {change : CompactSql.Update}
    (h : Derivation.Update Condition row change) (written : Writable row) :
    change.isWellFormed = true := by
  cases h with
  | update table listed filtered =>
      simp only [Writable.cons, Writable.append] at written
      obtain ⟨-, name, -, first, filter⟩ := written
      obtain ⟨nonempty, each⟩ := all_of_listed assignment_of_derived listed first
      have condition := all_of_optional Expr.isCondition_of_derived filtered filter
      simp [Update.isWellFormed, isName_iff.mpr name, nonempty, each, condition]

theorem legible_deletion {deletion : CompactSql.Deletion} (h : deletion.isWellFormed = true) :
    Legible (Derivation.Deletion Condition) deletion.kinds deletion := by
  simp only [Deletion.isWellFormed, Bool.and_eq_true, isName_iff] at h
  have filtered := legible_clause .WHERE h.2
  exact ⟨by simp [Deletion.kinds, h.1, filtered.written],
    .plain deletion.table filtered.derived⟩

theorem deletion_of_derived {row : List Kind} {deletion : CompactSql.Deletion}
    (h : Derivation.Deletion Condition row deletion) (written : Writable row) :
    deletion.isWellFormed = true := by
  have checked {table : String} {filter : List Kind} {condition : Option Expr}
      (name : (Kind.identifier table).Written) (rest : Writable filter)
      (filtered : Optional [.keyword .WHERE] Condition filter condition) :
      (CompactSql.Deletion.mk table condition).isWellFormed = true := by
    have condition := all_of_optional Expr.isCondition_of_derived filtered rest
    simp [Deletion.isWellFormed, isName_iff.mpr name, condition]
  cases h with
  | plain table filtered =>
      simp only [Writable.cons] at written
      exact checked written.2.2.1 written.2.2.2 filtered
  | starred table filtered =>
      simp only [Writable.cons] at written
      exact checked written.2.2.2.1 written.2.2.2.2 filtered

/-! ## Tables and indexes -/

theorem legible_inlineIndex {index : CompactSql.IndexDefinition}
    (inline : index.isInline = true) (h : index.isWellNamed = true) :
    Legible Derivation.TableEntry index.kinds (.index index) := by
  obtain ⟨name, table, method, fields⟩ := index
  obtain rfl : table = none := by simpa [IndexDefinition.isInline] using inline
  simp only [IndexDefinition.isWellNamed, Bool.and_eq_true] at h
  obtain ⟨⟨⟨name, -⟩, method⟩, fields⟩ := h
  have named := legible_optionalName [] .nil name
  have way := legible_optionalName [.keyword .USING] (by simp) method
  have columns := legible_names fields
  have same : (CompactSql.IndexDefinition.mk _ none _ _).kinds = _ :=
    index_kinds named.derived way.derived columns.derived columns.written
  have derived := Derivation.TableEntry.index named.derived way.derived columns.derived
  rw [same]
  exact ⟨by simp [named.written, way.written, columns.written], by simpa using derived⟩

theorem legible_indexDefinition {index : CompactSql.IndexDefinition}
    (outside : index.isInline = false) (h : index.isWellNamed = true) :
    Legible Derivation.IndexDefinition index.kinds index := by
  obtain ⟨name, table, method, fields⟩ := index
  obtain ⟨table, rfl⟩ : ∃ subject, table = some subject := by
    simpa [IndexDefinition.isInline, Option.isSome_iff_exists, ← Option.not_isSome] using outside
  simp only [IndexDefinition.isWellNamed, Bool.and_eq_true] at h
  obtain ⟨⟨⟨name, subject⟩, method⟩, fields⟩ := h
  have named := legible_optionalName [] .nil name
  have way := legible_optionalName [.keyword .USING] (by simp) method
  have columns := legible_names fields
  have same : (CompactSql.IndexDefinition.mk _ (some table) _ _).kinds = _ :=
    index_kinds named.derived way.derived columns.derived columns.written
  have derived := Derivation.IndexDefinition.create table named.derived way.derived
    columns.derived
  rw [same]
  refine ⟨?_, by simpa using derived⟩
  simp [isName_iff.mp subject, named.written, way.written, columns.written]

theorem isWellNamed_of_derived {first second third : List Kind} {name table method : Option String}
    {fields : List String} (named : Optional [] Name first name)
    (way : Optional [.keyword .USING] Name second method)
    (columns : Parenthesized Name third fields) (subject : table.all isName = true)
    (written : Writable (first ++ second ++ third)) :
    (CompactSql.IndexDefinition.mk name table method fields).isWellNamed = true := by
  simp only [Writable.append] at written
  simp only [IndexDefinition.isWellNamed, subject,
    all_of_optional isName_of_derived named written.1.1,
    all_of_optional isName_of_derived way written.1.2,
    areNames_of_derived _ _ columns written.2, Bool.and_self]

theorem indexDefinition_of_derived {row : List Kind} {index : CompactSql.IndexDefinition}
    (h : Derivation.IndexDefinition row index) (written : Writable row) :
    (!index.isInline && index.isWellNamed) = true := by
  cases h with
  | create table named way columns =>
      simp only [Writable.cons, Writable.append] at written
      obtain ⟨-, -, first, -, name, second, third⟩ := written
      have subject : (some table).all isName = true := isName_iff.mpr name
      have checked := isWellNamed_of_derived named way columns subject
        (Writable.append.mpr ⟨Writable.append.mpr ⟨first, second⟩, third⟩)
      rw [checked]
      rfl

def Grammar.TableEntry.isWellFormed : Grammar.TableEntry → Bool
  | .field name => isName name
  | .index definition => definition.isInline && definition.isWellNamed

theorem entry_of_derived (row : List Kind) (entry : Grammar.TableEntry)
    (h : Derivation.TableEntry row entry) (written : Writable row) :
    entry.isWellFormed = true := by
  cases h with
  | field name => exact isName_iff.mpr (Writable.cons.mp written).1
  | index named way columns =>
      exact isWellNamed_of_derived named way columns rfl (Writable.cons.mp written).2

theorem legible_table {table : CompactSql.TableDefinition} (h : table.isWellFormed = true) :
    Legible Derivation.TableDefinition table.kinds table := by
  obtain ⟨name, fields, indexes⟩ := table
  simp only [TableDefinition.isWellFormed, areNames, Bool.and_eq_true, Bool.not_eq_true',
    List.all_eq_true, isName_iff] at h
  obtain ⟨⟨named, nonempty, fieldsNamed⟩, each⟩ := h
  have nonempty := List.isEmpty_eq_false_iff.mp nonempty
  have inline index (member : index ∈ indexes) : Legible Derivation.TableEntry index.kinds _ :=
    legible_inlineIndex (each index member).1 (each index member).2
  have arranged := arranged_derived nonempty fun index member => (inline index member).derived
  have held := arranged_entries fields indexes
  have derived := TableDefinition.create name arranged (by rwa [held.1])
  rw [held.1, held.2] at derived
  have same : (CompactSql.TableDefinition.mk name fields indexes).kinds =
      Kind.tableRow (.identifier name)
        (commas (fields.map nameKinds ++ indexes.map CompactSql.IndexDefinition.kinds)) := by
    rw [Kind.tableRow, Kind.commas_append (by simpa using nonempty), List.flatMap_map,
      CompactSql.TableDefinition.kinds]
  rw [same]
  refine ⟨Writable.tableRow.mpr ⟨named, Writable.commas.mpr ?_⟩, derived⟩
  simp only [List.mem_append, List.mem_map]
  rintro row (⟨field, member, rfl⟩ | ⟨index, member, rfl⟩)
  · exact Writable.cons.mpr ⟨fieldsNamed field member, .nil⟩
  · exact (inline index member).written

theorem table_of_derived {row : List Kind} {table : CompactSql.TableDefinition}
    (h : Derivation.TableDefinition row table) (written : Writable row) :
    table.isWellFormed = true := by
  cases h with
  | @create name list entries listed nonempty =>
      simp only [Writable.cons, Writable.append] at written
      obtain ⟨-, each⟩ := all_of_listed entry_of_derived listed written.2.2.2.2.1
      rw [List.all_eq_true] at each
      simp only [TableDefinition.isWellFormed, areNames, isName_iff.mpr written.2.2.1,
        Bool.and_eq_true, Bool.not_eq_true', List.isEmpty_eq_false_iff, List.all_eq_true,
        List.mem_filterMap, true_and]
      refine ⟨⟨nonempty, ?_⟩, ?_⟩
      · rintro field ⟨entry, member, eq⟩
        cases entry <;> cases eq
        exact each _ member
      · rintro index ⟨entry, member, eq⟩
        cases entry <;> cases eq
        simpa [TableEntry.isWellFormed] using each _ member

/-! ## All statements -/

/-- A well-formed statement has kinds that can be written and derive it. -/
theorem legible_statement {tree : CompactSql.Statement} (h : tree.isWellFormed = true) :
    Legible (Derivation.Statement Condition) tree.kinds tree := by
  cases tree with
  | select selection =>
      obtain ⟨written, derived⟩ := legible_selection h
      exact ⟨written, .select derived⟩
  | insert insertion =>
      obtain ⟨written, derived⟩ := legible_insertion h
      exact ⟨written, .insert derived⟩
  | update change =>
      obtain ⟨written, derived⟩ := legible_update h
      exact ⟨written, .update derived⟩
  | delete deletion =>
      obtain ⟨written, derived⟩ := legible_deletion h
      exact ⟨written, .delete derived⟩
  | createTable table =>
      obtain ⟨written, derived⟩ := legible_table h
      exact ⟨written, .createTable derived⟩
  | createIndex index =>
      simp only [Statement.isWellFormed, Bool.and_eq_true, Bool.not_eq_true'] at h
      obtain ⟨written, derived⟩ := legible_indexDefinition h.1 h.2
      exact ⟨written, .createIndex derived⟩

/-- A statement that is derived from a row that can be written is well formed. -/
theorem statement_of_derived {row : List Kind} {tree : CompactSql.Statement}
    (h : Derivation.Statement Condition row tree) (written : Writable row) :
    tree.isWellFormed = true := by
  cases h with
  | select derived => exact selection_of_derived derived written
  | insert derived => exact insertion_of_derived derived written
  | update derived => exact update_of_derived derived written
  | delete derived => exact deletion_of_derived derived written
  | createTable derived => exact table_of_derived derived written
  | createIndex derived => exact indexDefinition_of_derived derived written

end CompactSql
