import CompactSql.Proofs.Printing.Faithful

/-!
# The normal form of a statement

A row that derives a statement has the kinds of the statement for its normal form,
and the normal form derives the statement again.
-/

namespace CompactSql

open Grammar Grammar.Derivation
open Token (Kind)
open Token.Kind

theorem order_notMem_expr (expr : Expr) : .keyword .ORDER ∉ expr.kinds :=
  fun inside => absurd (expr.mem_keywords inside) (by decide)

theorem order_notMem_commas {rows : List (List Kind)}
    (each : ∀ row ∈ rows, .keyword .ORDER ∉ row) : .keyword .ORDER ∉ commas rows := by
  intro inside
  rcases mem_commas inside with eq | ⟨row, member, inside⟩
  · cases eq
  · exact each row member inside

private theorem order_notMem_clause {word : Keyword} (h : word ≠ .ORDER) (condition : Option Expr) :
    .keyword .ORDER ∉ clauseKinds word condition := by
  cases condition with
  | none => simp [clauseKinds]
  | some expr => simp [clauseKinds, Ne.symm h, order_notMem_expr expr]

private theorem order_notMem_join (join : Join) : .keyword .ORDER ∉ join.kinds := by
  simp [Join.kinds, order_notMem_expr]

private theorem order_notMem_items (selected : List SelectItem) :
    .keyword .ORDER ∉ commas (selected.map SelectItem.kinds) := by
  refine order_notMem_commas (List.forall_mem_map.mpr ?_)
  rintro (_ | expr) _
  · simp [SelectItem.kinds]
  · exact order_notMem_expr expr

private theorem order_notMem_groups (fields : List Expr) :
    .keyword .ORDER ∉
      listClauseKinds [.keyword .GROUP, .keyword .BY] (fields.map Expr.kinds) := by
  by_cases empty : fields = []
  · simp [empty, listClauseKinds]
  · rw [listClauseKinds_eq _ (by simpa using empty)]
    have inside := order_notMem_commas (List.forall_mem_map.mpr
      fun field (_ : field ∈ fields) => order_notMem_expr field)
    simpa using inside

theorem selection_printed {row : List Kind} {selection : CompactSql.Selection}
    (h : Derivation.Selection Condition row selection) (written : Writable row) :
    selection.kinds = normalForm row ∧
      Derivation.Selection Condition (normalForm row) selection := by
  cases h with
  | @select table first joining filter group order selected joins condition having fields keys
      listed joined filtered grouped sorted =>
      simp only [Writable.cons, Writable.append] at written
      obtain ⟨-, firstW, -, -, ⟨⟨joiningW, filterW⟩, groupW⟩, orderW⟩ := written
      have sameItems := selectItems_kinds listed firstW
      have sameJoins := joins_kinds joined joiningW
      have sameFilter := clause_kinds filtered filterW
      have sameGroups := grouping_kinds grouped groupW
      obtain ⟨sameKeys, directed⟩ := sorting_directed sorted orderW
      -- no `ORDER` stands before the keys, so they are all that gets directions
      have unordered : .keyword .ORDER ∉ first ++ .keyword .FROM :: .identifier table ::
          (joining ++ filter ++ group) := by
        rw [← sameItems, ← sameJoins, ← sameFilter, ← sameGroups]
        simp [order_notMem_items, order_notMem_join, order_notMem_clause,
          order_notMem_groups]
      have normal : normalForm (.keyword .SELECT :: (first ++ .keyword .FROM ::
          .identifier table :: (joining ++ filter ++ group ++ order))) =
          .keyword .SELECT :: (first ++ .keyword .FROM :: .identifier table ::
            (joining ++ filter ++ group ++ directKeys order)) := by
        have := directKeys_append unordered order
        simp only [List.append_assoc, List.cons_append] at this ⊢
        rw [normalForm, this]
      rw [normal]
      refine ⟨?_, .select table listed joined filtered grouped directed⟩
      rw [← sameItems, ← sameJoins, ← sameFilter, ← sameGroups, ← sameKeys]
      simp [CompactSql.Selection.kinds, TableSource.kinds]

/-! ## Tables -/

theorem nameKinds_solid (name : String) : Solid (nameKinds name) := .single (by simp)

private theorem optionalName_solid {lead : List Kind} (h : Solid lead) (name : Option String) :
    Solid (optionalName lead name) := by
  cases name with
  | none => exact .nil
  | some name => exact h.append (nameKinds_solid name)

private theorem index_solid (index : CompactSql.IndexDefinition) : Solid index.kinds := by
  have lead : Solid (if index.isInline then [] else [.keyword .CREATE]) := by
    split
    · exact .nil
    · exact .single (by simp)
  have fields : Solid (inParens (commas (index.fields.map nameKinds))) :=
    (Covered.commas (List.forall_mem_map.mpr fun name _ => nameKinds_solid name)).inParens
  exact lead.append (.cons (by simp) ((((optionalName_solid .nil _).append
    (optionalName_solid (.single (by simp)) _)).append
    (optionalName_solid (.single (by simp)) _)).append fields))

def Grammar.TableEntry.kinds : Grammar.TableEntry → List Kind
  | .field name => nameKinds name
  | .index definition => definition.kinds

private theorem entry_solid (entry : Grammar.TableEntry) : Solid entry.kinds := by
  cases entry with
  | field name => exact nameKinds_solid name
  | index index => exact index_solid index

theorem entry_kinds {row : List Kind} {entry : Grammar.TableEntry}
    (h : Derivation.TableEntry row entry) (written : Writable row) :
    entry.kinds = row ∧ isIndexEntry row = entry.index?.isSome := by
  cases h with
  | field name => exact ⟨rfl, rfl⟩
  | index named way columns =>
      simp only [Writable.cons, Writable.append] at written
      rw [TableEntry.kinds, index_kinds named way columns written.2.2]
      simp [optionalName, isIndexEntry]

theorem fields_kinds (entries : List Grammar.TableEntry) :
    (entries.filter (!·.index?.isSome)).map TableEntry.kinds =
      (entries.filterMap TableEntry.field?).map nameKinds := by
  induction entries with
  | nil => rfl
  | cons entry entries ih =>
      cases entry <;> simpa [List.filter_cons, List.filterMap_cons, TableEntry.kinds] using ih

theorem indexes_kinds (entries : List Grammar.TableEntry) :
    (entries.filter (·.index?.isSome)).map TableEntry.kinds =
      (entries.filterMap TableEntry.index?).map CompactSql.IndexDefinition.kinds := by
  induction entries with
  | nil => rfl
  | cons entry entries ih =>
      cases entry <;> simpa [List.filter_cons, List.filterMap_cons, TableEntry.kinds] using ih

theorem entries_items {list : List Kind} {entries : List Grammar.TableEntry}
    (h : Listed Derivation.TableEntry list entries) (written : Writable list) :
    items list = entries.map TableEntry.kinds ∧
      ∀ entry ∈ entries, Derivation.TableEntry entry.kinds entry ∧
        isIndexEntry entry.kinds = entry.index?.isSome := by
  have same := h.kinds_eq TableEntry.kinds written fun _ _ member written =>
    (entry_kinds member written).1
  constructor
  · rw [← same]
    exact items_commas (by simpa using h.ne_nil)
      (List.forall_mem_map.mpr fun entry _ => entry_solid entry)
  · obtain ⟨pairs, -, rfl, rfl, each⟩ := h.pairs
    rw [Writable.commas, List.forall_mem_map] at written
    refine List.forall_mem_map.mpr fun pair member => ?_
    obtain ⟨same, told⟩ := entry_kinds (each pair member) (written pair member)
    rw [same]
    exact ⟨each pair member, told⟩

theorem entries_split {list : List Kind} {entries : List Grammar.TableEntry}
    (h : Listed Derivation.TableEntry list entries) (written : Writable list) :
    fieldEntries list = (entries.filterMap TableEntry.field?).map nameKinds ∧
      indexEntries list =
        (entries.filterMap TableEntry.index?).map CompactSql.IndexDefinition.kinds := by
  obtain ⟨split, each⟩ := entries_items h written
  constructor
  · rw [fieldEntries, split, List.filter_map, ← fields_kinds]
    congr 1
    exact List.filter_congr fun entry member => by simp [(each entry member).2]
  · rw [indexEntries, split, List.filter_map, ← indexes_kinds]
    congr 1
    exact List.filter_congr fun entry member => by simp [(each entry member).2]

theorem arranged_derived {fields : List String} {indexes : List CompactSql.IndexDefinition}
    (nonempty : fields ≠ [])
    (each : ∀ index ∈ indexes, Derivation.TableEntry index.kinds (.index index)) :
    Listed Derivation.TableEntry
      (commas (fields.map nameKinds ++ indexes.map CompactSql.IndexDefinition.kinds))
      (fields.map .field ++ indexes.map .index) := by
  have derived : ∀ pair ∈ fields.map (fun name => (nameKinds name, TableEntry.field name)) ++
      indexes.map (fun index => (index.kinds, TableEntry.index index)),
      Derivation.TableEntry pair.1 pair.2 := by
    simp only [List.mem_append, List.mem_map]
    rintro _ (⟨name, -, rfl⟩ | ⟨index, member, rfl⟩)
    · exact .field name
    · exact each index member
  simpa [Function.comp_def] using Listed.of_pairs (by simp [nonempty]) derived

theorem arranged_entries (fields : List String) (indexes : List CompactSql.IndexDefinition) :
    let entries := fields.map TableEntry.field ++ indexes.map TableEntry.index
    entries.filterMap TableEntry.field? = fields ∧
      entries.filterMap TableEntry.index? = indexes := by
  have fieldOf : TableEntry.field? ∘ TableEntry.field = some := rfl
  have noField : TableEntry.field? ∘ TableEntry.index = fun _ => none := rfl
  have noIndex : TableEntry.index? ∘ TableEntry.field = fun _ => none := rfl
  have indexOf : TableEntry.index? ∘ TableEntry.index = some := rfl
  simp [List.filterMap_map, fieldOf, noField, noIndex, indexOf]

theorem table_printed {row : List Kind} {table : CompactSql.TableDefinition}
    (h : Derivation.TableDefinition row table) (written : Writable row) :
    table.kinds = normalForm row ∧ Derivation.TableDefinition (normalForm row) table := by
  cases h with
  | @create name list entries listed nonempty =>
      simp only [Writable.cons, Writable.append] at written
      obtain ⟨fields, indexes⟩ := entries_split listed written.2.2.2.2.1
      obtain ⟨-, each⟩ := entries_items listed written.2.2.2.2.1
      have normal := normalForm_tableRow (.identifier name) list
      rw [tableRow, inParens] at normal
      -- in the new order each index is derived from its own kinds
      have inline : ∀ index ∈ entries.filterMap TableEntry.index?,
          Derivation.TableEntry index.kinds (.index index) := by
        intro index member
        obtain ⟨entry, member, eq⟩ := List.mem_filterMap.mp member
        cases entry with
        | field name => cases eq
        | index definition =>
            cases eq
            exact (each _ member).1
      rw [normal, fields, indexes]
      have held := arranged_entries (entries.filterMap TableEntry.field?)
        (entries.filterMap TableEntry.index?)
      have derived := TableDefinition.create name (arranged_derived nonempty inline)
        (by rwa [held.1])
      rw [held.1, held.2] at derived
      refine ⟨?_, derived⟩
      rw [CompactSql.TableDefinition.kinds, commas_append (by simpa using nonempty),
        List.flatMap_map, tableRow]

theorem interleaved_listed {list list' : List Kind} {entries : List Grammar.TableEntry}
    (h : Listed Derivation.TableEntry list entries) (written : Writable list)
    (fields : fieldEntries list = fieldEntries list')
    (indexes : indexEntries list = indexEntries list') :
    ∃ entries', Listed Derivation.TableEntry list' entries' := by
  obtain ⟨split, derived⟩ := entries_items h written
  have each : ∀ row ∈ items list', ∃ entry, Derivation.TableEntry row entry := by
    intro row member
    have shared : row ∈ items list := by
      by_cases told : isIndexEntry row
      · have among : row ∈ indexEntries list' := List.mem_filter.mpr ⟨member, told⟩
        rw [← indexes] at among
        exact (List.mem_filter.mp among).1
      · have among : row ∈ fieldEntries list' :=
          List.mem_filter.mpr ⟨member, by simpa using told⟩
        rw [← fields] at among
        exact (List.mem_filter.mp among).1
    rw [split, List.mem_map] at shared
    obtain ⟨entry, listed, rfl⟩ := shared
    exact ⟨entry, (derived entry listed).1⟩
  obtain ⟨pairs, rows, each⟩ := exists_pairs each
  have listed := Listed.of_pairs ?_ each
  · rw [rows, items, commas_splitCommas] at listed
    exact ⟨_, listed⟩
  · rintro rfl
    exact splitCommas_ne_nil 0 list' rows.symm

theorem tableRow_inv {name : Kind} {list : List Kind} {tree : CompactSql.Statement}
    (h : Derivation.Statement Condition (tableRow name list) tree) :
    ∃ table entries, name = .identifier table ∧ Listed Derivation.TableEntry list entries ∧
      entries.filterMap TableEntry.field? ≠ [] := by
  generalize eq : tableRow name list = row at h
  cases h with
  | createTable derived =>
      obtain ⟨table, listed, nonempty⟩ := derived
      simp only [tableRow, inParens, List.cons.injEq, true_and,
        List.append_cancel_right_eq] at eq
      obtain ⟨rfl, rfl⟩ := eq
      exact ⟨table, _, rfl, listed, nonempty⟩
  | select derived | insert derived | update derived =>
      cases derived
      cases eq
  | delete derived => cases derived <;> cases eq
  | createIndex derived =>
      obtain ⟨table, named⟩ := derived
      cases named <;> cases eq

/-! ## Statements -/

theorem insertion_kinds {row : List Kind} {insertion : CompactSql.Insertion}
    (h : Derivation.Insertion row insertion) (written : Writable row) :
    insertion.kinds = row := by
  cases h with
  | insert table named listed =>
      simp only [Writable.cons, Writable.append] at written
      have rows := listed.kinds_eq rowKinds written.2.2.2.2.2 fun _ _ => row_kinds
      cases named with
      | absent => simp [CompactSql.Insertion.kinds, rows]
      | present names =>
          have fields := names_kinds names written.2.2.2.1
          simp [CompactSql.Insertion.kinds, rows, fields]

theorem update_kinds {row : List Kind} {change : CompactSql.Update}
    (h : Derivation.Update Condition row change) (written : Writable row) :
    change.kinds = row := by
  cases h with
  | update table listed filter =>
      simp only [Writable.cons, Writable.append] at written
      rw [CompactSql.Update.kinds, clause_kinds filter written.2.2.2.2,
        listed.kinds_eq _ written.2.2.2.1 fun _ _ => assignment_kinds]

theorem deletion_printed {row : List Kind} {deletion : CompactSql.Deletion}
    (h : Derivation.Deletion Condition row deletion) (written : Writable row) :
    deletion.kinds = normalForm row ∧
      Derivation.Deletion Condition (normalForm row) deletion := by
  cases h with
  | plain table filter =>
      simp only [Writable.cons] at written
      exact ⟨by rw [CompactSql.Deletion.kinds, clause_kinds filter written.2.2.2]; rfl,
        .plain table filter⟩
  | starred table filter =>
      simp only [Writable.cons] at written
      exact ⟨by rw [CompactSql.Deletion.kinds, clause_kinds filter written.2.2.2.2]; rfl,
        .plain table filter⟩

theorem indexDefinition_kinds {row : List Kind} {index : CompactSql.IndexDefinition}
    (h : Derivation.IndexDefinition row index) (written : Writable row) :
    index.kinds = row := by
  cases h with
  | create table named way columns =>
      simp only [Writable.cons, Writable.append] at written
      rw [index_kinds named way columns written.2.2.2.2.2.2]
      simp [optionalName]

/-- A statement has the kinds of the normal form of its row, which derives it too. -/
theorem statement_printed {row : List Kind} {tree : CompactSql.Statement}
    (h : Derivation.Statement Condition row tree) (written : Writable row) :
    tree.kinds = normalForm row ∧ Derivation.Statement Condition (normalForm row) tree := by
  cases h with
  | select derived =>
      obtain ⟨same, again⟩ := selection_printed derived written
      exact ⟨same, .select again⟩
  | insert derived =>
      have normal : normalForm row = row := by
        cases derived
        rfl
      rw [normal]
      exact ⟨insertion_kinds derived written, .insert derived⟩
  | update derived =>
      have normal : normalForm row = row := by
        cases derived
        rfl
      rw [normal]
      exact ⟨update_kinds derived written, .update derived⟩
  | delete derived =>
      obtain ⟨same, again⟩ := deletion_printed derived written
      exact ⟨same, .delete again⟩
  | createTable derived =>
      obtain ⟨same, again⟩ := table_printed derived written
      exact ⟨same, .createTable again⟩
  | createIndex derived =>
      have normal : normalForm row = row := by
        obtain ⟨table, named⟩ := derived
        cases named <;> rfl
      rw [normal]
      exact ⟨indexDefinition_kinds derived written, .createIndex derived⟩

end CompactSql
