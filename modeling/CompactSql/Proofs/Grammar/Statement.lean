import CompactSql.Proofs.Grammar.Clause

/-!
# Statements are recognized

The rules of the six statements, each up to what could extend it.  A table
definition is recognized without the demand for a field, which is checked behind
the closing parenthesis.
-/

namespace CompactSql.Grammar

open Rule Grammar.Derivation
open Recognizes (of_iff keywordThen nameThen symbolThen)

variable {bound : Nat}

def statementExtending : List Token.Kind :=
  [.keyword .LEFT, .keyword .WHERE, .keyword .GROUP, .keyword .HAVING, .keyword .ORDER,
    .keyword .DESC, .keyword .ASC, .keyword .AND, .keyword .OR, .comma, .plus, .minus,
    .star, .slash, .dot, .leftParen]

theorem tableSource_recognizes (bound : Nat) : Recognizes bound tableSource
    (Language.behind (.keyword .FROM) (Language.named fun table row source =>
      ∃ joins, Joins Condition row joins ∧ source = ⟨table, joins⟩)) joinsExtending :=
  keywordThen .FROM (nameThen (fun table =>
    (joins_recognizes bound).map (TableSource.mk table)) (Nat.le_succ bound))
    (Nat.le_succ bound)

theorem filter_recognizes (bound : Nat) : Recognizes bound (ledBy .WHERE condition)
    (Optional [.keyword .WHERE] Condition) (.keyword .WHERE :: conditionExtending) :=
  (condition_recognizes bound).ledBy .WHERE

theorem selection_recognizes (bound : Nat) :
    Recognizes bound selection (Derivation.Selection Condition) statementExtending := by
  have order (items : List SelectItem) (source : TableSource) (condition : Option Expr)
      (group : List Expr × Option Expr) := ((sorting_recognizes bound).map fun orderBy =>
        (⟨items, source, condition, group.1, group.2, orderBy⟩ :
          CompactSql.Selection)).weaken
    (by decide : sortingExtending ⊆ statementExtending)
  refine of_iff ?_ (keywordThen .SELECT ((selectItems_recognizes bound).followedBy
    (fun items => (tableSource_recognizes bound).followedBy
      (fun source => (filter_recognizes bound).followedBy
        (fun condition => (grouping_recognizes bound).followedBy
          (order items source condition)
          fun _ => .of_starts (sorting_starts.map _) (by decide) (by decide))
        fun condition => .of_starts
          (grouping_starts.andThen fun _ => sorting_starts.map _)
          (by decide) (by decide))
      fun source => .of_starts ((Starts.optional _ _ _).andThen fun _ =>
          grouping_starts.andThen fun _ => sorting_starts.map _) (by decide) (by decide))
    fun items => .behind_andThen (by decide) _ _) (Nat.le_succ bound))
  intro row selection
  constructor
  · rintro ⟨_, rfl, items, first, _, rfl, selected, source, _, _, rfl,
      ⟨_, rfl, table, joining, rfl, joins, joined, rfl⟩, condition, filter, _, rfl,
      filtered, ⟨fields, having⟩, group, order, rfl, grouped, keys, sorted, rfl⟩
    simpa using Derivation.Selection.select table selected joined filtered grouped sorted
  · rintro ⟨table, selected, joined, filtered, grouped, sorted⟩
    exact ⟨_, rfl, _, _, _, rfl, selected, _, _, _, by simp,
      ⟨_, rfl, table, _, rfl, _, joined, rfl⟩, _, _, _, rfl, filtered, _, _, _, rfl,
      grouped, _, sorted, rfl⟩

theorem fieldNames_recognizes (bound : Nat) :
    Recognizes bound fieldNames (Optional [] (Parenthesized Name)) [.leftParen] := by
  have found (_ : Unit) : Recognizes bound (some <$> namesInside) _ [.leftParen] :=
    ((namesInside_recognizes bound).map some).weaken (List.nil_subset _)
  refine of_iff ?_ (.choice rfl found
    ((Recognizes.pure (none : Option (List String))).weaken (List.nil_subset _))
    (Starts.nothing _) (by decide) fun _ _ => ofKind_of_not_mem (by decide))
  intro row names
  constructor
  · rintro (⟨kind, _, _, rfl, accepted, _, ⟨inner, rfl, listed⟩, rfl⟩ | ⟨rfl, rfl⟩)
    · obtain rfl := ofKind_eq_some.mp accepted
      exact .present (.list listed)
    · exact .absent
  · rintro (_ | ⟨⟨listed⟩⟩)
    · exact .inr ⟨rfl, rfl⟩
    · exact .inl ⟨_, (), _, rfl, ofKind_self _, _, ⟨_, rfl, listed⟩, rfl⟩

theorem insertion_recognizes (bound : Nat) :
    Recognizes bound insertion Derivation.Insertion statementExtending := by
  have rows (table : String) (fields : Option (List String)) :=
    ((row_recognizes bound).commaList (by decide)).map
      (CompactSql.Insertion.mk table fields)
  refine of_iff ?_ (keywordThen .INSERT (keywordThen .INTO (nameThen (fun table =>
    (fieldNames_recognizes bound).followedBy
      (fun fields => (keywordThen .VALUES (rows table fields) (Nat.le_succ bound)).weaken
        (by decide : [.comma] ⊆ statementExtending))
      fun fields => Follows.behind (by decide) _) (Nat.le_succ bound))
    (Nat.le_succ bound)) (Nat.le_succ bound))
  intro row insertion
  constructor
  · rintro ⟨_, rfl, _, rfl, table, _, rfl, fields, first, _, rfl, named, _, rfl, rows,
      listed, rfl⟩
    exact .insert table named listed
  · rintro ⟨table, named, listed⟩
    exact ⟨_, rfl, _, rfl, table, _, rfl, _, _, _, rfl, named, _, rfl, _, listed, rfl⟩

theorem update_recognizes (bound : Nat) :
    Recognizes bound update (Derivation.Update Condition) statementExtending := by
  have filter (table : String) (assignments : List CompactSql.Assignment) :=
    ((filter_recognizes bound).map (CompactSql.Update.mk table assignments)).weaken
      (by decide : _ ⊆ statementExtending)
  refine of_iff ?_ (keywordThen .UPDATE (nameThen (fun table => keywordThen .SET
    (((assignment_recognizes bound).commaList (by decide)).followedBy (filter table)
      fun assignments => .of_starts ((Starts.optional _ _ _).map _) (by decide)
        (by decide)) (Nat.le_succ bound)) (Nat.le_succ bound)) (Nat.le_succ bound))
  intro row change
  constructor
  · rintro ⟨_, rfl, table, _, rfl, _, rfl, assignments, first, _, rfl, listed, condition,
      filtered, rfl⟩
    exact .update table listed filtered
  · rintro ⟨table, listed, filtered⟩
    exact ⟨_, rfl, table, _, rfl, _, rfl, _, _, _, rfl, listed, _, filtered, rfl⟩

theorem deletion_recognizes (bound : Nat) :
    Recognizes bound deletion (Derivation.Deletion Condition) statementExtending := by
  have filter (table : String) :=
    ((filter_recognizes bound).map (CompactSql.Deletion.mk table)).weaken
      (by decide : _ ⊆ statementExtending)
  have source := keywordThen .FROM (nameThen filter (Nat.le_succ bound)) (Nat.le_succ bound)
  have starred : Recognizes bound
      (do
        let _ ← readIf (ofKind .star)
        keyword .FROM
        let table ← identifier
        return CompactSql.Deletion.mk table (← ledBy .WHERE condition))
      _ statementExtending :=
    .choice rfl (fun _ => source) source (Starts.behind _ _) (by decide) (by
      rintro value ⟨_, empty, -⟩
      cases empty)
  refine of_iff ?_ (keywordThen .DELETE starred (Nat.le_succ bound))
  intro row deletion
  constructor
  · rintro ⟨_, rfl, ⟨kind, _, _, rfl, accepted, _, rfl, table, _, rfl, condition, filtered,
      rfl⟩ | ⟨_, rfl, table, _, rfl, condition, filtered, rfl⟩⟩
    · obtain rfl := ofKind_eq_some.mp accepted
      exact .starred table filtered
    · exact .plain table filtered
  · rintro (⟨table, filtered⟩ | ⟨table, filtered⟩)
    · exact ⟨_, rfl, .inr ⟨_, rfl, table, _, rfl, _, filtered, rfl⟩⟩
    · exact ⟨_, rfl, .inl ⟨_, (), _, rfl, ofKind_self _, _, rfl, table, _, rfl, _, filtered,
        rfl⟩⟩

def IndexRest (name table : Option String) : Language CompactSql.IndexDefinition :=
  (Optional [.keyword .USING] Name).andThen fun method row index =>
    ∃ fields, Parenthesized Name row fields ∧ index = ⟨name, table, method, fields⟩

theorem indexRest_recognizes (bound : Nat) (name table : Option String) :
    Recognizes bound
      (do
        let method ← ledBy .USING identifier
        return CompactSql.IndexDefinition.mk name table method (← names))
      (IndexRest name table) [] := by
  have used : Recognizes bound (ledBy .USING identifier) _ _ := Recognizes.name.ledBy .USING
  refine used.followedBy (fun method => 
    (names_recognizes bound).map (CompactSql.IndexDefinition.mk name table method))
    fun method => ?_
  rintro _ _ last ⟨_, ⟨listed⟩, -⟩ -
  simp

private theorem indexRest_starts (name table : Option String) :
    Starts (IndexRest name table) [.keyword .USING, .leftParen] := by
  refine (Starts.optional _ _ _).andThen fun method => ?_
  rintro kind row index ⟨_, member, -⟩
  cases member
  exact List.mem_singleton_self _

private theorem indexRest_nonempty (name table : Option String)
    (index : CompactSql.IndexDefinition) : ¬ IndexRest name table [] index := by
  rintro ⟨method, front, back, split, optional, _, ⟨listed⟩, -⟩
  simp at split

theorem inlineIndex_recognizes (bound : Nat) : Recognizes bound inlineIndex
    ((Optional [] Name).andThen fun name => IndexRest name none) [] :=
  .optionalNameThen (fun name => indexRest_recognizes bound name none)
    (indexRest_starts none none) (by decide) (indexRest_nonempty none none)

def EntryOf : Option CompactSql.IndexDefinition → Language Grammar.TableEntry
  | some index => Language.nothing (.index index)
  | none => fun row entry => ∃ name, Name row name ∧ entry = .field name

theorem tableEntry_recognizes (bound : Nat) :
    Recognizes bound tableEntry Derivation.TableEntry [.keyword .INDEX] := by
  have entry (led : Option CompactSql.IndexDefinition) : Recognizes bound
      (match led with
        | some index => return TableEntry.index index
        | none => do return .field (← identifier))
      (EntryOf led) [.keyword .INDEX] := by
    cases led with
    | some index => exact (Recognizes.pure _).weaken (List.nil_subset _)
    | none => exact (Recognizes.name.map TableEntry.field).weaken (List.nil_subset _)
  refine of_iff ?_ (((inlineIndex_recognizes bound).ledBy .INDEX).followedBy entry ?_)
  · intro row entry
    constructor
    · rintro ⟨_, _, back, rfl, _ | ⟨name, first, _, rfl, named, method, second, third, rfl,
        used, fields, listed, rfl⟩, rest⟩
      · obtain ⟨name, ⟨⟩, rfl⟩ := rest
        exact .field name
      · obtain ⟨rfl, rfl⟩ := rest
        simpa using Derivation.TableEntry.index named used listed
    · rintro (name | ⟨named, used, listed⟩)
      · exact ⟨none, [], _, rfl, .absent, name, .name name, rfl⟩
      · exact ⟨_, _, [], by simp, .present ⟨_, _, _, rfl, named, _, _, _, rfl, used, _,
          listed, rfl⟩, rfl, rfl⟩
  · rintro (_ | index) row entry last member closed
    · obtain ⟨name, ⟨⟩, rfl⟩ := member
      simp
    · obtain ⟨rfl, rfl⟩ := member
      exact closed

theorem indexDefinition_recognizes (bound : Nat) :
    Recognizes bound indexDefinition Derivation.IndexDefinition statementExtending := by
  have target (name : Option String) := keywordThen .ON (nameThen
    (fun table => indexRest_recognizes bound name (some table)) (Nat.le_succ bound))
    (Nat.le_succ bound)
  have named := Recognizes.optionalNameThen target (Starts.behind _ _) (by decide) (by
    rintro value ⟨_, empty, -⟩
    cases empty)
  refine of_iff ?_ ((keywordThen .CREATE (keywordThen .INDEX named (Nat.le_succ bound))
    (Nat.le_succ bound)).weaken (List.nil_subset _))
  intro row index
  constructor
  · rintro ⟨_, rfl, _, rfl, name, first, _, rfl, named, _, rfl, table, _, rfl, method,
      second, third, rfl, used, fields, listed, rfl⟩
    exact .create table named used listed
  · rintro ⟨table, named, used, listed⟩
    exact ⟨_, rfl, _, rfl, _, _, _, rfl, named, _, rfl, table, _, rfl, _, _, _, rfl, used,
      _, listed, rfl⟩

/-- A table definition that need not have a field. -/
def tableBody : Rule (String × List TableEntry) := do
  keyword .CREATE
  keyword .TABLE
  let table ← identifier
  symbol .leftParen
  let entries ← commaList tableEntry
  symbol .rightParen
  return (table, entries)

inductive TableBody : Language (String × List Grammar.TableEntry)
  | create (table : String) {row : List Token.Kind} {entries : List Grammar.TableEntry} :
      Listed Derivation.TableEntry row entries →
      TableBody
        (.keyword .CREATE :: .keyword .TABLE :: .identifier table :: .leftParen ::
          (row ++ [.rightParen]))
        (table, entries)

theorem tableBody_recognizes (bound : Nat) :
    Recognizes bound tableBody TableBody statementExtending := by
  have closing (table : String) (entries : List TableEntry) :=
    symbolThen (by decide : Token.Kind.rightParen ≠ .eof)
      (Recognizes.pure (table, entries)) (Nat.le_succ bound)
  have entries (table : String) := ((tableEntry_recognizes bound).commaList
    (by decide)).followedBy (closing table) fun entries => .behind (by decide) _
  have opened (table : String) := symbolThen (by decide : Token.Kind.leftParen ≠ .eof)
    (entries table) (Nat.le_succ bound)
  refine of_iff ?_ ((keywordThen .CREATE (keywordThen .TABLE
    (nameThen opened (Nat.le_succ bound)) (Nat.le_succ bound))
    (Nat.le_succ bound)).weaken (List.nil_subset _))
  intro row body
  constructor
  · rintro ⟨_, rfl, _, rfl, table, _, rfl, _, rfl, entries, inner, _, rfl, listed, _, rfl,
      rfl, rfl⟩
    exact .create table listed
  · rintro ⟨table, listed⟩
    exact ⟨_, rfl, _, rfl, table, _, rfl, _, rfl, _, _, _, rfl, listed, _, rfl, rfl, rfl⟩

end CompactSql.Grammar
