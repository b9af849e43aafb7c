import CompactSql.Parse
import CompactSql.Proofs.Grammar.Table

/-!
# The language that is read

The three readers accept exactly the rows of kinds that the grammar derives, and
give the tree that it derives them with.  The alternatives of a statement start
with different keywords, so none hides a statement from those behind it.
-/

namespace CompactSql

open Grammar

namespace Grammar

open Rule Grammar.Derivation

theorem statement_noEnd {row : List Token.Kind} {tree : CompactSql.Statement}
    (h : Derivation.Statement Condition row tree) : .eof ∉ row := by
  cases h with
  | select derived => exact (selection_recognizes 0).noEnd derived
  | insert derived => exact (insertion_recognizes 0).noEnd derived
  | update derived => exact (update_recognizes 0).noEnd derived
  | delete derived => exact (deletion_recognizes 0).noEnd derived
  | createTable derived => exact wholeTable_judges.noEnd (.table derived)
  | createIndex derived => exact (indexDefinition_recognizes 0).noEnd derived

/-- The keywords that tell the statements apart. -/
def leads : CompactSql.Statement → List Token.Kind
  | .select _ => [.keyword .SELECT]
  | .insert _ => [.keyword .INSERT]
  | .update _ => [.keyword .UPDATE]
  | .delete _ => [.keyword .DELETE]
  | .createTable _ => [.keyword .CREATE, .keyword .TABLE]
  | .createIndex _ => [.keyword .CREATE, .keyword .INDEX]

theorem leads_begin {row : List Token.Kind} {tree : CompactSql.Statement}
    (h : Derivation.Statement Condition row tree) : leads tree <+: row := by
  cases h with
  | select derived | insert derived | update derived | delete derived
  | createTable derived | createIndex derived =>
      cases derived <;> exact ⟨_, rfl⟩

private theorem leads_apart {row : List Token.Kind} {tree tree' : CompactSql.Statement}
    (h : Derivation.Statement Condition row tree)
    (h' : Derivation.Statement Condition row tree') :
    leads tree <+: leads tree' ∨ leads tree' <+: leads tree :=
  List.prefix_or_prefix_of_prefix (leads_begin h) (leads_begin h')

def Wrapped {α : Type} (language : Language α) (wrap : α → CompactSql.Statement) :
    Language CompactSql.Statement :=
  fun row tree => ∃ read, language row read ∧ tree = wrap read

/-- An alternative of `statement`: what it reads is a part of the statements, all with
the same keywords in front. -/
structure Alternative where
  name : String
  rule : Rule CompactSql.Statement
  part : Language CompactSql.Statement
  first : List Token.Kind
  judges : Judges rule part
  sub : ∀ row tree, part row tree →
    Derivation.Statement Condition row tree ∧ leads tree = first

namespace Alternative

def entry (alternative : Alternative) : String × Rule CompactSql.Statement :=
  (alternative.name, alternative.rule)

def wrapped {α : Type} {rule : Rule α} {language : Language α} (name : String)
    (recognized : ∀ bound, Recognizes bound rule language statementExtending)
    (wrap : α → CompactSql.Statement) (first : List Token.Kind)
    (sub : ∀ row read, language row read →
      Derivation.Statement Condition row (wrap read))
    (led : ∀ read, leads (wrap read) = first) : Alternative where
  name := name
  rule := complete (wrap <$> rule)
  part := Wrapped language wrap
  first := first
  judges := .complete_rule (fun bound => (recognized bound).map wrap) (by decide)
  sub := by
    rintro row _ ⟨read, derived, rfl⟩
    exact ⟨sub row read derived, led read⟩

def table : Alternative where
  name := "CREATE TABLE"
  rule := wholeTable
  part := TableStatement
  first := [.keyword .CREATE, .keyword .TABLE]
  judges := wholeTable_judges
  sub := by
    rintro row _ ⟨derived⟩
    exact ⟨.createTable derived, rfl⟩

def all : List Alternative :=
  [wrapped "SELECT" selection_recognizes .select [.keyword .SELECT]
      (fun _ _ => .select) fun _ => rfl,
    wrapped "INSERT" insertion_recognizes .insert [.keyword .INSERT]
      (fun _ _ => .insert) fun _ => rfl,
    wrapped "UPDATE" update_recognizes .update [.keyword .UPDATE]
      (fun _ _ => .update) fun _ => rfl,
    wrapped "DELETE" deletion_recognizes .delete [.keyword .DELETE]
      (fun _ _ => .delete) fun _ => rfl,
    table,
    wrapped "CREATE INDEX" indexDefinition_recognizes .createIndex
      [.keyword .CREATE, .keyword .INDEX] (fun _ _ => .createIndex) fun _ => rfl]

def Apart (one other : Alternative) : Prop :=
  ¬ (one.first <+: other.first ∨ other.first <+: one.first)

private theorem all_apart : all.Pairwise Apart := by
  simp [all, wrapped, table, Apart]

theorem exists_of_derived {row : List Token.Kind} {tree : CompactSql.Statement}
    (h : Derivation.Statement Condition row tree) :
    ∃ alternative ∈ all, alternative.part row tree := by
  simp only [all, List.mem_cons, List.not_mem_nil, or_false, exists_eq_or_imp,
    exists_eq_left]
  cases h with
  | select derived => exact .inl ⟨_, derived, rfl⟩
  | insert derived => exact .inr (.inl ⟨_, derived, rfl⟩)
  | update derived => exact .inr (.inr (.inl ⟨_, derived, rfl⟩))
  | delete derived => exact .inr (.inr (.inr (.inl ⟨_, derived, rfl⟩)))
  | createTable derived => exact .inr (.inr (.inr (.inr (.inl (.table derived)))))
  | createIndex derived => exact .inr (.inr (.inr (.inr (.inr ⟨_, derived, rfl⟩))))

section Choice

variable {body : List Token} {last : Token} {tree : CompactSql.Statement}

theorem fails {one other : Alternative} (apart : Apart one other) (final : last.kind = .eof)
    (member : other.part (kinds body) tree) (index : Nat) :
    Fails one.rule ⟨index, body ++ [last]⟩ := by
  obtain ⟨derived, lead⟩ := other.sub _ _ member
  refine one.judges.fails (terminated_snoc final (statement_noEnd derived)) ?_
  intro found read
  obtain ⟨derived', lead'⟩ := one.sub _ _ read
  exact apart (lead ▸ lead' ▸ leads_apart derived' derived)

theorem chosen {alternatives : List Alternative} (apart : alternatives.Pairwise Apart)
    {alternative : Alternative} (listed : alternative ∈ alternatives)
    (final : last.kind = .eof) (member : alternative.part (kinds body) tree)
    (index : Nat) :
    Chosen .statement (alternatives.map entry) ⟨index, body ++ [last]⟩
      (tree, ⟨index + body.length, [last]⟩) := by
  induction alternatives with
  | nil => cases listed
  | cons first others ih =>
      rw [List.pairwise_cons] at apart
      rcases List.mem_cons.mp listed with rfl | later
      · exact .take (alternative.judges.complete index body last final member)
      · exact .skip (fails (apart.1 _ later) final member index) (ih apart.2 later)

end Choice

end Alternative

theorem statement_eq :
    statement = Rule.firstOf .statement (Alternative.all.map Alternative.entry) := rfl

theorem statement_judges : Judges statement (Derivation.Statement Condition) := by
  rw [statement_eq]
  refine .firstOf (by simp [Alternative.all]) ?_ (fun _ _ => statement_noEnd)
    ⟨_, _, .delete (.plain "" .absent)⟩ ?_
  · refine List.forall_mem_map.mpr fun alternative _ => ?_
    exact ⟨alternative.part, alternative.judges, fun row tree read =>
      (alternative.sub row tree read).1⟩
  · intro index body last tree final member
    obtain ⟨alternative, listed, read⟩ := Alternative.exists_of_derived member
    exact Alternative.chosen Alternative.all_apart listed final read index

theorem arithmetic_judges : Judges (complete arithmetic) Arithmetic :=
  .complete_rule arithmetic_recognizes (by decide)

theorem condition_judges : Judges (complete condition) Condition :=
  .complete_rule condition_recognizes (by decide)

end Grammar

open Grammar.Derivation (Condition Predicate)

/-- A token list that ends in its only end token is read as a tree exactly if the
kinds before the end derive the tree, and they derive no other tree. -/
theorem readStatement_exact (body : List Token) (last : Token)
    (inner : ∀ token ∈ body, token.kind ≠ .eof) (final : last.kind = .eof) :
    (∀ tree, (readStatement (body ++ [last])).result = .ok tree ↔
      Derivation.Statement Condition (kinds body) tree) ∧
    ∀ tree tree', Derivation.Statement Condition (kinds body) tree →
      Derivation.Statement Condition (kinds body) tree' → tree = tree' := by
  have absent : .eof ∉ kinds body := by
    rw [kinds, List.mem_map]
    rintro ⟨token, member, ended⟩
    exact inner token member ended
  refine ⟨fun tree => ?_, fun tree tree' => statement_judges.unique⟩
  exact statement_judges.run_iff body (terminated_snoc final absent) tree

def conjunction : List Token :=
  [⟨.keyword .DELETE, ⟨0, 6⟩⟩, ⟨.keyword .FROM, ⟨7, 11⟩⟩, ⟨.identifier "t", ⟨12, 13⟩⟩,
    ⟨.keyword .WHERE, ⟨14, 19⟩⟩, ⟨.identifier "a", ⟨20, 21⟩⟩, ⟨.eq, ⟨22, 23⟩⟩,
    ⟨.integer 1, ⟨24, 25⟩⟩, ⟨.keyword .AND, ⟨26, 29⟩⟩, ⟨.identifier "b", ⟨30, 31⟩⟩,
    ⟨.eq, ⟨32, 33⟩⟩, ⟨.integer 2, ⟨34, 35⟩⟩]

def equation (name : String) (value : Int64) : Expr :=
  .binary .eq (.identifier name) (.literal (.integer value))

private theorem equation_derived (name : String) (value : Int64) :
    Predicate [.identifier name, .eq, .integer value] (equation name value) := by
  have left : Derivation.Arithmetic [.identifier name] _ :=
    .operand (.operand (.identifier name))
  have right : Derivation.Arithmetic [.integer value] _ := .operand (.operand (.integer value))
  exact .comparison left rfl right

theorem conjunction_derived : Derivation.Statement Condition (kinds conjunction)
    (.delete ⟨"t", some (.binary .and (equation "a" 1) (equation "b" 2))⟩) := by
  have both : Condition _ _ :=
    .step (.operand (equation_derived "a" 1)) (rfl : Derivation.logicalOp (.keyword .AND) = _)
      (equation_derived "b" 2)
  exact .delete (.plain "t" (.present both))

theorem readStatement_exact_conjunction :
    (∀ token ∈ conjunction, token.kind ≠ .eof) ∧
    (readStatement (conjunction ++ [⟨.eof, ⟨35, 35⟩⟩])).result =
      .ok (.delete ⟨"t", some (.binary .and (equation "a" 1) (equation "b" 2))⟩) :=
  ⟨by decide, ((readStatement_exact conjunction ⟨.eof, ⟨35, 35⟩⟩ (by decide) rfl).1 _).mpr
    conjunction_derived⟩

/-- With predicates alone for conditions the grammar falls short of what is read. -/
theorem predicates_fall_short :
    (readStatement (conjunction ++ [⟨.eof, ⟨35, 35⟩⟩])).result =
      .ok (.delete ⟨"t", some (.binary .and (equation "a" 1) (equation "b" 2))⟩) ∧
    ¬ Derivation.Statement Predicate (kinds conjunction)
      (.delete ⟨"t", some (.binary .and (equation "a" 1) (equation "b" 2))⟩) := by
  constructor
  · exact (statement_judges.run_iff conjunction (terminated_snoc rfl (by decide)) _).mpr
      conjunction_derived
  · generalize kinds conjunction = row
    rintro (_ | _ | _ | (⟨_, filter⟩ | ⟨_, filter⟩) | _ | _)
    · cases filter with
      | present predicate =>
          cases predicate with
          | @comparison _ _ kind _ _ _ _ sign _ => cases kind <;> cases sign
    · cases filter with
      | present predicate =>
          cases predicate with
          | @comparison _ _ kind _ _ _ _ sign _ => cases kind <;> cases sign

end CompactSql
