import CompactSql.Proofs.Grammar.Exact
import CompactSql.Proofs.Printing.Statement

/-!
# Reading what is written

A text that is read as a statement and the text that is written for the statement
have the same kinds up to the normal form, and they are read alike.
-/

namespace CompactSql

open Grammar Grammar.Derivation
open Token (Kind)
open Token.Kind

def tokenKinds (text : String) : Except Failure (List Kind) := (tokenize text).map kinds

theorem tokenKinds_eq_ok {text : String} {row : List Kind} :
    tokenKinds text = .ok row ↔ ∃ tokens, tokenize text = .ok tokens ∧ kinds tokens = row := by
  unfold tokenKinds
  cases tokenize text with
  | error failure => simp [Except.map]
  | ok tokens => simp [Except.map]

def readText {α : Type} (rule : Grammar.Rule α) (text : String) : Except Failure α := do
  (rule.run (← tokenize text)).result

section Reading

variable {α : Type} {rule : Grammar.Rule α} {language : Grammar.Language α} {text : String}
  {row : List Kind} {tree : α}

theorem readText_of_tokenize {tokens : List Token} (h : tokenize text = .ok tokens) :
    readText rule text = (rule.run tokens).result := by
  rw [readText, h]
  rfl

theorem readText_iff (judges : Judges rule language)
    (h : tokenKinds text = .ok (row ++ [.eof])) :
    readText rule text = .ok tree ↔ language row tree := by
  obtain ⟨tokens, cut, ended⟩ := tokenKinds_eq_ok.mp h
  have terminated := (tokenize_placed cut).terminated
  obtain ⟨body, last, rfl, -, -⟩ := Terminated.iff_append.mp terminated
  rw [kinds_append] at ended
  obtain ⟨rfl, -⟩ := List.append_inj' ended rfl
  rw [readText_of_tokenize cut]
  exact judges.run_iff body terminated tree

theorem writable_of_tokenKinds (h : tokenKinds text = .ok (row ++ [.eof])) :
    Writable row := by
  obtain ⟨tokens, cut, ended⟩ := tokenKinds_eq_ok.mp h
  obtain ⟨row', ended', pieces⟩ := cut_of_tokenize cut
  rw [ended] at ended'
  obtain ⟨rfl, -⟩ := List.append_inj' ended' rfl
  exact pieces.writable

theorem tokenKinds_of_readText (judges : Judges rule language)
    (h : readText rule text = .ok tree) :
    ∃ row, tokenKinds text = .ok (row ++ [.eof]) ∧ language row tree := by
  cases cut : tokenize text with
  | error failure =>
      rw [readText, cut] at h
      cases h
  | ok tokens =>
      obtain ⟨row, ended, -⟩ := cut_of_tokenize cut
      have whole := tokenKinds_eq_ok.mpr ⟨tokens, cut, ended⟩
      exact ⟨row, whole, (readText_iff judges whole).mp h⟩

end Reading

theorem parse_iff {text : String} {row : List Kind} {tree : CompactSql.Statement}
    (h : tokenKinds text = .ok (row ++ [.eof])) :
    parse text = .ok tree ↔ Derivation.Statement Condition row tree :=
  readText_iff statement_judges h

theorem tokenKinds_of_parse {text : String} {tree : CompactSql.Statement}
    (h : parse text = .ok tree) :
    ∃ row, tokenKinds text = .ok (row ++ [.eof]) ∧
      Derivation.Statement Condition row tree :=
  tokenKinds_of_readText statement_judges h

theorem spells_normalForm {row : List Kind} {tree : CompactSql.Statement}
    (h : Derivation.Statement Condition row tree) (written : Writable row) :
    Spells tree.toSql (normalForm row) := by
  obtain ⟨same, -⟩ := statement_printed h written
  have spelled := tree.spells (same ▸ written.normalForm)
  rwa [same] at spelled

theorem tokenKinds_toSql {row : List Kind} {tree : CompactSql.Statement}
    (h : Derivation.Statement Condition row tree) (written : Writable row) :
    tokenKinds tree.toSql = .ok (normalForm row ++ [.eof]) :=
  tokenKinds_eq_ok.mpr (tokenize_of_cut (spells_normalForm h written).cut)

/-- Lists with the same fields and the same indexes, each in the same order. -/
def Interleaved (list list' : List Kind) : Prop :=
  fieldEntries list = fieldEntries list' ∧ indexEntries list = indexEntries list'

theorem Interleaved.symm {list list' : List Kind} (h : Interleaved list list') :
    Interleaved list' list := ⟨h.1.symm, h.2.symm⟩

theorem interleaved_derived {name : Kind} {list list' : List Kind}
    {tree : CompactSql.Statement}
    (h : Derivation.Statement Condition (tableRow name list) tree)
    (written : Writable (tableRow name list)) (written' : Writable (tableRow name list'))
    (same : Interleaved list list') :
    Derivation.Statement Condition (tableRow name list') tree := by
  obtain ⟨table, entries, rfl, listed, nonempty⟩ := tableRow_inv h
  rw [Writable.tableRow] at written written'
  obtain ⟨entries', listed'⟩ := interleaved_listed listed written.2 same.1 same.2
  have fields := (entries_split listed written.2).1
  have fields' := (entries_split listed' written'.2).1
  have nonempty' : entries'.filterMap TableEntry.field? ≠ [] := by
    rintro empty
    rw [same.1, fields', empty] at fields
    exact nonempty (List.map_eq_nil_iff.mp fields.symm)
  have derived' : Derivation.Statement Condition (tableRow (.identifier table) list') _ :=
    .createTable (.create table listed' nonempty')
  have normal := (statement_printed h (Writable.tableRow.mpr written)).2
  have normal' := (statement_printed derived' (Writable.tableRow.mpr written')).2
  rw [normalForm_tableRow, same.1, same.2, ← normalForm_tableRow] at normal
  obtain rfl := statement_judges.unique normal normal'
  exact derived'

/-- The text of a statement that was read is read as the same statement, and that is
written as the same text. -/
theorem parse_toSql (text : String) (tree : CompactSql.Statement)
    (h : parse text = .ok tree) :
    parse tree.toSql = .ok tree ∧
      (parse tree.toSql).map Statement.toSql = .ok tree.toSql := by
  obtain ⟨row, whole, derived⟩ := tokenKinds_of_parse h
  have written := writable_of_tokenKinds whole
  have printed := tokenKinds_toSql derived written
  have again := (parse_iff printed).mpr (statement_printed derived written).2
  rw [again]
  exact ⟨rfl, rfl⟩

def quotedDeletion : CompactSql.Statement :=
  .delete ⟨"t", some (.binary .eq (.identifier "a") (.literal (.string "it's")))⟩

theorem parse_toSql_quoted :
    parse "delete * from t where a='it''s'" = .ok quotedDeletion ∧
      parse quotedDeletion.toSql = .ok quotedDeletion ∧
      (parse quotedDeletion.toSql).map Statement.toSql = .ok quotedDeletion.toSql :=
  ⟨by decide +kernel,
    parse_toSql "delete * from t where a='it''s'" quotedDeletion (by decide +kernel)⟩

/-- The kinds of the text of a statement that was read are the normal form of those
it was read from; and two texts that create a table and differ in how its fields and
indexes are interleaved are read alike. -/
theorem toSql_normalizes :
    (∀ text tree, parse text = .ok tree →
      ∃ row, tokenKinds text = .ok (row ++ [.eof]) ∧
        tokenKinds tree.toSql = .ok (normalForm row ++ [.eof])) ∧
    ∀ text text' name list list',
      tokenKinds text = .ok (tableRow name list ++ [.eof]) →
      tokenKinds text' = .ok (tableRow name list' ++ [.eof]) →
      Interleaved list list' →
      ∀ tree, parse text = .ok tree ↔ parse text' = .ok tree := by
  constructor
  · intro text tree h
    obtain ⟨row, whole, derived⟩ := tokenKinds_of_parse h
    exact ⟨row, whole, tokenKinds_toSql derived (writable_of_tokenKinds whole)⟩
  · intro text text' name list list' whole whole' same tree
    have written := writable_of_tokenKinds whole
    have written' := writable_of_tokenKinds whole'
    rw [parse_iff whole, parse_iff whole']
    exact ⟨fun h => interleaved_derived h written written' same,
      fun h => interleaved_derived h written' written same.symm⟩

def mixedList : List Kind :=
  [.identifier "a", .comma, .keyword .INDEX, .leftParen, .identifier "a", .rightParen,
    .comma, .identifier "b"]

def indexFirstList : List Kind :=
  [.keyword .INDEX, .leftParen, .identifier "a", .rightParen, .comma, .identifier "a",
    .comma, .identifier "b"]

theorem toSql_normalizes_mixed :
    (∃ row, tokenKinds "CREATE TABLE t (a, INDEX (a), b)" = .ok (row ++ [.eof]) ∧
      tokenKinds (Statement.createTable ⟨"t", ["a", "b"], [⟨none, none, none, ["a"]⟩]⟩).toSql =
        .ok (normalForm row ++ [.eof])) ∧
    (parse "CREATE TABLE t (a, INDEX (a), b)" =
        .ok (.createTable ⟨"t", ["a", "b"], [⟨none, none, none, ["a"]⟩]⟩) ↔
      parse "CREATE TABLE t (INDEX (a), a, b)" =
        .ok (.createTable ⟨"t", ["a", "b"], [⟨none, none, none, ["a"]⟩]⟩)) :=
  ⟨toSql_normalizes.1 "CREATE TABLE t (a, INDEX (a), b)" _ (by decide +kernel),
    toSql_normalizes.2 "CREATE TABLE t (a, INDEX (a), b)" "CREATE TABLE t (INDEX (a), a, b)"
      (.identifier "t") mixedList indexFirstList (by decide +kernel) (by decide +kernel)
      ⟨by decide, by decide⟩ _⟩

end CompactSql
