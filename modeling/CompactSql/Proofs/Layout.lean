import CompactSql.Proofs.Relabeling.Grammar

/-!
# Layout does not matter

Two texts with the same kinds of tokens are read alike, wherever the tokens stand:
they are twins under the relabeling that changes no leaf.  A failure then concerns the
same tokens of both, although it is chosen by the bytes at which they begin.
-/

namespace CompactSql

open Grammar (Rule kinds)
open Token (Kind)

namespace Relabeling

def identity : Relabeling := ⟨id, id, id, fun _ h => h, fun _ h => h⟩

@[simp] theorem identity_name : identity.name = id := rfl

@[simp] theorem identity_literal : identity.literal = id := by
  funext value
  cases value <;> rfl

mutual

theorem identity_apply : ∀ tree : Expr, identity.expr tree = tree
  | .literal value => by rw [expr, identity_literal, id]
  | .identifier name => rfl
  | .field table name => rfl
  | .call name args => by rw [expr, identity_exprs args, identity_name, id]
  | .binary op left right => by rw [expr, identity_apply left, identity_apply right]
  | .between subject lower upper => by
      rw [expr, identity_apply subject, identity_apply lower, identity_apply upper]

private theorem identity_exprs : ∀ trees : List Expr, identity.exprs trees = trees
  | [] => rfl
  | first :: others => by rw [exprs, identity_apply first, identity_exprs others]

end

@[simp] theorem identity_expr : identity.expr = id := funext identity_apply

@[simp] theorem identity_item : identity.item = id := by
  funext item
  cases item <;> simp [item]

@[simp] theorem identity_join : identity.join = id := by
  funext join
  simp [Relabeling.join]

@[simp] theorem identity_sortKey : identity.sortKey = id := by
  funext key
  simp [sortKey]

@[simp] theorem identity_assignment : identity.assignment = id := by
  funext assignment
  simp [Relabeling.assignment]

@[simp] theorem identity_index : identity.index = id := by
  funext index
  simp [Relabeling.index]

theorem identity_statement : identity.statement = id := by
  funext tree
  cases tree <;>
    simp [statement, selection, source, insertion, update, deletion, table]

private theorem identity_kind {kind : Kind} (h : kind.Written) : identity.kind kind = kind := by
  -- the quotes of a raw string are doubled, so it is written as it was read
  cases kind with
  | string raw => rw [kind, identity_literal, id, literal_kind_ofRaw h]
  | _ => rfl

theorem identity_kinds {text : String} {tokens : List Token}
    (h : tokenize text = .ok tokens) :
    ∀ kind ∈ kinds tokens, identity.kind kind = kind := by
  obtain ⟨row, ended, cut⟩ := cut_of_tokenize h
  rw [ended, List.forall_mem_append, List.forall_mem_singleton]
  exact ⟨fun kind member => identity_kind (cut.writable kind member), rfl⟩

theorem identity_complaint {complaint : Complaint}
    (h : ∀ kind ∈ complaint.found?, identity.kind kind = kind) :
    identity.complaint complaint = complaint := by
  cases complaint with
  | unexpected expected found => rw [Relabeling.complaint, h found rfl]
  | trailing found => rw [Relabeling.complaint, h found rfl]
  | lexical | noFields | other => rfl

end Relabeling

variable {α : Type}

/-- Readings of two token lists that differ in nothing but bytes: the trees are equal,
or the failures make one complaint about the same tokens.  The sort of the failure, its
message, what it expected and what it found are all read off the complaint. -/
inductive SameReading (tokens tokens' : List Token) :
    Except Failure α → Except Failure α → Prop
  | ok (tree : α) : SameReading tokens tokens' (.ok tree) (.ok tree)
  | error {failure failure' : Failure} : failure'.complaint = failure.complaint →
      Aligned tokens tokens' failure failure' →
      SameReading tokens tokens' (.error failure) (.error failure')

section Layout

variable {text text' : String} {tokens tokens' : List Token}

theorem readText_layout {rule : Grammar.Rule α} {relabel : α → α} (unchanged : relabel = id)
    (parallel : ∀ twins : Twins .identity,
      twins.Parallel (Twins.Becomes relabel) rule rule)
    (h : tokenize text = .ok tokens) (h' : tokenize text' = .ok tokens')
    (same : kinds tokens' = kinds tokens) :
    SameReading tokens tokens' (readText rule text) (readText rule text') := by
  have unmoved := Relabeling.identity_kinds h
  have relabeled : kinds tokens' = (kinds tokens).map Relabeling.identity.kind := by
    rw [same, List.map_congr_left unmoved, List.map_id']
  let twins : Twins .identity :=
    ⟨tokens, tokens', tokenize_placed h, tokenize_placed h', relabeled⟩
  have paired := (parallel twins).readText h h'
  generalize readText rule text = reading at paired ⊢
  generalize readText rule text' = reading' at paired ⊢
  cases paired with
  | ok becomes =>
      obtain rfl := becomes
      rw [unchanged]
      exact .ok _
  | error counterpart =>
      refine .error ?_ counterpart.aligned
      rw [counterpart.complaint]
      exact Relabeling.identity_complaint fun kind found =>
        unmoved kind (counterpart.found kind found)

/-- Texts with the same kinds of tokens are read alike by every reader. -/
theorem reading_of_kinds (h : tokenize text = .ok tokens) (h' : tokenize text' = .ok tokens')
    (same : kinds tokens' = kinds tokens) :
    SameReading tokens tokens' (parse text) (parse text') ∧
      SameReading tokens tokens' (parseExpression text) (parseExpression text') ∧
      SameReading tokens tokens' (parseCondition text) (parseCondition text') :=
  ⟨readText_layout Relabeling.identity_statement (fun _ => Twins.statement_parallel) h h' same,
    readText_layout Relabeling.identity_expr
      (fun _ => Twins.arithmetic_parallel.complete) h h' same,
    readText_layout Relabeling.identity_expr
      (fun _ => Twins.condition_parallel.complete) h h' same⟩

end Layout

def spacedTable : List Token :=
  [⟨.keyword .CREATE, ⟨0, 6⟩⟩, ⟨.keyword .TABLE, ⟨7, 12⟩⟩, ⟨.identifier "t", ⟨13, 14⟩⟩,
    ⟨.leftParen, ⟨15, 16⟩⟩, ⟨.keyword .INDEX, ⟨16, 21⟩⟩, ⟨.leftParen, ⟨22, 23⟩⟩,
    ⟨.identifier "a", ⟨23, 24⟩⟩, ⟨.rightParen, ⟨24, 25⟩⟩, ⟨.rightParen, ⟨25, 26⟩⟩,
    ⟨.eof, ⟨26, 26⟩⟩]

def denseTable : List Token :=
  [⟨.keyword .CREATE, ⟨0, 6⟩⟩, ⟨.keyword .TABLE, ⟨8, 13⟩⟩, ⟨.identifier "t", ⟨14, 15⟩⟩,
    ⟨.leftParen, ⟨15, 16⟩⟩, ⟨.keyword .INDEX, ⟨16, 21⟩⟩, ⟨.leftParen, ⟨21, 22⟩⟩,
    ⟨.identifier "a", ⟨22, 23⟩⟩, ⟨.rightParen, ⟨23, 24⟩⟩, ⟨.rightParen, ⟨24, 25⟩⟩,
    ⟨.eof, ⟨26, 26⟩⟩]

/-- Both texts are refused for want of a field, from one parenthesis to the other. -/
theorem reading_of_kinds_table :
    kinds denseTable = kinds spacedTable ∧
      parse "CREATE TABLE t (INDEX (a))" = .error ⟨.noFields, ⟨15, 26⟩⟩ ∧
      parse "create  table t(index(a)) " = .error ⟨.noFields, ⟨15, 25⟩⟩ ∧
      SameReading spacedTable denseTable (parse "CREATE TABLE t (INDEX (a))")
        (parse "create  table t(index(a)) ") :=
  ⟨by decide +kernel, by decide +kernel, by decide +kernel,
    (reading_of_kinds (by decide +kernel) (by decide +kernel) (by decide +kernel)).1⟩

end CompactSql
