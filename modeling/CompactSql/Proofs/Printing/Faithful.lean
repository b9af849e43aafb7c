import CompactSql.Proofs.Grammar.Expression
import CompactSql.Proofs.Printing.Normal

/-!
# The kinds that a tree is derived from

A row that can be written gives back its own kinds: what the grammar derives from it
is printed as its normal form, and the normal form derives the same tree.
-/

namespace CompactSql

open Grammar Grammar.Derivation
open Token (Kind)
open Token.Kind (commas inParens Solid)

section Items

variable {α : Type} {item : Grammar.Language α} {row : List Kind} {values : List α}

theorem Grammar.Derivation.Listed.pairs (h : Listed item row values) :
    ∃ pairs : List (List Kind × α), pairs ≠ [] ∧ row = commas (pairs.map Prod.fst) ∧
      values = pairs.map Prod.snd ∧ ∀ pair ∈ pairs, item pair.1 pair.2 := by
  induction h with
  | @one row value member => exact ⟨[(row, value)], by simp, rfl, rfl, by simpa using member⟩
  | @more row others value values member _ ih =>
      obtain ⟨pairs, nonempty, rfl, rfl, each⟩ := ih
      refine ⟨(row, value) :: pairs, List.cons_ne_nil _ _, ?_, rfl, ?_⟩
      · rw [List.map_cons, Kind.commas_cons (by simpa using nonempty)]
      · exact List.forall_mem_cons.mpr ⟨member, each⟩

theorem Grammar.Derivation.Listed.of_pairs {pairs : List (List Kind × α)} (nonempty : pairs ≠ [])
    (each : ∀ pair ∈ pairs, item pair.1 pair.2) :
    Listed item (commas (pairs.map Prod.fst)) (pairs.map Prod.snd) := by
  induction pairs with
  | nil => exact absurd rfl nonempty
  | cons pair pairs ih =>
      rw [List.forall_mem_cons] at each
      cases pairs with
      | nil => exact .one each.1
      | cons other others => exact .more each.1 (ih (List.cons_ne_nil _ _) each.2)

theorem exists_pairs {rows : List (List Kind)} (each : ∀ row ∈ rows, ∃ value, item row value) :
    ∃ pairs : List (List Kind × α), pairs.map Prod.fst = rows ∧
      ∀ pair ∈ pairs, item pair.1 pair.2 := by
  induction rows with
  | nil => exact ⟨[], rfl, by simp⟩
  | cons row rows ih =>
      rw [List.forall_mem_cons] at each
      obtain ⟨value, member⟩ := each.1
      obtain ⟨pairs, rfl, members⟩ := ih each.2
      exact ⟨(row, value) :: pairs, rfl, List.forall_mem_cons.mpr ⟨member, members⟩⟩

theorem Grammar.Derivation.Listed.ne_nil (h : Listed item row values) : values ≠ [] := by
  cases h <;> exact List.cons_ne_nil _ _

theorem Grammar.Derivation.Listed.kinds_eq (kinds : α → List Kind)
    (h : Listed item row values) (written : Writable row)
    (each : ∀ row value, item row value → Writable row → kinds value = row) :
    commas (values.map kinds) = row := by
  induction h with
  | one member => exact each _ _ member written
  | @more row others value values member listed ih =>
      simp only [Writable.append, Writable.cons] at written
      rw [List.map_cons, Kind.commas_cons (by simpa using listed.ne_nil),
        each _ _ member written.1, ih written.2.2]

end Items

theorem literal_kind_ofRaw {raw : String} (written : (Kind.string raw).Written) :
    (CompactSql.Literal.ofRaw raw).kind = .string raw := by
  obtain ⟨text, doubled⟩ := written
  rw [CompactSql.Literal.ofRaw, CompactSql.Literal.kind, String.toList_ofList, doubled,
    Text.collapse_double, ← doubled, String.ofList_toList]

theorem value_kinds {row : List Kind} {tree : Expr} (h : Value row tree) :
    Writable row → tree.kinds = row := by
  induction h using value_induction with
  | call name row args _ inside =>
      intro written
      simp only [Writable.cons, Writable.append] at written
      have listed := inside.kinds_eq Expr.kinds written.2.2.1 fun _ _ found =>
        found.elim fun _ same => same
      rw [Expr.kinds, Expr.allKinds_eq_map, listed, inParens]
  | string raw =>
      intro written
      rw [Expr.kinds, literal_kind_ofRaw (Writable.cons.mp written).1]
  | field | emptyCall | identifier | integer => exact fun _ => rfl

theorem chain_kinds {operator : Kind → Option BinaryOp} {operand : Grammar.Language Expr}
    (sign : ∀ kind op, operator kind = some op → op.kind = kind)
    (each : ∀ row tree, operand row tree → Writable row → tree.kinds = row)
    {row : List Kind} {tree : Expr} (h : Chain operator operand row tree) :
    Writable row → tree.kinds = row := by
  induction h with
  | operand member => exact each _ _ member
  | step _ accepted member ih =>
      intro written
      simp only [Writable.append, Writable.cons] at written
      rw [Expr.kinds, ih written.1, each _ _ member written.2.2, sign _ _ accepted]

theorem arithmetic_kinds {row : List Kind} {tree : Expr} (h : Arithmetic row tree) :
    Writable row → tree.kinds = row := by
  refine chain_kinds ?_ ?_ h
  · intro kind op accepted
    cases kind <;> cases accepted <;> rfl
  · intro row tree term
    refine chain_kinds ?_ (fun _ _ => value_kinds) term
    intro kind op accepted
    cases kind <;> cases accepted <;> rfl

theorem predicate_kinds {row : List Kind} {tree : Expr} (h : Predicate row tree) :
    Writable row → tree.kinds = row := by
  intro written
  cases h with
  | @comparison _ _ kind _ _ _ left sign right =>
      simp only [Writable.append, Writable.cons] at written
      rw [Expr.kinds, arithmetic_kinds left written.1, arithmetic_kinds right written.2.2]
      cases kind <;> cases sign <;> rfl
  | between subject lower upper =>
      simp only [Writable.append, Writable.cons] at written
      rw [Expr.kinds, arithmetic_kinds subject written.1,
        arithmetic_kinds lower written.2.2.1, arithmetic_kinds upper written.2.2.2.2]

theorem condition_kinds {row : List Kind} {tree : Expr} (h : Condition row tree) :
    Writable row → tree.kinds = row := by
  refine chain_kinds ?_ (fun _ _ => predicate_kinds) h
  intro kind op accepted
  unfold logicalOp at accepted
  split at accepted <;> cases accepted <;> rfl

theorem clause_kinds {word : Keyword} {row : List Kind} {condition : Option Expr}
    (h : Optional [.keyword word] Condition row condition) (written : Writable row) :
    clauseKinds word condition = row := by
  cases h with
  | absent => rfl
  | present member =>
      rw [clauseKinds, condition_kinds member (Writable.append.mp written).2,
        List.singleton_append]

theorem optionalName_kinds {lead row : List Kind} {name : Option String}
    (h : Optional lead Name row name) : optionalName lead name = row := by
  cases h with
  | absent => rfl
  | present member =>
      cases member
      rfl

theorem names_kinds {row : List Kind} {names : List String}
    (h : Parenthesized Name row names) (written : Writable row) :
    inParens (commas (names.map nameKinds)) = row := by
  cases h with
  | list listed =>
      have inside := listed.kinds_eq nameKinds (Writable.inParens.mp written) ?_
      · rw [inside, inParens]
      · intro row name member _
        cases member
        rfl

theorem row_kinds {row : List Kind} {values : List CompactSql.Literal}
    (h : Parenthesized Derivation.Literal row values) (written : Writable row) :
    rowKinds values = row := by
  cases h with
  | list listed =>
      have inside := listed.kinds_eq (fun value => [value.kind])
        (Writable.inParens.mp written) ?_
      · rw [rowKinds, inside, inParens]
      · intro row value member written
        cases member with
        | integer value => rfl
        | string raw => rw [literal_kind_ofRaw (Writable.cons.mp written).1]

theorem selectItems_kinds {row : List Kind} {selected : List SelectItem}
    (h : SelectItems row selected) (written : Writable row) :
    commas (selected.map SelectItem.kinds) = row := by
  cases h with
  | all => rfl
  | exprs listed =>
      rw [List.map_map]
      exact listed.kinds_eq _ written fun _ _ => arithmetic_kinds

theorem joins_kinds {row : List Kind} {joins : List Join} (h : Joins Condition row joins)
    (written : Writable row) : joins.flatMap Join.kinds = row := by
  induction h with
  | none => rfl
  | join table member _ ih =>
      simp only [Writable.cons, Writable.append] at written
      rw [List.flatMap_cons, ih written.2.2.2.2.2, Join.kinds,
        condition_kinds member written.2.2.2.2.1]
      rfl

theorem listClauseKinds_eq (lead : List Kind) {rows : List (List Kind)} (h : rows ≠ []) :
    listClauseKinds lead rows = lead ++ commas rows := by
  cases rows with
  | nil => exact absurd rfl h
  | cons row rows => rfl

theorem grouping_kinds {row : List Kind} {fields : List Expr} {having : Option Expr}
    (h : Grouping Condition row (fields, having)) (written : Writable row) :
    listClauseKinds [.keyword .GROUP, .keyword .BY] (fields.map Expr.kinds) ++
      clauseKinds .HAVING having = row := by
  cases h with
  | none => rfl
  | fields listed rest =>
      simp only [Writable.cons, Writable.append] at written
      have inside := listed.kinds_eq Expr.kinds written.2.2.1 ?_
      · rw [listClauseKinds_eq _ (by simpa using listed.ne_nil), inside,
          clause_kinds rest written.2.2.2]
        rfl
      · intro row field member _
        cases member <;> rfl

theorem assignment_kinds {row : List Kind} {assignment : CompactSql.Assignment}
    (h : Derivation.Assignment row assignment) (written : Writable row) :
    assignment.kinds = row := by
  cases h with
  | set field member =>
      simp only [Writable.cons] at written
      rw [CompactSql.Assignment.kinds, arithmetic_kinds member written.2.2]

theorem index_kinds {first second third : List Kind} {name method table : Option String}
    {fields : List String} (named : Optional [] Name first name)
    (way : Optional [.keyword .USING] Name second method)
    (columns : Parenthesized Name third fields) (written : Writable third) :
    (CompactSql.IndexDefinition.mk name table method fields).kinds =
      (if table.isNone then [] else [.keyword .CREATE]) ++ .keyword .INDEX ::
        (first ++ optionalName [.keyword .ON] table ++ second ++ third) := by
  rw [CompactSql.IndexDefinition.kinds, optionalName_kinds named, optionalName_kinds way,
    names_kinds columns written]
  rfl

namespace Token.Kind

private theorem directed_of_last {row : List Kind} {word : Keyword}
    (h : word = .ASC ∨ word = .DESC) :
    directed (row ++ [.keyword word]) = row ++ [.keyword word] := by
  rw [directed, if_pos]
  rcases h with rfl | rfl <;> simp

private theorem directed_expr (expr : Expr) :
    directed expr.kinds = expr.kinds ++ [.keyword .ASC] := by
  rw [directed, if_neg]
  rintro (last | last)
  · exact absurd (expr.mem_keywords (List.mem_of_getLast? last)) (by decide)
  · exact absurd (expr.mem_keywords (List.mem_of_getLast? last)) (by decide)

theorem directKeys_append {front : List Kind} (h : .keyword .ORDER ∉ front)
    (back : List Kind) : directKeys (front ++ back) = front ++ directKeys back := by
  induction front with
  | nil => rfl
  | cons kind front ih =>
      rw [List.mem_cons, not_or] at h
      rw [List.cons_append, directKeys, ih h.2, List.cons_append]
      rintro keys rfl
      exact absurd rfl h.1

end Token.Kind

open Token.Kind

private theorem sortKey_directed {row : List Kind} {key : CompactSql.SortKey}
    (h : Derivation.SortKey row key) (written : Writable row) :
    key.kinds = directed row ∧ Solid row ∧ Derivation.SortKey key.kinds key := by
  cases h with
  | plain member =>
      have same := arithmetic_kinds member written
      rw [CompactSql.SortKey.kinds, same, ← same, directed_expr, same]
      exact ⟨rfl, same ▸ Expr.solid _, .ascending member⟩
  | ascending member =>
      have same := arithmetic_kinds member (Writable.append.mp written).1
      rw [CompactSql.SortKey.kinds, same, directed_of_last (.inl rfl)]
      exact ⟨rfl, (same ▸ Expr.solid _).append (.single (by simp)), .ascending member⟩
  | descending member =>
      have same := arithmetic_kinds member (Writable.append.mp written).1
      rw [CompactSql.SortKey.kinds, same, directed_of_last (.inr rfl)]
      exact ⟨rfl, (same ▸ Expr.solid _).append (.single (by simp)), .descending member⟩

theorem sorting_directed {row : List Kind} {keys : List CompactSql.SortKey}
    (h : Sorting row keys) (written : Writable row) :
    listClauseKinds [.keyword .ORDER, .keyword .BY] (keys.map SortKey.kinds) =
        directKeys row ∧ Sorting (directKeys row) keys := by
  cases h with
  | none => exact ⟨rfl, .none⟩
  | keys listed =>
      obtain ⟨pairs, nonempty, rfl, rfl, each⟩ := listed.pairs
      simp only [Writable.cons, Writable.commas, List.forall_mem_map] at written
      have directs pair (member : pair ∈ pairs) :=
        sortKey_directed (each pair member) (written.2.2 pair member)
      have split : items (commas (pairs.map Prod.fst)) = pairs.map Prod.fst :=
        items_commas (by simpa using nonempty)
          (List.forall_mem_map.mpr fun pair member => (directs pair member).2.1)
      have same : (pairs.map Prod.fst).map directed =
          (pairs.map Prod.snd).map SortKey.kinds := by
        simp only [List.map_map]
        exact List.map_congr_left fun pair member => (directs pair member).1.symm
      have derived : ∀ pair ∈ pairs.map fun pair => (pair.2.kinds, pair.2),
          Derivation.SortKey pair.1 pair.2 :=
        List.forall_mem_map.mpr fun pair member => (directs pair member).2.2
      have again : Listed Derivation.SortKey (commas ((pairs.map Prod.snd).map SortKey.kinds))
          (pairs.map Prod.snd) := by
        simpa [Function.comp_def] using Listed.of_pairs (by simpa using nonempty) derived
      rw [directKeys, split, same, listClauseKinds_eq _ (by simpa using nonempty)]
      exact ⟨rfl, .keys again⟩

end CompactSql
