import CompactSql.Proofs.Printing.WellFormed

/-!
# Well-formed trees are derived from their own kinds

A tree that passes the checks has kinds that can be written and derive it, and every
tree that is derived from a row that can be written passes the checks.
-/

namespace CompactSql

open Grammar Grammar.Derivation
open Token (Kind)
open Token.Kind (commas inParens)

variable {α : Type}

/-- The row can be written, and the language derives the value from it. -/
structure Legible (language : Grammar.Language α) (row : List Kind) (value : α) : Prop where
  written : Writable row
  derived : language row value

theorem isName_iff {name : String} :
    isName name = true ↔ (Kind.identifier name).Written := by
  unfold isName
  cases chars : name.toList with
  | nil => simp [Kind.written_identifier, chars]
  | cons first rest => simp [Kind.written_identifier, chars, and_assoc]

theorem isUnsigned_iff {value : CompactSql.Literal} :
    value.isUnsigned = true ↔ value.kind.Written := by
  cases value with
  | integer value =>
      simp [CompactSql.Literal.isUnsigned, CompactSql.Literal.kind, Kind.written_integer]
  | string text => exact ⟨fun _ => ⟨text.toList, String.toList_ofList⟩, fun _ => rfl⟩

theorem literal_derived (value : CompactSql.Literal) :
    Derivation.Literal [value.kind] value ∧ Value [value.kind] (.literal value) := by
  cases value with
  | integer value => exact ⟨.integer value, .integer value⟩
  | string text =>
      have read := Derivation.Literal.string (String.ofList (Text.double text.toList))
      have read' := Value.string (String.ofList (Text.double text.toList))
      rw [ofRaw_double] at read read'
      exact ⟨read, read'⟩

theorem isUnsigned_of_derived (row : List Kind) (value : CompactSql.Literal)
    (h : Derivation.Literal row value) (written : Writable row) : value.isUnsigned = true := by
  cases h with
  | integer value => exact isUnsigned_iff.mpr (Writable.cons.mp written).1
  | string raw => rfl

section Listings

variable {item : Grammar.Language α} {kinds : α → List Kind} {check : α → Bool}
  {row : List Kind} {values : List α}

theorem Legible.listed (nonempty : values ≠ [])
    (each : ∀ value ∈ values, Legible item (kinds value) value) :
    Legible (Listed item) (commas (values.map kinds)) values := by
  constructor
  · rw [Writable.commas, List.forall_mem_map]
    exact fun value member => (each value member).written
  · have derived : ∀ pair ∈ values.map fun value => (kinds value, value),
        item pair.1 pair.2 :=
      List.forall_mem_map.mpr fun value member => (each value member).derived
    simpa [Function.comp_def] using Listed.of_pairs (by simpa using nonempty) derived

theorem Legible.parenthesized (h : Legible (Listed item) row values) :
    Legible (Parenthesized item) (inParens row) values :=
  ⟨Writable.inParens.mpr h.written, .list h.derived⟩

theorem all_of_listed (each : ∀ row value, item row value → Writable row → check value = true)
    (h : Listed item row values) :
    Writable row → values.isEmpty = false ∧ values.all check = true := by
  induction h with
  | one member =>
      intro written
      simp [each _ _ member written]
  | more member _ ih =>
      intro written
      simp only [Writable.append, Writable.cons] at written
      simp [each _ _ member written.1, ih written.2.2]

theorem all_of_parenthesized
    (each : ∀ row value, item row value → Writable row → check value = true)
    (h : Parenthesized item row values) (written : Writable row) :
    values.isEmpty = false ∧ values.all check = true := by
  cases h with
  | list listed => exact all_of_listed each listed (Writable.inParens.mp written)

theorem all_of_optional {lead : List Kind} {value : Option α}
    (each : ∀ row value, item row value → Writable row → check value = true)
    (h : Optional lead item row value) (written : Writable row) :
    value.all check = true := by
  cases h with
  | absent => rfl
  | present member => exact each _ _ member (Writable.append.mp written).2

end Listings

namespace Expr

private theorem areValues_iff {exprs : List Expr} :
    areValues exprs = true ↔ ∀ expr ∈ exprs, expr.isValue = true := by
  induction exprs with
  | nil => simp [areValues]
  | cons first others ih => simp [areValues, ih]

mutual

theorem legible_value (expr : Expr) (h : expr.isValue = true) :
    Legible Value expr.kinds expr := by
  cases expr with
  | literal value =>
      exact ⟨by simpa [kinds] using isUnsigned_iff.mp h, (literal_derived value).2⟩
  | identifier name => exact ⟨by simpa [kinds] using isName_iff.mp h, .identifier name⟩
  | field table name =>
      simp only [isValue, Bool.and_eq_true, isName_iff] at h
      exact ⟨by simpa [kinds] using h, .field table name⟩
  | call name args =>
      simp only [isValue, Bool.and_eq_true, isName_iff] at h
      have inside := legible_values args h.2
      rw [kinds, allKinds_eq_map]
      by_cases empty : args = []
      · subst empty
        exact ⟨by simpa [commas] using h.1, .emptyCall name⟩
      · have listed := Legible.listed empty inside
        exact ⟨Writable.cons.mpr ⟨h.1, listed.parenthesized.written⟩,
          .call name listed.derived⟩
  | binary op left right => cases h
  | between subject lower upper => cases h

theorem legible_values (exprs : List Expr) (h : areValues exprs = true) :
    ∀ expr ∈ exprs, Legible Value expr.kinds expr := by
  cases exprs with
  | nil => simp
  | cons first others =>
      simp only [areValues, Bool.and_eq_true] at h
      exact List.forall_mem_cons.mpr
        ⟨legible_value first h.1, legible_values others h.2⟩

end

theorem isValue_of_derived (row : List Kind) (tree : Expr) (h : Value row tree) :
    Writable row → tree.isValue = true := by
  induction h using value_induction with
  | field table name => simp +contextual [isValue, isName_iff]
  | emptyCall name => simp [isValue, areValues, isName_iff]
  | call name row args _ inside =>
      intro written
      simp only [Writable.cons, Writable.append] at written
      have values := all_of_listed (fun _ _ found => found.elim fun _ check => check) inside
        written.2.2.1
      rw [isValue, isName_iff.mpr written.1, Bool.true_and, areValues_iff]
      exact List.all_eq_true.mp values.2
  | identifier name => simp [isValue, isName_iff]
  | integer value => simp [isValue, Literal.isUnsigned, Kind.written_integer]
  | string raw => exact fun _ => rfl

section Chain

variable {tier : BinaryOp → Bool} {check : Expr → Bool}
  {operator : Kind → Option BinaryOp} {operand : Grammar.Language Expr}

theorem isChain_of_operand {expr : Expr} (h : check expr = true) :
    isChain tier check expr = true := by
  cases expr <;> simp [isChain, h]

theorem legible_chain (sign : ∀ op, tier op = true → operator op.kind = some op)
    (each : ∀ expr, check expr = true → Legible operand expr.kinds expr) :
    (expr : Expr) → isChain tier check expr = true →
      Legible (Chain operator operand) expr.kinds expr
  | binary op left right, h => by
      simp only [isChain, Bool.or_eq_true, Bool.and_eq_true] at h
      rcases h with ⟨⟨among, chained⟩, last⟩ | single
      · have front := legible_chain sign each left chained
        have back := each right last
        have written : op.kind.Written := by cases op <;> trivial
        refine ⟨?_, .step front.derived (sign op among) back.derived⟩
        exact Writable.append.mpr ⟨front.written, Writable.cons.mpr ⟨written, back.written⟩⟩
      · exact ⟨(each _ single).written, .operand (each _ single).derived⟩
  | literal _, h | identifier _, h | field _ _, h | call _ _, h | between _ _ _, h =>
      ⟨(each _ h).written, .operand (each _ h).derived⟩

theorem isChain_of_derived (sign : ∀ kind op, operator kind = some op → tier op = true)
    (each : ∀ row expr, operand row expr → Writable row → check expr = true)
    {row : List Kind} {tree : Expr} (h : Chain operator operand row tree) :
    Writable row → isChain tier check tree = true := by
  induction h with
  | operand member => exact fun written => isChain_of_operand (each _ _ member written)
  | step _ accepted member ih =>
      intro written
      simp only [Writable.append, Writable.cons] at written
      simp [isChain, sign _ _ accepted, ih written.1, each _ _ member written.2.2]

end Chain

theorem legible_term (expr : Expr) (h : expr.isTerm = true) :
    Legible Term expr.kinds expr := by
  refine legible_chain ?_ legible_value expr h
  intro op among
  cases op <;> first | rfl | cases among

theorem legible_arithmetic (expr : Expr) (h : expr.isArithmetic = true) :
    Legible Arithmetic expr.kinds expr := by
  refine legible_chain ?_ legible_term expr h
  intro op among
  cases op <;> first | rfl | cases among

theorem isTerm_of_derived (row : List Kind) (tree : Expr) (h : Term row tree) :
    Writable row → tree.isTerm = true := by
  refine isChain_of_derived ?_ isValue_of_derived h
  intro kind op accepted
  cases kind <;> cases accepted <;> rfl

theorem isArithmetic_of_derived (row : List Kind) (tree : Expr) (h : Arithmetic row tree) :
    Writable row → tree.isArithmetic = true := by
  refine isChain_of_derived ?_ isTerm_of_derived h
  intro kind op accepted
  cases kind <;> cases accepted <;> rfl

theorem legible_predicate (expr : Expr) (h : expr.isPredicate = true) :
    Legible Predicate expr.kinds expr := by
  cases expr with
  | binary op left right =>
      simp only [isPredicate, Bool.and_eq_true] at h
      have sign : comparisonSign op.kind = some op := by
        cases op <;> first | rfl | cases h.1.1
      have written : op.kind.Written := by cases op <;> trivial
      have front := legible_arithmetic left h.1.2
      have back := legible_arithmetic right h.2
      refine ⟨?_, .comparison front.derived sign back.derived⟩
      exact Writable.append.mpr ⟨front.written, Writable.cons.mpr ⟨written, back.written⟩⟩
  | between subject lower upper =>
      simp only [isPredicate, Bool.and_eq_true] at h
      have first := legible_arithmetic subject h.1.1
      have second := legible_arithmetic lower h.1.2
      have third := legible_arithmetic upper h.2
      refine ⟨?_, .between first.derived second.derived third.derived⟩
      simp [kinds, first.written, second.written, third.written]
  | literal _ | identifier _ | field _ _ | call _ _ => cases h

theorem isPredicate_of_derived (row : List Kind) (tree : Expr) (h : Predicate row tree)
    (written : Writable row) : tree.isPredicate = true := by
  cases h with
  | @comparison _ _ kind op _ _ left sign right =>
      simp only [Writable.append, Writable.cons] at written
      have among : op.isComparison = true := by cases kind <;> cases sign <;> rfl
      simp [isPredicate, among, isArithmetic_of_derived _ _ left written.1,
        isArithmetic_of_derived _ _ right written.2.2]
  | between subject lower upper =>
      simp only [Writable.append, Writable.cons] at written
      simp [isPredicate, isArithmetic_of_derived _ _ subject written.1,
        isArithmetic_of_derived _ _ lower written.2.2.1,
        isArithmetic_of_derived _ _ upper written.2.2.2.2]

theorem legible_condition (expr : Expr) (h : expr.isCondition = true) :
    Legible Condition expr.kinds expr := by
  refine legible_chain ?_ legible_predicate expr h
  intro op among
  cases op <;> first | rfl | cases among

theorem isCondition_of_derived (row : List Kind) (tree : Expr) (h : Condition row tree) :
    Writable row → tree.isCondition = true := by
  refine isChain_of_derived ?_ isPredicate_of_derived h
  intro kind op accepted
  unfold logicalOp at accepted
  split at accepted <;> cases accepted <;> rfl

end Expr

end CompactSql
