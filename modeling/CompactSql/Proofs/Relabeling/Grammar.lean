import CompactSql.Proofs.Relabeling.Rule
import CompactSql.Proofs.Grammar.Expression

/-!
# The grammar runs in step

Every rule of the grammar reads the relabeled tree from the twin of a token list.
-/

namespace CompactSql.Twins

open Grammar Grammar.Derivation
open Grammar.Rule hiding keyword symbol
open Parallel (ifKind keyword symbol)
open Token (Kind)

variable {σ : Relabeling} {twins : Twins σ}

theorem nameOf_kind (kind : Kind) : nameOf (σ.kind kind) = (nameOf kind).map σ.name := by
  cases kind <;> rfl

theorem integerOf_kind (kind : Kind) :
    integerOf (σ.kind kind) = (integerOf kind).map σ.literal := by
  cases kind <;> rfl

theorem stringOf_kind (kind : Kind) :
    stringOf (σ.kind kind) = (stringOf kind).map σ.literal := by
  cases kind with
  | string raw => exact congrArg some (ofRaw_double _)
  | _ => rfl

theorem identifier_parallel : twins.Parallel (Becomes σ.name) identifier identifier :=
  .read _ nameOf_kind

theorem literal_parallel :
    twins.Parallel (Becomes σ.literal) Grammar.literal Grammar.literal := by
  refine .read _ fun kind => ?_
  rw [integerOf_kind, stringOf_kind]
  cases integerOf kind <;> rfl

theorem qualifiedField_parallel :
    twins.Parallel (Becomes σ.expr) qualifiedField qualifiedField :=
  identifier_parallel.followedBy fun _ => (symbol rfl).followedBy fun _ =>
    identifier_parallel.followedBy fun _ => .pure rfl

theorem plainField_parallel : twins.Parallel (Becomes σ.expr) plainField plainField :=
  identifier_parallel.followedBy fun _ => .pure rfl

theorem call_parallel {argument : Grammar.Rule Expr}
    (h : twins.Parallel (Becomes σ.expr) argument argument) :
    twins.Parallel (Becomes σ.expr) (call argument) (call argument) := by
  refine identifier_parallel.followedBy fun name => (symbol rfl).followedBy fun _ =>
    ifKind rfl fun found => ?_
  cases found with
  | some _ => exact .pure rfl
  | none =>
      refine h.commaList.followedBy fun args => (symbol rfl).followedBy fun _ => .pure ?_
      rw [Becomes, Relabeling.expr, Relabeling.exprs_eq_map]

theorem valueAlternatives_parallel {argument : Grammar.Rule Expr}
    (h : twins.Parallel (Becomes σ.expr) argument argument) :
    ∀ alternative ∈ valueAlternatives argument,
      twins.Parallel (Becomes σ.expr) alternative.2 alternative.2 := by
  simp only [valueAlternatives, List.mem_cons, List.not_mem_nil, or_false, forall_eq_or_imp,
    forall_eq]
  refine ⟨qualifiedField_parallel, call_parallel h, plainField_parallel, ?_, ?_⟩
  · exact (Parallel.read _ integerOf_kind).followedBy fun _ => .pure rfl
  · exact (Parallel.read _ stringOf_kind).followedBy fun _ => .pure rfl

theorem value_parallel : twins.Parallel (Becomes σ.expr) value value := by
  -- the arguments of a call are shorter than the call, in both lists by as much
  intro cursor cursor' beside
  induction size : cursor.rest.length using Nat.strongRecOn generalizing cursor cursor' with
  | ind size ih =>
      subst size
      have argument : twins.Parallel (Becomes σ.expr) (guarded cursor.rest.length)
          (guarded cursor.rest.length) := by
        intro place place' beside'
        rw [guarded, guarded, beside'.length_rest]
        split
        · next shorter => exact ih _ shorter beside' rfl
        · exact Parallel.unexpected .value beside'
      rw [value_guarded, value_guarded cursor', beside.length_rest]
      exact Parallel.firstOf (valueAlternatives_parallel argument) beside

private theorem grouped_relabeled (first : Expr) (steps : List (BinaryOp × Expr)) :
    σ.expr (grouped first steps) =
      grouped (σ.expr first) (steps.map fun step => (step.1, σ.expr step.2)) := by
  induction steps generalizing first with
  | nil => rfl
  | cons step steps ih => exact ih (.binary step.1 first step.2)

theorem tier_parallel {operator : Kind → Option BinaryOp} {operand : Grammar.Rule Expr}
    (same : ∀ kind, operator (σ.kind kind) = operator kind)
    (h : twins.Parallel (Becomes σ.expr) operand operand) :
    twins.Parallel (Becomes σ.expr) (tier operator operand) (tier operator operand) := by
  refine h.followedBy fun first => ?_
  have steps : twins.Parallel (Becomes (List.map fun step => (step.1, σ.expr step.2)))
      (repeated operator (tierStep operand)) (repeated operator (tierStep operand)) :=
    .repeated same fun op => h.map fun value => rfl
  exact steps.followedBy fun steps => .pure (grouped_relabeled first steps).symm

theorem arithmetic_parallel : twins.Parallel (Becomes σ.expr) arithmetic arithmetic := by
  have sums (kind : Kind) : sumOp (σ.kind kind) = sumOp kind := by cases kind <;> rfl
  have products (kind : Kind) : productOp (σ.kind kind) = productOp kind := by
    cases kind <;> rfl
  rw [arithmetic_eq_tiers value_noLonger]
  exact tier_parallel sums (tier_parallel products value_parallel)

theorem predicate_parallel : twins.Parallel (Becomes σ.expr) predicate predicate := by
  have start (kind : Kind) :
      comparisonStart (σ.kind kind) = (comparisonStart kind).map id := by
    cases kind <;> simp [comparisonStart, Relabeling.kind] <;> rfl
  rw [predicate_eq]
  refine arithmetic_parallel.followedBy fun subject =>
    (Parallel.read .comparison start).followedBy fun start => ?_
  cases start with
  | some op => exact arithmetic_parallel.followedBy fun _ => .pure rfl
  | none =>
      exact arithmetic_parallel.followedBy fun _ => (keyword .AND).followedBy fun _ =>
        arithmetic_parallel.followedBy fun _ => .pure rfl

theorem condition_parallel : twins.Parallel (Becomes σ.expr) condition condition := by
  have logical (kind : Kind) : logicalOp (σ.kind kind) = logicalOp kind := by
    cases kind <;> rfl
  rw [condition_eq_tier predicate_noLonger]
  exact tier_parallel logical predicate_parallel

theorem selectItems_parallel :
    twins.Parallel (Becomes (List.map σ.item)) selectItems selectItems := by
  refine ifKind rfl fun found => ?_
  cases found with
  | some _ => exact .pure rfl
  | none =>
      refine arithmetic_parallel.commaList.followedBy fun values => .pure ?_
      simp only [Becomes, List.map_map]
      rfl

theorem join_parallel : twins.Parallel (Becomes σ.join) join join :=
  (keyword .JOIN).followedBy fun _ => identifier_parallel.followedBy fun _ =>
    (keyword .ON).followedBy fun _ => condition_parallel.followedBy fun _ => .pure rfl

theorem tableSource_parallel : twins.Parallel (Becomes σ.source) tableSource tableSource :=
  (keyword .FROM).followedBy fun _ => identifier_parallel.followedBy fun _ =>
    (Parallel.repeated (σ.ofKind_kind rfl) fun _ => join_parallel).followedBy fun _ => .pure rfl

theorem groupField_parallel : twins.Parallel (Becomes σ.expr) groupField groupField := by
  refine .firstOf ?_
  simp only [List.mem_cons, List.not_mem_nil, or_false, forall_eq_or_imp, forall_eq]
  exact ⟨qualifiedField_parallel, plainField_parallel⟩

theorem grouping_parallel :
    twins.Parallel (Becomes fun read => (read.1.map σ.expr, read.2.map σ.expr))
      grouping grouping := by
  refine ifKind rfl fun found => ?_
  cases found with
  | none => exact .pure rfl
  | some _ =>
      exact (keyword .BY).followedBy fun _ => groupField_parallel.commaList.followedBy fun _ =>
        (condition_parallel.ledBy .HAVING).followedBy fun _ => .pure rfl

theorem sortKey_parallel : twins.Parallel (Becomes σ.sortKey) sortKey sortKey := by
  refine arithmetic_parallel.followedBy fun expr => ifKind rfl fun found => ?_
  cases found with
  | some _ => exact .pure rfl
  | none => exact ifKind rfl fun _ => .pure rfl

theorem sorting_parallel :
    twins.Parallel (Becomes (List.map σ.sortKey)) sorting sorting := by
  have keys : twins.Parallel (Becomes (List.map σ.sortKey))
      (do Rule.keyword .BY; commaList sortKey) (do Rule.keyword .BY; commaList sortKey) :=
    (keyword .BY).followedBy fun _ => sortKey_parallel.commaList
  refine (keys.ledBy .ORDER).followedBy fun keys => .pure ?_
  cases keys <;> rfl

theorem namesInside_parallel :
    twins.Parallel (Becomes (List.map σ.name)) namesInside namesInside :=
  identifier_parallel.commaList.followedBy fun _ => (symbol rfl).followedBy fun _ => .pure rfl

theorem names_parallel : twins.Parallel (Becomes (List.map σ.name)) names names :=
  (symbol rfl).followedBy fun _ => namesInside_parallel

theorem row_parallel : twins.Parallel (Becomes (List.map σ.literal)) row row :=
  (symbol rfl).followedBy fun _ => literal_parallel.commaList.followedBy fun _ =>
    (symbol rfl).followedBy fun _ => .pure rfl

theorem assignment_parallel :
    twins.Parallel (Becomes σ.assignment) assignment assignment :=
  identifier_parallel.followedBy fun _ => (symbol rfl).followedBy fun _ =>
    arithmetic_parallel.followedBy fun _ => .pure rfl

theorem selection_parallel : twins.Parallel (Becomes σ.selection) selection selection :=
  (keyword .SELECT).followedBy fun _ => selectItems_parallel.followedBy fun _ =>
    tableSource_parallel.followedBy fun _ =>
      (condition_parallel.ledBy .WHERE).followedBy fun _ =>
        grouping_parallel.followedBy fun _ => sorting_parallel.followedBy fun _ => .pure rfl

theorem fieldNames_parallel :
    twins.Parallel (Becomes (Option.map (List.map σ.name))) fieldNames fieldNames := by
  refine ifKind rfl fun found => ?_
  cases found with
  | none => exact .pure rfl
  | some _ => exact namesInside_parallel.followedBy fun _ => .pure rfl

theorem insertion_parallel : twins.Parallel (Becomes σ.insertion) insertion insertion :=
  (keyword .INSERT).followedBy fun _ => (keyword .INTO).followedBy fun _ =>
    identifier_parallel.followedBy fun _ => fieldNames_parallel.followedBy fun _ =>
      (keyword .VALUES).followedBy fun _ => row_parallel.commaList.followedBy fun _ => .pure rfl

theorem update_parallel : twins.Parallel (Becomes σ.update) update update :=
  (keyword .UPDATE).followedBy fun _ => identifier_parallel.followedBy fun _ =>
    (keyword .SET).followedBy fun _ => assignment_parallel.commaList.followedBy fun _ =>
      (condition_parallel.ledBy .WHERE).followedBy fun _ => .pure rfl

theorem deletion_parallel : twins.Parallel (Becomes σ.deletion) deletion deletion :=
  (keyword .DELETE).followedBy fun _ => ifKind rfl fun _ => (keyword .FROM).followedBy fun _ =>
    identifier_parallel.followedBy fun _ =>
      (condition_parallel.ledBy .WHERE).followedBy fun _ => .pure rfl

theorem optionalName_parallel :
    twins.Parallel (Becomes (Option.map σ.name)) (readIf nameOf) (readIf nameOf) :=
  .readIf nameOf_kind

theorem inlineIndex_parallel : twins.Parallel (Becomes σ.index) inlineIndex inlineIndex :=
  optionalName_parallel.followedBy fun _ =>
    (identifier_parallel.ledBy .USING).followedBy fun _ =>
      names_parallel.followedBy fun _ => .pure rfl

theorem indexDefinition_parallel :
    twins.Parallel (Becomes σ.index) indexDefinition indexDefinition :=
  (keyword .CREATE).followedBy fun _ => (keyword .INDEX).followedBy fun _ =>
    optionalName_parallel.followedBy fun _ => (keyword .ON).followedBy fun _ =>
      identifier_parallel.followedBy fun _ =>
        (identifier_parallel.ledBy .USING).followedBy fun _ =>
          names_parallel.followedBy fun _ => .pure rfl

def entry (σ : Relabeling) : Grammar.TableEntry → Grammar.TableEntry
  | .field name => .field (σ.name name)
  | .index definition => .index (σ.index definition)

private theorem fields_relabeled (entries : List Grammar.TableEntry) :
    (entries.map (entry σ)).filterMap TableEntry.field? =
      (entries.filterMap TableEntry.field?).map σ.name := by
  rw [List.filterMap_map, List.map_filterMap]
  congr 1
  funext entry
  cases entry <;> rfl

private theorem indexes_relabeled (entries : List Grammar.TableEntry) :
    (entries.map (entry σ)).filterMap TableEntry.index? =
      (entries.filterMap TableEntry.index?).map σ.index := by
  rw [List.filterMap_map, List.map_filterMap]
  congr 1
  funext entry
  cases entry <;> rfl

theorem tableEntry_parallel :
    twins.Parallel (Becomes (entry σ)) tableEntry tableEntry := by
  refine (inlineIndex_parallel.ledBy .INDEX).followedBy fun found => ?_
  cases found with
  | some definition => exact .pure rfl
  | none => exact identifier_parallel.followedBy fun _ => .pure rfl

theorem checkFields_parallel (table : String) (entries : List Grammar.TableEntry)
    {opening opening' closing closing' : Span}
    (h : Parallel.SameToken twins opening opening')
    (h' : Parallel.SameToken twins closing closing') :
    twins.Parallel (Becomes σ.table) (checkFields table entries (opening.merge closing))
      (checkFields (σ.name table) (entries.map (entry σ)) (opening'.merge closing')) := by
  obtain ⟨i, first, first'⟩ := h
  obtain ⟨j, last, last'⟩ := h'
  simp only [checkFields, fields_relabeled, indexes_relabeled, List.isEmpty_map]
  split
  · refine fun _ _ _ => .error .nil ⟨rfl, rfl, ?_, min i j, max i j,
      first.merge twins.placed last, first'.merge twins.placed' last',
      fun other => absurd rfl other⟩
    simp [Complaint.found?]
  · exact .pure rfl

theorem tableDefinition_parallel :
    twins.Parallel (Becomes σ.table) tableDefinition tableDefinition :=
  (keyword .CREATE).followedBy fun _ => (keyword .TABLE).followedBy fun _ =>
    identifier_parallel.followedBy fun _ => Parallel.here.bind fun _ _ opening =>
      (symbol rfl).followedBy fun _ => tableEntry_parallel.commaList.followedBy fun _ =>
        Parallel.here.bind fun _ _ closing => (symbol rfl).followedBy fun _ =>
          checkFields_parallel _ _ opening closing

theorem statement_parallel : twins.Parallel (Becomes σ.statement) statement statement := by
  refine .firstOf ?_
  simp only [List.mem_cons, List.not_mem_nil, or_false, forall_eq_or_imp, forall_eq]
  exact ⟨(selection_parallel.map (g := σ.statement) fun _ => rfl).complete,
    (insertion_parallel.map (g := σ.statement) fun _ => rfl).complete,
    (update_parallel.map (g := σ.statement) fun _ => rfl).complete,
    (deletion_parallel.map (g := σ.statement) fun _ => rfl).complete,
    (tableDefinition_parallel.map (g := σ.statement) fun _ => rfl).complete,
    (indexDefinition_parallel.map (g := σ.statement) fun _ => rfl).complete⟩

end CompactSql.Twins
