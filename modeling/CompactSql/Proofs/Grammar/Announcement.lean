import CompactSql.Proofs.Grammar.Outspoken
import CompactSql.Proofs.Grammar.Report

/-!
# What a report announces

The rules of the grammar are outspoken, so no report announces what only an alternative
expects; and behind the tokens that were read, every kind that an announcement names
goes on to some accepted row.  One announcement promises too much: a list of entries
may end in a parenthesis, and is then refused if it has indexes alone.
-/

namespace CompactSql.Grammar

open Rule Grammar.Derivation

variable {α : Type}

theorem identifier_outspoken : Outspoken identifier := .read rfl rfl

theorem literal_outspoken : Outspoken literal := .read rfl rfl

theorem qualifiedField_reserved {cursor : Cursor} (ready : cursor.Ready) :
    (qualifiedField cursor).Reserved cursor.start :=
  reserved_of_read rfl (fun _ => (Outspoken.symbol rfl).bind fun _ =>
    identifier_outspoken.bind fun _ => .pure _) ready

theorem plainField_reserved {cursor : Cursor} (ready : cursor.Ready) :
    (plainField cursor).Reserved cursor.start :=
  reserved_of_read rfl (fun _ => .pure _) ready

private theorem call_reserved {argument : Rule Expr} (h : Outspoken argument) {cursor : Cursor}
    (ready : cursor.Ready) : (call argument cursor).Reserved cursor.start := by
  refine reserved_of_read rfl (fun _ => (Outspoken.symbol rfl).bind fun _ =>
    (Outspoken.readIf rfl).bind fun closing => ?_) ready
  cases closing with
  | some _ => exact .pure _
  | none => exact h.commaList.bind fun _ => (Outspoken.symbol rfl).bind fun _ => .pure _

theorem value_outspoken : Outspoken value := by
  intro cursor ready
  induction size : cursor.rest.length using Nat.strongRecOn generalizing cursor with
  | ind size ih =>
      subst size
      have inner : Outspoken (guarded cursor.rest.length) := by
        intro place ready'
        by_cases less : place.rest.length < cursor.rest.length
        · rw [guarded, if_pos less]
          exact ih _ less ready' rfl
        · rw [guarded, if_neg less]
          exact Outspoken.unexpected rfl ready'
      rw [value_guarded]
      refine Outspoken.firstOf rfl ready ?_
      simp only [valueAlternatives, List.mem_cons, List.not_mem_nil, or_false, forall_eq_or_imp,
        forall_eq]
      exact ⟨qualifiedField_reserved ready, call_reserved inner ready,
        plainField_reserved ready, reserved_of_read rfl (fun _ => .pure _) ready,
        reserved_of_read rfl (fun _ => .pure _) ready⟩

theorem tier_outspoken {operator : Token.Kind → Option BinaryOp} {operand : Rule Expr}
    (noEnd : operator .eof = none) (h : Outspoken operand) : Outspoken (tier operator operand) :=
  h.bind fun left => (Outspoken.repeated noEnd fun op => h.map (op, ·)).map (grouped left)

theorem arithmetic_outspoken : Outspoken arithmetic := by
  rw [arithmetic_eq_tiers value_noLonger]
  exact tier_outspoken rfl (tier_outspoken rfl value_outspoken)

theorem predicate_outspoken : Outspoken predicate := by
  rw [predicate_eq]
  refine arithmetic_outspoken.bind fun _ => (Outspoken.read rfl rfl).bind fun start => ?_
  cases start with
  | some op => exact arithmetic_outspoken.bind fun _ => .pure _
  | none =>
      exact arithmetic_outspoken.bind fun _ => (Outspoken.keyword .AND).bind fun _ =>
        arithmetic_outspoken.bind fun _ => .pure _

theorem condition_outspoken : Outspoken condition := by
  rw [condition_eq_tier predicate_noLonger]
  exact tier_outspoken rfl predicate_outspoken

theorem selectItems_outspoken : Outspoken selectItems := by
  refine (Outspoken.readIf rfl).bind fun star => ?_
  cases star with
  | some _ => exact .pure _
  | none => exact arithmetic_outspoken.commaList.bind fun _ => .pure _

theorem tableSource_outspoken : Outspoken tableSource := by
  refine (Outspoken.keyword .FROM).bind fun _ => identifier_outspoken.bind fun _ =>
    (Outspoken.repeated rfl fun _ => ?_).bind fun _ => .pure _
  exact (Outspoken.keyword .JOIN).bind fun _ => identifier_outspoken.bind fun _ =>
    (Outspoken.keyword .ON).bind fun _ => condition_outspoken.bind fun _ => .pure _

theorem groupField_outspoken : Outspoken groupField := by
  intro cursor ready
  refine Outspoken.firstOf rfl ready ?_
  simp only [List.mem_cons, List.not_mem_nil, or_false, forall_eq_or_imp, forall_eq]
  exact ⟨qualifiedField_reserved ready, plainField_reserved ready⟩

theorem grouping_outspoken : Outspoken grouping := by
  refine (Outspoken.readIf rfl).bind fun group => ?_
  cases group with
  | none => exact .pure _
  | some _ =>
      exact (Outspoken.keyword .BY).bind fun _ => groupField_outspoken.commaList.bind fun _ =>
        (condition_outspoken.ledBy .HAVING).bind fun _ => .pure _

theorem sortKey_outspoken : Outspoken sortKey := by
  refine arithmetic_outspoken.bind fun _ => (Outspoken.readIf rfl).bind fun descending => ?_
  cases descending with
  | some _ => exact .pure _
  | none => exact (Outspoken.readIf rfl).bind fun _ => .pure _

theorem sorting_outspoken : Outspoken sorting := by
  refine (Outspoken.ledBy .ORDER ?_).bind fun _ => .pure _
  exact (Outspoken.keyword .BY).bind fun _ => sortKey_outspoken.commaList

theorem namesInside_outspoken : Outspoken namesInside :=
  identifier_outspoken.commaList.bind fun _ => (Outspoken.symbol rfl).bind fun _ => .pure _

theorem names_outspoken : Outspoken names :=
  (Outspoken.symbol rfl).bind fun _ => namesInside_outspoken

theorem row_outspoken : Outspoken row :=
  (Outspoken.symbol rfl).bind fun _ => literal_outspoken.commaList.bind fun _ =>
    (Outspoken.symbol rfl).bind fun _ => .pure _

theorem assignment_outspoken : Outspoken assignment :=
  identifier_outspoken.bind fun _ => (Outspoken.symbol rfl).bind fun _ =>
    arithmetic_outspoken.bind fun _ => .pure _

theorem filter_outspoken : Outspoken (ledBy .WHERE condition) := condition_outspoken.ledBy .WHERE

theorem selection_outspoken : Outspoken selection :=
  (Outspoken.keyword .SELECT).bind fun _ => selectItems_outspoken.bind fun _ =>
    tableSource_outspoken.bind fun _ => filter_outspoken.bind fun _ =>
      grouping_outspoken.bind fun (_, _) => sorting_outspoken.bind fun _ => .pure _

theorem fieldNames_outspoken : Outspoken fieldNames := by
  refine (Outspoken.readIf rfl).bind fun opening => ?_
  cases opening with
  | none => exact .pure _
  | some _ => exact namesInside_outspoken.bind fun _ => .pure _

theorem insertion_outspoken : Outspoken insertion :=
  (Outspoken.keyword .INSERT).bind fun _ => (Outspoken.keyword .INTO).bind fun _ =>
    identifier_outspoken.bind fun _ => fieldNames_outspoken.bind fun _ =>
      (Outspoken.keyword .VALUES).bind fun _ => row_outspoken.commaList.bind fun _ => .pure _

theorem update_outspoken : Outspoken update :=
  (Outspoken.keyword .UPDATE).bind fun _ => identifier_outspoken.bind fun _ =>
    (Outspoken.keyword .SET).bind fun _ => assignment_outspoken.commaList.bind fun _ =>
      filter_outspoken.bind fun _ => .pure _

theorem deletion_outspoken : Outspoken deletion :=
  (Outspoken.keyword .DELETE).bind fun _ => (Outspoken.readIf rfl).bind fun _ =>
    (Outspoken.keyword .FROM).bind fun _ => identifier_outspoken.bind fun _ =>
      filter_outspoken.bind fun _ => .pure _

theorem method_outspoken : Outspoken (ledBy .USING identifier) := identifier_outspoken.ledBy .USING

theorem tableEntry_outspoken : Outspoken tableEntry := by
  refine (Outspoken.ledBy .INDEX ((Outspoken.readIf rfl).bind fun _ =>
    method_outspoken.bind fun _ => names_outspoken.bind fun _ => .pure _)).bind
      fun led => ?_
  cases led with
  | some index => exact .pure _
  | none => exact identifier_outspoken.bind fun _ => .pure _

theorem tableBody_outspoken : Outspoken tableBody :=
  (Outspoken.keyword .CREATE).bind fun _ => (Outspoken.keyword .TABLE).bind fun _ =>
    identifier_outspoken.bind fun _ => (Outspoken.symbol rfl).bind fun _ =>
      tableEntry_outspoken.commaList.bind fun _ => (Outspoken.symbol rfl).bind fun _ =>
        .pure _

theorem indexDefinition_outspoken : Outspoken indexDefinition :=
  (Outspoken.keyword .CREATE).bind fun _ => (Outspoken.keyword .INDEX).bind fun _ =>
    (Outspoken.readIf rfl).bind fun _ => (Outspoken.keyword .ON).bind fun _ =>
      identifier_outspoken.bind fun _ => method_outspoken.bind fun _ =>
        names_outspoken.bind fun _ => .pure _

/-! ## Whole inputs -/

def Outcome.Announces (outcome : Outcome α) : Prop :=
  ∀ trail failure, outcome = ⟨trail, .error failure⟩ →
    failure.isPublic = true ∧ Outdone 0 (trail.filterMap Event.failure? ++ [failure])

theorem Outspoken.announces {rule : Rule α} (h : Outspoken rule) {cursor : Cursor}
    (ready : cursor.Ready) : (rule cursor).Announces := by
  intro trail failure run
  have outspoken := h ready
  rw [run] at outspoken
  cases outspoken with
  | error shown _ outdone => exact ⟨shown, outdone⟩

private theorem firstOfFrom_announces {expected : Expectation} (shown : expected.isPublic = true)
    {cursor : Cursor} {best : Option Failure} (open_ : ∀ failure ∈ best, failure.isPublic = true)
    {alternatives : List (String × Rule α)}
    (each : ∀ alternative ∈ alternatives, (alternative.2 cursor).Announces) :
    (firstOfFrom expected cursor best alternatives).Announces := by
  intro trail failure run
  induction alternatives generalizing best trail with
  | nil =>
      obtain ⟨final, failed, origin⟩ := firstOfFrom_nil α expected cursor best
      rw [failed] at run
      cases run
      have open' : failure.isPublic = true := by
        rcases origin with rfl | rfl
        · exact shown
        · exact open_ failure rfl
      exact ⟨open', .single open'⟩
  | cons alternative others ih =>
      rw [List.forall_mem_cons] at each
      rcases run_cases alternative.2 cursor with
        ⟨inner, found, failed⟩ | ⟨inner, value, after, read⟩
      · rw [firstOfFrom_cons_error failed] at run
        obtain ⟨rest, later, rfl⟩ := Outcome.behind_eq run
        obtain ⟨shown', outdone⟩ := each.1 inner found failed
        -- the further of two failures that can be announced is one of the two
        have best' : ∀ candidate ∈ some (Rule.further best found),
            candidate.isPublic = true := by
          rintro _ ⟨⟩
          unfold Rule.further
          cases best with
          | none => exact shown'
          | some best =>
              simp only
              split
              · exact shown'
              · exact open_ best rfl
        obtain ⟨final, outdone'⟩ := ih best' each.2 rest later
        refine ⟨final, ?_⟩
        rw [List.filterMap_append, List.append_assoc, List.filterMap_append]
        exact outdone.append outdone'
      · rw [firstOfFrom_cons_ok read] at run
        cases run

private theorem tableBody_quiet : Quiet tableBody :=
  (Quiet.read _ _).bind fun _ => (Quiet.read _ _).bind fun _ => (Quiet.read _ _).bind fun _ =>
    (Quiet.read _ _).bind fun _ => tableEntry_quiet.commaList.bind fun _ =>
      (Quiet.read _ _).bind fun _ => .pure _

theorem wholeTable_announces {cursor : Cursor} (ready : cursor.Ready) :
    (wholeTable cursor).Announces := by
  intro trail failure run
  rcases tableDefinition_cases cursor with ⟨inner, final, read, refused⟩ |
    ⟨inner, name, entries, after, span, read, -, refused⟩ |
    ⟨inner, name, entries, after, read, -, passed⟩
  · rw [wholeTable_of_error refused] at run
    cases run
    exact tableBody_outspoken.announces ready _ _ read
  · rw [wholeTable_of_error refused] at run
    cases run
    -- the refusal points back at bytes that were read, but nothing was given up before
    obtain rfl : trail = [] := by
      have quiet := tableBody_quiet cursor
      rwa [read] at quiet
    exact ⟨rfl, .single rfl⟩
  · have whole : (complete tableBody cursor).Announces :=
      tableBody_outspoken.complete.announces ready
    rw [wholeTable_of_ok passed] at run
    obtain ⟨rest, last, rfl⟩ := Outcome.behind_eq run
    refine whole _ failure ?_
    have same : (ended (name, entries) after : Outcome (String × List TableEntry)) =
        ⟨rest, .error failure⟩ := by
      unfold ended at last ⊢
      split at last
      · cases last
      · next open_ =>
          cases last
          rw [if_neg open_]
    rw [complete, bind_of_ok read, same, Outcome.behind_mk]

theorem statement_announces {cursor : Cursor} (ready : cursor.Ready) :
    (statement cursor).Announces := by
  have spoken {β : Type} {rule : Rule β} (wrap : β → CompactSql.Statement)
      (h : Outspoken rule) : (complete (wrap <$> rule) cursor).Announces :=
    (h.map wrap).complete.announces ready
  refine firstOfFrom_announces rfl (by simp) ?_
  simp only [List.mem_cons, List.not_mem_nil, or_false, forall_eq_or_imp, forall_eq]
  exact ⟨spoken _ selection_outspoken, spoken _ insertion_outspoken, spoken _ update_outspoken,
    spoken _ deletion_outspoken, wholeTable_announces ready, spoken _ indexDefinition_outspoken⟩

private theorem foldl_keepFurthest {trail : List Event} {first : Option Failure} {best : Failure}
    (h : trail.foldl Event.keepFurthest first = some best) :
    (first = some best ∧ ∀ other ∈ trail.filterMap Event.failure?,
        other.span.start < best.span.start) ∨
      ∃ front back, trail.filterMap Event.failure? = front ++ best :: back ∧
        ∀ other ∈ back, other.span.start < best.span.start := by
  -- the last of those that got furthest wins, being from the rule around the others
  induction trail generalizing first with
  | nil => exact .inl ⟨h, by simp⟩
  | cons event trail ih =>
      cases event with
      | rejected name => exact ih h
      | backtracked restored failure =>
          rcases ih h with ⟨kept, less⟩ | ⟨front, back, split, less⟩
          · cases first with
            | none =>
                obtain rfl : failure = best := by simpa [Event.keepFurthest] using kept
                exact .inr ⟨[], _, rfl, less⟩
            | some earlier =>
                by_cases far : earlier.span.start ≤ failure.span.start
                · obtain rfl : failure = best := by
                    simpa [Event.keepFurthest, far] using kept
                  exact .inr ⟨[], _, rfl, less⟩
                · obtain rfl : earlier = best := by
                    simpa [Event.keepFurthest, far] using kept
                  refine .inl ⟨rfl, List.forall_mem_cons.mpr ⟨Nat.lt_of_not_le far, less⟩⟩
          · refine .inr ⟨failure :: front, back, ?_, less⟩
            exact congrArg (failure :: ·) split

theorem isPublic_of_run {rule : Rule α} {tokens : List Token} {reported : Failure}
    (h : (rule (.ofTokens tokens)).Announces)
    (result : (rule.run tokens).result = .error reported) : reported.isPublic = true := by
  rcases run_cases rule (.ofTokens tokens) with
    ⟨trail, failure, run⟩ | ⟨trail, value, after, run⟩
  · obtain ⟨shown, outdone⟩ := h trail failure run
    rw [Rule.run, run] at result
    simp only at result
    split at result
    · cases result
      exact shown
    · next candidate found =>
        split at result
        · next further =>
            cases result
            rcases foldl_keepFurthest found with ⟨none, -⟩ | ⟨front, back, split, less⟩
            · cases none
            · rw [split, List.append_assoc] at outdone
              refine outdone.isPublic_of_last ?_
              intro other among
              rcases List.mem_append.mp among with among | among
              · exact less other among
              · obtain rfl := List.mem_singleton.mp among
                exact further
        · cases result
          exact shown
  · rw [run_of_ok run] at result
    cases result

end CompactSql.Grammar
