import CompactSql.Proofs.Grammar.Attainment
import CompactSql.Proofs.RoundTrip

/-!
# Reading the subject of a predicate once

A predicate can be read by ordered choice: a comparison is tried, and if that fails a range
test is tried from where the comparison began, which reads the subject again.  Reading the
subject once and letting the token behind it decide comes to the same: one of the two
alternatives is what is read, and the other one gets no further than that token.
-/

namespace CompactSql.Grammar

open Rule

variable {α : Type}

def comparisonRest (subject : Expr) : Rule Expr := do
  let op ← read .comparison comparisonOp
  return .binary op subject (← arithmetic)

def comparison : Rule Expr := do
  let subject ← arithmetic
  comparisonRest subject

def rangeRest (subject : Expr) : Rule Expr := do
  keyword .BETWEEN
  let lower ← arithmetic
  keyword .AND
  let upper ← arithmetic
  return .between subject lower upper

def range : Rule Expr := do
  let subject ← arithmetic
  rangeRest subject

/-- A comparison or else, from where it began, a range test. -/
def reparsing (expected : Expectation) : Rule Expr :=
  firstOf expected [("comparison", comparison), ("range", range)]

def conditionWith (predicate : Rule Expr) : Rule Expr := climb logicalPower predicate 0

theorem arithmetic_matches : Matches arithmetic arithmetic :=
  .of_recognizes arithmetic_recognizes

theorem comparisonRest_matches (subject : Expr) :
    Matches (comparisonRest subject) (comparisonRest subject) :=
  (Matches.read rfl).bind fun op => arithmetic_matches.map (Expr.binary op subject)

theorem rangeRest_matches (subject : Expr) : Matches (rangeRest subject) (rangeRest subject) :=
  (Matches.keyword .BETWEEN).bind fun _ => arithmetic_matches.bind fun lower =>
    (Matches.keyword .AND).bind fun _ => arithmetic_matches.map (Expr.between subject lower)

/-- The alternative that is not taken fails, and gets no further. -/
structure Yields (rule other : Rule α) (cursor : Cursor) : Prop where
  fails : Fails other cursor
  behind : Standing cursor → ∀ place, (other cursor).Attains place → (rule cursor).Attains place

private theorem Yields.of_refused {rest : Expr → Rule Expr} {other : Rule Expr}
    {expected : Expectation} {cursor after : Cursor} {trail : List Event} {subject : Expr}
    (hrest : Matches (rest subject) (rest subject))
    (run : arithmetic cursor = ⟨trail, .ok (subject, after)⟩)
    (refused : other cursor = ⟨trail, .error (.unexpected expected after.current)⟩) :
    Yields (arithmetic >>= rest) other cursor := by
  refine ⟨⟨_, _, refused⟩, fun standing place => ?_⟩
  have stands := (arithmetic_matches cursor standing).onward.standing subject after (by rw [run])
  rw [refused, bind_of_ok run, Outcome.attains_error, Outcome.attains_behind]
  exact Or.imp_right (hrest after stands).onward.attains.mono

/-- A predicate is read as one of the two alternatives, and the other one yields to it. -/
theorem predicate_cases (cursor : Cursor) :
    (predicate cursor = comparison cursor ∧ Yields comparison range cursor) ∨
      (predicate cursor = range cursor ∧ Yields range comparison cursor) := by
  rcases run_cases arithmetic cursor with
    ⟨trail, failure, run⟩ | ⟨trail, subject, ⟨index, tokens⟩, run⟩
  · have predicate_failed : predicate cursor = ⟨trail, .error failure⟩ := bind_of_error run
    have comparison_failed : comparison cursor = ⟨trail, .error failure⟩ := bind_of_error run
    have range_failed : range cursor = ⟨trail, .error failure⟩ := bind_of_error run
    refine .inl ⟨?_, ⟨_, _, range_failed⟩, fun _ place attained => ?_⟩
    · rw [predicate_failed, comparison_failed]
    · rwa [comparison_failed, ← range_failed]
  · have predicate_run : predicate cursor = _ := bind_of_ok run
    have comparison_run : comparison cursor =
        (comparisonRest subject ⟨index, tokens⟩).behind trail := bind_of_ok run
    have range_run : range cursor = (rangeRest subject ⟨index, tokens⟩).behind trail :=
      bind_of_ok run
    -- the token behind the subject decides
    by_cases between : nextKind tokens = .keyword .BETWEEN
    · have refused : comparisonOp (nextKind tokens) = none := by rw [between]; rfl
      have accepted : ofKeyword .BETWEEN (nextKind tokens) = some () :=
        ofKind_eq_some.mpr between
      have stops : comparison cursor =
          ⟨trail, .error (.unexpected .comparison (Cursor.mk index tokens).current)⟩ := by
        rw [comparison_run, comparisonRest, bind_of_error (read_of_none index refused),
          Outcome.behind_mk, List.append_nil]
      have same : predicate cursor = range cursor := by
        rw [predicate_run, range_run, readIf_bind_none index refused]
        exact congrArg _ (readIf_bind_of_some (.keyword .BETWEEN) accepted)
      exact .inr ⟨same, .of_refused (rangeRest_matches subject) run stops⟩
    · have refused : ofKeyword .BETWEEN (nextKind tokens) = none := ofKind_eq_none.mpr between
      have failed : rangeRest subject ⟨index, tokens⟩ = _ :=
        bind_of_error (read_of_none index refused)
      have stops : range cursor =
          ⟨trail, .error (.unexpected (.keyword .BETWEEN) (Cursor.mk index tokens).current)⟩ := by
        rw [range_run, failed, Outcome.behind_mk, List.append_nil]
      have same : predicate cursor = comparison cursor := by
        rw [predicate_run, comparison_run]
        refine congrArg _ ?_
        cases sign : comparisonOp (nextKind tokens) with
        | some op => exact readIf_bind_of_some .comparison sign
        | none =>
            rw [readIf_bind_none index sign, comparisonRest,
              bind_of_error (read_of_none index sign)]
            exact readIf_bind_none index refused
      exact .inl ⟨same, .of_refused (comparisonRest_matches subject) run stops⟩

section Reparsing

variable (expected : Expectation)

theorem reparsing_result (cursor : Cursor) (read : Expr × Cursor) :
    (predicate cursor).result = .ok read ↔ (reparsing expected cursor).result = .ok read := by
  have found (h : (reparsing expected cursor).result = .ok read) :
      (∃ trail, comparison cursor = ⟨trail, .ok read⟩) ∨
        ∃ trail, range cursor = ⟨trail, .ok read⟩ := by
    obtain ⟨trail, run⟩ := Outcome.result_eq_ok.mp h
    obtain ⟨alternative, member, inner, found⟩ := exists_of_firstOfFrom_ok run
    simp only [List.mem_cons, List.not_mem_nil, or_false] at member
    rcases member with rfl | rfl
    · exact .inl ⟨inner, found⟩
    · exact .inr ⟨inner, found⟩
  have failed {rule : Rule Expr} (fails : Fails rule cursor) :
      ¬ ∃ trail, rule cursor = ⟨trail, .ok read⟩ := by
    obtain ⟨_, _, run⟩ := fails
    simp [run]
  rcases predicate_cases cursor with ⟨taken, yields⟩ | ⟨taken, yields⟩
  · rw [taken, Outcome.result_eq_ok]
    constructor
    · intro chosen
      exact Outcome.result_eq_ok.mpr (Chosen.take chosen none)
    · intro h
      exact (found h).resolve_right (failed yields.fails)
  · rw [taken, Outcome.result_eq_ok]
    constructor
    · intro chosen
      exact Outcome.result_eq_ok.mpr (Chosen.skip yields.fails (.take chosen) none)
    · intro h
      exact (found h).resolve_left (failed yields.fails)

theorem predicate_matches : Matches predicate (reparsing expected) := by
  intro cursor standing
  have onward := (Matches.of_recognizes predicate_recognizes cursor standing).onward
  refine ⟨onward, reparsing_result expected cursor, fun place => ?_⟩
  have begins : place ≤ cursor.current.span.start → (predicate cursor).Attains place :=
    onward.attains.mono
  rw [reparsing, attains_firstOf]
  rcases predicate_cases cursor with ⟨taken, yields⟩ | ⟨taken, yields⟩
  · rw [taken] at begins ⊢
    constructor
    · exact .inl
    · rintro (own | ⟨-, other | ⟨-, near⟩⟩)
      · exact own
      · exact yields.behind standing place other
      · exact begins near
  · rw [taken] at begins ⊢
    constructor
    · exact fun own => .inr ⟨yields.fails, .inl own⟩
    · rintro (other | ⟨-, own | ⟨-, near⟩⟩)
      · exact yields.behind standing place other
      · exact own
      · exact begins near

theorem reparsing_noLonger : NoLonger (reparsing expected) := by
  intro cursor trail tree after run
  have read := (reparsing_result expected cursor (tree, after)).mpr (by rw [run])
  obtain ⟨trail', run'⟩ := Outcome.result_eq_ok.mp read
  exact predicate_noLonger run'

theorem condition_matches : Matches condition (conditionWith (reparsing expected)) := by
  rw [condition, conditionWith, logical_eq_tier predicate_noLonger,
    logical_eq_tier (reparsing_noLonger expected)]
  exact (predicate_matches expected).tier rfl predicate_noLonger (reparsing_noLonger expected)

end Reparsing

/-! ## Statements over a rule for predicates -/

section Statements

variable (condition : Rule Expr)

def joinWith : Rule Join := do
  keyword .JOIN
  let table ← identifier
  keyword .ON
  return ⟨table, ← condition⟩

def tableSourceWith : Rule TableSource := do
  keyword .FROM
  let table ← identifier
  let joins ← repeated (ofKeyword .LEFT) fun _ => joinWith condition
  return ⟨table, joins⟩

def groupingWith : Rule (List Expr × Option Expr) := do
  match ← readIf (ofKeyword .GROUP) with
  | none => return ([], none)
  | some _ =>
      keyword .BY
      let fields ← commaList groupField
      return (fields, ← ledBy .HAVING condition)

def selectionWith : Rule Selection := do
  keyword .SELECT
  let items ← selectItems
  let source ← tableSourceWith condition
  let filter ← ledBy .WHERE condition
  let (groupBy, having) ← groupingWith condition
  let orderBy ← sorting
  return ⟨items, source, filter, groupBy, having, orderBy⟩

def updateWith : Rule Update := do
  keyword .UPDATE
  let table ← identifier
  keyword .SET
  let assignments ← commaList assignment
  return ⟨table, assignments, ← ledBy .WHERE condition⟩

def deletionWith : Rule Deletion := do
  keyword .DELETE
  let _ ← readIf (ofKind .star)
  keyword .FROM
  let table ← identifier
  return ⟨table, ← ledBy .WHERE condition⟩

/-- The rule for statements, its conditions in `WHERE`, `ON` and `HAVING` left open. -/
def statementWith : Rule Statement :=
  firstOf .statement
    [("SELECT", complete (.select <$> selectionWith condition)),
      ("INSERT", complete (.insert <$> insertion)),
      ("UPDATE", complete (.update <$> updateWith condition)),
      ("DELETE", complete (.delete <$> deletionWith condition)),
      ("CREATE TABLE", complete (.createTable <$> tableDefinition)),
      ("CREATE INDEX", complete (.createIndex <$> indexDefinition))]

end Statements

theorem conditionWith_predicate : conditionWith predicate = condition := rfl

theorem statementWith_condition : statementWith condition = statement := rfl

section Congruence

variable {condition condition' : Rule Expr}

private theorem joinWith_noLonger (h : NoLonger condition) : NoLonger (joinWith condition) :=
  (NoLonger.read _ _).bind fun _ => (NoLonger.read _ _).bind fun table =>
    (NoLonger.read _ _).bind fun _ => h.bind fun on => .pure (Join.mk table on)

theorem joinWith_matches (h : Matches condition condition') :
    Matches (joinWith condition) (joinWith condition') :=
  (Matches.keyword .JOIN).bind fun _ => Matches.identifier.bind fun table =>
    (Matches.keyword .ON).bind fun _ => h.map (Join.mk table)

theorem tableSourceWith_matches (shrinks : NoLonger condition) (shrinks' : NoLonger condition')
    (h : Matches condition condition') :
    Matches (tableSourceWith condition) (tableSourceWith condition') :=
  (Matches.keyword .FROM).bind fun _ => Matches.identifier.bind fun table =>
    (Matches.repeated rfl (fun _ => joinWith_noLonger shrinks)
      (fun _ => joinWith_noLonger shrinks') fun _ => joinWith_matches h).map (TableSource.mk table)

theorem groupingWith_matches (h : Matches condition condition') :
    Matches (groupingWith condition) (groupingWith condition') := by
  have fields : Matches (commaList groupField) (commaList groupField) :=
    .of_recognizes fun bound => (groupField_recognizes bound).commaList (by decide)
  refine (Matches.readIf rfl).bind ?_
  rintro (_ | _)
  · exact .pure ([], none)
  · exact (Matches.keyword .BY).bind fun _ => fields.bind fun fields =>
      (h.ledBy .HAVING).map (Prod.mk fields)

theorem selectionWith_matches (shrinks : NoLonger condition) (shrinks' : NoLonger condition')
    (h : Matches condition condition') :
    Matches (selectionWith condition) (selectionWith condition') :=
  (Matches.keyword .SELECT).bind fun _ =>
    (Matches.of_recognizes selectItems_recognizes).bind fun items =>
    (tableSourceWith_matches shrinks shrinks' h).bind fun source =>
    (h.ledBy .WHERE).bind fun filter =>
    (groupingWith_matches h).bind fun (groupBy, having) =>
    (Matches.of_recognizes sorting_recognizes).map
      (Selection.mk items source filter groupBy having)

theorem updateWith_matches (h : Matches condition condition') :
    Matches (updateWith condition) (updateWith condition') := by
  have assignments : Matches (commaList assignment) (commaList assignment) :=
    .of_recognizes fun bound => (assignment_recognizes bound).commaList (by decide)
  exact (Matches.keyword .UPDATE).bind fun _ => Matches.identifier.bind fun table =>
    (Matches.keyword .SET).bind fun _ => assignments.bind fun assignments =>
      (h.ledBy .WHERE).map (Update.mk table assignments)

theorem deletionWith_matches (h : Matches condition condition') :
    Matches (deletionWith condition) (deletionWith condition') :=
  (Matches.keyword .DELETE).bind fun _ => (Matches.readIf rfl).bind fun _ =>
    (Matches.keyword .FROM).bind fun _ => Matches.identifier.bind fun table =>
      (h.ledBy .WHERE).map (Deletion.mk table)

theorem statementWith_abreast (shrinks : NoLonger condition) (shrinks' : NoLonger condition')
    (h : Matches condition condition') {cursor : Cursor} (standing : Standing cursor) :
    (statementWith condition cursor).Abreast (statementWith condition' cursor) := by
  have whole {α : Type} {rule rule' : Rule α} (build : α → Statement) (h : Matches rule rule') :
      (complete (build <$> rule) cursor).Abreast (complete (build <$> rule') cursor) :=
    ((h.map build).complete cursor standing).abreast
  exact .firstOf (.cons (whole .select (selectionWith_matches shrinks shrinks' h))
    (.cons (.refl _) (.cons (whole .update (updateWith_matches h))
      (.cons (whole .delete (deletionWith_matches h)) (.cons (.refl _) (.cons (.refl _) .nil))))))

end Congruence

/-! ## Whole inputs -/

theorem run_agree {tokens : List Token} (standing : Standing (.ofTokens tokens))
    (expected : Expectation) :
    Agree ((complete condition).run tokens).result
        ((complete (conditionWith (reparsing expected))).run tokens).result ∧
      Agree (statement.run tokens).result
        ((statementWith (conditionWith (reparsing expected))).run tokens).result := by
  have h := condition_matches expected
  have shrinks : NoLonger condition := climb_noLonger predicate_noLonger 0
  have shrinks' : NoLonger (conditionWith (reparsing expected)) :=
    climb_noLonger (reparsing_noLonger expected) 0
  rw [← statementWith_condition]
  exact ⟨(h.complete _ standing).abreast.run_agree,
    (statementWith_abreast shrinks shrinks' h standing).run_agree⟩

end CompactSql.Grammar

namespace CompactSql

open Grammar
open Rule (complete)

/-- Reading the subject of a predicate once and reading it again for each alternative come to
the same.  A predicate is read as the same tree and up to the same place wherever it stands, and
around it conditions and statements are accepted with the same trees and rejected with failures
that begin at one place. -/
theorem reparsing_agrees (expected : Expectation) :
    (∀ cursor tree after, (predicate cursor).result = .ok (tree, after) ↔
      (reparsing expected cursor).result = .ok (tree, after)) ∧
    conditionWith predicate = condition ∧ statementWith condition = statement ∧
    ∀ text,
      Agree (parseCondition text)
        (readText (complete (conditionWith (reparsing expected))) text) ∧
      Agree (parse text)
        (readText (statementWith (conditionWith (reparsing expected))) text) := by
  refine ⟨fun cursor tree after => reparsing_result expected cursor (tree, after),
    conditionWith_predicate, statementWith_condition, fun text => ?_⟩
  cases cut : tokenize text with
  | error failure =>
      have condition : parseCondition text = .error failure := by
        rw [parseCondition, cut]
        rfl
      have other {α : Type} (rule : Grammar.Rule α) : readText rule text = .error failure := by
        rw [readText, cut]
        rfl
      rw [condition, parse_of_fault cut, other, other]
      exact ⟨rfl, rfl⟩
  | ok tokens =>
      have condition : parseCondition text = ((complete Grammar.condition).run tokens).result := by
        rw [parseCondition, cut]
        rfl
      rw [condition, parse_of_tokenize cut, readText_of_tokenize cut, readText_of_tokenize cut]
      exact run_agree ⟨0, tokenize_placed cut⟩ expected

end CompactSql
