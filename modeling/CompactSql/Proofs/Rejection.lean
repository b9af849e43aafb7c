import CompactSql.Proofs.Grammar.Report
import CompactSql.Proofs.Token.Cutting

/-!
# Where a rejected text fails

A text that is cut into tokens but not read is reported at the first token that
no accepted token list has there.
-/

namespace CompactSql

open Grammar

variable {α : Type}

theorem Placed.starts {tokens : List Token} (h : Placed 0 tokens) :
    tokens.Pairwise fun first second => first.span.start < second.span.start :=
  h.pairwise.imp fun both => both.1

def PointsAtToken (read : List Token → Reading α) (tokens : List Token)
    (failure : Failure) : Prop :=
  ∃ index token, tokens[index]? = some token ∧ Hopeless read tokens index ∧
    Concerns token failure

theorem reported_of_complete {rule : Grammar.Rule α} {language : Grammar.Language α}
    {extending : List Token.Kind} (h : ∀ bound, Recognizes bound rule language extending)
    (outside : .eof ∉ extending) {tokens : List Token} (placed : Placed 0 tokens)
    {failure : Failure} (result : ((Rule.complete rule).run tokens).result = .error failure) :
    PointsAtToken (Rule.complete rule).run tokens failure := by
  refine (Judges.complete_rule h outside).hopeless placed.terminated placed.starts ?_ result
  intro other among
  obtain ⟨front, token, back, -, concerns, -⟩ :=
    complete_blames h placed.terminated among
  rw [concerns.1]
  exact Option.some_ne_none _

/-- The failure refuses a table without a field: the first hopeless token closes the
list of the table, and the span is that of the list with its parentheses. -/
def PointsAtList (tokens : List Token) (failure : Failure) : Prop :=
  ∃ create table name opening inner closing rest,
    tokens = create :: table :: name :: opening :: (inner ++ closing :: rest) ∧
      Fieldless create table name opening inner closing ∧
      Hopeless readStatement tokens (inner.length + 4) ∧
      failure.complaint.found? = none ∧
      failure.message = "CREATE TABLE requires at least one field" ∧
      failure.span = ⟨opening.span.start, closing.span.stop⟩

private theorem fieldless_reported {create table name opening closing : Token}
    {inner rest : List Token} {failure : Failure}
    (h : Fieldless create table name opening inner closing)
    (placed : Placed 0 (create :: table :: name :: opening :: (inner ++ closing :: rest)))
    (refused : ⟨.noFields, opening.span.merge closing.span⟩ ∈ (statement (.ofTokens
      (create :: table :: name :: opening :: (inner ++ closing :: rest)))).failures)
    (result : (statement.run (create :: table :: name :: opening ::
      (inner ++ closing :: rest))).result = .error failure) :
    failure = ⟨.noFields, ⟨opening.span.start, closing.span.stop⟩⟩ := by
  have order := placed.pairwise
  simp only [List.pairwise_cons, List.mem_cons, List.mem_append] at order
  obtain ⟨hcreate, htable, hname, hopening, -⟩ := order
  have whole := placed.le_start closing (by simp)
  have last := hopening closing (.inr (.inl rfl))
  have merged : opening.span.merge closing.span =
      ⟨opening.span.start, closing.span.stop⟩ := by
    simp only [Span.merge, Span.mk.injEq]
    omega
  rw [merged] at refused
  rcases Rule.run_cases statement (.ofTokens (create :: table :: name :: opening ::
    (inner ++ closing :: rest))) with ⟨trail, final, run⟩ | ⟨trail, tree, after, run⟩
  · obtain ⟨found, result', member, most⟩ := run_of_error run
    obtain rfl : failure = found := by simpa [result] using result'
    -- the refusal begins behind the two tokens that the other failures are about
    have further := most _ refused
    rcases failures_of_fieldless h member with concerns | concerns | same
    · rw [concerns.2] at further
      have := hcreate opening (by simp)
      simp only at further
      omega
    · rw [concerns.2] at further
      have := htable opening (by simp)
      simp only at further
      omega
    · rw [same, merged]
  · rw [run_of_ok run] at result
    cases result

theorem statement_reported {tokens : List Token} (placed : Placed 0 tokens)
    {failure : Failure} (result : (readStatement tokens).result = .error failure) :
    PointsAtToken readStatement tokens failure ∨ PointsAtList tokens failure := by
  by_cases talks : ∀ other ∈ (statement (.ofTokens tokens)).failures,
      other.complaint.found? ≠ none
  · exact .inl
      (statement_judges.hopeless placed.terminated placed.starts talks result)
  · simp only [ne_eq, Classical.not_forall, Classical.not_not] at talks
    obtain ⟨silent, among, unfound⟩ := talks
    obtain ⟨create, table, name, opening, inner, closing, rest, rfl, fieldless⟩ :=
      fieldless_of_silent placed.terminated among unfound
    obtain rfl : silent = ⟨.noFields, opening.span.merge closing.span⟩ := by
      rcases failures_of_fieldless fieldless among with concerns | concerns | same
      · simp [concerns.1] at unfound
      · simp [concerns.1] at unfound
      · exact same
    obtain rfl := fieldless_reported fieldless placed among result
    exact .inr ⟨create, table, name, opening, inner, closing, rest, rfl, fieldless,
      fieldless.hopeless, rfl, rfl, rfl⟩

/-- A rejected text is reported at the first token that makes it hopeless: the kinds
before it begin some accepted list, and with its own kind no accepted list begins.
Only the refusal of a table without a field is about a list, whose closing
parenthesis is that token. -/
theorem rejection_pinpointed (text : String) (tokens : List Token)
    (cut : tokenize text = .ok tokens) :
    (∀ failure, parse text = .error failure →
      PointsAtToken readStatement tokens failure ∨ PointsAtList tokens failure) ∧
    (∀ failure, parseExpression text = .error failure →
      PointsAtToken readExpression tokens failure) ∧
    ∀ failure, parseCondition text = .error failure →
      PointsAtToken readCondition tokens failure := by
  have placed := tokenize_placed cut
  refine ⟨fun failure result => ?_, fun failure result => ?_, fun failure result => ?_⟩
  · have rejected : (readStatement tokens).result = .error failure := by
      rwa [parse, cut] at result
    exact statement_reported placed rejected
  · have rejected : (readExpression tokens).result = .error failure := by
      rwa [parseExpression, cut] at result
    exact reported_of_complete arithmetic_recognizes (by decide) placed rejected
  · have rejected : (readCondition tokens).result = .error failure := by
      rwa [parseCondition, cut] at result
    exact reported_of_complete condition_recognizes (by decide) placed rejected

def indexesAlone : List Token :=
  [⟨.keyword .CREATE, ⟨0, 6⟩⟩, ⟨.keyword .TABLE, ⟨7, 12⟩⟩, ⟨.identifier "t", ⟨13, 14⟩⟩,
    ⟨.leftParen, ⟨15, 16⟩⟩, ⟨.keyword .INDEX, ⟨16, 21⟩⟩, ⟨.leftParen, ⟨22, 23⟩⟩,
    ⟨.identifier "a", ⟨23, 24⟩⟩, ⟨.rightParen, ⟨24, 25⟩⟩, ⟨.rightParen, ⟨25, 26⟩⟩,
    ⟨.eof, ⟨26, 26⟩⟩]

theorem rejection_pinpointed_indexes_alone :
    tokenize "CREATE TABLE t (INDEX (a))" = .ok indexesAlone ∧
    parse "CREATE TABLE t (INDEX (a))" = .error ⟨.noFields, ⟨15, 26⟩⟩ ∧
    (PointsAtToken readStatement indexesAlone ⟨.noFields, ⟨15, 26⟩⟩ ∨
      PointsAtList indexesAlone ⟨.noFields, ⟨15, 26⟩⟩) :=
  ⟨by decide +kernel, by decide +kernel,
    (rejection_pinpointed "CREATE TABLE t (INDEX (a))" indexesAlone
      (by decide +kernel)).1 _ (by decide +kernel)⟩

end CompactSql
