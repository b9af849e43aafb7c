import Mathlib.Data.List.Induction
import Mathlib.Data.List.Nodup
import CompactSql.Proofs.Grammar.Announcement
import CompactSql.Proofs.Grammar.Promise
import CompactSql.Proofs.Rejection

/-!
# Honest expectations

A report announces a class of kinds.  The token that it is about is not of the class,
and any kind of the class in its place would have kept the text hopeful: what stands
before it, with that kind behind, begins an accepted token list.  A parenthesis behind
the entries of a table is promised too lightly, as all the entries may be indexes.
-/

namespace CompactSql

open Grammar

variable {α : Type}

namespace Expectation

def marks : List Token.Kind :=
  [.plus, .minus, .star, .slash, .eq, .lt, .ltEq, .gt, .gtEq, .leftParen, .rightParen, .comma,
    .dot]

def announced : List Expectation :=
  Keyword.all.map keyword ++ marks.map symbol ++
    [identifier, literal, value, fieldName, comparison, statement, endOfInput]

private theorem mem_announced {expected : Expectation} (shown : expected.isPublic = true) :
    expected ∈ announced := by
  cases expected with
  | keyword word =>
      simp only [announced, List.mem_append, List.mem_map]
      exact .inl (.inl ⟨word, Keyword.mem_all word, rfl⟩)
  | symbol kind =>
      cases kind <;> first | decide | cases shown
  | integer | string | other _ => cases shown
  | _ => decide

private theorem announced_texts : (announced.map text).Nodup := by decide +kernel

theorem eq_of_text {expected other : Expectation} (shown : expected.isPublic = true)
    (shown' : other.isPublic = true) (same : other.text = expected.text) : other = expected :=
  List.inj_on_of_nodup_map announced_texts (mem_announced shown') (mem_announced shown) same

end Expectation

def noExemption (_ : List Token.Kind) (_ : Token.Kind) : Prop := False

/-- The parenthesis that would end the list of a table whose entries are all indexes. -/
def endsIndexes (front : List Token.Kind) (kind : Token.Kind) : Prop :=
  kind = .rightParen ∧ IndexesAlone front

/-- The failure announces a class of kinds by its text.  The token at the index, which it
is about, is not of the class, and every kind of the class, the exempted ones apart,
goes on to an accepted list there. -/
structure Honest (read : List Token → Reading α) (exempt : List Token.Kind → Token.Kind → Prop)
    (tokens : List Token) (failure : Failure) (index : Nat) (expected : Expectation) :
    Prop where
  expects : failure.complaint.expected? = some expected
  announced : expected.isPublic = true
  named : ∀ other : Expectation, other.isPublic = true → other.text = expected.text →
    other = expected
  points : ∃ token, tokens[index]? = some token ∧ Concerns token failure ∧
    ¬ expected.Admits token.kind
  keeps : ∀ kind, expected.Admits kind →
    (Begins read (kinds (tokens.take index) ++ [kind]) ↔
      ¬ exempt (kinds (tokens.take index)) kind)
  /-- Where the end of the input is announced, it would have been accepted. -/
  ends : expected = .endOfInput → Accepted read (kinds (tokens.take index) ++ [.eof])

private theorem Grammar.Begins.accepted {read : List Token → Reading α} {front : List Token.Kind}
    (h : Begins read (front ++ [.eof])) : Accepted read (front ++ [.eof]) := by
  obtain ⟨back, tokens, value, terminated, split, result⟩ := h
  obtain ⟨body, last, rfl, final, inner⟩ := Terminated.iff_append.mp terminated
  refine ⟨body ++ [last], value, terminated, ?_, result⟩
  have ends : kinds body ++ [.eof] = front ++ [.eof] ++ back := by
    simpa [final] using split
  cases back using List.reverseRecOn with
  | nil => simpa [final] using ends
  | append_singleton back kind _ =>
      -- an end before the last kind would be one of the body
      rw [← List.append_assoc] at ends
      obtain ⟨same, -⟩ := List.append_inj' ends rfl
      have member : .eof ∈ kinds body := by simp [same]
      obtain ⟨token, among, eof⟩ := List.mem_map.mp member
      exact absurd eof (inner token among)

theorem Placed.index_eq {tokens front back : List Token} {token other : Token} {index : Nat}
    {failure : Failure} (placed : Placed 0 tokens) (found : tokens[index]? = some token)
    (concerns : Concerns token failure) (split : tokens = front ++ other :: back)
    (concerns' : Concerns other failure) : index = front.length := by
  have starts := List.pairwise_iff_getElem.mp placed.starts
  obtain ⟨inside, rfl⟩ := List.getElem?_eq_some_iff.mp found
  have inside' : front.length < tokens.length := by simp [split]
  have there : tokens[front.length] = other := by simp [split]
  have same : tokens[index].span.start = tokens[front.length].span.start := by
    rw [there, ← concerns.2, ← concerns'.2]
  rcases Nat.lt_trichotomy index front.length with less | equal | more
  · have := starts index front.length inside inside' less
    omega
  · exact equal
  · have := starts front.length index inside' inside more
    omega

theorem honest_of {read : List Token → Reading α}
    {exempt : List Token.Kind → Token.Kind → Prop} {tokens : List Token} {failure : Failure}
    {expected : Expectation} (placed : Placed 0 tokens)
    (points : PointsAtToken read tokens failure)
    (expects : failure.complaint.expected? = some expected)
    (shown : failure.isPublic = true)
    (promise : ∃ front token back, tokens = front ++ token :: back ∧ Concerns token failure ∧
      ¬ exempt (kinds front) token.kind ∧ ∀ kind, expected.Admits kind →
        (Begins read (kinds front ++ [kind]) ↔ ¬ exempt (kinds front) kind))
    (inner : ∀ front, ¬ exempt front .eof) :
    ∃ index, Honest read exempt tokens failure index expected := by
  obtain ⟨index, token, found, hopeless, concerns⟩ := points
  obtain ⟨front, other, back, split, concerns', fair, keeps⟩ := promise
  obtain rfl := placed.index_eq found concerns split concerns'
  have before : kinds (tokens.take front.length) = kinds front := by simp [split]
  have behind : kinds (tokens.take (front.length + 1)) = kinds front ++ [other.kind] := by
    simp [split, List.take_append, List.take_of_length_le]
  have announced : expected.isPublic = true := by simpa [Failure.isPublic, expects] using shown
  refine ⟨front.length, expects, announced, fun _ => Expectation.eq_of_text announced,
    ⟨other, by simp [split], concerns', fun admitted => ?_⟩, by rwa [before], ?_⟩
  · have lost := hopeless.behind
    rw [behind] at lost
    exact lost ((keeps _ admitted).mpr fair)
  · rintro rfl
    rw [before]
    exact ((keeps .eof rfl).mpr (inner _)).accepted

theorem mem_failures_of_run {rule : Grammar.Rule α} {tokens : List Token} {reported : Failure}
    (result : (rule.run tokens).result = .error reported) :
    reported ∈ (rule (.ofTokens tokens)).failures := by
  rcases Rule.run_cases rule (.ofTokens tokens) with
    ⟨trail, failure, run⟩ | ⟨trail, value, after, run⟩
  · obtain ⟨found, result', member, -⟩ := run_of_error run
    obtain rfl : reported = found := by simpa [result] using result'
    exact member
  · rw [run_of_ok run] at result
    cases result

theorem Placed.ready {tokens : List Token} (placed : Placed 0 tokens) :
    (Cursor.ofTokens tokens).Ready :=
  ⟨placed.terminated, placed.starts⟩

theorem complete_honest {rule : Grammar.Rule α} {language : Grammar.Language α}
    {extending : List Token.Kind} (h : ∀ bound, Recognizes bound rule language extending)
    (outside : .eof ∉ extending) (outspoken : Outspoken rule) {tokens : List Token}
    (placed : Placed 0 tokens) {failure : Failure}
    (result : ((Rule.complete rule).run tokens).result = .error failure) :
    ∃ index expected,
      Honest (Rule.complete rule).run noExemption tokens failure index expected := by
  obtain ⟨front, token, back, expected, split, concerns, expects, opens⟩ :=
    complete_promises h placed.terminated (mem_failures_of_run result)
  have shown := isPublic_of_run (outspoken.complete.announces placed.ready) result
  have judges := Judges.complete_rule h outside
  obtain ⟨index, honest⟩ : ∃ index,
      Honest (Rule.complete rule).run noExemption tokens failure index expected :=
    honest_of placed (reported_of_complete h outside placed result) expects shown
      ⟨front, token, back, split, concerns, id, fun kind admitted =>
        ⟨fun _ => id, fun _ => judges.begins_iff.mpr (opens kind admitted)⟩⟩ fun _ => id
  exact ⟨index, expected, honest⟩

private theorem not_endsIndexes_of_reported {front back : List Token} {token : Token}
    {failure : Failure} {expected : Expectation}
    (placed : Placed 0 (front ++ token :: back))
    (failed : failure ∈ (statement (.ofTokens (front ++ token :: back))).failures)
    (concerns : Concerns token failure)
    (expects : failure.complaint.expected? = some expected) :
    ¬ endsIndexes (kinds front) token.kind := by
  rintro ⟨closing, table, row, entries, split, listed, unfilled⟩
  obtain ⟨create, front, rfl, hcreate, split⟩ := List.map_eq_cons_iff.mp split
  obtain ⟨second, front, rfl, hsecond, split⟩ := List.map_eq_cons_iff.mp split
  obtain ⟨name, front, rfl, hname, split⟩ := List.map_eq_cons_iff.mp split
  obtain ⟨opening, inner, rfl, hopening, rfl⟩ := List.map_eq_cons_iff.mp split
  have fieldless : Fieldless create second name opening inner token :=
    ⟨hcreate, hsecond, ⟨table, hname⟩, hopening, ⟨entries, listed, unfilled⟩, closing⟩
  have order := placed.starts
  simp only [List.cons_append, List.pairwise_cons, List.mem_cons, List.mem_append] at order
  have first := order.1 token (by simp)
  have later := order.2.1 token (by simp)
  rcases failures_of_fieldless fieldless failed with about | about | rfl
  · rw [← concerns.2, ← about.2] at first
    omega
  · rw [← concerns.2, ← about.2] at later
    omega
  · cases expects

theorem statement_honest {tokens : List Token} (placed : Placed 0 tokens) {failure : Failure}
    {expected : Expectation} (result : (readStatement tokens).result = .error failure)
    (expects : failure.complaint.expected? = some expected) :
    ∃ index, Honest readStatement endsIndexes tokens failure index expected := by
  have failed := mem_failures_of_run result
  have shown := isPublic_of_run (statement_announces placed.ready) result
  obtain ⟨front, token, back, rfl, concerns, opens⟩ :=
    statement_promises placed.terminated failed expects
  have points : PointsAtToken readStatement (front ++ token :: back) failure := by
    rcases statement_reported placed result with points | list
    · exact points
    · obtain ⟨-, -, -, -, -, -, -, -, -, -, silent, -⟩ := list
      cases concerns.1.symm.trans silent
  refine honest_of placed points expects shown
    ⟨front, token, back, rfl, concerns, not_endsIndexes_of_reported placed failed concerns expects,
      fun kind admitted => ⟨?_, ?_⟩⟩ ?_
  · rintro begins ⟨rfl, alone⟩
    exact alone.not_begins begins
  · intro fair
    exact statement_judges.begins_iff.mpr ((opens kind admitted).resolve_right fair)
  · rintro _ ⟨eof, -⟩
    cases eof

/-- A rejected text that is cut into tokens is told honestly what was expected, but for the
parenthesis that would end a list of indexes alone. -/
theorem expectations_honest (text : String) (tokens : List Token)
    (cut : tokenize text = .ok tokens) :
    (∀ failure expected, parse text = .error failure →
      failure.complaint.expected? = some expected →
      ∃ index, Honest readStatement endsIndexes tokens failure index expected) ∧
    (∀ failure, parseExpression text = .error failure →
      ∃ index expected, Honest readExpression noExemption tokens failure index expected) ∧
    ∀ failure, parseCondition text = .error failure →
      ∃ index expected, Honest readCondition noExemption tokens failure index expected := by
  have placed := tokenize_placed cut
  refine ⟨fun failure expected result expects => ?_, fun failure result => ?_,
    fun failure result => ?_⟩
  · have rejected : (readStatement tokens).result = .error failure := by
      rwa [parse, cut] at result
    exact statement_honest placed rejected expects
  · have rejected : (readExpression tokens).result = .error failure := by
      rwa [parseExpression, cut] at result
    exact complete_honest arithmetic_recognizes (by decide) arithmetic_outspoken placed rejected
  · have rejected : (readCondition tokens).result = .error failure := by
      rwa [parseCondition, cut] at result
    exact complete_honest condition_recognizes (by decide) condition_outspoken placed rejected

def openCall : List Token :=
  [⟨.keyword .SELECT, ⟨0, 6⟩⟩, ⟨.identifier "f", ⟨7, 8⟩⟩, ⟨.leftParen, ⟨8, 9⟩⟩,
    ⟨.identifier "a", ⟨9, 10⟩⟩, ⟨.comma, ⟨10, 11⟩⟩, ⟨.keyword .FROM, ⟨12, 16⟩⟩,
    ⟨.identifier "t", ⟨17, 18⟩⟩, ⟨.eof, ⟨18, 18⟩⟩]

/-- The alternatives of the missing argument leave their expectations at the same token. -/
theorem expectations_honest_call :
    tokenize "SELECT f(a, FROM t" = .ok openCall ∧
      parse "SELECT f(a, FROM t" =
        .error ⟨.unexpected .value (.keyword .FROM), ⟨12, 16⟩⟩ ∧
      ∃ index, Honest readStatement endsIndexes openCall
        ⟨.unexpected .value (.keyword .FROM), ⟨12, 16⟩⟩ index .value :=
  ⟨by decide +kernel, by decide +kernel,
    (expectations_honest "SELECT f(a, FROM t" openCall (by decide +kernel)).1 _ _
      (by decide +kernel) rfl⟩

def unendedIndexes : List Token :=
  [⟨.keyword .CREATE, ⟨0, 6⟩⟩, ⟨.keyword .TABLE, ⟨7, 12⟩⟩, ⟨.identifier "t", ⟨13, 14⟩⟩,
    ⟨.leftParen, ⟨15, 16⟩⟩, ⟨.keyword .INDEX, ⟨16, 21⟩⟩, ⟨.leftParen, ⟨22, 23⟩⟩,
    ⟨.identifier "a", ⟨23, 24⟩⟩, ⟨.rightParen, ⟨24, 25⟩⟩, ⟨.identifier "x", ⟨26, 27⟩⟩,
    ⟨.eof, ⟨27, 27⟩⟩]

/-- Without the exemption there is a report that is not honest: only a comma could stand
where the parenthesis is announced. -/
theorem parenthesis_promised_lightly :
    tokenize "CREATE TABLE t (INDEX (a) x" = .ok unendedIndexes ∧
      parse "CREATE TABLE t (INDEX (a) x" =
        .error ⟨.unexpected (.symbol .rightParen) (.identifier "x"), ⟨26, 27⟩⟩ ∧
      ¬ ∃ index expected, Honest readStatement noExemption unendedIndexes
        ⟨.unexpected (.symbol .rightParen) (.identifier "x"), ⟨26, 27⟩⟩ index expected := by
  have cut : tokenize "CREATE TABLE t (INDEX (a) x" = .ok unendedIndexes := by decide +kernel
  refine ⟨cut, by decide +kernel, ?_⟩
  rintro ⟨index, expected, honest⟩
  obtain rfl : Expectation.symbol .rightParen = expected := Option.some.inj honest.expects
  obtain ⟨token, found, concerns, -⟩ := honest.points
  obtain rfl : index = 8 := (tokenize_placed cut).index_eq found concerns
    (show unendedIndexes = unendedIndexes.take 8 ++ ⟨.identifier "x", ⟨26, 27⟩⟩ ::
      [⟨.eof, ⟨27, 27⟩⟩] from rfl) ⟨rfl, rfl⟩
  have field : Derivation.Listed Derivation.Name [.identifier "a"] ["a"] := .one (.name "a")
  have alone : IndexesAlone (kinds (unendedIndexes.take 8)) :=
    ⟨"t", _, _, rfl, .one (.index .absent .absent (.list field)), rfl⟩
  exact alone.not_begins ((honest.keeps .rightParen rfl).mpr id)

end CompactSql
