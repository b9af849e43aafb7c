import CompactSql.Proofs.Grammar.Expression
import CompactSql.Proofs.Parser.Loops
import CompactSql.Proofs.Parser.Rules

/-!
# The code of the grammar does as its rules say

A call reads its name before its arguments, and an operator is read before its right operand,
so code that runs itself again does so with fewer tokens left.
-/

namespace CompactSql.Parser.Simulates

open Grammar (BindingPower Rule TableEntry arithmeticPower held held_eof logicalPower
  predicate_noLonger value_eq value_noLonger)
open Grammar.Rule (NoLonger bind_of_error bind_of_ok ofKeyword ofKind)

variable {bound : Nat}

theorem identifier : Simulates bound (fun _ => 1) Code.identifier Grammar.identifier :=
  expect _ rfl

theorem optionalIdentifier :
    Simulates bound taken Code.optionalIdentifier (Rule.readIf Grammar.nameOf) :=
  optional _ rfl

theorem literal : Simulates bound (fun _ => 1) Code.literal Grammar.literal := expect _ rfl

theorem qualifiedField :
    Simulates bound (fun _ => 1) Code.qualifiedField Grammar.qualifiedField :=
  identifier.followedBy fun _ => (symbol (by decide)).bind fun _ => identifier.bind fun _ =>
    .pure _ rfl

theorem plainField : Simulates bound (fun _ => 1) Code.plainField Grammar.plainField :=
  identifier.followedBy fun _ => .pure _ rfl

theorem call {argument : Code Expr} {argument' : Rule Expr}
    (h : Simulates bound (fun _ => 1) argument argument') :
    Simulates (bound + 1) (fun _ => 1) (Code.call argument) (Grammar.call argument') := by
  -- the arguments lie behind the name, so less is asked of their code
  refine identifier.followedBy fun name => (symbol (by decide)).bind fun _ => ?_
  change Simulates (bound - 1) (fun _ => 0) _ _
  rw [Code.arguments, Code.bind_assoc]
  refine checked (.symbol .rightParen) ?_ ?_
  · exact (symbol (by decide)).bind fun _ => .pure _ rfl
  · refine (h.mono (Nat.sub_le _ _)).commaList.bind fun args => ?_
    exact (symbol (by decide)).bind fun _ => .pure _ rfl

theorem integerValue : Simulates bound (fun _ => 1) Code.integerValue
    (do return .literal (← Rule.read .integer Grammar.integerOf)) :=
  (expect _ rfl).followedBy fun _ => .pure _ rfl

theorem stringValue : Simulates bound (fun _ => 1) Code.stringValue
    (do return .literal (← Rule.read .string Grammar.stringOf)) :=
  (expect _ rfl).followedBy fun _ => .pure _ rfl

theorem value : Simulates bound (fun _ => 1) Code.value Grammar.value := by
  intro depth parser range fits enough
  clear fits
  induction depth generalizing parser with
  | zero => exact absurd enough (Nat.not_le_of_lt range.left_pos)
  | succ depth ih =>
      have argument : Simulates depth (fun _ => 1) (fun _ => Code.value depth) Grammar.value :=
        fun _ _ range fits _ => ih range fits
      have alternatives : Simulates (depth + 1) (fun _ => 1)
          (Code.firstOf .value (Code.valueAlternatives fun _ => Code.value depth))
          (Rule.firstOf .value (Grammar.valueAlternatives Grammar.value)) :=
        firstOf (.cons qualifiedField (.cons argument.call (.cons plainField
          (.cons integerValue (.cons stringValue .nil)))))
      rw [value_eq]
      exact alternatives range enough enough

theorem climb {power : Token.Kind → Option BindingPower} {operand : Code Expr}
    {operand' : Rule Expr} (h : ∀ bound, Simulates bound (fun _ => 1) operand operand')
    (shrinks : NoLonger operand') (minimum : Nat) :
    Simulates bound (fun _ => 1) (Code.climb power operand minimum)
      (Grammar.climb power operand' minimum) := by
  -- a right operand lies behind its operator; what goes on is a loop of its own
  intro depth parser range fits enough
  clear fits
  induction depth generalizing minimum parser with
  | zero => exact absurd enough (Nat.not_le_of_lt range.left_pos)
  | succ depth ih =>
      -- the operator has been read, so the smaller bound is enough for what is behind it
      have right (holds : Nat) : Simulates depth (fun _ => 1)
          (fun _ => Code.climbWithin power operand depth holds)
          (Grammar.climb power operand' holds) :=
        fun _ _ range fits _ => ih holds range fits
      refine (h (depth + 1)).followedBy (fun first => ?_) range enough enough
      refine leading (Grammar.climbFrom power operand' minimum) (held_eof power minimum)
        (fun led => (right led.2).loosen 1) (fun left parser _ _ => ?_) first
      exact congrFun (Grammar.climbFrom_turn shrinks minimum left) parser.cursor

theorem arithmetic (minimum : Nat) : Simulates bound (fun _ => 1) (Code.arithmetic minimum)
    (Grammar.climb arithmeticPower Grammar.value minimum) :=
  climb (fun _ => value) value_noLonger minimum

theorem predicate : Simulates bound (fun _ => 1) Code.predicate Grammar.predicate := by
  refine (arithmetic 0).followedBy fun subject => (eat rfl).bind fun found => ?_
  cases found with
  | some op => exact (arithmetic 0).bind fun _ => .pure _ rfl
  | none =>
      refine (eat rfl).bind fun between => ?_
      cases between with
      | none => exact unexpected _
      | some _ =>
          refine (arithmetic 0).bind fun lower => (keyword .AND).bind fun _ => ?_
          exact (arithmetic 0).bind fun _ => .pure _ rfl

theorem condition (minimum : Nat) : Simulates bound (fun _ => 1) (Code.condition minimum)
    (Grammar.climb logicalPower Grammar.predicate minimum) :=
  climb (fun _ => predicate) predicate_noLonger minimum

theorem selectItems : Simulates bound (fun _ => 1) Code.selectItems Grammar.selectItems := by
  refine (eat rfl).bind fun found => ?_
  cases found with
  | some _ => exact .pure _ rfl
  | none => exact (arithmetic 0).commaList.followedBy fun _ => .pure _ rfl

theorem join : Simulates bound (fun _ => 1) Code.join Grammar.join :=
  (keyword .JOIN).followedBy fun _ => identifier.bind fun _ => (keyword .ON).bind fun _ =>
    (condition 0).bind fun _ => .pure _ rfl

theorem tableSource : Simulates bound (fun _ => 1) Code.tableSource Grammar.tableSource :=
  (keyword .FROM).followedBy fun _ => identifier.bind fun _ =>
    (repeated rfl fun _ => join).bind fun _ => .pure _ rfl

theorem optionalWhere :
    Simulates bound (fun _ => 0) Code.optionalWhere (Rule.ledBy .WHERE Grammar.condition) :=
  ledBy _ ((condition 0).loosen 1)

theorem optionalUsing :
    Simulates bound (fun _ => 0) Code.optionalUsing (Rule.ledBy .USING Grammar.identifier) :=
  ledBy _ (identifier.loosen 1)

theorem groupField : Simulates bound (fun _ => 1) Code.groupField Grammar.groupField :=
  firstOf (.cons qualifiedField (.cons plainField .nil))

theorem grouping : Simulates bound (fun _ => 0) Code.grouping Grammar.grouping := by
  refine (eat rfl).bind fun found => ?_
  cases found with
  | none => exact .pure _ rfl
  | some _ =>
      refine (keyword .BY).bind fun _ => groupField.commaList.bind fun fields => ?_
      exact (ledBy .HAVING ((condition 0).loosen 1)).bind fun _ => .pure _ rfl

theorem sortKey : Simulates bound (fun _ => 1) Code.sortKey Grammar.sortKey := by
  refine (arithmetic 0).followedBy fun expr => (eat rfl).bind fun descending => ?_
  cases descending with
  | some _ => exact .pure _ rfl
  | none =>
      refine (eat rfl).bind fun ascending => ?_
      cases ascending <;> exact .pure _ rfl

theorem sorting : Simulates bound (fun _ => 0) Code.sorting Grammar.sorting := by
  refine (ledBy .ORDER ?_).bind fun _ => .pure _ rfl
  exact (keyword .BY).andThen fun _ => sortKey.commaList.loosen 0

theorem nameList :
    Simulates bound (fun _ => 1) Code.nameList (Rule.commaList Grammar.identifier) :=
  identifier.commaList

theorem names : Simulates bound (fun _ => 1) Code.names Grammar.names :=
  (symbol (by decide)).followedBy fun _ => nameList.bind fun _ =>
    (symbol (by decide)).bind fun _ => .pure _ rfl

theorem row : Simulates bound (fun _ => 1) Code.row Grammar.row :=
  (symbol (by decide)).followedBy fun _ => literal.commaList.bind fun _ =>
    (symbol (by decide)).bind fun _ => .pure _ rfl

theorem assignment : Simulates bound (fun _ => 1) Code.assignment Grammar.assignment :=
  identifier.followedBy fun _ => (symbol (by decide)).bind fun _ =>
    (arithmetic 0).bind fun _ => .pure _ rfl

theorem selection : Simulates bound (fun _ => 1) Code.selection Grammar.selection :=
  (keyword .SELECT).followedBy fun _ => selectItems.bind fun _ => tableSource.bind fun _ =>
    optionalWhere.bind fun _ => grouping.bind fun _ => sorting.bind fun _ => .pure _ rfl

theorem fieldNames : Simulates bound (fun _ => 0) Code.fieldNames Grammar.fieldNames := by
  refine checked (.symbol .leftParen) ?_ (.pure _ rfl)
  have inside : Simulates bound _ (some <$> Code.names) (some <$> Grammar.names) :=
    names.map some
  rw [Grammar.names, Grammar.Rule.map_eq_bind, Rule.bind_assoc] at inside
  exact inside.loosen 0

theorem insertion : Simulates bound (fun _ => 1) Code.insertion Grammar.insertion :=
  (keyword .INSERT).followedBy fun _ => (keyword .INTO).bind fun _ => identifier.bind fun _ =>
    fieldNames.bind fun _ => (keyword .VALUES).bind fun _ => row.commaList.bind fun _ =>
      .pure _ rfl

theorem update : Simulates bound (fun _ => 1) Code.update Grammar.update :=
  (keyword .UPDATE).followedBy fun _ => identifier.bind fun _ => (keyword .SET).bind fun _ =>
    assignment.commaList.bind fun _ => optionalWhere.bind fun _ => .pure _ rfl

theorem deletion : Simulates bound (fun _ => 1) Code.deletion Grammar.deletion :=
  (keyword .DELETE).followedBy fun _ => (eat rfl).andThen fun _ =>
    (keyword .FROM).andThen fun _ => identifier.andThen fun _ =>
      optionalWhere.andThen fun _ => .pure _ rfl

theorem inlineIndex : Simulates bound (fun _ => 1) Code.inlineIndex
    (do Rule.keyword .INDEX; Grammar.inlineIndex) :=
  (keyword .INDEX).followedBy fun _ => optionalIdentifier.andThen fun _ =>
    optionalUsing.andThen fun _ => names.andThen fun _ => .pure _ rfl

theorem tableEntry : Simulates bound (fun _ => 1) Code.tableEntry Grammar.tableEntry := by
  have index : Simulates bound _ (TableEntry.index <$> Code.inlineIndex)
      (TableEntry.index <$> (do Rule.keyword .INDEX; Grammar.inlineIndex)) := inlineIndex.map _
  have field : Simulates bound _ (TableEntry.field <$> Code.identifier)
      (TableEntry.field <$> Grammar.identifier) := identifier.map _
  rw [Grammar.tableEntry, Rule.ledBy, Rule.bind_assoc]
  refine checked (.keyword .INDEX) ?_ field
  rw [Grammar.Rule.map_eq_bind, Rule.bind_assoc] at index
  simp only [Rule.bind_assoc, Rule.pure_bind]
  exact index

theorem indexDefinition :
    Simulates bound (fun _ => 1) Code.indexDefinition Grammar.indexDefinition :=
  (keyword .CREATE).followedBy fun _ => (keyword .INDEX).andThen fun _ =>
    optionalIdentifier.andThen fun _ => (keyword .ON).andThen fun _ => identifier.andThen fun _ =>
      optionalUsing.andThen fun _ => names.andThen fun _ => .pure _ rfl

theorem checkFields (table : String) (opening : Span) (entries : List TableEntry)
    {depth : Nat} {parser : Parser} (range : parser.InRange) {closing : Token}
    (found : Code.previous depth parser = .done (.ok closing) parser) :
    Mirrors (fun _ => 0) parser
      (Grammar.checkFields table entries (opening.merge closing.span) parser.cursor)
      (Code.checkFields table opening entries depth parser) := by
  rw [Grammar.checkFields, Code.checkFields]
  cases (entries.filterMap TableEntry.field?).isEmpty with
  | true =>
      simp only [if_true]
      rw [Code.run_bind_ok found]
      exact .error_here range _
  | false =>
      simp only [Bool.false_eq_true, if_false]
      exact .ok_here range rfl

theorem closing (table : String) (opening : Span) (entries : List TableEntry) :
    Simulates bound (fun _ => 0)
      (do Code.symbol .rightParen; Code.checkFields table opening entries)
      (do let closing ← Rule.here
          Rule.symbol .rightParen
          Grammar.checkFields table entries (opening.merge closing)) := by
  -- the code looks back at the parenthesis, the rule looks ahead to it
  intro depth parser range fits enough
  rw [Grammar.Rule.here_bind]
  cases accepted : ofKind .rightParen parser.cursor.current.kind with
  | none =>
      have missed : Rule.symbol .rightParen parser.cursor = ⟨[], .error _⟩ :=
        Grammar.Rule.read_of_none parser.pos accepted
      rw [bind_of_error missed, Code.symbol,
        Code.run_bind_error (Code.run_expect_none range _ accepted)]
      exact .error_here range _
  | some _ =>
      have inner := Rule.inner_of_accepted rfl accepted
      have met : Rule.symbol .rightParen parser.cursor =
          ⟨[], .ok ((), parser.cursor.advance)⟩ := by
        simp only [Rule.symbol, Rule.read, accepted]
      rw [bind_of_ok met, range.cursor_advance inner, Code.symbol,
        Code.run_bind_ok (Code.run_expect_some range _ inner accepted)]
      refine (checkFields table opening entries (range.moved (range.next_inside inner) [])
        (Code.run_previous range [])).behind (Nat.le_succ _) fun _ => Nat.le_succ _

theorem tableDefinition :
    Simulates bound (fun _ => 1) Code.tableDefinition Grammar.tableDefinition :=
  (keyword .CREATE).followedBy fun _ => (keyword .TABLE).andThen fun _ =>
    identifier.andThen fun table => here fun opening => (symbol (by decide)).andThen fun _ =>
      tableEntry.commaList.andThen fun entries => closing table opening.span entries

theorem statement : Simulates bound (fun _ => 1) Code.statement Grammar.statement :=
  firstOf (.cons (selection.map _).complete (.cons (insertion.map _).complete
    (.cons (update.map _).complete (.cons (deletion.map _).complete
      (.cons (tableDefinition.map _).complete (.cons (indexDefinition.map _).complete .nil))))))

end CompactSql.Parser.Simulates
