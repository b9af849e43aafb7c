import CompactSql.Parse
import CompactSql.Proofs.Parser.Grammar

/-!
# The cursor stays on the tokens

Whatever the tokens of a text are, a parser serves every request for it: within a bound as
large as the number of tokens its code ends, without ever being at a place where no token
is.  Rules move the cursor on, turns of loops do so too, and an alternative that fails has
not moved it.
-/

namespace CompactSql.Parser

open Grammar (Rule Terminated arithmeticPower logicalPower)
open Grammar.Rule (ofKeyword)
open Code (Turn)

/-- The rules as they run with at most `bound` tokens left: how many tokens their code reads
for certain, and what the grammar says of them. -/
inductive Production (bound : Nat) : {α : Type} → Nat → Code α → Rule α → Prop
  | statement : Production bound 1 Code.statement Grammar.statement
  | complete {α : Type} {least : Nat} {code : Code α} {rule : Rule α} :
      Production bound least code rule → Production bound least code.complete rule.complete
  | map {α β : Type} {least : Nat} {code : Code α} {rule : Rule α} (f : α → β) :
      Production bound least code rule → Production bound least (f <$> code) (f <$> rule)
  | within {α : Type} {least : Nat} {code : Code α} {rule : Rule α} :
      Production bound least code rule → Production bound least (code.within bound) rule
  | selection : Production bound 1 Code.selection Grammar.selection
  | insertion : Production bound 1 Code.insertion Grammar.insertion
  | update : Production bound 1 Code.update Grammar.update
  | deletion : Production bound 1 Code.deletion Grammar.deletion
  | tableDefinition : Production bound 1 Code.tableDefinition Grammar.tableDefinition
  | indexDefinition : Production bound 1 Code.indexDefinition Grammar.indexDefinition
  | selectItems : Production bound 1 Code.selectItems Grammar.selectItems
  | tableSource : Production bound 1 Code.tableSource Grammar.tableSource
  | join : Production bound 1 Code.join Grammar.join
  | optionalWhere : Production bound 0 Code.optionalWhere (.ledBy .WHERE Grammar.condition)
  | groupField : Production bound 1 Code.groupField Grammar.groupField
  | sortKey : Production bound 1 Code.sortKey Grammar.sortKey
  | row : Production bound 1 Code.row Grammar.row
  | assignment : Production bound 1 Code.assignment Grammar.assignment
  | tableEntry : Production bound 1 Code.tableEntry Grammar.tableEntry
  | inlineIndex :
      Production bound 1 Code.inlineIndex (do Rule.keyword .INDEX; Grammar.inlineIndex)
  | optionalUsing : Production bound 0 Code.optionalUsing (.ledBy .USING Grammar.identifier)
  | names : Production bound 1 Code.names Grammar.names
  | list {α : Type} {item : Code α} {item' : Rule α} :
      Production bound 1 item item' → Production bound 1 (Code.commaList item) (.commaList item')
  | condition (minimum : Nat) : Production bound 1 (Code.condition minimum)
      (Grammar.climb logicalPower Grammar.predicate minimum)
  | predicate : Production bound 1 Code.predicate Grammar.predicate
  | arithmetic (minimum : Nat) : Production bound 1 (Code.arithmetic minimum)
      (Grammar.climb arithmeticPower Grammar.value minimum)
  | value : Production bound 1 Code.value Grammar.value
  | call {argument : Code Expr} {argument' : Rule Expr} :
      Production bound 1 argument argument' →
        Production bound 1 (Code.call argument) (Grammar.call argument')
  | qualifiedField : Production bound 1 Code.qualifiedField Grammar.qualifiedField
  | plainField : Production bound 1 Code.plainField Grammar.plainField
  | integerValue : Production bound 1 Code.integerValue
      (do return .literal (← .read .integer Grammar.integerOf))
  | stringValue : Production bound 1 Code.stringValue
      (do return .literal (← .read .string Grammar.stringOf))
  | literal : Production bound 1 Code.literal Grammar.literal
  | identifier : Production bound 1 Code.identifier Grammar.identifier
  | optionalIdentifier : Production bound 0 Code.optionalIdentifier (.readIf Grammar.nameOf)
  | keyword (word : Keyword) : Production bound 1 (Code.keyword word) (.keyword word)
  | symbol {kind : Token.Kind} (inner : kind ≠ .eof) :
      Production bound 1 (Code.symbol kind) (.symbol kind)

/-- The turns of the loops, and how many tokens the last turn reads for certain.  That of a
list reads an item; that of a row of joins or operators finds that there is no other. -/
inductive Loop (bound : Nat) : {β γ : Type} → Nat → (β → Code (Turn β γ)) → Prop
  | list {α : Type} {item : Code α} {item' : Rule α} :
      Production bound 1 item item' → Loop bound 1 (Code.listTurn item)
  | joins : Loop bound 0
      (Code.leadTurn (ofKeyword .LEFT) (fun _ => Code.join) fun _ items value => items ++ [value])
  | arithmetic {right : Nat → Code Expr} (minimum : Nat)
      (operands : ∀ holds, Production bound 1 (right holds)
        (Grammar.climb arithmeticPower Grammar.value holds)) :
      Loop bound 0 (Code.climbTurn arithmeticPower right minimum)
  | condition {right : Nat → Code Expr} (minimum : Nat)
      (operands : ∀ holds, Production bound 1 (right holds)
        (Grammar.climb logicalPower Grammar.predicate holds)) :
      Loop bound 0 (Code.climbTurn logicalPower right minimum)

variable {α β γ : Type} {bound least : Nat}

theorem Production.simulates {code : Code α} {rule : Rule α}
    (production : Production bound least code rule) :
    Simulates bound (fun _ => least) code rule := by
  induction production with
  | statement => exact .statement
  | complete _ h => exact h.complete
  | map f _ h => exact h.map f
  | within _ h => exact h.within
  | selection => exact .selection
  | insertion => exact .insertion
  | update => exact .update
  | deletion => exact .deletion
  | tableDefinition => exact .tableDefinition
  | indexDefinition => exact .indexDefinition
  | selectItems => exact .selectItems
  | tableSource => exact .tableSource
  | join => exact .join
  | optionalWhere => exact .optionalWhere
  | groupField => exact .groupField
  | sortKey => exact .sortKey
  | row => exact .row
  | assignment => exact .assignment
  | tableEntry => exact .tableEntry
  | inlineIndex => exact .inlineIndex
  | optionalUsing => exact .optionalUsing
  | names => exact .names
  | list _ h => exact h.commaList
  | condition minimum => exact .condition minimum
  | predicate => exact .predicate
  | arithmetic minimum => exact .arithmetic minimum
  | value => exact .value
  | call _ h => exact h.call.mono (Nat.le_succ bound)
  | qualifiedField => exact .qualifiedField
  | plainField => exact .plainField
  | integerValue => exact .integerValue
  | stringValue => exact .stringValue
  | literal => exact .literal
  | identifier => exact .identifier
  | optionalIdentifier => exact Simulates.optionalIdentifier.weaken fun _ => Nat.zero_le _
  | keyword word => exact .keyword word
  | symbol inner => exact .symbol inner

theorem Loop.simulates {stopped : Nat} {turn : β → Code (Turn β γ)}
    (body : Loop bound stopped turn) (state : β) :
    ∃ turn', Simulates bound (Turn.least stopped) (turn state) turn' := by
  cases body with
  | list item => exact ⟨_, item.simulates.listTurn state⟩
  | joins => exact ⟨_, .leadTurn _ rfl (fun _ => Simulates.join.loosen 1) state⟩
  | arithmetic minimum operands | condition minimum operands =>
      have right (held : BinaryOp × Nat) := (operands held.2).simulates.loosen 1
      exact ⟨_, .leadTurn _ (Grammar.held_eof _ minimum) right state⟩

/-- The run is done with this result.  The cursor is at a token of the same list, not behind
where it was, and if a value is read as much further as `least` asks for. -/
def Run.Lands (parser : Parser) (least : α → Nat) (result : Except Failure α) (run : Run α) :
    Prop :=
  ∃ after, run = .done result after ∧ after.tokens = parser.tokens ∧
    parser.pos ≤ after.pos ∧ after.pos < parser.tokens.length ∧
    ∀ value, result = .ok value → parser.pos + least value ≤ after.pos

theorem Mirrors.lands {parser : Parser} {measure : α → Nat} {outcome : Grammar.Outcome α}
    {run : Run α} (h : Mirrors measure parser outcome run) :
    run.Lands parser measure (outcome.result.map Prod.fst) := by
  cases h with
  | ok ahead inside =>
      refine ⟨_, rfl, rfl, Nat.le_of_add_right_le ahead, inside, ?_⟩
      rintro _ ⟨⟩
      exact ahead
  | error ahead inside =>
      refine ⟨_, rfl, rfl, ahead, inside, ?_⟩
      rintro _ ⟨⟩

private theorem Run.Lands.attempt {code : Code α} {depth : Nat} {parser : Parser}
    {measure : α → Nat}
    {result : Except Failure α} (inside : parser.pos < parser.tokens.length)
    (h : (code depth parser).Lands parser measure result) :
    (code.attempt depth parser).Lands parser measure result ∧
      ∀ failure after, code.attempt depth parser = .done (.error failure) after →
        after.pos = parser.pos := by
  obtain ⟨after, run, same, ahead, stays, further⟩ := h
  cases result with
  | ok value =>
      have attempted : code.attempt depth parser = .done (.ok value) after := by
        simp only [Code.attempt, run]
      refine ⟨⟨after, attempted, same, ahead, stays, further⟩, ?_⟩
      rintro failure _ failed
      rw [attempted] at failed
      cases failed
  | error failure =>
      have attempted : code.attempt depth parser = .done (.error failure)
          ⟨after.tokens, parser.pos, Code.record after.furthest failure⟩ := by
        simp only [Code.attempt, run]
      refine ⟨⟨_, attempted, same, Nat.le_refl _, inside, ?_⟩, ?_⟩
      · rintro _ ⟨⟩
      · rintro _ _ failed
        rw [attempted] at failed
        cases failed
        rfl

namespace Request

def reading (tokens : List Token) : (request : Request) → Except Failure request.Tree
  | statement => (readStatement tokens).result
  | expression => (readExpression tokens).result
  | condition => (readCondition tokens).result

def answer (tokens : List Token) (request : Request) : Answer :=
  ⟨request, request.reading tokens⟩

variable {parser : Parser} {depth : Nat}

theorem run_code (request : Request) (ended : Terminated parser.tokens)
    (enough : parser.tokens.length ≤ depth) :
    ∃ after, request.code depth parser = .done (request.reading parser.tokens) after ∧
      after.tokens = parser.tokens ∧ after.InRange ∧
      ∀ value, request.reading parser.tokens = .ok value → 1 ≤ after.pos := by
  cases request with
  | statement => exact Simulates.statement.read ended enough
  | expression => exact (Simulates.arithmetic 0).complete.read ended enough
  | condition => exact (Simulates.condition 0).complete.read ended enough

theorem run_serve (asked : List Request) (range : parser.InRange)
    (enough : parser.tokens.length ≤ depth) :
    ∃ after, serve asked depth parser =
        .done (.ok (asked.map (answer parser.tokens))) after ∧
      after.tokens = parser.tokens ∧ after.InRange := by
  induction asked generalizing parser with
  | nil => exact ⟨parser, rfl, rfl, range⟩
  | cons request others ih =>
      obtain ⟨after, run, same, stays, -⟩ := run_code request range.ended enough
      obtain ⟨last, rest, same', stays'⟩ := ih stays (same ▸ enough)
      refine ⟨last, ?_, same'.trans same, stays'⟩
      rw [serve, Code.run_bind_ok (Code.run_caught run), Code.run_bind_ok rest, same]
      rfl

end Request

/-- Code never gets to where no token of the list is, and it ends. -/
structure CursorSafe (tokens : List Token) : Prop where
  /-- Requests to a parser, one after another, all get the answers of the grammar. -/
  requests : ∀ (asked : List Request) (bound : Nat), tokens.length ≤ bound →
    ∃ after, Request.serve asked bound ⟨tokens, 0, none⟩ =
        .done (.ok (asked.map (Request.answer tokens))) after ∧
      after.tokens = tokens ∧ after.pos < tokens.length
  /-- A request to a parser, wherever it is, ends at a token; one that is met has read one. -/
  request : ∀ (request : Request) (parser : Parser) (bound : Nat), parser.tokens = tokens →
    tokens.length ≤ bound →
    ∃ after, request.code bound parser = .done (request.reading tokens) after ∧
      after.tokens = tokens ∧ after.pos < tokens.length ∧
      ∀ value, request.reading tokens = .ok value → 1 ≤ after.pos
  /-- A rule that is run at a token comes to what the grammar says of that place. -/
  rules : ∀ {α : Type} {bound least depth : Nat} {code : Code α} {rule : Rule α}
    {parser : Parser}, Production bound least code rule → parser.tokens = tokens →
    parser.pos < tokens.length → parser.left ≤ bound → parser.left ≤ depth →
    (code depth parser).Lands parser (fun _ => least)
      ((rule parser.cursor).result.map Prod.fst)
  /-- A turn after which a loop goes on has read a token, and so has the last one of a list. -/
  turns : ∀ {β γ : Type} {bound stopped depth : Nat} {turn : β → Code (Turn β γ)}
    {parser : Parser} (state : β), Loop bound stopped turn → parser.tokens = tokens →
    parser.pos < tokens.length → parser.left ≤ bound → parser.left ≤ depth →
    ∃ result, (turn state depth parser).Lands parser (Turn.least stopped) result
  /-- An attempt that fails leaves the cursor where it was. -/
  attempts : ∀ {α : Type} {bound least depth : Nat} {code : Code α} {rule : Rule α}
    {parser : Parser}, Production bound least code rule → parser.tokens = tokens →
    parser.pos < tokens.length → parser.left ≤ bound → parser.left ≤ depth →
    (code.attempt depth parser).Lands parser (fun _ => least)
        ((rule parser.cursor).result.map Prod.fst) ∧
      ∀ failure after, code.attempt depth parser = .done (.error failure) after →
        after.pos = parser.pos

theorem cursor_safe {tokens : List Token} (ended : Terminated tokens) : CursorSafe tokens where
  requests asked bound enough := by
    have range : InRange ⟨tokens, 0, none⟩ := .start ended
    obtain ⟨after, run, rfl, stays⟩ := Request.run_serve asked range enough
    exact ⟨after, run, rfl, stays.inside⟩
  request request parser bound same enough := by
    subst same
    obtain ⟨after, run, same, stays, further⟩ := request.run_code ended enough
    exact ⟨after, run, same, same ▸ stays.inside, further⟩
  rules production same inside fits enough := by
    subst same
    exact (production.simulates ⟨ended, inside⟩ fits enough).lands
  turns state body same inside fits enough := by
    subst same
    obtain ⟨turn', h⟩ := body.simulates state
    exact ⟨_, (h ⟨ended, inside⟩ fits enough).lands⟩
  attempts production same inside fits enough := by
    subst same
    exact (production.simulates ⟨ended, inside⟩ fits enough).lands.attempt inside

def sumOfNames : List Token :=
  [⟨.identifier "x", ⟨0, 1⟩⟩, ⟨.plus, ⟨2, 3⟩⟩, ⟨.identifier "y", ⟨4, 5⟩⟩, ⟨.eof, ⟨5, 5⟩⟩]

/-- The condition misses a comparison at the end; the expression is read from the start again. -/
theorem cursor_safe_sum :
    Terminated sumOfNames ∧
      ∃ after, Request.serve [.condition, .expression] 4 ⟨sumOfNames, 0, none⟩ =
          .done (.ok [⟨.condition, .error ⟨.unexpected .comparison .eof, ⟨5, 5⟩⟩⟩,
            ⟨.expression, .ok (.binary .add (.identifier "x") (.identifier "y"))⟩]) after ∧
        after.tokens = sumOfNames ∧ after.pos < 4 := by
  have ended : Terminated sumOfNames := by
    refine .cons ?_ (.cons ?_ (.cons ?_ (.last rfl))) <;> decide
  have failed : (readCondition sumOfNames).result =
      .error ⟨.unexpected .comparison .eof, ⟨5, 5⟩⟩ := by decide +kernel
  have found : (readExpression sumOfNames).result =
      .ok (.binary .add (.identifier "x") (.identifier "y")) := by decide +kernel
  obtain ⟨after, run, stays⟩ :=
    (cursor_safe ended).requests [.condition, .expression] 4 (Nat.le_refl 4)
  refine ⟨ended, after, ?_, stays⟩
  simpa only [List.map_cons, List.map_nil, Request.answer, Request.reading, failed, found]
    using run

example : Request.expression.code 4 ⟨sumOfNames.dropLast, 0, none⟩ = .outside := by rfl

example : Request.expression.code 1 ⟨sumOfNames, 0, none⟩ = .unfinished := by rfl

end CompactSql.Parser
