import Mathlib.Data.List.Forall2
import CompactSql.Proofs.Grammar.Choice
import CompactSql.Proofs.Parser.Code

/-!
# Code that does as a rule says

From a parser whose tokens are a text up to its end and whose cursor is at one of them,
code comes to what a rule says of that place, the cursor does not go back and stays at a
token, and the recorded failure is that of the rule's trail.  A bound is enough if it is as
large as the number of tokens left.
-/

namespace CompactSql.Parser

open Grammar (Cursor Event Outcome Rule Terminated)
open Grammar.Rule (bind_of_error bind_of_ok)

variable {α β γ : Type}

def cursor (parser : Parser) : Cursor := ⟨parser.pos, parser.tokens.drop parser.pos⟩

def left (parser : Parser) : Nat := parser.tokens.length - parser.pos

def moved (parser : Parser) (pos : Nat) (trail : List Event) : Parser :=
  ⟨parser.tokens, pos, trail.foldl Event.keepFurthest parser.furthest⟩

@[simp] theorem moved_tokens (parser : Parser) (pos : Nat) (trail : List Event) :
    (parser.moved pos trail).tokens = parser.tokens := rfl

@[simp] theorem moved_pos (parser : Parser) (pos : Nat) (trail : List Event) :
    (parser.moved pos trail).pos = pos := rfl

@[simp] theorem moved_moved (parser : Parser) (pos pos' : Nat) (trail trail' : List Event) :
    (parser.moved pos trail).moved pos' trail' = parser.moved pos' (trail ++ trail') := by
  simp [moved]

/-- The tokens are a text up to its end, and the cursor is at one of them. -/
structure InRange (parser : Parser) : Prop where
  ended : Terminated parser.tokens
  inside : parser.pos < parser.tokens.length

namespace InRange

variable {parser : Parser}

theorem start {tokens : List Token} (ended : Terminated tokens) :
    InRange ⟨tokens, 0, none⟩ := by
  refine ⟨ended, ?_⟩
  cases ended <;> exact Nat.zero_lt_succ _

theorem left_pos (range : parser.InRange) : 0 < parser.left := Nat.sub_pos_of_lt range.inside

theorem moved (range : parser.InRange) {pos : Nat} (inside : pos < parser.tokens.length)
    (trail : List Event) : (parser.moved pos trail).InRange :=
  ⟨range.ended, inside⟩

theorem drop_eq (range : parser.InRange) :
    parser.tokens.drop parser.pos =
      parser.cursor.current :: parser.tokens.drop (parser.pos + 1) := by
  have split := List.drop_eq_getElem_cons range.inside
  rw [split, cursor, Cursor.current, split, List.headD_cons]

theorem getElem?_pos (range : parser.InRange) :
    parser.tokens[parser.pos]? = some parser.cursor.current := by
  rw [← List.head?_drop, range.drop_eq, List.head?_cons]

theorem next_inside (range : parser.InRange) (inner : parser.cursor.current.kind ≠ .eof) :
    parser.pos + 1 < parser.tokens.length :=
  range.ended.succ_lt range.getElem?_pos inner

theorem cursor_advance (range : parser.InRange) (inner : parser.cursor.current.kind ≠ .eof) :
    parser.cursor.advance = (parser.moved (parser.pos + 1) []).cursor := by
  have split : parser.cursor =
      ⟨parser.pos, parser.cursor.current :: parser.tokens.drop (parser.pos + 1)⟩ := by
    rw [← range.drop_eq, cursor]
  rw [split, Grammar.advance_cons _ _ inner]
  rfl

end InRange

/-- The run ends as the outcome does, at a token that lies as much further as `least` asks
for, and records the failures of the trail. -/
inductive Mirrors (least : α → Nat) (parser : Parser) : Outcome α → Run α → Prop
  | ok {trail : List Event} {value : α} {pos : Nat} (ahead : parser.pos + least value ≤ pos)
      (inside : pos < parser.tokens.length) :
      Mirrors least parser ⟨trail, .ok (value, (parser.moved pos trail).cursor)⟩
        (.done (.ok value) (parser.moved pos trail))
  | error {trail : List Event} {failure : Failure} {pos : Nat} (ahead : parser.pos ≤ pos)
      (inside : pos < parser.tokens.length) :
      Mirrors least parser ⟨trail, .error failure⟩
        (.done (.error failure) (parser.moved pos trail))

namespace Mirrors

variable {least least' : α → Nat} {parser : Parser} {outcome : Outcome α} {run : Run α}

theorem behind {pos : Nat} {trail : List Event} (ahead : parser.pos ≤ pos)
    (enough : ∀ value, parser.pos + least' value ≤ pos + least value)
    (h : Mirrors least (parser.moved pos trail) outcome run) :
    Mirrors least' parser (outcome.behind trail) run := by
  cases h with
  | ok further inside =>
      rw [Grammar.Outcome.behind_mk, moved_moved]
      exact .ok (Nat.le_trans (enough _) further) inside
  | error further inside =>
      rw [Grammar.Outcome.behind_mk, moved_moved]
      exact .error (Nat.le_trans ahead further) inside

theorem weaken (h : Mirrors least parser outcome run)
    (less : ∀ value, least' value ≤ least value) : Mirrors least' parser outcome run := by
  cases h with
  | ok further inside =>
      exact .ok (Nat.le_trans (Nat.add_le_add_left (less _) _) further) inside
  | error further inside => exact .error further inside

theorem ok_here (range : parser.InRange) {value : α} (none : least value = 0) :
    Mirrors least parser ⟨[], .ok (value, parser.cursor)⟩ (.done (.ok value) parser) := by
  have ahead : parser.pos + least value ≤ parser.pos := by omega
  exact @ok _ least parser [] value parser.pos ahead range.inside

theorem error_here (range : parser.InRange) (failure : Failure) :
    Mirrors least parser ⟨[], .error failure⟩ (.done (.error failure) parser) :=
  @error _ least parser [] failure parser.pos (Nat.le_refl _) range.inside

end Mirrors

/-- With at most `bound` tokens left, the code does as the rule says within any bound that is
as large as what is left. -/
def Simulates (bound : Nat) (least : α → Nat) (code : Code α) (rule : Rule α) : Prop :=
  ∀ ⦃depth : Nat⦄ ⦃parser : Parser⦄, parser.InRange → parser.left ≤ bound →
    parser.left ≤ depth → Mirrors least parser (rule parser.cursor) (code depth parser)

/-! ## Running code -/

namespace Code

variable {code : Code α} {next : α → Code β} {depth : Nat} {parser after : Parser}

theorem run_bind_ok {value : α} (run : code depth parser = .done (.ok value) after) :
    (code >>= next) depth parser = next value depth after := by
  change Code.bind code next depth parser = _
  rw [Code.bind, run]

theorem run_bind_error {failure : Failure}
    (run : code depth parser = .done (.error failure) after) :
    (code >>= next) depth parser = .done (.error failure) after := by
  change Code.bind code next depth parser = _
  rw [Code.bind, run]

theorem run_current (range : parser.InRange) :
    current depth parser = .done (.ok parser.cursor.current) parser := by
  rw [current, lookUp, range.getElem?_pos]

theorem run_unexpected (range : parser.InRange) (expected : Expectation) :
    (unexpected expected : Code α) depth parser =
      .done (.error (.unexpected expected parser.cursor.current)) parser :=
  run_bind_ok (run_current range)

theorem run_advance (range : parser.InRange) (inner : parser.cursor.current.kind ≠ .eof) :
    advance depth parser = .done (.ok ()) (parser.moved (parser.pos + 1) []) := by
  rw [advance, run_bind_ok (run_current range), Token.isEof, if_neg (by simpa using inner), step,
    if_pos (range.next_inside inner)]
  rfl

theorem run_previous (range : parser.InRange) (trail : List Event) :
    previous depth (parser.moved (parser.pos + 1) trail) =
      .done (.ok parser.cursor.current) (parser.moved (parser.pos + 1) trail) := by
  rw [previous, lookUp, moved_tokens, moved_pos, Nat.add_sub_cancel, range.getElem?_pos]

private theorem run_check (range : parser.InRange) (accept : Token.Kind → Option α) :
    check accept depth parser = .done (.ok (accept parser.cursor.current.kind).isSome) parser :=
  run_bind_ok (run_current range)

theorem run_eat_none {accept : Token.Kind → Option α} (range : parser.InRange)
    (refused : accept parser.cursor.current.kind = none) :
    eat accept depth parser = .done (.ok none) parser := by
  rw [eat, run_bind_ok (run_current range), refused]
  rfl

theorem run_eat_some {accept : Token.Kind → Option α} {value : α} (range : parser.InRange)
    (inner : parser.cursor.current.kind ≠ .eof)
    (accepted : accept parser.cursor.current.kind = some value) :
    eat accept depth parser = .done (.ok (some value)) (parser.moved (parser.pos + 1) []) := by
  rw [eat, run_bind_ok (run_current range), accepted]
  exact run_bind_ok (run_advance range inner)

theorem run_expect_none {accept : Token.Kind → Option α} (range : parser.InRange)
    (expected : Expectation) (refused : accept parser.cursor.current.kind = none) :
    expect expected accept depth parser =
      .done (.error (.unexpected expected parser.cursor.current)) parser := by
  rw [expect, run_bind_ok (run_current range), refused]
  exact run_unexpected range expected

theorem run_expect_some {accept : Token.Kind → Option α} {value : α} (range : parser.InRange)
    (expected : Expectation) (inner : parser.cursor.current.kind ≠ .eof)
    (accepted : accept parser.cursor.current.kind = some value) :
    expect expected accept depth parser =
      .done (.ok value) (parser.moved (parser.pos + 1) []) := by
  rw [expect, run_bind_ok (run_current range), accepted]
  exact run_bind_ok (run_advance range inner)

theorem run_caught {result : Except Failure α} (run : code depth parser = .done result after) :
    caught code depth parser = .done (.ok result) after := by
  rw [caught, run]

theorem bind_assoc (code : Code α) (next : α → Code β) (last : β → Code γ) :
    code >>= next >>= last = code >>= fun value => next value >>= last := by
  funext depth parser
  change Code.bind (Code.bind code next) last depth parser = Code.bind code _ depth parser
  unfold Code.bind
  rcases code depth parser with _ | _ | ⟨failure | value, after⟩ <;> rfl

theorem firstOfFrom_cons_ok {expected : Expectation} {start : Nat} {best : Option Failure}
    {others : List (Code α)} {value : α} (run : code depth parser = .done (.ok value) after) :
    firstOfFrom expected start best (code :: others) depth parser = .done (.ok value) after := by
  simp only [firstOfFrom, attempt, run]

theorem firstOfFrom_cons_error {expected : Expectation} {start : Nat} {best : Option Failure}
    {others : List (Code α)} {failure : Failure}
    (run : attempt code depth parser = .done (.error failure) after) :
    firstOfFrom expected start best (code :: others) depth parser =
      firstOfFrom expected start (some (Rule.further best failure)) others depth after := by
  simp only [firstOfFrom, run]

private theorem run_attempt_error {pos : Nat} {trail : List Event} {failure : Failure}
    (name : String)
    (run : code depth parser = .done (.error failure) (parser.moved pos trail)) :
    attempt code depth parser = .done (.error failure) (parser.moved parser.pos
      (trail ++ [.backtracked parser.pos failure, .rejected name])) := by
  rw [attempt, run, moved, moved, List.foldl_append]
  rfl

end Code

/-! ## Ways to put code together -/

namespace Simulates

variable {bound bound' : Nat} {least : α → Nat} {code : Code α} {rule : Rule α}

theorem weaken {least' : α → Nat} (h : Simulates bound least code rule)
    (less : ∀ value, least' value ≤ least value) : Simulates bound least' code rule :=
  fun _ _ range fits enough => (h range fits enough).weaken less

theorem mono (h : Simulates bound least code rule) (le : bound' ≤ bound) :
    Simulates bound' least code rule :=
  fun _ _ range fits enough => h range (Nat.le_trans fits le) enough

theorem loosen (read : Nat) (h : Simulates bound least code rule) :
    Simulates (bound - read) (fun _ => 0) code rule :=
  (h.mono (Nat.sub_le _ _)).weaken fun _ => Nat.zero_le _

theorem within (h : Simulates bound least code rule) :
    Simulates bound least (code.within bound) rule :=
  fun _ _ range fits _ => h range fits fits

theorem pure (value : α) (none : least value = 0) :
    Simulates bound least (Pure.pure value) (Pure.pure value) := by
  intro depth parser range _ _
  exact .ok_here range none

theorem bind {least' : β → Nat} {next : α → Code β} {next' : α → Rule β}
    (h : Simulates bound least code rule)
    (hnext : ∀ value, Simulates (bound - least value) (fun read => least' read - least value)
      (next value) (next' value)) :
    Simulates bound least' (code >>= next) (rule >>= next') := by
  intro depth parser range fits enough
  have first := h range fits enough
  generalize hrun : code depth parser = run at first
  rcases hrule : rule parser.cursor with ⟨trail, failure | ⟨value, after⟩⟩
  all_goals
    rw [hrule] at first
    cases first
  case error pos ahead inside =>
    rw [bind_of_error hrule, Code.run_bind_error hrun]
    exact .error ahead inside
  case ok pos inside ahead =>
    rw [bind_of_ok hrule, Code.run_bind_ok hrun]
    -- what has been read is no longer left, and the second step owes that much less
    have shorter : (parser.moved pos trail).left + least value ≤ parser.left := by
      simp only [left, moved_tokens, moved_pos]
      omega
    refine (hnext value (range.moved inside trail) ?_ ?_).behind ?_ ?_
    · exact Nat.le_sub_of_add_le (Nat.le_trans shorter fits)
    · exact Nat.le_trans (Nat.le_of_add_right_le shorter) enough
    · exact Nat.le_of_add_right_le ahead
    · intro read
      omega

theorem followedBy {next : α → Code β} {next' : α → Rule β}
    (h : Simulates bound (fun _ => 1) code rule)
    (hnext : ∀ value, Simulates (bound - 1) (fun _ => 0) (next value) (next' value)) :
    Simulates bound (fun _ => 1) (code >>= next) (rule >>= next') :=
  h.bind hnext

theorem andThen {next : α → Code β} {next' : α → Rule β} (h : Simulates bound least code rule)
    (hnext : ∀ value, Simulates bound (fun _ => 0) (next value) (next' value)) :
    Simulates bound (fun _ => 0) (code >>= next) (rule >>= next') :=
  h.bind fun value => ((hnext value).loosen (least value)).weaken fun _ =>
    Nat.le_of_eq (Nat.zero_sub _)

theorem map (f : α → β) {n : Nat} (h : Simulates bound (fun _ => n) code rule) :
    Simulates bound (fun _ => n) (f <$> code) (f <$> rule) :=
  h.bind fun value => .pure (f value) (Nat.sub_self n)

theorem unexpected (expected : Expectation) :
    Simulates bound least (Code.unexpected expected) (Rule.unexpected expected) := by
  intro depth parser range _ _
  rw [Code.run_unexpected range]
  exact .error_here range _

theorem here {least' : β → Nat} {next : Token → Code β} {next' : Span → Rule β}
    (h : ∀ token : Token, Simulates bound least' (next token) (next' token.span)) :
    Simulates bound least' (Code.current >>= next) (Rule.here >>= next') := by
  intro depth parser range fits enough
  rw [Code.run_bind_ok (Code.run_current range), Grammar.Rule.here_bind]
  exact h _ range fits enough

variable {accept : Token.Kind → Option α}

theorem expect (expected : Expectation) (noEnd : accept .eof = none) :
    Simulates bound (fun _ => 1) (Code.expect expected accept) (Rule.read expected accept) := by
  intro depth parser range _ _
  rw [Rule.read]
  cases accepted : accept parser.cursor.current.kind with
  | none =>
      rw [Code.run_expect_none range expected accepted]
      exact .error_here range _
  | some value =>
      have inner := Rule.inner_of_accepted noEnd accepted
      rw [Code.run_expect_some range expected inner accepted, range.cursor_advance inner]
      exact .ok (Nat.le_refl _) (range.next_inside inner)

theorem keyword (word : Keyword) :
    Simulates bound (fun _ => 1) (Code.keyword word) (Rule.keyword word) := expect _ rfl

theorem symbol {kind : Token.Kind} (inner : kind ≠ .eof) :
    Simulates bound (fun _ => 1) (Code.symbol kind) (Rule.symbol kind) :=
  expect _ (Grammar.Rule.ofKind_eq_none.mpr (Ne.symm inner))

def taken : Option α → Nat
  | none => 0
  | some _ => 1

theorem eat (noEnd : accept .eof = none) :
    Simulates bound taken (Code.eat accept) (Rule.readIf accept) := by
  intro depth parser range _ _
  rw [Rule.readIf]
  cases accepted : accept parser.cursor.current.kind with
  | none =>
      rw [Code.run_eat_none range accepted]
      exact .ok_here range rfl
  | some value =>
      have inner := Rule.inner_of_accepted noEnd accepted
      rw [Code.run_eat_some range inner accepted, range.cursor_advance inner]
      exact .ok (Nat.le_refl _) (range.next_inside inner)

theorem checked {least' : β → Nat} {next : Bool → Code β} {next' : Option α → Rule β}
    (expected : Expectation)
    (present : Simulates bound least' (next true)
      (Rule.read expected accept >>= fun value => next' (some value)))
    (absent : Simulates bound least' (next false) (next' none)) :
    Simulates bound least' (Code.check accept >>= next) (Rule.readIf accept >>= next') := by
  intro depth parser range fits enough
  rw [Code.run_bind_ok (Code.run_check range accept)]
  cases accepted : accept parser.cursor.current.kind with
  | none =>
      have refused : (Rule.readIf accept >>= next') parser.cursor = next' none parser.cursor :=
        Grammar.Rule.readIf_bind_none parser.pos accepted
      rw [refused]
      exact absent range fits enough
  | some value =>
      rw [Grammar.Rule.readIf_bind_of_some expected accepted]
      exact present range fits enough

theorem optional (expected : Expectation) (noEnd : accept .eof = none) :
    Simulates bound taken (Code.optional (Code.expect expected accept)) (Rule.readIf accept) := by
  intro depth parser range fits enough
  have same : Code.optional (Code.expect expected accept) depth parser =
      Code.eat accept depth parser := by
    cases accepted : accept parser.cursor.current.kind with
    | none =>
        rw [Code.run_eat_none range accepted, Code.optional,
          Code.run_bind_ok (Code.run_caught (Code.run_expect_none range expected accepted))]
        rfl
    | some value =>
        have inner := Rule.inner_of_accepted noEnd accepted
        rw [Code.run_eat_some range inner accepted, Code.optional,
          Code.run_bind_ok (Code.run_caught (Code.run_expect_some range expected inner accepted))]
        rfl
  rw [same]
  exact eat noEnd range fits enough

theorem ledBy (word : Keyword) (h : Simulates (bound - 1) (fun _ => 0) code rule) :
    Simulates bound (fun _ => 0) (Code.ledBy word code) (Rule.ledBy word rule) := by
  refine (eat rfl).bind fun found => ?_
  cases found with
  | none => exact .pure _ rfl
  | some _ => exact h.map some

/-! ## Ordered choice -/

theorem firstOfFrom {n depth : Nat} {expected : Expectation} {best : Option Failure}
    {codes : List (Code α)} {alternatives : List (String × Rule α)} {parser : Parser}
    (each : List.Forall₂ (fun code alternative => Simulates bound (fun _ => n) code
      (Prod.snd alternative)) codes alternatives)
    (range : parser.InRange) (fits : parser.left ≤ bound) (enough : parser.left ≤ depth) :
    Mirrors (fun _ => n) parser (Rule.firstOfFrom expected parser.cursor best alternatives)
      (Code.firstOfFrom expected parser.cursor.current.span.start best codes depth parser) := by
  -- on the alternatives; code and rule keep the same failure for the best so far
  induction each generalizing best parser with
  | nil =>
      cases best with
      | none => exact unexpected expected range fits enough
      | some failure =>
          change Mirrors _ parser
            (if parser.cursor.current.span.start < failure.span.start then ⟨[], .error failure⟩
              else Rule.unexpected expected parser.cursor)
            ((if parser.cursor.current.span.start < failure.span.start then Code.fail failure
              else Code.unexpected expected) depth parser)
          by_cases further : parser.cursor.current.span.start < failure.span.start
          · rw [if_pos further, if_pos further]
            exact .error_here range _
          · rw [if_neg further, if_neg further]
            exact unexpected expected range fits enough
  | @cons code alternative codes alternatives h _ ih =>
      obtain ⟨name, rule⟩ := alternative
      have first : Mirrors _ parser (rule parser.cursor) _ := h range fits enough
      generalize hrun : code depth parser = run at first
      rcases hrule : rule parser.cursor with ⟨trail, failure | ⟨value, after⟩⟩
      all_goals
        rw [hrule] at first
        cases first
      case ok pos ahead inside =>
        rw [Grammar.Rule.firstOfFrom_cons_ok hrule, Code.firstOfFrom_cons_ok hrun]
        exact .ok ahead inside
      case error pos ahead inside =>
        rw [Grammar.Rule.firstOfFrom_cons_error hrule,
          Code.firstOfFrom_cons_error (Code.run_attempt_error name hrun)]
        exact (ih (range.moved range.inside _) fits enough).behind (Nat.le_refl _)
          fun _ => Nat.le_refl _

theorem firstOf {n : Nat} {expected : Expectation} {codes : List (Code α)}
    {alternatives : List (String × Rule α)}
    (each : List.Forall₂ (fun code alternative => Simulates bound (fun _ => n) code
      (Prod.snd alternative)) codes alternatives) :
    Simulates bound (fun _ => n) (Code.firstOf expected codes)
      (Rule.firstOf expected alternatives) := by
  intro depth parser range fits enough
  rw [Code.firstOf, Code.run_bind_ok (Code.run_current range)]
  exact firstOfFrom each range fits enough

theorem complete {n : Nat} (h : Simulates bound (fun _ => n) code rule) :
    Simulates bound (fun _ => n) (Code.complete code) (Rule.complete rule) := by
  refine h.bind fun value => ?_
  intro depth parser range fits enough
  rw [Code.run_bind_ok (Code.run_current range), Rule.ended]
  by_cases final : parser.cursor.current.isEof
  · rw [if_pos final, if_pos final]
    exact pure value (Nat.sub_self n) range fits enough
  · rw [if_neg final, if_neg final]
    exact .error_here range _

theorem read {n depth : Nat} {parser : Parser} (h : Simulates depth (fun _ => n) code rule)
    (ended : Terminated parser.tokens) (enough : parser.tokens.length ≤ depth) :
    ∃ after, Code.read code depth parser = .done (rule.run parser.tokens).result after ∧
      after.tokens = parser.tokens ∧ after.InRange ∧
      ∀ value, (rule.run parser.tokens).result = .ok value → n ≤ after.pos := by
  have range : InRange ⟨parser.tokens, 0, none⟩ := .start ended
  have first : Mirrors _ _ (rule (.ofTokens parser.tokens)) _ := h range enough enough
  generalize hrun : code depth ⟨parser.tokens, 0, none⟩ = run at first
  rcases hrule : rule (.ofTokens parser.tokens) with ⟨trail, failure | ⟨value, after⟩⟩
  all_goals
    rw [hrule] at first
    cases first
  case ok pos ahead inside =>
    refine ⟨(Parser.mk parser.tokens 0 none).moved pos trail, ?_, rfl,
      range.moved inside trail, fun _ _ => Nat.le_of_add_left_le ahead⟩
    simp only [Code.read, hrun, Rule.run, hrule]
  case error pos ahead inside =>
    have result : (rule.run parser.tokens).result =
        .error (Code.reported (Grammar.furthest trail) failure) := by
      simp only [Rule.run, hrule]
      cases Grammar.furthest trail with
      | none => rfl
      | some best =>
          simp only [Code.reported, apply_ite Grammar.Reading.result, apply_ite Except.error]
    refine ⟨⟨parser.tokens, pos, none⟩, ?_, rfl, ⟨ended, inside⟩, fun _ ok => ?_⟩
    · simp only [Code.read, hrun, result]
      rfl
    · rw [result] at ok
      cases ok

end Simulates

end CompactSql.Parser
