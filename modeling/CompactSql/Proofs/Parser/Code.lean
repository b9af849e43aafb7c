import CompactSql.Grammar.Rule

/-!
# Code that moves a cursor

A parser holds the tokens of a text, the index of the current one and the failure that got
furthest.  Its code looks tokens up by their index, moves the index on and, where an
alternative has failed, back.  Nothing in the code sees to it that an index is that of a
token, that a loop makes headway or that a rule that calls itself has read something.  So a
run may get to where no token is, and it is given a bound for how many turns a loop may take
and how deep calls may stand inside each other, which it may use up.
-/

namespace CompactSql

structure Parser where
  tokens : List Token
  pos : Nat
  furthest : Option Failure
  deriving DecidableEq, Repr

namespace Parser

/-- What a run comes to: the bound was used up, the cursor or a look was at a place without
a token, or the run is done and leaves the parser like this. -/
inductive Run (α : Type) where
  | unfinished
  | outside
  | done (result : Except Failure α) (after : Parser)

/-- Code runs within a bound on a parser. -/
def Code (α : Type) : Type := Nat → Parser → Run α

namespace Code

variable {α β γ : Type}

protected def pure (value : α) : Code α := fun _ parser => .done (.ok value) parser

protected def bind (code : Code α) (next : α → Code β) : Code β := fun bound parser =>
  match code bound parser with
  | .unfinished => .unfinished
  | .outside => .outside
  | .done (.error failure) after => .done (.error failure) after
  | .done (.ok value) after => next value bound after

instance : Monad Code where
  pure := Code.pure
  bind := Code.bind

def within (bound : Nat) (code : Code α) : Code α := fun _ => code bound

def fail (failure : Failure) : Code α := fun _ parser => .done (.error failure) parser

def lookUp (index : Nat) : Code Token := fun _ parser =>
  match parser.tokens[index]? with
  | none => .outside
  | some token => .done (.ok token) parser

def current : Code Token := fun bound parser => lookUp parser.pos bound parser

def previous : Code Token := fun bound parser => lookUp (parser.pos - 1) bound parser

def step : Code Unit := fun _ parser =>
  if parser.pos + 1 < parser.tokens.length then
    .done (.ok ()) { parser with pos := parser.pos + 1 }
  else .outside

/-- Goes on to the next token, but not from an end token. -/
def advance : Code Unit := do
  if (← current).isEof then return () else step

def unexpected (expected : Expectation) : Code α := do
  fail (.unexpected expected (← current))

def check (accept : Token.Kind → Option α) : Code Bool := do
  return (accept (← current).kind).isSome

def expect (expected : Expectation) (accept : Token.Kind → Option α) : Code α := do
  match accept (← current).kind with
  | none => unexpected expected
  | some value =>
      advance
      return value

def eat (accept : Token.Kind → Option α) : Code (Option α) := do
  match accept (← current).kind with
  | none => return none
  | some value =>
      advance
      return some value

def keyword (word : Keyword) : Code Unit :=
  expect (.keyword word) (Grammar.Rule.ofKeyword word)

def symbol (kind : Token.Kind) : Code Unit :=
  expect (.symbol kind) (Grammar.Rule.ofKind kind)

def ledBy (word : Keyword) (item : Code α) : Code (Option α) := do
  match ← eat (Grammar.Rule.ofKeyword word) with
  | none => return none
  | some _ => return some (← item)

inductive Turn (β γ : Type) where
  | again (state : β)
  | stop (value : γ)

def loop (turn : β → Code (Turn β γ)) : Nat → β → Parser → Run γ
  | 0, _, _ => .unfinished
  | bound + 1, state, parser =>
      match turn state (bound + 1) parser with
      | .unfinished => .unfinished
      | .outside => .outside
      | .done (.error failure) after => .done (.error failure) after
      | .done (.ok (.stop value)) after => .done (.ok value) after
      | .done (.ok (.again state)) after => loop turn bound state after

def looped (turn : β → Code (Turn β γ)) (state : β) : Code γ := fun bound =>
  loop turn bound state

def listTurn (item : Code α) (items : List α) : Code (Turn (List α) (List α)) := do
  let value ← item
  match ← eat (Grammar.Rule.ofKind .comma) with
  | none => return .stop (items ++ [value])
  | some _ => return .again (items ++ [value])

def commaList (item : Code α) : Code (List α) := looped (listTurn item) []

def leadTurn (lead : Token.Kind → Option γ) (item : γ → Code α) (join : γ → β → α → β)
    (state : β) : Code (Turn β β) := do
  match ← eat lead with
  | none => return .stop state
  | some led => return .again (join led state (← item led))

def repeated (lead : Token.Kind → Option γ) (item : γ → Code α) : Code (List α) :=
  looped (leadTurn lead item fun _ items value => items ++ [value]) []

def caught (code : Code α) : Code (Except Failure α) := fun bound parser =>
  match code bound parser with
  | .unfinished => .unfinished
  | .outside => .outside
  | .done result after => .done (.ok result) after

def optional (code : Code α) : Code (Option α) := do
  return (← caught code).toOption

def record (furthest : Option Failure) (failure : Failure) : Option Failure :=
  match furthest with
  | none => some failure
  | some best => if best.span.start ≤ failure.span.start then some failure else some best

/-- Runs the code; if it fails, the failure is recorded and the cursor goes back. -/
def attempt (code : Code α) : Code α := fun bound parser =>
  match code bound parser with
  | .done (.error failure) after =>
      .done (.error failure) ⟨after.tokens, parser.pos, record after.furthest failure⟩
  | run => run

def firstOfFrom (expected : Expectation) (start : Nat) :
    Option Failure → List (Code α) → Code α
  | best, [] =>
      match best with
      | none => unexpected expected
      | some failure =>
          if start < failure.span.start then fail failure else unexpected expected
  | best, code :: others => fun bound parser =>
      match attempt code bound parser with
      | .done (.error failure) after =>
          firstOfFrom expected start (some (Grammar.Rule.further best failure)) others bound after
      | run => run

def firstOf (expected : Expectation) (alternatives : List (Code α)) : Code α := do
  let token ← current
  firstOfFrom expected token.span.start none alternatives

def complete (code : Code α) : Code α := do
  let value ← code
  let token ← current
  if token.isEof then return value else fail (.trailing token)

/-- The failure, or the recorded one if that got further. -/
def reported (furthest : Option Failure) (failure : Failure) : Failure :=
  match furthest with
  | none => failure
  | some best => if failure.span.start < best.span.start then best else failure

def read (code : Code α) : Code α := fun bound parser =>
  match code bound ⟨parser.tokens, 0, none⟩ with
  | .done (.error failure) after =>
      .done (.error (reported after.furthest failure)) ⟨after.tokens, after.pos, none⟩
  | run => run

end Code

end Parser

end CompactSql
