import CompactSql.Failure

/-!
# Rules of a grammar

A rule reads a value at a place of a token list or fails.  Beside its result it
leaves a trail: the attempts that were given up, in order.  Ordered choice and
the choice of the failure to report are the subject of this module; the result
of a rule never depends on its trail.
-/

namespace CompactSql.Grammar

/-- A place in a token list: how many tokens lie before it, and the rest. -/
structure Cursor where
  index : Nat
  rest : List Token
  deriving DecidableEq, Repr

namespace Cursor

def ofTokens (tokens : List Token) : Cursor := ⟨0, tokens⟩

def current (cursor : Cursor) : Token :=
  cursor.rest.headD ⟨.eof, .point 0⟩

/-- Steps over one token, but never over an end token. -/
def advance (cursor : Cursor) : Cursor :=
  match cursor.rest with
  | [] => cursor
  | token :: rest => if token.isEof then cursor else ⟨cursor.index + 1, rest⟩

end Cursor

inductive Event where
  /-- An attempt failed and the cursor went back to where it had begun. -/
  | backtracked (restored : Nat) (failure : Failure)
  /-- An alternative of an ordered choice was given up. -/
  | rejected (alternative : String)
  deriving DecidableEq, Repr

structure Outcome (α : Type) where
  trail : List Event
  result : Except Failure (α × Cursor)

def Outcome.behind {α : Type} (trail : List Event) (outcome : Outcome α) :
    Outcome α :=
  ⟨trail ++ outcome.trail, outcome.result⟩

def Rule (α : Type) : Type := Cursor → Outcome α

variable {α β : Type}

namespace Rule

protected def pure (value : α) : Rule α := fun cursor => ⟨[], .ok (value, cursor)⟩

protected def bind (rule : Rule α) (next : α → Rule β) : Rule β := fun cursor =>
  match rule cursor with
  | ⟨trail, .error failure⟩ => ⟨trail, .error failure⟩
  | ⟨trail, .ok (value, after)⟩ => (next value after).behind trail

instance : Monad Rule where
  pure := Rule.pure
  bind := Rule.bind

def fail (failure : Failure) : Rule α := fun _ => ⟨[], .error failure⟩

def unexpected (expected : Expectation) : Rule α := fun cursor =>
  ⟨[], .error (.unexpected expected cursor.current)⟩

def read (expected : Expectation) (accept : Token.Kind → Option α) : Rule α :=
  fun cursor =>
    match accept cursor.current.kind with
    | some value => ⟨[], .ok (value, cursor.advance)⟩
    | none => unexpected expected cursor

def readIf (accept : Token.Kind → Option α) : Rule (Option α) := fun cursor =>
  match accept cursor.current.kind with
  | some value => ⟨[], .ok (some value, cursor.advance)⟩
  | none => ⟨[], .ok (none, cursor)⟩

def ofKind (kind found : Token.Kind) : Option Unit :=
  if found = kind then some () else none

def ofKeyword (word : Keyword) : Token.Kind → Option Unit :=
  ofKind (.keyword word)

def keyword (word : Keyword) : Rule Unit :=
  read (.keyword word) (ofKeyword word)

def symbol (kind : Token.Kind) : Rule Unit :=
  read (.symbol kind) (ofKind kind)

def here : Rule Span := fun cursor => ⟨[], .ok (cursor.current.span, cursor)⟩

/-- Reads items for as long as a kind that `lead` accepts is next; what it
gives is handed to the item.  An item that takes no token would be the last. -/
def repeatedAt (lead : Token.Kind → Option β) (item : β → Rule α) (cursor : Cursor) :
    Outcome (List α) :=
  match lead cursor.current.kind with
  | none => ⟨[], .ok ([], cursor)⟩
  | some led =>
      match item led cursor.advance with
      | ⟨trail, .error failure⟩ => ⟨trail, .error failure⟩
      | ⟨trail, .ok (value, after)⟩ =>
          if _ : after.rest.length < cursor.rest.length then
            match repeatedAt lead item after with
            | ⟨trail', .error failure⟩ => ⟨trail ++ trail', .error failure⟩
            | ⟨trail', .ok (values, last)⟩ =>
                ⟨trail ++ trail', .ok (value :: values, last)⟩
          else
            ⟨trail, .ok ([value], after)⟩
termination_by cursor.rest.length

def repeated (lead : Token.Kind → Option β) (item : β → Rule α) : Rule (List α) :=
  repeatedAt lead item

def commaList (item : Rule α) : Rule (List α) := do
  let first ← item
  let others ← repeated (ofKind .comma) fun _ => item
  return first :: others

def ledBy (word : Keyword) (item : Rule α) : Rule (Option α) := do
  match ← readIf (ofKeyword word) with
  | none => return none
  | some _ => return some (← item)

/-- Of two failures the one that got further, the first of equals. -/
def further (best : Option Failure) (failure : Failure) : Failure :=
  match best with
  | none => failure
  | some best =>
      if best.span.start < failure.span.start then failure else best

def firstOfFrom (expected : Expectation) (cursor : Cursor) :
    Option Failure → List (String × Rule α) → Outcome α
  | best, [] =>
      match best with
      | none => unexpected expected cursor
      | some failure =>
          if cursor.current.span.start < failure.span.start then
            ⟨[], .error failure⟩
          else
            unexpected expected cursor
  | best, (name, rule) :: others =>
      match rule cursor with
      | ⟨trail, .ok read⟩ => ⟨trail, .ok read⟩
      | ⟨trail, .error failure⟩ =>
          (firstOfFrom expected cursor (some (further best failure)) others).behind
            (trail ++ [.backtracked cursor.index failure, .rejected name])

/-- The first alternative that succeeds, each tried from the same place.  If
none does, the failure that got furthest, or else that none could begin. -/
def firstOf (expected : Expectation) (alternatives : List (String × Rule α)) :
    Rule α := fun cursor =>
  firstOfFrom expected cursor none alternatives

def ended (value : α) : Rule α := fun cursor =>
  if cursor.current.isEof then ⟨[], .ok (value, cursor)⟩
  else ⟨[], .error (.trailing cursor.current)⟩

def complete (rule : Rule α) : Rule α := do
  ended (← rule)

end Rule

/-- The further of a failure and what an event records, the last of equals: it
comes from the rule around the others. -/
def Event.keepFurthest (best : Option Failure) : Event → Option Failure
  | backtracked _ failure =>
      match best with
      | none => some failure
      | some best =>
          if best.span.start ≤ failure.span.start then some failure else some best
  | rejected _ => best

def furthest (trail : List Event) : Option Failure :=
  trail.foldl Event.keepFurthest none

structure Reading (α : Type) where
  trail : List Event
  result : Except Failure α

/-- Runs a rule from the start.  A failure gives way to one on the trail that
got further. -/
def Rule.run (rule : Rule α) (tokens : List Token) : Reading α :=
  match rule (.ofTokens tokens) with
  | ⟨trail, .ok (value, _)⟩ => ⟨trail, .ok value⟩
  | ⟨trail, .error failure⟩ =>
      match furthest trail with
      | none => ⟨trail, .error failure⟩
      | some candidate =>
          if failure.span.start < candidate.span.start then
            ⟨trail, .error candidate⟩
          else
            ⟨trail, .error failure⟩

end CompactSql.Grammar
