import CompactSql.Grammar.Expression
import CompactSql.Proofs.Grammar.Run

/-!
# Languages with values

A language says which rows of token kinds stand for which values.  A row is
viable when some member of the language begins with it; an expectation is
honoured behind a row when each kind that it admits keeps the row viable.
-/

namespace CompactSql

/-- The kinds that the text of an expectation announces. -/
def Expectation.Admits : Expectation → Token.Kind → Prop
  | keyword word, kind => kind = .keyword word
  | symbol expected, kind => kind = expected
  | identifier, kind => ∃ name, kind = .identifier name
  | integer, kind => ∃ value, kind = .integer value
  | string, kind => ∃ raw, kind = .string raw
  | literal, kind => (∃ value, kind = .integer value) ∨ ∃ raw, kind = .string raw
  | value, kind =>
      (∃ name, kind = .identifier name) ∨ (∃ value, kind = .integer value) ∨
        ∃ raw, kind = .string raw
  | fieldName, kind => ∃ name, kind = .identifier name
  | comparison, kind =>
      (∃ op, Grammar.comparisonOp kind = some op) ∨ kind = .keyword .BETWEEN
  | statement, kind =>
      kind ∈ [Token.Kind.keyword .SELECT, .keyword .INSERT, .keyword .UPDATE,
        .keyword .DELETE, .keyword .CREATE]
  | endOfInput, kind => kind = .eof
  | other _, _ => False

namespace Grammar

/-- Which rows of kinds stand for which values. -/
abbrev Language (α : Type) : Type := List Token.Kind → α → Prop

namespace Language

variable {α β : Type}

/-- Some member of the language begins with the row. -/
def Viable (language : Language α) (front : List Token.Kind) : Prop :=
  ∃ back value, language (front ++ back) value

/-- Behind the row, every kind that the expectation admits is viable, and there
is one. -/
def Expects (language : Language α) (front : List Token.Kind)
    (expected : Expectation) : Prop :=
  (∃ kind, expected.Admits kind) ∧
    ∀ kind, expected.Admits kind → language.Viable (front ++ [kind])

def andThen (first : Language α) (second : α → Language β) : Language β :=
  fun row value => ∃ read front back,
    row = front ++ back ∧ first front read ∧ second read back value

def nothing (value : α) : Language α := fun row found => row = [] ∧ found = value

def single (accept : Token.Kind → Option α) : Language α :=
  fun row value => ∃ kind, row = [kind] ∧ accept kind = some value

def behind (kind : Token.Kind) (second : Language α) : Language α :=
  fun row value => ∃ back, row = kind :: back ∧ second back value

def named (second : String → Language α) : Language α :=
  fun row value => ∃ name back, row = .identifier name :: back ∧ second name back value

/-- A kind that `accept` takes decides what stands behind it; without one the
row is of the last language. -/
def ifNext (accept : Token.Kind → Option α) (found : α → Language β)
    (absent : Language β) : Language β := fun row value =>
  (∃ kind read back, row = kind :: back ∧ accept kind = some read ∧
      found read back value) ∨
    absent row value

inductive Repeated (lead : Token.Kind → Option β) (item : β → Language α) :
    Language (List α)
  | nil : Repeated lead item [] []
  | cons {kind : Token.Kind} {led : β} {row rows : List Token.Kind} {value : α}
      {values : List α} :
      lead kind = some led → item led row value → Repeated lead item rows values →
      Repeated lead item (kind :: (row ++ rows)) (value :: values)

theorem Viable.of_append {language : Language α} {front back : List Token.Kind}
    (h : language.Viable (front ++ back)) : language.Viable front := by
  obtain ⟨rest, value, member⟩ := h
  exact ⟨back ++ rest, value, by simpa using member⟩

theorem Viable.mono {language larger : Language α} {front : List Token.Kind}
    (sub : ∀ row value, language row value → larger row value)
    (h : language.Viable front) : larger.Viable front := by
  obtain ⟨back, value, member⟩ := h
  exact ⟨back, value, sub _ _ member⟩

theorem Expects.viable {language : Language α} {front : List Token.Kind}
    {expected : Expectation} (h : language.Expects front expected) :
    language.Viable front := by
  obtain ⟨⟨kind, admitted⟩, all⟩ := h
  exact (all kind admitted).of_append

theorem Expects.map {language : Language α} {larger : Language β}
    {front front' : List Token.Kind} {expected : Expectation}
    (h : language.Expects front expected)
    (step : ∀ row, language.Viable (front ++ row) → larger.Viable (front' ++ row)) :
    larger.Expects front' expected :=
  ⟨h.1, fun kind admitted => step _ (h.2 kind admitted)⟩

end Language

end Grammar

end CompactSql
