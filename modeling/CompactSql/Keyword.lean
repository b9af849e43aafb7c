/-!
# Keywords

The reserved words of the dialect.  A word is a keyword whatever the case of
its letters.
-/

namespace CompactSql

inductive Keyword where
  | BETWEEN | AND | OR | SELECT | FROM | LEFT | JOIN | ON | WHERE | ORDER | BY
  | ASC | DESC | GROUP | HAVING | INSERT | INTO | VALUES | UPDATE | SET
  | DELETE | CREATE | TABLE | INDEX | USING
  deriving DecidableEq, Repr

namespace Keyword

def all : List Keyword :=
  [BETWEEN, AND, OR, SELECT, FROM, LEFT, JOIN, ON, WHERE, ORDER, BY, ASC, DESC,
    GROUP, HAVING, INSERT, INTO, VALUES, UPDATE, SET, DELETE, CREATE, TABLE,
    INDEX, USING]

def text : Keyword → String
  | BETWEEN => "BETWEEN"
  | AND => "AND"
  | OR => "OR"
  | SELECT => "SELECT"
  | FROM => "FROM"
  | LEFT => "LEFT"
  | JOIN => "JOIN"
  | ON => "ON"
  | WHERE => "WHERE"
  | ORDER => "ORDER"
  | BY => "BY"
  | ASC => "ASC"
  | DESC => "DESC"
  | GROUP => "GROUP"
  | HAVING => "HAVING"
  | INSERT => "INSERT"
  | INTO => "INTO"
  | VALUES => "VALUES"
  | UPDATE => "UPDATE"
  | SET => "SET"
  | DELETE => "DELETE"
  | CREATE => "CREATE"
  | TABLE => "TABLE"
  | INDEX => "INDEX"
  | USING => "USING"

/-- The keyword that a word spells; only letters of ASCII have a case here. -/
def ofWord? (word : List Char) : Option Keyword :=
  all.find? fun keyword => keyword.text.toList == word.map Char.toUpper

theorem mem_all (keyword : Keyword) : keyword ∈ all := by
  cases keyword <;> decide

theorem ofWord?_text (keyword : Keyword) :
    ofWord? keyword.text.toList = some keyword := by
  cases keyword <;> rfl

end Keyword

end CompactSql
