import CompactSql.Proofs.Printing.LegibleStatement
import CompactSql.Proofs.RoundTrip

/-!
# Trees that are read back

The text of a tree is written whatever the tree is, without parentheses.  It is read
back as the tree exactly if the tree is well formed: what is read always is, and a
well-formed tree is derived from the kinds that its text is cut into.
-/

namespace CompactSql

open Grammar Grammar.Derivation
open Token (Kind)

section Reading

variable {α : Type} {rule : Grammar.Rule α} {language : Grammar.Language α} {tree : α}
  {text : String} {kinds : List Kind}

theorem readText_of_legible (judges : Judges rule language)
    (spells : Writable kinds → Spells text kinds) (legible : Legible language kinds tree) :
    readText rule text = .ok tree := by
  obtain ⟨written, derived⟩ := legible
  have whole := tokenKinds_eq_ok.mpr (tokenize_of_cut (spells written).cut)
  exact (readText_iff judges whole).mpr derived

/-- A reader gives back the trees of its language that pass a check, if the check is
what makes the kinds of a tree legible. -/
theorem readText_toSql_iff (judges : Judges rule language) {check : Bool}
    (spells : Writable kinds → Spells text kinds)
    (legible : check = true → Legible language kinds tree)
    (checked : ∀ row, language row tree → Writable row → check = true) :
    readText rule text = .ok tree ↔ check = true := by
  constructor
  · intro h
    obtain ⟨row, whole, derived⟩ := tokenKinds_of_readText judges h
    exact checked row derived (writable_of_tokenKinds whole)
  · exact fun h => readText_of_legible judges spells (legible h)

end Reading

/-- A statement is read back from its text exactly if it is well formed. -/
theorem parse_toSql_iff (tree : CompactSql.Statement) :
    parse tree.toSql = .ok tree ↔ tree.isWellFormed = true :=
  readText_toSql_iff statement_judges tree.spells legible_statement
    fun _ => statement_of_derived

example : (Statement.delete ⟨"t (a)", none⟩).isWellFormed = false := by decide

/-- An expression is read back from its text exactly if it is arithmetic, and as a
condition exactly if it is one. -/
theorem parseExpr_toSql_iff (expr : Expr) :
    (parseExpression expr.toSql = .ok expr ↔ expr.isArithmetic = true) ∧
      (parseCondition expr.toSql = .ok expr ↔ expr.isCondition = true) :=
  ⟨readText_toSql_iff arithmetic_judges expr.spells expr.legible_arithmetic
      fun row => expr.isArithmetic_of_derived row,
    readText_toSql_iff condition_judges expr.spells expr.legible_condition
      fun row => expr.isCondition_of_derived row⟩

end CompactSql
