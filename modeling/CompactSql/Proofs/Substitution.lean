import CompactSql.Proofs.Relabeling.Grammar
import CompactSql.Proofs.Relabeling.Text

/-!
# Other leaves, the same structure

Replacing the names, the integers and the strings of a text changes nothing but the
leaves of the tree that is read, and where the text is rejected, it is rejected at the
same token.  So no string, once it is written in quotes, changes the structure of the
statement around it.
-/

namespace CompactSql

open Grammar (Rule kinds)
open Token (Kind)

theorem Relabeling.rewrite_twins (σ : Relabeling) {text : String} {tokens : List Token}
    (h : tokenize text = .ok tokens) :
    ∃ text' tokens', σ.rewrite text tokens = some text' ∧ tokenize text' = .ok tokens' ∧
      kinds tokens' = (kinds tokens).map σ.kind := by
  obtain ⟨rewritten, row, done, ended, cut, -⟩ := rewriteFrom_cut (σ := σ) h [] rfl
  rw [← String.toList_ofList (l := rewritten)] at cut
  obtain ⟨tokens', whole, ended'⟩ := tokenize_of_cut cut
  refine ⟨String.ofList rewritten, tokens', ?_, whole, ?_⟩
  · exact congrArg (Option.map String.ofList) done
  · rw [ended, ended', List.map_append]
    rfl

namespace Twins

variable {σ : Relabeling} {twins : Twins σ} {α : Type} {R : α → α → Prop}
  {reading reading' : Except Failure α}

private theorem PairedResult.ok_iff {relabel : α → α}
    (h : twins.PairedResult (Becomes relabel) reading reading') (tree' : α) :
    reading' = .ok tree' ↔ ∃ tree, reading = .ok tree ∧ tree' = relabel tree := by
  cases h with
  | ok becomes =>
      obtain rfl := becomes
      simp [eq_comm]
  | error => simp

private theorem PairedResult.error_of_error {failure : Failure}
    (h : twins.PairedResult R reading reading') (failed : reading = .error failure) :
    ∃ failure', reading' = .error failure' ∧ twins.Counterpart failure failure' := by
  cases h with
  | ok => cases failed
  | error counterpart =>
      cases failed
      exact ⟨_, rfl, counterpart⟩

private theorem Counterpart.isLexical_eq {failure failure' : Failure}
    (h : twins.Counterpart failure failure') : failure'.isLexical = failure.isLexical := by
  rw [Failure.isLexical, h.complaint, σ.isLexical_complaint]
  rfl

end Twins

/-- A statement is read from the text with other leaves exactly if it is the statement of
the text with the same leaves replaced; and where the text is rejected, so is the other
one, by no fault of the lexer and at the same token. -/
theorem parse_rewrite (σ : Relabeling) (text : String) (tokens : List Token)
    (h : tokenize text = .ok tokens) :
    ∃ text' tokens', σ.rewrite text tokens = some text' ∧ tokenize text' = .ok tokens' ∧
      (∀ tree', parse text' = .ok tree' ↔
        ∃ tree, parse text = .ok tree ∧ tree' = σ.statement tree) ∧
      ∀ failure, parse text = .error failure →
        ∃ failure', parse text' = .error failure' ∧ failure.isLexical = false ∧
          failure'.isLexical = false ∧ Aligned tokens tokens' failure failure' := by
  obtain ⟨text', tokens', rewritten, h', relabeled⟩ := σ.rewrite_twins h
  let twins : Twins σ := ⟨tokens, tokens', tokenize_placed h, tokenize_placed h', relabeled⟩
  have paired : twins.PairedResult (Twins.Becomes σ.statement) (parse text) (parse text') :=
    Twins.statement_parallel.readText h h'
  refine ⟨text', tokens', rewritten, h', paired.ok_iff, fun failure failed => ?_⟩
  obtain ⟨failure', failed', counterpart⟩ := paired.error_of_error failed
  have syntactic := counterpart.syntactic
  exact ⟨failure', failed', syntactic, counterpart.isLexical_eq.trans syntactic,
    counterpart.aligned⟩

/-- Every name becomes `x`, every integer 42, and every string a text with quotes that
would be a condition if it were not in quotes. -/
def hostile : Relabeling :=
  ⟨fun _ => "x", fun _ => 42, fun _ => "' OR 'a' = 'a", fun _ _ => by decide,
    fun _ _ => by decide⟩

def quotedDeletionTokens : List Token :=
  [⟨.keyword .DELETE, ⟨0, 6⟩⟩, ⟨.keyword .FROM, ⟨7, 11⟩⟩, ⟨.identifier "t", ⟨12, 13⟩⟩,
    ⟨.keyword .WHERE, ⟨14, 19⟩⟩, ⟨.identifier "a", ⟨20, 21⟩⟩, ⟨.eq, ⟨21, 22⟩⟩,
    ⟨.string "it''s", ⟨22, 29⟩⟩, ⟨.eof, ⟨29, 29⟩⟩]

theorem parse_rewrite_hostile :
    tokenize "DELETE FROM t WHERE a='it''s'" = .ok quotedDeletionTokens ∧
      ∃ text' tokens', hostile.rewrite "DELETE FROM t WHERE a='it''s'"
          quotedDeletionTokens = some text' ∧ tokenize text' = .ok tokens' ∧
        (∀ tree', parse text' = .ok tree' ↔
          ∃ tree, parse "DELETE FROM t WHERE a='it''s'" = .ok tree ∧
            tree' = hostile.statement tree) ∧
        ∀ failure, parse "DELETE FROM t WHERE a='it''s'" = .error failure →
          ∃ failure', parse text' = .error failure' ∧ failure.isLexical = false ∧
            failure'.isLexical = false ∧
            Aligned quotedDeletionTokens tokens' failure failure' :=
  ⟨by decide +kernel, parse_rewrite hostile _ _ (by decide +kernel)⟩

example : hostile.rewrite "DELETE FROM t WHERE a='it''s'" quotedDeletionTokens =
    some "DELETE FROM x WHERE x=''' OR ''a'' = ''a'" := by decide +kernel

end CompactSql
