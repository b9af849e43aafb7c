import CompactSql.Proofs.Grammar.Embedding
import CompactSql.Proofs.Layout
import CompactSql.Proofs.Printing.Legible
import CompactSql.Proofs.Token.Following

/-!
# Parts of statements

A condition that ends a statement is read as it is read alone, and if it is rejected, it is
rejected for the same reason: the failure is only as many bytes further on as the statement
has before the condition.  An arithmetic expression is accepted alone exactly where it is
accepted as the value of the only field that is set.
-/

namespace CompactSql

open Grammar Grammar.Derivation
open Grammar.Rule (complete)
open Token (Kind)

section Later

variable {tokens : List Token} {count : Nat}

private theorem Covers.later {first last : Nat} {span span' : Span}
    (h : Covers tokens first last span)
    (h' : Covers (tokens.map (Token.later count)) first last span') :
    span' = span.later count := by
  obtain ⟨token, found, start⟩ := h.start
  obtain ⟨other, found', stop⟩ := h.stop
  obtain ⟨token', moved, start'⟩ := h'.start
  obtain ⟨other', moved', stop'⟩ := h'.stop
  rw [List.getElem?_map, found] at moved
  rw [List.getElem?_map, found'] at moved'
  obtain rfl := Option.some.inj moved
  obtain rfl := Option.some.inj moved'
  cases span'
  simp only at start' stop'
  rw [start', stop', Span.later, start, stop]
  rfl

def Twins.later {text : String} (cut : tokenize text = .ok tokens) (count : Nat) :
    Twins .identity where
  tokens := tokens
  tokens' := tokens.map (Token.later count)
  placed := tokenize_placed cut
  placed' := (tokenize_placed cut).later (Nat.zero_le _)
  kinds_eq := by
    rw [kinds_later, List.map_congr_left (Relabeling.identity_kinds cut), List.map_id']

private theorem Twins.Counterpart.eq_later {text : String} (cut : tokenize text = .ok tokens)
    {failure failure' : Failure} (h : (Twins.later cut count).Counterpart failure failure') :
    failure' = failure.later count := by
  obtain ⟨first, last, covers, covers', -⟩ := h.aligned
  have unmoved := Relabeling.identity_kinds cut
  have same : failure'.complaint = failure.complaint := by
    rw [h.complaint]
    exact Relabeling.identity_complaint fun kind found => unmoved kind (h.found kind found)
  have span : failure'.span = failure.span.later count := covers.later covers'
  cases failure'
  simp only at same span
  rw [same, span]
  rfl

theorem parseCondition_later {text : String} (cut : tokenize text = .ok tokens)
    (count index : Nat) :
    (∃ tree trail after, parseCondition text = .ok tree ∧
      complete condition ⟨index, tokens.map (Token.later count)⟩ =
        ⟨trail, .ok (tree, after)⟩) ∨
    ∃ failure trail final, parseCondition text = .error failure ∧
      complete condition ⟨index, tokens.map (Token.later count)⟩ = ⟨trail, .error final⟩ ∧
      reported trail final = failure.later count ∧ count ≤ final.span.start := by
  let twins := Twins.later cut count
  have alone : parseCondition text = ((complete condition).run tokens).result :=
    readText_of_tokenize cut
  have beside : twins.Beside (.ofTokens twins.tokens) ⟨index, twins.tokens'⟩ := .start index
  have paired := Twins.condition_parallel.complete beside
  generalize run : complete condition (.ofTokens twins.tokens) = outcome at paired
  generalize run' : complete condition ⟨index, twins.tokens'⟩ = outcome' at paired
  cases paired with
  | ok _ becomes _ =>
      obtain rfl := becomes
      rw [Relabeling.identity_expr, id] at run'
      exact .inl ⟨_, _, _, alone.trans (run_of_ok run), run'⟩
  | error events counterpart =>
      have same := (Twins.reported_paired events counterpart).eq_later cut
      have moved := counterpart.eq_later cut
      refine .inr ⟨_, _, _, alone.trans (run_eq_reported run), run', same, ?_⟩
      rw [moved]
      exact Nat.le_add_left count _

end Later

section Deletion

variable {text table : String}

def deletionWords (table : String) : List Kind :=
  [.keyword .DELETE, .keyword .FROM, .identifier table, .keyword .WHERE]

private theorem spaced_deletion (table : String) :
    spaced (deletionWords table) = ("DELETE FROM " ++ table ++ " WHERE ").toList := by
  simp [spaced, deletionWords, Kind.spelling, Keyword.text]

private theorem leadsIn_spacedTokens (table : String) :
    ∃ delete source name filter,
      spacedTokens 0 (deletionWords table) = [delete, source, name, filter] ∧
        LeadsIn delete source name filter table ∧ delete.span.start = 0 :=
  ⟨_, _, _, _, rfl, ⟨rfl, rfl, rfl, rfl⟩, rfl⟩

theorem parse_deletion (named : isName table = true) (text : String) :
    parse ("DELETE FROM " ++ table ++ " WHERE " ++ text) =
      ((parseCondition text).map fun tree => Statement.delete ⟨table, some tree⟩).mapError
        (Failure.later (Text.byteLength ("DELETE FROM " ++ table ++ " WHERE ").toList)) := by
  have written : Writable (deletionWords table) := by
    simp [deletionWords, isName_iff.mp named]
  have split : ("DELETE FROM " ++ table ++ " WHERE " ++ text).toList =
      spaced (deletionWords table) ++ text.toList := by
    rw [spaced_deletion, ← String.toList_append]
  have whole := tokenize_behind written split
  rw [← spaced_deletion]
  let count := Text.byteLength (spaced (deletionWords table))
  have positive : 0 < count := byteLength_spaced_pos _ _
  cases cut : tokenize text with
  | error failure =>
      rw [cut] at whole
      have alone : parseCondition text = .error failure := by
        rw [parseCondition, cut]
        rfl
      rw [parse_of_fault whole, alone]
      rfl
  | ok tokens =>
      rw [cut] at whole
      obtain ⟨delete, source, name, filter, front, leads, start⟩ := leadsIn_spacedTokens table
      -- the condition is read at the fifth token, by a cursor that has never been elsewhere
      obtain ⟨accepts, rejects⟩ :=
        statement_run_deletion leads (tokens.map (Token.later count))
      rw [parse_of_tokenize whole, front]
      rcases parseCondition_later cut count 4 with
        ⟨tree, trail, after, alone, run⟩ | ⟨failure, trail, final, alone, run, same, behind⟩
      · rw [alone]
        exact accepts trail tree after run
      · have beyond : delete.span.start < final.span.start := by omega
        rw [alone]
        exact (rejects trail final run beyond).trans (congrArg Except.error same)

end Deletion

section Update

variable {table field : String}

def updateWords (table field : String) : List Kind :=
  [.keyword .UPDATE, .identifier table, .keyword .SET, .identifier field, .eq]

private theorem spaced_update (table field : String) :
    spaced (updateWords table field) =
      ("UPDATE " ++ table ++ " SET " ++ field ++ " = ").toList := by
  simp [spaced, updateWords, Kind.spelling, Keyword.text]

private theorem tokenKinds_behind {words row : List Kind} (written : Writable words)
    {text whole : String} (split : whole.toList = spaced words ++ text.toList) :
    tokenKinds whole = .ok (words ++ row) ↔ tokenKinds text = .ok row := by
  rw [tokenKinds, tokenKinds, tokenize_behind written split]
  cases tokenize text with
  | error failure => simp [Except.map, Except.mapError]
  | ok tokens =>
      simp [Except.map, Except.mapError, kinds_spacedTokens, kinds_later]

theorem update_single {row : List Kind} {tree : Expr} :
    Derivation.Statement Condition row (.update ⟨table, [⟨field, tree⟩], none⟩) ↔
      ∃ value, row = updateWords table field ++ value ∧ Arithmetic value tree := by
  constructor
  · intro derived
    cases derived with
    | update derived =>
        cases derived with
        | update _ listed filter =>
            cases filter with
            | absent =>
                cases listed with
                | one item =>
                    cases item with
                    | @set _ value _ derived => exact ⟨value, by simp [updateWords], derived⟩
                | more _ others => cases others
  · rintro ⟨value, rfl, derived⟩
    have set : Listed Derivation.Assignment (.identifier field :: .eq :: value) [⟨field, tree⟩] :=
      .one (.set field derived)
    simpa [updateWords] using Derivation.Statement.update (.update table set .absent)

theorem parse_update (named : isName table = true) (named' : isName field = true)
    (text : String) (tree : Expr) :
    parse ("UPDATE " ++ table ++ " SET " ++ field ++ " = " ++ text) =
        .ok (.update ⟨table, [⟨field, tree⟩], none⟩) ↔
      parseExpression text = .ok tree := by
  have written : Writable (updateWords table field) := by
    simp [updateWords, isName_iff.mp named, isName_iff.mp named']
  have split : ("UPDATE " ++ table ++ " SET " ++ field ++ " = " ++ text).toList =
      spaced (updateWords table field) ++ text.toList := by
    rw [spaced_update, ← String.toList_append]
  constructor
  · intro h
    obtain ⟨row, whole, all⟩ := tokenKinds_of_parse h
    obtain ⟨value, rfl, derived⟩ := update_single.mp all
    rw [List.append_assoc, tokenKinds_behind written split] at whole
    exact (readText_iff arithmetic_judges whole).mpr derived
  · intro h
    obtain ⟨value, alone, derived⟩ := tokenKinds_of_readText arithmetic_judges h
    have whole := (tokenKinds_behind written split).mpr alone
    rw [← List.append_assoc] at whole
    exact (parse_iff whole).mpr (update_single.mpr ⟨value, rfl, derived⟩)

end Update

/-- A condition alone and at the end of a deletion is read as the same tree, or it is
rejected with the same complaint, so many bytes further on; and an expression is read alone
as it is read at the end of an update that sets one field. -/
theorem embedded_alike (text table : String) (named : isName table = true) :
    let deletion := "DELETE FROM " ++ table ++ " WHERE "
    (∀ tree, parse (deletion ++ text) = .ok (.delete ⟨table, some tree⟩) ↔
      parseCondition text = .ok tree) ∧
    (∀ failure, parseCondition text = .error failure →
      parse (deletion ++ text) =
        .error (failure.later (Text.byteLength deletion.toList))) ∧
    ∀ field, isName field = true → ∀ tree,
      parseExpression text = .ok tree ↔
        parse ("UPDATE " ++ table ++ " SET " ++ field ++ " = " ++ text) =
          .ok (.update ⟨table, [⟨field, tree⟩], none⟩) := by
  intro deletion
  have whole := parse_deletion named text
  refine ⟨?_, ?_, fun field named' tree => (parse_update named named' text tree).symm⟩
  · intro tree
    rw [whole]
    cases parseCondition text with
    | error failure => simp [Except.map, Except.mapError]
    | ok found => simp [Except.map, Except.mapError]
  · intro failure rejected
    rw [whole, rejected]
    rfl

/-- The call that is given up got further than the condition, which fails behind its name;
it is reported in either place. -/
theorem embedded_alike_call :
    isName "t" = true ∧ isName "f" = true ∧
      parseCondition "f(1, = 2" = .error ⟨.unexpected .value .eq, ⟨5, 6⟩⟩ ∧
      parse ("DELETE FROM " ++ "t" ++ " WHERE " ++ "f(1, = 2") =
        .error ⟨.unexpected .value .eq, ⟨25, 26⟩⟩ ∧
      parse ("UPDATE " ++ "t" ++ " SET " ++ "f" ++ " = " ++ "f(1)") =
        .ok (.update ⟨"t", [⟨"f", .call "f" [.literal (.integer 1)]⟩], none⟩) := by
  have named : isName "t" = true := by decide +kernel
  have named' : isName "f" = true := by decide +kernel
  have rejected : parseCondition "f(1, = 2" = .error ⟨.unexpected .value .eq, ⟨5, 6⟩⟩ := by
    decide +kernel
  have accepted : parseExpression "f(1)" = .ok (.call "f" [.literal (.integer 1)]) := by
    decide +kernel
  refine ⟨named, named', rejected, ?_, ?_⟩
  · exact (embedded_alike "f(1, = 2" "t" named).2.1 _ rejected
  · exact ((embedded_alike "f(1)" "t" named).2.2 "f" named' _).mp accepted

end CompactSql
